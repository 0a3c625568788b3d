import Mathlib.Data.List.Forall2
import SysY.Build.ProgressView
import SysY.Build.Request
import SysY.Manifest

/-! # Progress to the end

The events of a build reach the progress view in some order in which the files take turns. A line
of the view shows the latest event under its path, and the last event of a file under any path says
that the file has ended. But a file that is compiled reports under its clean path, and among lines
with one path only the last is told, so that just the lines of files that were reported under their
own path, and are not listed again, come to an end. -/

namespace SysY.Build

/-! ## Turns -/

/-- The lists take turns in any order. -/
inductive Interleaves {α : Type} : List (List α) → List α → Prop
  | done {ls} : (∀ l ∈ ls, l = []) → Interleaves ls []
  | next {before after l x xs} : Interleaves (before ++ l :: after) xs →
      Interleaves (before ++ (x :: l) :: after) (x :: xs)

namespace Interleaves

variable {α : Type} {ls : List (List α)} {xs : List α}

/-- What an interleaving has comes from one of the lists, and nothing is lost. -/
theorem mem_iff (h : Interleaves ls xs) {x : α} : x ∈ xs ↔ ∃ l ∈ ls, x ∈ l := by
  induction h with
  | done empty =>
    refine ⟨fun mem => (nomatch mem), fun ⟨l, mem, here⟩ => ?_⟩
    rw [empty l mem] at here
    exact here
  | next _ ih =>
    rw [List.mem_cons, ih]
    simp only [List.mem_append, List.mem_cons]
    constructor
    · rintro (rfl | ⟨l, before | rfl | after, here⟩)
      · exact ⟨_, .inr (.inl rfl), List.mem_cons_self⟩
      · exact ⟨l, .inl before, here⟩
      · exact ⟨_, .inr (.inl rfl), List.mem_cons_of_mem _ here⟩
      · exact ⟨l, .inr (.inr after), here⟩
    · rintro ⟨l, before | rfl | after, here⟩
      · exact .inr ⟨l, .inl before, here⟩
      · rcases List.mem_cons.mp here with rfl | here
        · exact .inl rfl
        · exact .inr ⟨_, .inr (.inl rfl), here⟩
      · exact .inr ⟨l, .inr (.inr after), here⟩

/-- The last of the chosen elements is the last one in its list. -/
theorem getLast?_filter (h : Interleaves ls xs) (chosen : α → Bool) {x : α}
    (last : (xs.filter chosen).getLast? = some x) :
    ∃ l ∈ ls, (l.filter chosen).getLast? = some x := by
  induction h generalizing x with
  | done => cases last
  | @next before after l y ys order ih =>
    cases later : (ys.filter chosen).getLast? with
    | some z =>
      obtain ⟨l', mem, ends⟩ := ih later
      have same : z = x := by
        rw [List.filter_cons] at last
        split at last
        · rw [List.getLast?_cons, later] at last
          exact Option.some.inj last
        · exact Option.some.inj (later.symm.trans last)
      subst same
      rcases List.mem_append.mp mem with mem | mem
      · exact ⟨l', List.mem_append_left _ mem, ends⟩
      · rcases List.mem_cons.mp mem with rfl | mem
        · refine ⟨_, List.mem_append_right _ List.mem_cons_self, ?_⟩
          rw [List.filter_cons]
          split
          · rw [List.getLast?_cons, ends]
            rfl
          · exact ends
        · exact ⟨l', List.mem_append_right _ (List.mem_cons_of_mem _ mem), ends⟩
    | none =>
      -- nothing is chosen later, in this list neither
      have none : ys.filter chosen = [] := List.getLast?_eq_none_iff.mp later
      have rest : l.filter chosen = [] := by
        rw [List.filter_eq_nil_iff] at none ⊢
        exact fun z mem => none z (order.mem_iff.mpr
          ⟨l, List.mem_append_right _ List.mem_cons_self, mem⟩)
      refine ⟨_, List.mem_append_right _ List.mem_cons_self, ?_⟩
      rw [List.filter_cons, none] at last
      rw [List.filter_cons, rest]
      exact last

theorem nil_cons (h : Interleaves ls xs) : Interleaves ([] :: ls) xs := by
  induction h with
  | done empty => exact .done (List.forall_mem_cons.mpr ⟨rfl, empty⟩)
  | next _ ih =>
    rw [← List.cons_append]
    exact .next ih

/-- One list after the other. -/
theorem flatten (ls : List (List α)) : Interleaves ls ls.flatten := by
  induction ls with
  | nil => exact .done (by simp)
  | cons l ls ih =>
    rw [List.flatten_cons]
    induction l with
    | nil => exact ih.nil_cons
    | cons x l order =>
      have turn : Interleaves ([] ++ (x :: l) :: ls) (x :: (l ++ ls.flatten)) := .next order
      exact turn

end Interleaves

/-! ## Reports of a file -/

/-- Whether a file with this status has ended. -/
def Status.ended : Status → Bool
  | .done | .cached | .error => true
  | .queued | .working => false

/-- The events that say that files are queued. -/
def queued (files : List String) : List Event :=
  files.map fun f => { file := f, stage := none, status := .queued }

/-- What is reported of one file while it is built, also if the work is called off. -/
inductive Reports (path : String) : List Event → Prop
  /-- It cannot be read, or its result is in the cache. -/
  | direct {e} : e.file = path → e.status.ended = true → Reports path [e]
  /-- It is compiled. -/
  | compiled {before last} : (∀ e ∈ before, e.file = Path.clean path) →
      last.file = Path.clean path → last.status.ended = true → Reports path (before ++ [last])
  /-- Its result cannot be written. -/
  | unwritten {events e} : Reports path events → e.file = path → e.status.ended = true →
      Reports path (events ++ [e])

namespace Reports

variable {path : String} {events : List Event}

theorem file (h : Reports path events) :
    ∀ e ∈ events, e.file = path ∨ e.file = Path.clean path := by
  induction h with
  | direct own => exact fun e mem => .inl (List.mem_singleton.mp mem ▸ own)
  | compiled before last =>
    intro e mem
    rcases List.mem_append.mp mem with mem | mem
    · exact .inr (before e mem)
    · exact .inr (List.mem_singleton.mp mem ▸ last)
  | unwritten _ own _ ih =>
    intro e mem
    rcases List.mem_append.mp mem with mem | mem
    · exact ih e mem
    · exact .inl (List.mem_singleton.mp mem ▸ own)

/-- Something is reported of every file. -/
theorem nonempty (h : Reports path events) : events ≠ [] := by
  cases h <;> simp

/-- The last event under a path is the one that is reported last, or else an earlier one. -/
theorem last_concat {q : String} {e e' : Event}
    (last : ((events ++ [e']).filter (·.file == q)).getLast? = some e) :
    e = e' ∨ e'.file ≠ q ∧ (events.filter (·.file == q)).getLast? = some e := by
  rw [List.filter_append] at last
  by_cases here : e'.file = q
  · rw [List.filter_cons_of_pos (by rw [here]; exact beq_self_eq_true q), List.filter_nil,
      List.getLast?_concat] at last
    exact .inl (Option.some.inj last).symm
  · rw [List.filter_cons_of_neg (by rw [beq_iff_eq]; exact here), List.filter_nil,
      List.append_nil] at last
    exact .inr ⟨here, last⟩

/-- The last event under any path is an end. -/
theorem ends (h : Reports path events) {q : String} {e : Event}
    (last : (events.filter (·.file == q)).getLast? = some e) : e.status.ended = true := by
  induction h with
  | @direct e' _ ended =>
    have mem := List.mem_of_getLast? last
    rw [List.mem_singleton.mp (List.mem_filter.mp mem).1]
    exact ended
  | @compiled before e' clean own ended =>
    rcases last_concat last with rfl | ⟨other, last⟩
    · exact ended
    · -- all events have the same path
      obtain ⟨mem, here⟩ := List.mem_filter.mp (List.mem_of_getLast? last)
      rw [clean e mem, ← own, beq_iff_eq] at here
      exact absurd here other
  | unwritten _ _ ended ih =>
    rcases last_concat last with rfl | ⟨-, last⟩
    · exact ended
    · exact ih last

end Reports

/-! ## What a build reports -/

/-- Stages that end with a failure, when the work fails. -/
def FailsLast {α : Type} (stages : List StageRun × Outcome α) : Prop :=
  ∀ ⦃f⦄, stages.2 = .error f → ∃ runs r, stages.1 = runs ++ [r] ∧ r.failure.isSome = true

theorem finishProgram_failsLast (id : Nat) (p : Koopa.Program) :
    FailsLast (finishProgram id p) := by
  intro f failed
  unfold finishProgram at failed ⊢
  split at failed
  · exact ⟨[], _, rfl, rfl⟩
  · exact ⟨[], _, rfl, rfl⟩
  · split at failed
    · exact ⟨[_], _, rfl, rfl⟩
    · cases failed

theorem runStages_failsLast (file : Source.File) (withLibrary : Bool) :
    FailsLast (runStages file withLibrary) := by
  intro f failed
  unfold runStages at failed ⊢
  dsimp only at failed ⊢
  split at failed
  · exact ⟨[], _, rfl, rfl⟩
  · split at failed
    · exact ⟨[], _, rfl, rfl⟩
    · split at failed
      · exact ⟨[_], _, rfl, rfl⟩
      · split at failed
        · exact ⟨_, _, rfl, rfl⟩
        · rename_i p lowered
          obtain ⟨runs, r, eq, failing⟩ := finishProgram_failsLast file.id p failed
          rw [eq, ← List.cons_append, ← List.append_assoc]
          exact ⟨_, r, rfl, failing⟩

theorem StageRun.events_file (path : String) (r : StageRun) :
    ∀ e ∈ r.events path, e.file = path := by
  unfold StageRun.events
  cases r.failure <;> simp

/-- Compiling is reported under the path that the file has among the files. -/
theorem compile_reports {files : Source.Files} {file : Source.File} {path : String}
    (clean : file.path = Path.clean path) (withLibrary canceled : Bool) :
    Reports path (compile files file withLibrary canceled).events := by
  cases canceled with
  | true =>
    change Reports path ([] ++ [_])
    exact .compiled (by simp) clean rfl
  | false =>
    have stages : ∀ runs : List StageRun, ∀ e ∈ runs.flatMap (·.events file.path),
        e.file = Path.clean path := by
      intro runs e mem
      obtain ⟨r, -, here⟩ := List.mem_flatMap.mp mem
      exact (r.events_file file.path e here).trans clean
    have failsLast := runStages_failsLast file withLibrary
    unfold compile
    generalize runStages file withLibrary = ran at failsLast
    obtain ⟨runs, r⟩ := ran
    cases r with
    | ok done => exact .compiled (stages runs) clean rfl
    | error f =>
      obtain ⟨others, last, rfl, failing⟩ := failsLast rfl
      obtain ⟨g, failure⟩ := Option.isSome_iff_exists.mp failing
      have events : last.events file.path =
          [⟨file.path, some last.stage, .working, none⟩,
            ⟨file.path, some last.stage, .error, some g⟩] := by
        unfold StageRun.events
        rw [failure]
      have split : (others ++ [last]).flatMap (·.events file.path) ++ [] =
          (others.flatMap (·.events file.path) ++ [⟨file.path, some last.stage, .working, none⟩]) ++
            [⟨file.path, some last.stage, .error, some g⟩] := by
        simp [events]
      change Reports path ((others ++ [last]).flatMap (·.events file.path) ++ [])
      rw [split]
      refine .compiled (fun e mem => ?_) clean rfl
      rcases List.mem_append.mp mem with mem | mem
      · exact stages others e mem
      · exact (List.mem_singleton.mp mem) ▸ clean

theorem compilePath_reports (d : Disk) (path : String) (withLibrary canceled : Bool) :
    Reports path (compilePath d path withLibrary canceled).events := by
  unfold compilePath
  split
  · exact .direct rfl rfl
  · exact compile_reports rfl withLibrary canceled

/-- What is reported of one file, whatever is on the disk and in the cache. -/
theorem compileCached_reports (d : Disk) (path : String) (req : Request) (canceled : Bool) :
    Reports path (compileCached d path req canceled).1.events := by
  have compiled : ∀ content, Reports path (compile (({} : Source.Files).addLoaded path content)
      (((({} : Source.Files).addLoaded path content).get? 0).getD default) req.withLibrary
      canceled).events :=
    fun content => compile_reports rfl req.withLibrary canceled
  unfold compileCached
  split
  · dsimp only
    split
    · exact .direct rfl rfl
    · split
      · exact compiled _
      · split
        · exact compiled _
        · exact compiled _
  · exact compilePath_reports d path req.withLibrary canceled

/-- One step of a build adds the reports of one file. -/
theorem step_reports (req : Request) (canceled : Bool) (p : Progress) (path : String) :
    ∃ report, Reports path report ∧ (p.step req canceled path).events = p.events ++ report := by
  have compiled := compileCached_reports p.disk path req (canceled || p.stopped.isSome)
  unfold Progress.step
  dsimp only
  generalize compileCached p.disk path req (canceled || p.stopped.isSome) = outcome at compiled
  obtain ⟨c, d⟩ := outcome
  dsimp only
  split
  · exact ⟨_, compiled, rfl⟩
  · split
    · exact ⟨_, compiled, rfl⟩
    · split
      · exact ⟨_, compiled, rfl⟩
      · exact ⟨_, compiled.unwritten rfl rfl, List.append_assoc ..⟩

theorem foldl_step_reports (req : Request) (canceled : Bool) (files : List String) (p : Progress) :
    ∃ reports, List.Forall₂ Reports files reports ∧
      (files.foldl (Progress.step req canceled) p).events = p.events ++ reports.flatten := by
  induction files generalizing p with
  | nil => exact ⟨[], .nil, (List.append_nil _).symm⟩
  | cons path files ih =>
    obtain ⟨report, first, added⟩ := step_reports req canceled p path
    obtain ⟨reports, rest, all⟩ := ih (p.step req canceled path)
    refine ⟨report :: reports, .cons first rest, ?_⟩
    rw [List.foldl_cons, all, added, List.flatten_cons, List.append_assoc]

/-- A build without parallel work reports on one file after the other. -/
theorem run_reports (d : Disk) (req : Request) (canceled : Bool) :
    ∃ reports, List.Forall₂ Reports req.files reports ∧ Interleaves reports reports.flatten ∧
      (run d req canceled).1.events = queued req.files ++ reports.flatten := by
  obtain ⟨reports, each, all⟩ := foldl_step_reports req canceled req.files { disk := d }
  refine ⟨reports, each, .flatten reports, ?_⟩
  change queued req.files ++ _ = _
  rw [all, List.nil_append]

/-! ## Lines of the view -/

/-- Whether the view shows that a file has ended. -/
def FileLine.ended (l : FileLine) : Bool := ["done", "cached", "error"].contains l.status

theorem Status.ended_name (s : Status) : ["done", "cached", "error"].contains s.name = s.ended := by
  cases s <;> decide

/-- A file is listed at a position and not again later. -/
def ListedLast (files : List String) (i : Nat) (path : String) : Prop :=
  files[i]? = some path ∧ path ∉ files.drop (i + 1)

theorem ListedLast.unique {files : List String} {i j : Nat} {path : String}
    (h : ListedLast files i path) (h' : ListedLast files j path) : i = j := by
  have notBefore : ∀ {i j : Nat}, ListedLast files i path → files[j]? = some path → ¬ i < j := by
    intro i j last here lt
    refine last.2 (List.mem_iff_getElem?.mpr ⟨j - (i + 1), ?_⟩)
    rw [List.getElem?_drop, Nat.add_sub_cancel' lt]
    exact here
  exact Nat.le_antisymm (Nat.not_lt.mp (notBefore h' h.1)) (Nat.not_lt.mp (notBefore h h'.1))

namespace ProgressView

variable {v : ProgressView} {i : Nat} {l : FileLine}

/-- The paths of the lines. -/
def paths (v : ProgressView) : List String := v.lines.map (·.path)

/-- The search from the end finds where a path is listed last. -/
theorem listedLast_of_findIdx? {file : String} {k : Nat}
    (found : v.lines.reverse.findIdx? (·.path == file) = some k) :
    ListedLast v.paths (v.lines.length - 1 - k) file := by
  obtain ⟨small, here, before⟩ := List.findIdx?_eq_some_iff_getElem.mp found
  rw [List.length_reverse] at small
  rw [List.getElem_reverse, beq_iff_eq] at here
  refine ⟨?_, fun mem => ?_⟩
  · rw [paths, List.getElem?_map, List.getElem?_eq_getElem (by omega), Option.map_some, here]
  · obtain ⟨j, later⟩ := List.mem_iff_getElem?.mp mem
    rw [paths, List.getElem?_drop, List.getElem?_map] at later
    obtain ⟨l, listed, path⟩ := Option.map_eq_some_iff.mp later
    obtain ⟨inside, rfl⟩ := List.getElem?_eq_some_iff.mp listed
    have lower : v.lines.length - 1 - (v.lines.length - 1 - k + 1 + j) < k := by omega
    refine before _ lower ?_
    rw [List.getElem_reverse, beq_iff_eq, ← path]
    congr
    omega

/-- A path that the search does not find is not listed. -/
theorem not_listed_of_findIdx? {file : String}
    (missed : v.lines.reverse.findIdx? (·.path == file) = none) : file ∉ v.paths := by
  intro mem
  obtain ⟨l, listed, path⟩ := List.mem_map.mp mem
  have := List.findIdx?_eq_none_iff.mp missed l (List.mem_reverse.mpr listed)
  rw [path, beq_self_eq_true] at this
  cases this

/-- A notice goes to the line where its path is listed last, and to no other. -/
theorem lines_apply (here : v.lines[i]? = some l) (n : Notice) : ∃ l',
    (v.apply n).lines[i]? = some l' ∧ (ListedLast v.paths i n.file → l' = l.apply n) ∧
      (¬ ListedLast v.paths i n.file → l' = l) := by
  unfold apply
  split
  · rename_i missed
    refine ⟨l, here, fun last => ?_, fun _ => rfl⟩
    exact absurd (List.mem_of_getElem? last.1) (not_listed_of_findIdx? missed)
  · rename_i k found
    have last := listedLast_of_findIdx? found
    by_cases same : v.lines.length - 1 - k = i
    · rw [same] at last
      refine ⟨l.apply n, ?_, fun _ => rfl, fun other => absurd last other⟩
      simp only
      rw [same, List.getElem?_modify_eq, here]
      rfl
    · refine ⟨l, ?_, fun last' => absurd (last.unique last') same, fun _ => rfl⟩
      simp only
      rw [List.getElem?_modify_ne _ _ same, here]

theorem paths_apply (v : ProgressView) (n : Notice) : (v.apply n).paths = v.paths := by
  unfold apply
  split
  · rfl
  · refine List.ext_getElem? fun j => ?_
    simp only [paths, List.getElem?_map, List.getElem?_modify]
    cases v.lines[j]? with
    | none => rfl
    | some l => split <;> rfl

theorem paths_foldl (v : ProgressView) (ns : List Notice) : (ns.foldl apply v).paths = v.paths := by
  induction ns generalizing v with
  | nil => rfl
  | cons n ns ih => rw [List.foldl_cons, ih, paths_apply]

/-- After some notices the line where a path is listed last shows the latest one about the path, and
any other line is as before. -/
theorem lines_foldl (ns : List Notice) (here : v.lines[i]? = some l) : ∃ l',
    (ns.foldl apply v).lines[i]? = some l' ∧ l'.path = l.path ∧
      (ListedLast v.paths i l.path → l'.status =
        ((ns.filter (·.file == l.path)).getLast?.map (·.status)).getD l.status) ∧
      (¬ ListedLast v.paths i l.path → l'.status = l.status) := by
  induction ns generalizing v l with
  | nil => exact ⟨l, here, rfl, fun _ => rfl, fun _ => rfl⟩
  | cons n ns ih =>
    have listed : v.paths[i]? = some l.path := by rw [paths, List.getElem?_map, here]; rfl
    obtain ⟨l₁, next, taken, left⟩ := lines_apply here n
    have path : l₁.path = l.path := by
      by_cases last : ListedLast v.paths i n.file
      · rw [taken last]
        rfl
      · rw [left last]
    obtain ⟨l', after, path', latest, same⟩ := ih next
    rw [paths_apply, path] at latest same
    refine ⟨l', after, path'.trans path, fun last => ?_, fun other => ?_⟩
    · by_cases about : n.file = l.path
      · have status : l₁.status = n.status := by rw [taken (about ▸ last)]; rfl
        rw [List.filter_cons_of_pos (by rw [about]; exact beq_self_eq_true _), List.getLast?_cons,
          latest last, status]
        cases (ns.filter (·.file == l.path)).getLast? <;> rfl
      · have status : l₁.status = l.status := by
          rw [left fun last' => about (Option.some.inj (last'.1.symm.trans listed))]
        rw [List.filter_cons_of_neg (by rw [beq_iff_eq]; exact about), latest last, status]
    · rw [same other]
      by_cases last : ListedLast v.paths i n.file
      · exact absurd (Option.some.inj (last.1.symm.trans listed) ▸ last) other
      · rw [left last]

end ProgressView

theorem listedLast_of_nodup {files : List String} (nodup : files.Nodup) {i : Nat} {path : String}
    (listed : files[i]? = some path) : ListedLast files i path := by
  refine ⟨listed, fun mem => ?_⟩
  obtain ⟨j, again⟩ := List.mem_iff_getElem?.mp mem
  rw [List.getElem?_drop] at again
  have inside := (List.getElem?_eq_some_iff.mp listed).1
  have := (List.getElem?_inj inside nodup).mp (listed.trans again.symm)
  omega

/-- The view of a build that has seen some events. -/
def seen (title base : String) (files : List String) (events : List Event) : ProgressView :=
  (events.map Event.notice).foldl ProgressView.apply (.start title base files)

theorem Reports.exists_file {path : String} {report : List Event} (h : Reports path report)
    (clean : Path.clean path = path) : ∃ e ∈ report, e.file = path := by
  obtain ⟨e, mem⟩ := List.exists_mem_of_ne_nil _ h.nonempty
  refine ⟨e, mem, ?_⟩
  rcases h.file e mem with own | own
  · exact own
  · exact own.trans clean

/-- The last notice about a path, when all files have been queued first. -/
theorem getLast?_notices {files : List String} {path : String} (mem : path ∈ files)
    (events : List Event) :
    (((queued files ++ events).map Event.notice).filter (·.file == path)).getLast?.map (·.status) =
      some (((events.filter (·.file == path)).getLast?.map (·.status.name)).getD "queued") := by
  have chosen : ∀ es : List Event, (es.map Event.notice).filter (·.file == path) =
      (es.filter (·.file == path)).map Event.notice := fun es => List.filter_map ..
  rw [chosen, List.filter_append, List.map_append, List.getLast?_append, List.getLast?_map,
    List.getLast?_map]
  cases (events.filter (·.file == path)).getLast? with
  | some e => rfl
  | none =>
    cases first : ((queued files).filter (·.file == path)).getLast? with
    | none =>
      have none := List.getLast?_eq_none_iff.mp first
      rw [List.filter_eq_nil_iff] at none
      refine absurd (beq_self_eq_true path) (none ⟨path, Option.none, .queued, Option.none⟩ ?_)
      exact List.mem_map.mpr ⟨path, mem, rfl⟩
    | some e =>
      obtain ⟨f, -, rfl⟩ := List.mem_map.mp (List.mem_filter.mp (List.mem_of_getLast? first)).1
      rfl

theorem paths_start (title base : String) (files : List String) :
    (ProgressView.start title base files).paths = files := by
  rw [ProgressView.paths, ProgressView.start, List.map_map]
  exact List.map_id _

theorem paths_seen (title base : String) (files : List String) (events : List Event) :
    (seen title base files events).paths = files :=
  (ProgressView.paths_foldl ..).trans (paths_start title base files)

section Seen

variable {title base : String} {files : List String} {events : List Event}
  {reports : List (List Event)} {i : Nat} {l : FileLine}

/-- The line where a path is listed last shows the last event under the path, and the others stay
queued. -/
theorem seen_status
    (here : (seen title base files (queued files ++ events)).lines[i]? = some l) :
    files[i]? = some l.path ∧
    (ListedLast files i l.path → l.status =
      ((events.filter (·.file == l.path)).getLast?.map (·.status.name)).getD "queued") ∧
    (¬ ListedLast files i l.path → l.status = "queued") := by
  have listed : files[i]? = some l.path := by
    rw [← paths_seen title base files (queued files ++ events), ProgressView.paths,
      List.getElem?_map, here]
    rfl
  have first : (ProgressView.start title base files).lines[i]? = some { path := l.path } := by
    rw [ProgressView.start, List.getElem?_map, listed]
    rfl
  obtain ⟨l', after, -, latest, same⟩ := ProgressView.lines_foldl
    ((queued files ++ events).map Event.notice) first
  obtain rfl := Option.some.inj (here.symm.trans after)
  rw [paths_start] at latest same
  refine ⟨listed, fun last => ?_, same⟩
  rw [latest last, getLast?_notices (List.mem_of_getElem? listed)]
  rfl

/-- A line shows an end when its path is not listed again, and something is reported under it. -/
theorem ended_iff (each : List.Forall₂ Reports files reports) (order : Interleaves reports events)
    (here : (seen title base files (queued files ++ events)).lines[i]? = some l) :
    l.ended = true ↔ ListedLast files i l.path ∧ ∃ e ∈ events, e.file = l.path := by
  obtain ⟨-, latest, same⟩ := seen_status here
  by_cases last : ListedLast files i l.path
  · rw [and_iff_right last, FileLine.ended, latest last]
    cases ends : (events.filter (·.file == l.path)).getLast? with
    | none =>
      refine ⟨fun h => absurd h (by decide), fun ⟨e, mem, own⟩ => ?_⟩
      have none := List.getLast?_eq_none_iff.mp ends
      rw [List.filter_eq_nil_iff] at none
      exact absurd (beq_iff_eq.mpr own) (none e mem)
    | some e =>
      obtain ⟨mem, own⟩ := List.mem_filter.mp (List.mem_of_getLast? ends)
      refine ⟨fun _ => ⟨e, mem, beq_iff_eq.mp own⟩, fun _ => ?_⟩
      -- the last event under the path is also the last one of some file
      obtain ⟨report, some, ends⟩ := order.getLast?_filter _ ends
      obtain ⟨k, small, rfl⟩ := List.mem_iff_getElem.mp some
      have reported := each.get (by rw [each.length_eq]; exact small) small
      exact (Status.ended_name e.status).trans (reported.ends ends)
  · rw [FileLine.ended, same last]
    exact ⟨fun h => absurd h (by decide), fun h => absurd h.1 last⟩

/-- Every file that has a clean path is reported under it. -/
theorem exists_reported (each : List.Forall₂ Reports files reports)
    (order : Interleaves reports events) {path : String} (listed : files[i]? = some path)
    (clean : Path.clean path = path) : ∃ e ∈ events, e.file = path := by
  obtain ⟨inside, rfl⟩ := List.getElem?_eq_some_iff.mp listed
  have small : i < reports.length := by rw [← each.length_eq]; exact inside
  obtain ⟨e, mem, own⟩ := (each.get inside small).exists_file clean
  exact ⟨e, order.mem_iff.mpr ⟨_, List.getElem_mem small, mem⟩, own⟩

end Seen

/-- Files are built in any order, and each has ended in the view when it is reported under the path
of its line and is not listed again. What is reported carries the path of the request or its clean
form, so that all lines come to an end when the paths are clean and pairwise different. -/
theorem progress_ends (req : Request) (title base : String) :
    (∀ d path canceled, Reports path (compileCached d path req canceled).1.events) ∧
    (∀ d canceled, ∃ reports, List.Forall₂ Reports req.files reports ∧
      Interleaves reports reports.flatten ∧
        (run d req canceled).1.events = queued req.files ++ reports.flatten) ∧
    (∀ {path report}, Reports path report →
      ∀ e ∈ report, e.file = path ∨ e.file = Path.clean path) ∧
    ∀ {reports events}, List.Forall₂ Reports req.files reports → Interleaves reports events →
      let view := seen title base req.files (queued req.files ++ events)
      view.paths = req.files ∧
      (∀ {i l}, view.lines[i]? = some l →
        (l.ended = true ↔ ListedLast req.files i l.path ∧ ∃ e ∈ events, e.file = l.path)) ∧
      (req.files.Nodup → (∀ path ∈ req.files, Path.clean path = path) →
        ∀ l ∈ view.lines, l.ended = true) := by
  refine ⟨fun d path canceled => compileCached_reports d path req canceled,
    fun d canceled => run_reports d req canceled, fun report => report.file, ?_⟩
  intro reports events each order
  refine ⟨paths_seen .., ended_iff each order, fun nodup clean l mem => ?_⟩
  obtain ⟨i, here⟩ := List.mem_iff_getElem?.mp mem
  have listed := (seen_status here).1
  exact (ended_iff each order here).mpr ⟨listedLast_of_nodup nodup listed,
    exists_reported each order listed (clean _ (List.mem_of_getElem? listed))⟩

/-- A directory with one source file. -/
def someMissing : Disk :=
  { nodes := [(["a.c"], .file (Bytes.ofString "int main() { return 1; }"))] }

theorem someMissing_ends : ∀ l ∈ (seen "" "" ["a.c", "b.c"]
    (run someMissing { files := ["a.c", "b.c"] } false).1.events).lines, l.ended = true := by
  obtain ⟨-, runs, -, views⟩ := progress_ends { files := ["a.c", "b.c"] } "" ""
  obtain ⟨reports, each, order, events⟩ := runs someMissing false
  rw [events]
  exact (views each order).2.2 (by decide) (by decide +kernel)

/-- A file that is given by a path which is not clean compiles, and its line stays queued, because
what is reported of it does not carry the path of the line. So does the first line of a file that is
given twice. -/
theorem otherPaths_stay_queued :
    (Manifest.collect someMissing "./a.c").toOption = some ["./a.c"] ∧
    (run someMissing { files := ["./a.c"] } false).1.failure = none ∧
    (run someMissing { files := ["./a.c"] } false).1.events.map (fun e => (e.file, e.status)) =
      [("./a.c", .queued), ("a.c", .working), ("a.c", .working), ("a.c", .working),
        ("a.c", .working), ("a.c", .working), ("a.c", .done)] ∧
    (seen "" "" ["./a.c"] (run someMissing { files := ["./a.c"] } false).1.events).lines.map
      (·.status) = ["queued"] ∧
    (run someMissing { files := ["a.c", "a.c"] } false).1.failure = none ∧
    (seen "" "" ["a.c", "a.c"]
      (run someMissing { files := ["a.c", "a.c"] } false).1.events).lines.map (·.status) =
        ["queued", "done"] := by
  decide +kernel

end SysY.Build
