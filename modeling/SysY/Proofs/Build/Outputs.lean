import Mathlib.Data.List.TakeWhile
import SysY.Build.Request
import SysY.Proofs.Build.Storage

/-! # Where results are written

The result of an input below the base directory has the same place below the output directory, and
the result of any other input lies in the output directory itself; either way the ending of the name
is replaced. So two inputs share a result exactly when these places agree up to the endings. -/

namespace SysY

namespace Path

/-! ## The names of a path -/

section Names

variable {p : String} {ns ms : List String}

theorem slashless_of_mem_splitOn {cs l : List Char} (mem : l ∈ cs.splitOn '/') : '/' ∉ l := by
  induction cs generalizing l with
  | nil =>
    rw [List.splitOn_nil, List.mem_singleton] at mem
    simp [mem]
  | cons c cs ih =>
    rw [List.splitOn_cons_eq_if_modifyHead] at mem
    split at mem
    · rcases List.mem_cons.mp mem with rfl | mem
      · simp
      · exact ih mem
    · rename_i other
      cases rest : cs.splitOn '/' with
      | nil => exact absurd rest (List.splitOn_ne_nil '/' cs)
      | cons first more =>
        rw [rest, List.modifyHead_cons] at mem
        rw [rest] at ih
        rcases List.mem_cons.mp mem with rfl | mem
        · have later : '/' ∉ first := ih (by simp)
          simp only [beq_iff_eq] at other
          simp [later, Ne.symm other]
        · exact ih (by simp [mem])

theorem slashless_of_mem_parts {n : String} (mem : n ∈ parts p) : '/' ∉ n.toList := by
  obtain ⟨cs, here, rfl⟩ := List.mem_map.mp mem
  rw [String.toList_ofList]
  exact slashless_of_mem_splitOn here

/-- The names of a clean path: any number of `..`, which a rooted path does not have, and names that
say where to go from there. -/
def Clean (rooted : Bool) (ns : List String) : Prop :=
  ∃ k ms, ns = List.replicate k ".." ++ ms ∧ (∀ m ∈ ms, IsName m) ∧ (rooted = true → k = 0)

theorem Clean.stepped {rooted : Bool} {stack : List String} (clean : Clean rooted stack.reverse)
    {n : String} (slashless : '/' ∉ n.toList) : Clean rooted (step rooted stack n).reverse := by
  obtain ⟨k, ms, eq, all, root⟩ := clean
  obtain ⟨ns, names, rfl⟩ : ∃ ns, (∀ m ∈ ns, IsName m) ∧ stack = ns ++ List.replicate k ".." := by
    refine ⟨ms.reverse, by simpa using all, ?_⟩
    rw [← List.reverse_reverse stack, eq, List.reverse_append, List.reverse_replicate]
  have kept : Clean rooted (ns ++ List.replicate k "..").reverse :=
    ⟨k, ns.reverse, by simp, by simpa using names, root⟩
  unfold Path.step
  split
  · exact kept
  · rename_i here
    rw [not_or] at here
    split
    · cases ns with
      | nil =>
        cases k with
        | zero =>
          cases rooted with
          | true => exact ⟨0, [], rfl, by simp, fun _ => rfl⟩
          | false => exact ⟨1, [], rfl, by simp, by simp⟩
        | succ k =>
          have deeper : Clean rooted (".." :: ".." :: List.replicate k "..").reverse := by
            refine ⟨k + 2, [], ?_, by simp, fun h => absurd (root h) (Nat.succ_ne_zero k)⟩
            rw [← List.replicate_succ, ← List.replicate_succ, List.reverse_replicate, List.append_nil]
          exact deeper
      | cons top ns =>
        have top : IsName top := names top (by simp)
        simp only [List.cons_append, top.notDotDot, if_false]
        exact ⟨k, ns.reverse, by simp, fun m mem => names m (by simp_all), root⟩
    · rename_i notUp
      refine ⟨k, ns.reverse ++ [n], by simp, fun m mem => ?_, root⟩
      rcases List.mem_append.mp mem with mem | mem
      · exact names m (List.mem_reverse.mp mem)
      · obtain rfl := List.mem_singleton.mp mem
        exact ⟨here.1, slashless, here.2, notUp⟩

theorem names_clean (p : String) : Clean (isAbs p) (names p) := by
  have all : ∀ (ns : List String) {stack}, Clean (isAbs p) stack.reverse →
      (∀ n ∈ ns, '/' ∉ n.toList) → Clean (isAbs p) (ns.foldl (step (isAbs p)) stack).reverse := by
    intro ns
    induction ns with
    | nil => exact fun clean _ => clean
    | cons n ns ih =>
      intro _ clean slashless
      exact ih (clean.stepped (slashless n (by simp))) fun m mem => slashless m (by simp [mem])
  exact all (parts p) ⟨0, [], rfl, by simp, fun _ => rfl⟩ fun n mem => slashless_of_mem_parts mem

theorem Clean.slashless {rooted : Bool} (clean : Clean rooted ns) {n : String} (mem : n ∈ ns) :
    '/' ∉ n.toList := by
  obtain ⟨k, ms, rfl, all, -⟩ := clean
  rcases List.mem_append.mp mem with up | here
  · rw [List.eq_of_mem_replicate up]
    decide
  · exact (all n here).slashless

theorem Clean.nonempty {rooted : Bool} (clean : Clean rooted ns) {n : String} (mem : n ∈ ns) :
    n ≠ "" := by
  obtain ⟨k, ms, rfl, all, -⟩ := clean
  rcases List.mem_append.mp mem with up | here
  · rw [List.eq_of_mem_replicate up]
    decide
  · exact (all n here).nonempty

theorem Clean.ne_dot {rooted : Bool} (clean : Clean rooted ns) {n : String} (mem : n ∈ ns) :
    n ≠ "." := by
  obtain ⟨k, ms, rfl, all, -⟩ := clean
  rcases List.mem_append.mp mem with up | here
  · rw [List.eq_of_mem_replicate up]
    decide
  · exact (all n here).notDot

/-! ## Joining names -/

theorem parts_intercalate_eq (slashless : ∀ n ∈ ns, '/' ∉ n.toList) (proper : ns ≠ []) :
    parts (String.intercalate "/" ns) = ns := by
  have split : List.splitOn '/' (['/'].intercalate (ns.map String.toList)) = ns.map String.toList :=
    List.splitOn_intercalate '/' (by simpa using slashless) (by simpa using proper)
  rw [parts, String.toList_intercalate]
  change (List.splitOn '/' (['/'].intercalate (ns.map String.toList))).map String.ofList = ns
  rw [split, List.map_map]
  exact List.map_id'' (fun n => String.ofList_toList) ns

theorem intercalate_inj (slashless : ∀ n ∈ ns, '/' ∉ n.toList) (slashless' : ∀ m ∈ ms, '/' ∉ m.toList)
    (proper : ns ≠ []) (proper' : ms ≠ []) :
    String.intercalate "/" ns = String.intercalate "/" ms ↔ ns = ms := by
  refine ⟨fun same => ?_, fun same => same ▸ rfl⟩
  rw [← parts_intercalate_eq slashless proper, same, parts_intercalate_eq slashless' proper']

theorem ofNames_inj {rooted : Bool} (slashless : ∀ n ∈ ns, '/' ∉ n.toList)
    (slashless' : ∀ m ∈ ms, '/' ∉ m.toList) (proper : ns ≠ []) (proper' : ms ≠ []) :
    ofNames rooted ns = ofNames rooted ms ↔ ns = ms := by
  rw [← intercalate_inj slashless slashless' proper proper']
  cases rooted with
  | true => simp [ofNames]
  | false => simp [ofNames, proper, proper']

/-- What stands in front of the last of some names. -/
def lead (ns : List String) : String := if ns = [] then "" else String.intercalate "/" ns ++ "/"

theorem intercalate_snoc (ns : List String) (n : String) :
    String.intercalate "/" (ns ++ [n]) = lead ns ++ n := by
  by_cases none : ns = []
  · simp [none, lead]
  · rw [String.intercalate_append_of_ne_nil none (by simp), lead, if_neg none]
    simp

/-- What stands in front of the last name of a path. -/
def ofLead (rooted : Bool) (ns : List String) : String := (if rooted then "/" else "") ++ lead ns

theorem ofNames_snoc (rooted : Bool) (ns : List String) (n : String) :
    ofNames rooted (ns ++ [n]) = ofLead rooted ns ++ n := by
  cases rooted with
  | true => simp [ofNames, ofLead, intercalate_snoc, String.append_assoc]
  | false => simp [ofNames, ofLead, intercalate_snoc]

theorem ofLead_ends (rooted : Bool) (ns : List String) :
    ∀ c ∈ (ofLead rooted ns).toList.getLast?, c = '/' := by
  by_cases none : ns = []
  · cases rooted <;> simp [ofLead, lead, none]
  · simp [ofLead, lead, none]

/-! ## The last name -/

section Last

variable {front n : String}

theorem splitLast_append (ends : ∀ c ∈ front.toList.getLast?, c = '/')
    (slashless : '/' ∉ n.toList) : splitLast (front ++ n) = (front, n) := by
  have all : ∀ c ∈ n.toList.reverse, c ≠ '/' := fun c mem here =>
    slashless (here ▸ List.mem_reverse.mp mem)
  have stop : front.toList.reverse.dropWhile (· ≠ '/') = front.toList.reverse ∧
      front.toList.reverse.takeWhile (· ≠ '/') = [] := by
    rw [← List.head?_reverse] at ends
    cases rev : front.toList.reverse with
    | nil => simp
    | cons c cs =>
      have slash : c = '/' := ends c (by simp [rev])
      simp [slash]
  rw [splitLast, String.toList_append, List.reverse_append,
    List.dropWhile_append_of_pos (by simpa using all),
    List.takeWhile_append_of_pos (by simpa using all), stop.1, stop.2]
  simp

theorem ext_append (ends : ∀ c ∈ front.toList.getLast?, c = '/') (slashless : '/' ∉ n.toList) :
    ext (front ++ n) = ext n := by
  have alone : splitLast ("" ++ n) = ("", n) := splitLast_append (by simp) slashless
  rw [String.empty_append] at alone
  rw [ext, ext, splitLast_append ends slashless, alone]

theorem length_ext_le (slashless : '/' ∉ n.toList) : (ext n).length ≤ n.length := by
  have alone : splitLast ("" ++ n) = ("", n) := splitLast_append (by simp) slashless
  rw [String.empty_append] at alone
  rw [ext, alone]
  split
  · rename_i dotted
    have some : n.toList.reverse.dropWhile (· ≠ '.') ≠ [] := fun none => by
      have all := List.takeWhile_append_dropWhile (p := (· ≠ '.')) (l := n.toList.reverse)
      rw [none, List.append_nil] at all
      have mem : '.' ∈ n.toList.reverse.takeWhile (· ≠ '.') := by
        rw [all]
        simpa using dotted
      simpa using List.mem_takeWhile_imp mem
    have total := congrArg List.length
      (List.takeWhile_append_dropWhile (p := (· ≠ '.')) (l := n.toList.reverse))
    have positive := List.length_pos_of_ne_nil some
    rw [List.length_append, List.length_reverse, String.length_toList] at total
    simp only [String.length_ofList, List.length_cons, List.length_reverse]
    omega
  · simp

theorem dropExt_append (ends : ∀ c ∈ front.toList.getLast?, c = '/') (slashless : '/' ∉ n.toList) :
    dropExt (front ++ n) = front ++ dropExt n := by
  have le := length_ext_le slashless
  rw [dropExt, dropExt, ext_append ends slashless, ← String.toList_inj]
  simp only [String.toList_append, String.toList_ofList, String.length_append]
  rw [Nat.add_sub_assoc le, ← String.length_toList (s := front), List.take_length_add_append]

theorem slashless_dropExt (slashless : '/' ∉ n.toList) : '/' ∉ (dropExt n).toList := fun mem => by
  rw [dropExt, String.toList_ofList] at mem
  exact slashless (List.mem_of_mem_take mem)

theorem base_append (ends : ∀ c ∈ front.toList.getLast?, c = '/') (name : IsName n) :
    base (front ++ n) = n := by
  obtain ⟨c, cs, chars⟩ : ∃ c cs, n.toList.reverse = c :: cs := by
    cases rev : n.toList.reverse with
    | nil => exact absurd (by simpa using rev) name.nonempty
    | cons c cs => exact ⟨c, cs, rfl⟩
  have other : c ≠ '/' := fun same => name.slashless (by
    rw [← List.mem_reverse, chars, same]
    simp)
  have trimmed : String.ofList ((front ++ n).toList.reverse.dropWhile (· = '/')).reverse =
      front ++ n := by
    rw [String.toList_append, List.reverse_append, chars, List.cons_append,
      List.dropWhile_cons_of_neg (by simpa using other), ← List.cons_append, ← chars]
    simp
  have nonempty : front ++ n ≠ "" := fun none => name.nonempty (String.append_eq_empty_iff.mp none).2
  rw [base, if_neg nonempty]
  simp only [trimmed]
  rw [if_neg nonempty, splitLast_append ends name.slashless]

end Last

/-! ## Joining and leading from one path to another -/

theorem foldl_step (rooted : Bool) {stack : List String} (all : ∀ n ∈ ns, IsName n) :
    ns.foldl (step rooted) stack = ns.reverse ++ stack := by
  induction ns generalizing stack with
  | nil => rfl
  | cons n ns ih =>
    have name : IsName n := all n (by simp)
    have push : step rooted stack n = n :: stack := by
      simp [step, name.nonempty, name.notDot, name.notDotDot]
    rw [List.foldl_cons, push, ih fun m mem => all m (by simp [mem])]
    simp

theorem foldl_step_up (stack : List String) (up : ∀ n ∈ stack, n = "..") (k : Nat) :
    (List.replicate k "..").foldl (step false) stack = List.replicate k ".." ++ stack := by
  induction k generalizing stack with
  | zero => rfl
  | succ k ih =>
    have push : step false stack ".." = ".." :: stack := by
      cases stack with
      | nil => rfl
      | cons top rest => simp [step, up top (by simp)]
    rw [List.replicate_succ, List.foldl_cons, push, ih _ (by simpa using up),
      ← List.singleton_append, ← List.append_assoc, ← List.replicate_succ']
    rfl

theorem Clean.foldl {rooted : Bool} (clean : Clean rooted ns) :
    (ns.foldl (step rooted) []).reverse = ns := by
  obtain ⟨k, ms, rfl, all, root⟩ := clean
  rw [List.foldl_append, foldl_step rooted all, List.reverse_append, List.reverse_reverse]
  cases rooted with
  | true =>
    obtain rfl := root rfl
    rfl
  | false => rw [foldl_step_up [] (by simp) k, List.append_nil, List.reverse_replicate]

theorem isAbs_iff : isAbs p = true ↔ p.toList.head? = some '/' := by
  have slash : "/".toList = ['/'] := rfl
  rw [isAbs, String.startsWith_string_iff, slash]
  cases p.toList with
  | nil => simp
  | cons c cs => simp [eq_comm]

theorem isAbs_append {s : String} (nonempty : p ≠ "") : isAbs (p ++ s) = isAbs p := by
  rw [Bool.eq_iff_iff, isAbs_iff, isAbs_iff, String.toList_append, List.head?_append_of_ne_nil]
  exact fun none => nonempty (String.toList_eq_nil_iff.mp none)

theorem parts_append (s t : String) : parts (s ++ "/" ++ t) = parts s ++ parts t := by
  have split : (s ++ "/" ++ t).toList = s.toList ++ '/' :: t.toList := by simp
  rw [parts, split, List.splitOn_append_cons_self, List.map_append]
  rfl

theorem intercalate_cons (n : String) (ns : List String) :
    ∃ s, String.intercalate "/" (n :: ns) = n ++ s := by
  cases ns with
  | nil => exact ⟨"", by simp⟩
  | cons m ns =>
    refine ⟨"/" ++ String.intercalate "/" (m :: ns), ?_⟩
    rw [String.intercalate_cons_cons, String.append_assoc]

theorem isAbs_intercalate {rooted : Bool} (clean : Clean rooted ns) :
    isAbs (String.intercalate "/" ns) = false := by
  cases ns with
  | nil => decide
  | cons n ns =>
    obtain ⟨s, eq⟩ := intercalate_cons n ns
    rw [eq, isAbs_append (clean.nonempty (by simp)), Bool.eq_false_iff]
    intro slash
    exact clean.slashless (by simp) (List.mem_of_mem_head? (isAbs_iff.mp slash))

/-- Cleaning a clean path changes nothing. -/
theorem Clean.names_ofNames {rooted : Bool} (clean : Clean rooted ns) :
    isAbs (ofNames rooted ns) = rooted ∧ names (ofNames rooted ns) = ns := by
  by_cases none : ns = []
  · subst none
    cases rooted <;> decide +kernel
  · have plain := isAbs_intercalate clean
    have split := parts_intercalate_eq (fun n mem => clean.slashless mem) none
    cases rooted with
    | true =>
      have abs : isAbs ("/" ++ String.intercalate "/" ns) = true := by simp [isAbs_iff]
      have front : parts "" = [""] := by decide +kernel
      have rest : parts ("/" ++ String.intercalate "/" ns) = "" :: ns := by
        simpa [split, front] using parts_append "" (String.intercalate "/" ns)
      rw [ofNames, if_pos rfl]
      refine ⟨abs, ?_⟩
      rw [names, abs, rest]
      exact clean.foldl
    | false =>
      simp only [ofNames, Bool.false_eq_true, if_false, List.isEmpty_iff, none]
      refine ⟨plain, ?_⟩
      rw [names, plain, split]
      exact clean.foldl

theorem join_intercalate (dir : String) (all : ∀ n ∈ ns, IsName n) (proper : ns ≠ []) :
    join [dir, String.intercalate "/" ns] = ofNames (isAbs dir) (names dir ++ ns) := by
  have clean : Clean false ns := ⟨0, ns, rfl, all, fun _ => rfl⟩
  have split := parts_intercalate_eq (fun n mem => clean.slashless mem) proper
  have some : String.intercalate "/" ns ≠ "" := fun none => by
    rw [none] at split
    have mem : "" ∈ ns := split ▸ List.mem_singleton_self ""
    exact (all "" mem).nonempty rfl
  by_cases empty : dir = ""
  · have joined : join [dir, String.intercalate "/" ns] = Path.clean (String.intercalate "/" ns) := by
      rw [join, List.dropWhile_cons_of_pos (by simpa using empty),
        List.dropWhile_cons_of_neg (by simpa using some)]
      exact congrArg Path.clean String.intercalate_singleton
    have same : String.intercalate "/" ns = ofNames false ns := by simp [ofNames, proper]
    have root : isAbs dir = false ∧ names dir = [] := by
      rw [empty]
      decide +kernel
    rw [joined, same, Path.clean, clean.names_ofNames.1, clean.names_ofNames.2, root.1, root.2,
      List.nil_append]
  · have joined : join [dir, String.intercalate "/" ns] =
        Path.clean (dir ++ "/" ++ String.intercalate "/" ns) := by
      rw [join, List.dropWhile_cons_of_neg (by simpa using empty)]
      exact congrArg Path.clean (by rw [String.intercalate_cons_cons, String.intercalate_singleton])
    have abs : isAbs (dir ++ "/" ++ String.intercalate "/" ns) = isAbs dir := by
      rw [String.append_assoc, isAbs_append empty]
    rw [joined, Path.clean, abs, names, abs, parts_append, split, List.foldl_append,
      foldl_step _ all, List.reverse_append, List.reverse_reverse]
    rfl

/-! ## From one path to another -/

theorem dropCommon_append (as bs : List String) : ∃ cs us ds, dropCommon as bs = (us, ds) ∧
    as = cs ++ us ∧ bs = cs ++ ds := by
  induction as generalizing bs with
  | nil => exact ⟨[], [], bs, by cases bs <;> rfl, rfl, rfl⟩
  | cons a as ih =>
    cases bs with
    | nil => exact ⟨[], a :: as, [], rfl, rfl, rfl⟩
    | cons b bs =>
      rw [dropCommon]
      by_cases same : a = b
      · obtain ⟨cs, us, ds, eq, rfl, rfl⟩ := ih bs
        exact ⟨b :: cs, us, ds, by rw [if_pos same, eq], by rw [same]; rfl, rfl⟩
      · exact ⟨[], a :: as, b :: bs, by rw [if_neg same], rfl, rfl⟩

theorem dropCommon_self_append (as bs : List String) : dropCommon as (as ++ bs) = ([], bs) := by
  induction as with
  | nil => cases bs <;> rfl
  | cons a as ih =>
    rw [List.cons_append, dropCommon, if_pos rfl, ih]

/-- Some names lead from a base directory to a path below it. A first name that starts with two dots
is taken for a way up, so nothing behind it counts as below the directory. -/
structure Below (base p : String) (ns : List String) : Prop where
  rooted : isAbs base = isAbs p
  names : names p = names base ++ ns
  proper : ns ≠ []
  plain : ∀ n ∈ ns.head?, n.startsWith ".." = false

section Below

variable {b : String}

theorem Below.isName (below : Below b p ns) : ∀ n ∈ ns, IsName n := by
  obtain ⟨k, ms, eq, all, -⟩ := names_clean p
  rw [below.names] at eq
  rcases List.append_eq_append_iff.mp eq with ⟨as, ups, rfl⟩ | ⟨cs, -, rfl⟩
  · cases as with
    | nil => exact all
    | cons a as =>
      have up : a = ".." := List.eq_of_mem_replicate (ups ▸ by simp : a ∈ List.replicate k "..")
      have plain := below.plain a (by simp)
      rw [up] at plain
      exact absurd plain (by decide +kernel)
  · exact fun n mem => all n (by simp [mem])

theorem names_of_clean (p : String) : isAbs (clean p) = isAbs p ∧ names (clean p) = names p :=
  (names_clean p).names_ofNames

theorem clean_congr {p q : String} (rooted : isAbs p = isAbs q) (same : names p = names q) :
    clean p = clean q := by rw [clean, clean, rooted, same]

theorem relative?_below (below : Below b p ns) :
    relative? b p = some (String.intercalate "/" ns) := by
  have dot : names "." = [] := by decide +kernel
  have differ : clean b ≠ clean p := fun same => below.proper (by
    have names := below.names
    rw [← (names_of_clean b).2, ← (names_of_clean p).2, same] at names
    simpa using names)
  have isBelow : clean p ≠ "." := fun here => below.proper (by
    have names := below.names
    rw [← (names_of_clean p).2, here, dot] at names
    exact (List.append_eq_nil_iff.mp names.symm).2)
  rw [relative?]
  simp only [differ, if_false, isBelow, (names_of_clean b).1, (names_of_clean p).1, below.rooted,
    bne_self_eq_false, Bool.false_eq_true, (names_of_clean b).2, (names_of_clean p).2, below.names,
    dropCommon_self_append, List.map_nil, List.nil_append]

theorem startsWith_intercalate (n : String) (ns : List String) {s : String}
    (starts : n.startsWith s = true) : (String.intercalate "/" (n :: ns)).startsWith s = true := by
  obtain ⟨t, eq⟩ := intercalate_cons n ns
  rw [String.startsWith_string_iff] at starts ⊢
  rw [eq, String.toList_append]
  exact starts.trans (List.prefix_append _ _)

/-- Only a name that starts with two dots makes a path do so. -/
theorem startsWith_of_intercalate {n : String} (name : IsName n)
    (starts : (String.intercalate "/" (n :: ns)).startsWith ".." = true) :
    n.startsWith ".." = true := by
  have dots : "..".toList = ['.', '.'] := rfl
  obtain ⟨t, eq⟩ := intercalate_cons n ns
  rw [String.startsWith_string_iff, dots] at starts ⊢
  rw [eq, String.toList_append] at starts
  rcases chars : n.toList with _ | ⟨c, _ | ⟨d, cs⟩⟩
  · exact absurd (String.toList_eq_nil_iff.mp chars) name.nonempty
  · rw [chars] at starts
    have dot : c = '.' := (List.cons_prefix_cons.mp starts).1.symm
    refine absurd ?_ name.notDot
    rw [← String.toList_inj, chars, dot]
    rfl
  · rw [chars] at starts
    simpa using starts

/-- The way to a path starts with two dots, or the path is below the base directory. -/
theorem below_of_relative? {r : String} (leads : relative? b p = some r)
    (plain : r.startsWith ".." = false) (other : clean p ≠ clean b) :
    ∃ ns, Below b p ns ∧ r = String.intercalate "/" ns := by
  rw [relative?] at leads
  simp only [other.symm, if_false, (names_of_clean b).1, (names_of_clean p).1,
    (names_of_clean b).2, (names_of_clean p).2] at leads
  split at leads
  · cases leads
  · rename_i rooted
    simp only [bne_iff_ne, ne_eq, Decidable.not_not] at rooted
    obtain ⟨cs, us, ds, apart, bases, targets⟩ :=
      dropCommon_append (names b) (if clean p = "." then ["."] else names p)
    rw [apart] at leads
    cases us with
    | cons u us =>
      -- There is a way up, so the path starts with two dots.
      have up : r = String.intercalate "/" (".." :: (us.map (fun _ => "..") ++ ds)) := by
        split at leads
        · cases leads
        · rename_i eq
          cases eq
          exact (Option.some.inj leads).symm
      rw [up, startsWith_intercalate ".." _ (by decide +kernel)] at plain
      cases plain
    | nil =>
      rw [List.append_nil] at bases
      subst bases
      have isBelow : clean p ≠ "." := fun here => by
        have target : names p = [] := by
          rw [← (names_of_clean p).2, here]
          decide +kernel
        have base : names b = [] := by
          rw [if_pos here] at targets
          cases all : names b with
          | nil => rfl
          | cons n ns =>
            rw [all, List.cons_append] at targets
            refine absurd (List.cons.inj targets).1.symm ((names_clean b).ne_dot ?_)
            simp [all]
        exact other (clean_congr rooted.symm (target.trans base.symm))
      rw [if_neg isBelow] at targets
      have eq : r = String.intercalate "/" ds := (Option.some.inj leads).symm
      refine ⟨ds, ⟨rooted, targets, fun none => ?_, fun n mem => ?_⟩, eq⟩
      · rw [none, List.append_nil] at targets
        exact other (clean_congr rooted.symm targets)
      · obtain ⟨ns, rfl⟩ := List.head?_eq_some_iff.mp mem
        by_contra starts
        rw [eq, startsWith_intercalate n ns (by simpa using starts)] at plain
        cases plain

end Below

end Names
end Path

namespace Build

variable {out baseDir p q : String} {ns ms : List String} {n : String}

open Path (IsName Below dropExt)

/-- The name of a result below the output directory, before its ending is replaced. -/
def resultName (baseDir path : String) : String :=
  ((if baseDir = "" then none else Path.relative? baseDir path).filter
    (!·.startsWith "..")).getD (Path.base path)

theorem outputPath_eq (out baseDir path : String) : outputPath out baseDir path =
    Path.join [out, dropExt (resultName baseDir path) ++ ".koopa"] := by
  unfold outputPath resultName
  split <;> rfl

/-- A clean path of a file: it has a name, and it is not the base directory. -/
structure IsInput (baseDir path : String) : Prop where
  clean : Path.clean path = path
  named : ∃ n ∈ (Path.names path).getLast?, n ≠ ".."
  other : path ≠ Path.clean baseDir

theorem resultName_below (some : baseDir ≠ "") (below : Below baseDir p ns) :
    resultName baseDir p = String.intercalate "/" ns := by
  obtain ⟨n, ms, rfl⟩ := List.exists_cons_of_ne_nil below.proper
  have plain : (String.intercalate "/" (n :: ms)).startsWith ".." = false := by
    rw [Bool.eq_false_iff]
    intro starts
    have up := Path.startsWith_of_intercalate (below.isName n (by simp)) starts
    rw [below.plain n (by simp)] at up
    cases up
  rw [resultName, if_neg some, Path.relative?_below below, Option.filter_some, plain]
  rfl

/-- Elsewhere only the name of the input counts. -/
theorem resultName_outside (input : IsInput baseDir p)
    (outside : baseDir = "" ∨ ∀ ns, ¬ Below baseDir p ns) : resultName baseDir p = Path.base p := by
  by_cases empty : baseDir = ""
  · rw [resultName, if_pos empty]
    rfl
  · have noWay : (Path.relative? baseDir p).filter (!·.startsWith "..") = none := by
      rw [Option.filter_eq_none_iff]
      intro r leads starts
      obtain ⟨ns, below, -⟩ := Path.below_of_relative? leads (by simpa using starts)
        (input.clean.symm ▸ input.other)
      exact (outside.resolve_left empty) ns below
    rw [resultName, if_neg empty, noWay]
    rfl

/-- An input ends with a name, behind which stands its directory. -/
theorem IsInput.snoc (input : IsInput baseDir p) : ∃ ds n, Path.names p = ds ++ [n] ∧ IsName n ∧
    p = Path.ofLead (Path.isAbs p) ds ++ n := by
  obtain ⟨n, last, notUp⟩ := input.named
  obtain ⟨ds, eq⟩ := List.getLast?_eq_some_iff.mp last
  obtain ⟨k, ms, names, all, -⟩ := Path.names_clean p
  refine ⟨ds, n, eq, ?_, ?_⟩
  · rcases List.eq_nil_or_concat ms with rfl | ⟨ms', m, rfl⟩
    · rw [List.append_nil, eq] at names
      have mem : n ∈ List.replicate k ".." := by simp [← names]
      exact absurd (List.eq_of_mem_replicate mem) notUp
    · rw [List.concat_eq_append, ← List.append_assoc, eq] at names
      obtain rfl : n = m := by simpa using (List.append_inj' names rfl).2
      exact all n (by simp)
  · rw [← Path.ofNames_snoc, ← eq]
    exact input.clean.symm

/-- The result of an input has a name that is made of the last names of the input. -/
theorem IsInput.resultName_eq (input : IsInput baseDir p) : ∃ ns n, (∀ m ∈ ns, IsName m) ∧
    IsName n ∧ resultName baseDir p = String.intercalate "/" (ns ++ [n]) := by
  by_cases below : baseDir ≠ "" ∧ ∃ ns, Below baseDir p ns
  · obtain ⟨some, ns, below⟩ := below
    obtain ⟨ms, n, rfl⟩ := (List.eq_nil_or_concat ns).resolve_left below.proper
    rw [List.concat_eq_append] at below
    exact ⟨ms, n, fun m mem => below.isName m (by simp [mem]), below.isName n (by simp),
      resultName_below some below⟩
  · obtain ⟨ds, n, -, name, eq⟩ := input.snoc
    refine ⟨[], n, by simp, name, ?_⟩
    rw [resultName_outside input (by simpa [or_iff_not_imp_left] using below), eq,
      Path.base_append (Path.ofLead_ends _ ds) name]
    simp

/-- A name stays one when its ending is replaced. -/
theorem isName_result (name : IsName n) : IsName (dropExt n ++ ".koopa") := by
  have last : (dropExt n ++ ".koopa").toList.getLast? = some 'a' := by
    rw [String.toList_append, List.getLast?_append]
    rfl
  refine ⟨?_, ?_, ?_, ?_⟩
  · exact fun none => by simp [none] at last
  · rw [String.toList_append, List.mem_append, not_or]
    exact ⟨Path.slashless_dropExt name.slashless, by decide⟩
  · intro dot
    rw [dot] at last
    exact absurd last (by decide)
  · intro up
    rw [up] at last
    exact absurd last (by decide)

theorem dropExt_intercalate (name : IsName n) :
    dropExt (String.intercalate "/" (ns ++ [n])) = String.intercalate "/" (ns ++ [dropExt n]) := by
  have ends := Path.ofLead_ends false ns
  simp only [Path.ofLead, Bool.false_eq_true, if_false, String.empty_append] at ends
  rw [Path.intercalate_snoc, Path.dropExt_append ends name.slashless, Path.intercalate_snoc]

/-- The path of a result, name by name. -/
theorem outputPath_eq_ofNames (all : ∀ m ∈ ns, IsName m) (name : IsName n)
    (eq : resultName baseDir p = String.intercalate "/" (ns ++ [n])) :
    outputPath out baseDir p =
      Path.ofNames (Path.isAbs out) (Path.names out ++ (ns ++ [dropExt n ++ ".koopa"])) := by
  have ending : String.intercalate "/" (ns ++ [dropExt n]) ++ ".koopa" =
      String.intercalate "/" (ns ++ [dropExt n ++ ".koopa"]) := by
    rw [Path.intercalate_snoc, Path.intercalate_snoc, String.append_assoc]
  rw [outputPath_eq, eq, dropExt_intercalate name, ending]
  refine Path.join_intercalate out (fun m mem => ?_) (by simp)
  rcases List.mem_append.mp mem with mem | mem
  · exact all m mem
  · exact List.mem_singleton.mp mem ▸ isName_result name

variable (out) in
/-- Two inputs share a result exactly when the names of their results agree up to the endings. -/
theorem outputPath_eq_iff (inputP : IsInput baseDir p) (inputQ : IsInput baseDir q) :
    outputPath out baseDir p = outputPath out baseDir q ↔
      dropExt (resultName baseDir p) = dropExt (resultName baseDir q) := by
  obtain ⟨ns, n, all, name, eq⟩ := inputP.resultName_eq
  obtain ⟨ms, m, all', name', eq'⟩ := inputQ.resultName_eq
  have slashless : ∀ {ks : List String} {k : String}, (∀ m ∈ ks, IsName m) → '/' ∉ k.toList →
      ∀ l ∈ ks ++ [k], '/' ∉ l.toList := by
    intro ks k names last l mem
    rcases List.mem_append.mp mem with mem | mem
    · exact (names l mem).slashless
    · exact List.mem_singleton.mp mem ▸ last
  have whole : ∀ {ks : List String} {k : String}, (∀ m ∈ ks, IsName m) → IsName k →
      ∀ l ∈ Path.names out ++ (ks ++ [dropExt k ++ ".koopa"]), '/' ∉ l.toList := by
    intro ks k names last l mem
    rcases List.mem_append.mp mem with mem | mem
    · exact (Path.names_clean out).slashless mem
    · exact slashless names (isName_result last).slashless l mem
  have bare := fun {k : String} (name : IsName k) => Path.slashless_dropExt name.slashless
  rw [outputPath_eq_ofNames all name eq, outputPath_eq_ofNames all' name' eq', eq, eq',
    dropExt_intercalate name, dropExt_intercalate name',
    Path.ofNames_inj (whole all name) (whole all' name') (by simp) (by simp),
    Path.intercalate_inj (slashless all (bare name)) (slashless all' (bare name')) (by simp)
      (by simp)]
  rw [List.append_cancel_left_eq, List.append_singleton_inj, List.append_singleton_inj,
    String.append_left_inj]

/-- Below the base directory, inputs share a result exactly when they differ at most in their
endings. -/
theorem dropExt_resultName_iff (inputP : IsInput baseDir p) (inputQ : IsInput baseDir q)
    (some : baseDir ≠ "") (belowP : ∃ ns, Below baseDir p ns) (belowQ : ∃ ns, Below baseDir q ns) :
    dropExt (resultName baseDir p) = dropExt (resultName baseDir q) ↔ dropExt p = dropExt q := by
  have parts : ∀ {r : String}, IsInput baseDir r → (∃ ns, Below baseDir r ns) → ∃ ns n,
      (∀ m ∈ ns ++ [dropExt n], '/' ∉ m.toList) ∧
      dropExt (resultName baseDir r) = String.intercalate "/" (ns ++ [dropExt n]) ∧
      dropExt r = Path.ofNames (Path.isAbs baseDir) (Path.names baseDir ++ (ns ++ [dropExt n])) := by
    rintro r input ⟨ns, below⟩
    obtain ⟨ms, n, rfl⟩ := (List.eq_nil_or_concat ns).resolve_left below.proper
    rw [List.concat_eq_append] at below
    have name : IsName n := below.isName n (by simp)
    have eq : r = Path.ofLead (Path.isAbs baseDir) (Path.names baseDir ++ ms) ++ n := by
      rw [← Path.ofNames_snoc, List.append_assoc, ← below.names, below.rooted]
      exact input.clean.symm
    refine ⟨ms, n, fun m mem => ?_, ?_, ?_⟩
    · rcases List.mem_append.mp mem with mem | mem
      · exact (below.isName m (by simp [mem])).slashless
      · exact List.mem_singleton.mp mem ▸ Path.slashless_dropExt name.slashless
    · rw [resultName_below some below, dropExt_intercalate name]
    · rw [eq, Path.dropExt_append (Path.ofLead_ends _ _) name.slashless, ← Path.ofNames_snoc,
        List.append_assoc]
  obtain ⟨ns, n, slashless, name, eq⟩ := parts inputP belowP
  obtain ⟨ms, m, slashless', name', eq'⟩ := parts inputQ belowQ
  have whole : ∀ {ks : List String}, (∀ k ∈ ks, '/' ∉ k.toList) →
      ∀ k ∈ Path.names baseDir ++ ks, '/' ∉ k.toList := by
    intro ks all k mem
    rcases List.mem_append.mp mem with mem | mem
    · exact (Path.names_clean baseDir).slashless mem
    · exact all k mem
  rw [name, name', eq, eq', Path.intercalate_inj slashless slashless' (by simp) (by simp),
    Path.ofNames_inj (whole slashless) (whole slashless') (by simp) (by simp),
    List.append_cancel_left_eq]

theorem nodup_map_congr {α β : Type} {f : String → α} {g : String → β} {files : List String}
    (same : ∀ p ∈ files, ∀ q ∈ files, f p = f q ↔ g p = g q) :
    (files.map f).Nodup ↔ (files.map g).Nodup := by
  rw [List.Nodup, List.pairwise_map, List.Nodup, List.pairwise_map]
  exact List.Pairwise.iff_of_mem fun memP memQ => not_congr (same _ memP _ memQ)

/-- The results of a build are different files exactly when the names of the results are different
up to their endings. Below the base directory that is so exactly when the inputs are different up to
their endings; the result of any other input has the name of the input, whatever directory the input
lies in. -/
theorem outputs_differ {files : List String} (inputs : ∀ p ∈ files, IsInput baseDir p) :
    ((files.map (outputPath out baseDir)).Nodup ↔
      (files.map fun p => dropExt (resultName baseDir p)).Nodup) ∧
    (baseDir ≠ "" → (∀ p ∈ files, ∃ ns, Below baseDir p ns) →
      ((files.map (outputPath out baseDir)).Nodup ↔ (files.map dropExt).Nodup)) ∧
    ∀ p ∈ files, (baseDir = "" ∨ ∀ ns, ¬ Below baseDir p ns) →
      resultName baseDir p = Path.base p := by
  have names := nodup_map_congr fun p memP q memQ =>
    outputPath_eq_iff out (inputs p memP) (inputs q memQ)
  refine ⟨names, fun some below => names.trans (nodup_map_congr fun p memP q memQ => ?_),
    fun p mem outside => resultName_outside (inputs p mem) outside⟩
  exact dropExt_resultName_iff (inputs p memP) (inputs q memQ) some (below p memP) (below q memQ)

/-- Inputs below the base directory, in two directories. -/
theorem nestedInputs_differ :
    (["/p/a.c", "/p/src/a.c", "/p/src/x.sy"].map (outputPath "/out" "/p")).Nodup := by
  have inputs : ∀ p ∈ ["/p/a.c", "/p/src/a.c", "/p/src/x.sy"], IsInput "/p" p := by
    intro p mem
    simp only [List.mem_cons, List.not_mem_nil, or_false] at mem
    rcases mem with rfl | rfl | rfl
    · exact ⟨by decide +kernel, ⟨"a.c", by decide +kernel, by decide⟩, by decide +kernel⟩
    · exact ⟨by decide +kernel, ⟨"a.c", by decide +kernel, by decide⟩, by decide +kernel⟩
    · exact ⟨by decide +kernel, ⟨"x.sy", by decide +kernel, by decide⟩, by decide +kernel⟩
  have below : ∀ p ∈ ["/p/a.c", "/p/src/a.c", "/p/src/x.sy"], ∃ ns, Below "/p" p ns := by
    intro p mem
    simp only [List.mem_cons, List.not_mem_nil, or_false] at mem
    rcases mem with rfl | rfl | rfl
    · exact ⟨["a.c"], by decide +kernel, by decide +kernel, by decide, by decide +kernel⟩
    · exact ⟨["src", "a.c"], by decide +kernel, by decide +kernel, by decide, by decide +kernel⟩
    · exact ⟨["src", "x.sy"], by decide +kernel, by decide +kernel, by decide, by decide +kernel⟩
  exact ((outputs_differ inputs).2.1 (by decide) below).mpr (by decide +kernel)

/-- Different inputs with clean paths, and one result for both. -/
abbrev Collide (out baseDir p q : String) : Prop :=
  Path.clean p = p ∧ Path.clean q = q ∧ p ≠ q ∧ outputPath out baseDir p = outputPath out baseDir q

/-- Inputs that differ in their endings share a result. So do inputs of one name that lie elsewhere,
and an input below a directory whose name starts with two dots is taken for one of these. -/
theorem outputs_collide : Collide "build" "." "a.c" "a.sy" ∧ Collide "/out" "/p" "/q/y.c" "/r/y.c" ∧
    Collide "/out" "/p" "/p/..a/y.c" "/p/y.c" := by decide +kernel

end Build
end SysY
