import Mathlib.Data.List.Basic
import Mathlib.Logic.Relation
import SysY.Build.Request
import SysY.Proofs.Build.Entry
import SysY.Proofs.Build.Storage

/-! # The cache is transparent

Many builds share one cache, and their files take turns in any order: each is looked up, compiled if
it was not found, and stored. Two different requests can have the same digest, because the version
of the compiler, the byte for the options and the text follow each other without a mark between
them. What is read back is still the right result: an entry counts only for the version that wrote
it, and once the version is fixed the rest of the message can be read in one way only. -/

namespace SysY.Build

/-! ## Requests and turns -/

/-- One file of a build: its path and content, the version of the compiler and the options. -/
structure Job where
  path : String
  content : Bytes
  toolchain : String
  withLibrary : Bool
deriving DecidableEq

namespace Job

/-- The text that is compiled. -/
def text (j : Job) : Bytes := (Source.normalize j.content).1

/-- The message whose digest names the entry. -/
def message (j : Job) : Bytes :=
  Bytes.ofString j.toolchain ++ [if j.withLibrary then 1 else 0] ++ j.text

/-- The digest that names the entry. -/
def key (j : Job) : String := cacheKey j.toolchain j.withLibrary j.text

/-- The entry for a result. -/
def entry (j : Job) (ir : String) : Entry := { toolchain := j.toolchain, source := j.path, ir := ir }

end Job

/-- The compilers of all versions, by version, options and text. There is no result when a text does
not compile. -/
abbrev Compilers := String → Bool → Bytes → Option String

/-- What a compiler makes of a file. -/
def Compilers.result (compilers : Compilers) (j : Job) : Option String :=
  compilers j.toolchain j.withLibrary j.text

/-- How far a file has come. -/
inductive Headway where
  | queued
  /-- There was no entry. -/
  | missed
  /-- There is a result that is not stored yet. -/
  | compiled (ir : String)
  | done (cached : Bool) (ir : String)
  | failed
deriving DecidableEq, Repr

namespace Headway

/-- The status after a file was looked up. What goes wrong with the cache counts as no entry. -/
def ofLookup : Except String (Option Entry) → Headway
  | .ok (some e) => done true e.ir
  | _ => missed

/-- The status after a file was compiled. -/
def ofResult : Option String → Headway
  | some ir => compiled ir
  | none => failed

/-- The status of a file whose outcome is known. -/
def ofCompiled (c : Compiled) : Headway := if c.failed then failed else done c.cached c.ir

/-- No other result than `r` is claimed. -/
def Fits : Headway → Option String → Prop
  | queued, _ | missed, _ => True
  | compiled ir, r | done _ ir, r => r = some ir
  | failed, r => r = none

end Headway

/-- A moment of all builds: the disk, and how far each file has come. -/
structure Moment where
  disk : Disk
  status : List Headway

/-- One turn: a file is looked up, compiled or stored, or the cache is cleaned. -/
inductive Turn (cache : Cache) (compilers : Compilers) (jobs : List Job) : Moment → Moment → Prop
  | lookUp {m : Moment} {i : Nat} {j : Job} : jobs[i]? = some j → m.status[i]? = some .queued →
      Turn cache compilers jobs m
        { disk := cache.touched m.disk
          status := m.status.set i (.ofLookup (cache.get m.disk j.key j.toolchain)) }
  | compile {m : Moment} {i : Nat} {j : Job} : jobs[i]? = some j → m.status[i]? = some .missed →
      Turn cache compilers jobs m
        { m with status := m.status.set i (.ofResult (compilers.result j)) }
  | store {m : Moment} {i : Nat} {j : Job} {ir : String} : jobs[i]? = some j →
      m.status[i]? = some (.compiled ir) →
      Turn cache compilers jobs m
        { disk := (cache.put m.disk j.key (j.entry ir)).toOption.getD m.disk
          status := m.status.set i (.done false ir) }
  | clean {m : Moment} : Turn cache compilers jobs m { m with disk := (cache.clean m.disk).2 }

/-- Any number of turns. -/
abbrev Turns (cache : Cache) (compilers : Compilers) (jobs : List Job) : Moment → Moment → Prop :=
  Relation.ReflTransGen (Turn cache compilers jobs)

/-- The moment before the first turn. -/
def Moment.start (d : Disk) (jobs : List Job) : Moment := ⟨d, jobs.map fun _ => .queued⟩

/-- Digests tell the messages of the requests apart. -/
def NoCollision (jobs : List Job) : Prop :=
  ∀ j ∈ jobs, ∀ j' ∈ jobs, Hash.Sha256.digest j.message = Hash.Sha256.digest j'.message →
    j.message = j'.message

/-- The format of a cache is one in which the entries of the requests can be read back. -/
def Readable (cache : Cache) (compilers : Compilers) (jobs : List Job) : Prop :=
  ∀ j ∈ jobs, ∀ ir, compilers.result j = some ir →
    cache.codec.decode? (cache.codec.encode (j.entry ir)) = some (j.entry ir)

/-- The format with lengths is such a format, as long as the lengths fit. -/
theorem readable_of_fits {cache : Cache} {compilers : Compilers} {jobs : List Job}
    (format : cache.codec = .lengths)
    (fits : ∀ j ∈ jobs, ∀ ir, compilers.result j = some ir → (j.entry ir).Fits) :
    Readable cache compilers jobs := by
  intro j mem ir result
  rw [format]
  exact Entry.decode?_encode (fits j mem ir result)

/-- A cache that holds no entry. -/
def Cache.IsEmpty (cache : Cache) (d : Disk) : Prop :=
  ∀ key content, d.read (cache.entryPath key) ≠ .ok content

/-! ## Digests as names -/

theorem digitChar_ne_slash {n : Nat} (small : n < 16) : Nat.digitChar n ≠ '/' := by
  have finite : ∀ a : Fin 16, Nat.digitChar a ≠ '/' := by decide
  exact finite ⟨n, small⟩

theorem digitChar_inj : ∀ {a b : Nat}, a < 16 → b < 16 → Nat.digitChar a = Nat.digitChar b →
    a = b := by
  have finite : ∀ a b : Fin 16, Nat.digitChar a = Nat.digitChar b → a = b := by decide
  intro a b ha hb same
  exact congrArg Fin.val (finite ⟨a, ha⟩ ⟨b, hb⟩ same)

theorem toHex_inj {xs ys : Bytes} (same : xs.toHex = ys.toHex) : xs = ys := by
  unfold Bytes.toHex at same
  rw [String.ofList_inj] at same
  induction xs generalizing ys with
  | nil =>
    cases ys with
    | nil => rfl
    | cons y ys => cases same
  | cons x xs ih =>
    cases ys with
    | nil => cases same
    | cons y ys =>
      simp only [List.flatMap_cons, List.cons_append, List.nil_append, List.cons.injEq] at same
      obtain ⟨high, low, rest⟩ := same
      have hx := x.toNat_lt
      have hy := y.toNat_lt
      have high := digitChar_inj (by omega) (by omega) high
      have low := digitChar_inj (by omega) (by omega) low
      obtain rfl : x = y := UInt8.toNat_inj.mp (by omega)
      rw [ih rest]

theorem Job.key_eq (j : Job) : j.key = Hash.Sha256.hex j.message := rfl

/-- The file name of an entry. -/
theorem isName_entry (message : Bytes) : Path.IsName (Hash.Sha256.hex message ++ ".mp") := by
  have ends : (Hash.Sha256.hex message ++ ".mp").toList =
      (Hash.Sha256.hex message).toList ++ ['.', 'm', 'p'] := by simp
  have long : 3 ≤ (Hash.Sha256.hex message ++ ".mp").toList.length := by simp [ends]
  have slashless : '/' ∉ (Hash.Sha256.hex message).toList := by
    intro mem
    rw [Hash.Sha256.hex, Bytes.toHex, String.toList_ofList] at mem
    obtain ⟨b, -, here⟩ := List.mem_flatMap.mp mem
    simp only [List.mem_cons, List.not_mem_nil, or_false] at here
    have small := b.toNat_lt
    rcases here with here | here
    · exact digitChar_ne_slash (by omega) here.symm
    · exact digitChar_ne_slash (by omega) here.symm
  refine ⟨?_, ?_, ?_, ?_⟩
  · intro same
    rw [same] at long
    simp at long
  · rw [ends]
    simpa using slashless
  · intro same
    rw [same] at long
    simp at long
  · intro same
    rw [same] at long
    simp at long

theorem isName_lock : Path.IsName ".lock" := by
  constructor <;> decide

/-! ## What each operation does to the entries -/

namespace Cache

variable {c : Cache} {d d' : Disk} {message content : Bytes}

/-- Two entries, or an entry and the lock, are different files. -/
theorem entry_unique {n : String} {q : List String} {dir : String} (name : Path.IsName n)
    (other : d.locate (Path.join [dir, n]) = .ok q)
    (here : d.locate (c.entryPath (Hash.Sha256.hex message)) = .ok q) :
    n = Hash.Sha256.hex message ++ ".mp" := by
  have last := Disk.locate_join (isName_entry message) here
  rw [Disk.locate_join name other] at last
  exact Option.some.inj last

theorem read_lock (locked : c.lock d = .ok d')
    (h : d'.read (c.entryPath (Hash.Sha256.hex message)) = .ok content) :
    d.read (c.entryPath (Hash.Sha256.hex message)) = .ok content := by
  unfold lock Except.mapError at locked
  simp only at locked
  split at locked
  · cases locked
  · rename_i d₁ wrote
    cases locked
    rcases Disk.read_write wrote h with before | ⟨-, q, lockPlace, entryPlace⟩
    · exact before
    · have same := congrArg String.toList (entry_unique isName_lock lockPlace entryPlace)
      have last := congrArg List.getLast? same
      simp at last

theorem read_touched (h : (c.touched d).read (c.entryPath (Hash.Sha256.hex message)) = .ok content) :
    d.read (c.entryPath (Hash.Sha256.hex message)) = .ok content := by
  unfold touched at h
  cases locked : c.lock d with
  | error e =>
    rw [locked] at h
    exact h
  | ok d₁ =>
    rw [locked] at h
    exact read_lock locked h

/-- An entry that is found was read, and it is one of the same version. -/
theorem get_eq_some {key toolchain : String} {e : Entry}
    (found : c.get d key toolchain = .ok (some e)) (isDigest : key = Hash.Sha256.hex message) :
    e.toolchain = toolchain ∧
      ∃ content, d.read (c.entryPath key) = .ok content ∧ c.codec.decode? content = some e := by
  subst isDigest
  unfold get at found
  cases locked : c.lock d with
  | error t =>
    rw [locked] at found
    cases found
  | ok d₁ =>
    simp only [locked, bind, Except.bind] at found
    split at found
    · split at found
      · cases found
      · cases found
    · rename_i content read
      split at found
      · cases found
      · rename_i e' decoded
        simp only [pure, Except.pure, Except.ok.injEq] at found
        split at found
        · rename_i fits
          cases found
          exact ⟨fits.2, content, read_lock locked read, decoded⟩
        · cases found

/-- What is read after storing an entry is that entry, or it was there before. -/
theorem read_put {key : String} {e : Entry} {other : Bytes} (isDigest : key = Hash.Sha256.hex other)
    (stored : c.put d key e = .ok d')
    (h : d'.read (c.entryPath (Hash.Sha256.hex message)) = .ok content) :
    d.read (c.entryPath (Hash.Sha256.hex message)) = .ok content ∨
      key = Hash.Sha256.hex message ∧
        content = c.codec.encode { e with schema := Entry.currentSchema } := by
  subst isDigest
  unfold put at stored
  cases locked : c.lock d with
  | error t =>
    rw [locked] at stored
    cases stored
  | ok d₁ =>
    simp only [locked, bind, Except.bind] at stored
    cases wrote : d₁.write (c.entryPath (Hash.Sha256.hex other))
        (c.codec.encode { e with schema := Entry.currentSchema }) with
    | error t =>
      rw [wrote] at stored
      cases stored
    | ok d₂ =>
      rw [wrote] at stored
      cases stored
      rcases Disk.read_write wrote h with before | ⟨same, q, otherPlace, place⟩
      · exact .inl (read_lock locked before)
      · have names := congrArg String.toList (entry_unique (isName_entry other) otherPlace place)
        refine .inr ⟨String.toList_inj.mp ?_, same⟩
        simpa using names

theorem read_clean_go {names : List String} {n : Nat}
    (h : (clean.go c names n d).2.read (c.entryPath (Hash.Sha256.hex message)) = .ok content) :
    d.read (c.entryPath (Hash.Sha256.hex message)) = .ok content := by
  induction names generalizing n d with
  | nil => exact h
  | cons name names ih =>
    unfold clean.go at h
    split at h
    · rename_i d₁ removed
      exact Disk.read_remove removed (ih h)
    · exact h

/-- What is read after cleaning was there before. -/
theorem read_clean (h : (c.clean d).2.read (c.entryPath (Hash.Sha256.hex message)) = .ok content) :
    d.read (c.entryPath (Hash.Sha256.hex message)) = .ok content := by
  unfold clean at h
  split at h
  · exact h
  · rename_i d₁ locked
    split at h
    · exact read_lock locked h
    · exact read_lock locked (read_clean_go h)

end Cache

/-! ## The invariant -/

section Transparent

variable {cache : Cache} {compilers : Compilers} {jobs : List Job} {m m' : Moment}

/-- No file has a wrong result. -/
def Right (compilers : Compilers) (jobs : List Job) (status : List Headway) : Prop :=
  ∀ ⦃i : Nat⦄ ⦃j : Job⦄ ⦃h : Headway⦄, jobs[i]? = some j → status[i]? = some h →
    h.Fits (compilers.result j)

/-- Every entry on disk is the result of a request with its digest, and no file has a wrong
result. -/
structure Faithful (cache : Cache) (compilers : Compilers) (jobs : List Job) (m : Moment) :
    Prop where
  entries : ∀ {message content},
    m.disk.read (cache.entryPath (Hash.Sha256.hex message)) = .ok content →
      ∃ j ∈ jobs, j.key = Hash.Sha256.hex message ∧
        ∃ ir, compilers.result j = some ir ∧ content = cache.codec.encode (j.entry ir)
  files : Right compilers jobs m.status

theorem faithful_start {d : Disk} (empty : cache.IsEmpty d) :
    Faithful cache compilers jobs (.start d jobs) where
  entries := fun h => absurd h (empty _ _)
  files := fun i j h hj hs => by
    simp only [Moment.start, List.getElem?_map, hj, Option.map_some, Option.some.injEq] at hs
    subst hs
    trivial

/-- Only the file whose turn it is comes further. -/
theorem Right.set {i : Nat} {j : Job} {h : Headway} {status : List Headway}
    (right : Right compilers jobs status) (here : jobs[i]? = some j)
    (fits : h.Fits (compilers.result j)) : Right compilers jobs (status.set i h) := by
  intro i' j' h' hj hs
  rw [List.getElem?_set] at hs
  split at hs
  · rename_i same
    subst same
    rw [here] at hj
    cases hj
    split at hs
    · cases hs
      exact fits
    · cases hs
  · exact right hj hs

/-- Requests of one version with the same message are for the same result. -/
theorem result_of_message {j j' : Job} (version : j'.toolchain = j.toolchain)
    (same : j'.message = j.message) : compilers.result j' = compilers.result j := by
  unfold Job.message at same
  rw [version, List.append_assoc, List.append_assoc, List.append_cancel_left_eq,
    List.singleton_append, List.singleton_append, List.cons.injEq] at same
  have options : j'.withLibrary = j.withLibrary := by
    have flags := same.1
    cases h : j'.withLibrary <;> cases h' : j.withLibrary <;> simp [h, h'] at flags ⊢
  rw [Compilers.result, Compilers.result, version, options, same.2]

/-- One turn keeps every entry and every result right. -/
theorem Faithful.turn
    (distinct : NoCollision jobs) (readable : Readable cache compilers jobs)
    (faithful : Faithful cache compilers jobs m) (turn : Turn cache compilers jobs m m') :
    Faithful cache compilers jobs m' := by
  cases turn with
  | lookUp hj queued =>
    rename_i i j
    refine ⟨fun h => faithful.entries (Cache.read_touched h), faithful.files.set hj ?_⟩
    cases looked : cache.get m.disk j.key j.toolchain with
    | error t => trivial
    | ok found =>
      cases found with
      | none => trivial
      | some e =>
        obtain ⟨version, content, read, decoded⟩ := Cache.get_eq_some looked j.key_eq
        rw [j.key_eq] at read
        obtain ⟨j', mem', sameKey, ir, compiled, rfl⟩ := faithful.entries read
        rw [readable j' mem' ir compiled] at decoded
        cases decoded
        have sameMessage := distinct j' mem' j (List.mem_of_getElem? hj) (toHex_inj sameKey)
        show compilers.result j = some ir
        rw [← result_of_message version sameMessage]
        exact compiled
  | compile hj missed =>
    rename_i i j
    refine ⟨faithful.entries, faithful.files.set hj ?_⟩
    cases compiled : compilers.result j with
    | none => rfl
    | some ir => rfl
  | store hj compiled =>
    rename_i i j ir
    have result : compilers.result j = some ir := faithful.files hj compiled
    refine ⟨fun {message content} h => ?_, faithful.files.set hj result⟩
    cases stored : cache.put m.disk j.key (j.entry ir) with
    | error t =>
      rw [stored] at h
      exact faithful.entries h
    | ok d =>
      rw [stored] at h
      rcases Cache.read_put j.key_eq stored h with before | ⟨sameKey, rfl⟩
      · exact faithful.entries before
      · exact ⟨j, List.mem_of_getElem? hj, sameKey, ir, result, rfl⟩
  | clean => exact ⟨fun h => faithful.entries (Cache.read_clean h), faithful.files⟩

theorem Faithful.turns
    (distinct : NoCollision jobs) (readable : Readable cache compilers jobs)
    (faithful : Faithful cache compilers jobs m) (turns : Turns cache compilers jobs m m') :
    Faithful cache compilers jobs m' := by
  induction turns with
  | refl => exact faithful
  | tail _ turn ih => exact ih.turn distinct readable turn

/-- Whatever the order of turns, a file that is done has the result that its own compiler makes of
its own text, from the cache or not, and one that does not compile has failed. -/
theorem cache_transparent {d : Disk} (empty : cache.IsEmpty d)
    (distinct : NoCollision jobs) (readable : Readable cache compilers jobs)
    (turns : Turns cache compilers jobs (.start d jobs) m) {i : Nat} {j : Job}
    (here : jobs[i]? = some j) :
    (∀ cached ir, m.status[i]? = some (.done cached ir) →
      compilers j.toolchain j.withLibrary (Source.normalize j.content).1 = some ir) ∧
    (m.status[i]? = some .failed →
      compilers j.toolchain j.withLibrary (Source.normalize j.content).1 = none) ∧
    (compilers j.toolchain j.withLibrary (Source.normalize j.content).1 = none →
      ∀ ir, m.status[i]? ≠ some (.done true ir)) := by
  have faithful := (faithful_start empty).turns distinct readable turns
  refine ⟨fun cached ir status => faithful.files here status,
    fun status => faithful.files here status, fun fails ir status => ?_⟩
  have result : compilers.result j = some ir := faithful.files here status
  rw [Compilers.result, Job.text, fails] at result
  cases result

/-- A cache in an empty directory. -/
def sharedCache : Cache := { dir := "/c" }

def sharedDisk : Disk := { nodes := [(["c"], .dir), (["c", "units"], .dir)] }

/-- Three files. The first and the third have the same content, and the second has the same digest
as they have, but it is for another version of the compiler. -/
def sharedJobs : List Job :=
  [⟨"a.c", [1, 120], "v", true⟩, ⟨"b.c", [120], "v\x01", true⟩, ⟨"c.c", [1, 120], "v", true⟩]

/-- Compilers that write down their version. -/
def sharedCompilers : Compilers := fun version _ _ => some ("version " ++ version)

theorem sharedJobs_message : ∀ j ∈ sharedJobs, j.message = [118, 1, 1, 120] := by decide +kernel

theorem sharedJobs_key : ∀ j ∈ sharedJobs,
    j.key = "ac1f3cbdf6b698c18cd8d0ed53d398bc674e49e7fb1121a11d8ca606ab149ee6" := by
  intro j mem
  rw [j.key_eq, sharedJobs_message j mem]
  decide +kernel

/-- The first file is stored, the second one misses although it has the same digest, and the third
one is served from the cache. -/
theorem cache_transparent_shared : ∃ m,
    Turns sharedCache sharedCompilers sharedJobs (.start sharedDisk sharedJobs) m ∧
      m.status = [.done false "version v", .missed, .done true "version v"] ∧
      sharedCompilers "v" true (Source.normalize [1, 120]).1 = some "version v" := by
  have empty : sharedCache.IsEmpty sharedDisk := by
    intro key content read
    obtain ⟨q, -, here⟩ := Disk.read_eq_ok.mp read
    unfold Disk.node? at here
    split at here
    · cases here
    · simp only [sharedDisk, List.lookup_cons] at here
      split at here
      · cases here
      · split at here
        · cases here
        · cases here
  have distinct : NoCollision sharedJobs := fun j mem j' mem' _ =>
    (sharedJobs_message j mem).trans (sharedJobs_message j' mem').symm
  have readable : Readable sharedCache sharedCompilers sharedJobs := by
    refine readable_of_fits rfl fun j mem ir result => ?_
    cases result
    revert j
    decide +kernel
  have first : Turns sharedCache sharedCompilers sharedJobs (.start sharedDisk sharedJobs) _ :=
    .single (Turn.lookUp (i := 0) rfl rfl)
  rw [sharedJobs_key _ (by simp [sharedJobs])] at first
  have second := first.tail (Turn.compile (i := 0) rfl (by decide +kernel))
  have third := second.tail (@Turn.store _ _ _ _ 0 _ "version v" rfl (by decide +kernel))
  rw [sharedJobs_key _ (by simp [sharedJobs])] at third
  have fourth := third.tail (Turn.lookUp (i := 1) rfl (by decide +kernel))
  rw [sharedJobs_key _ (by simp [sharedJobs])] at fourth
  have last := fourth.tail (Turn.lookUp (i := 2) rfl (by decide +kernel))
  rw [sharedJobs_key _ (by simp [sharedJobs])] at last
  have transparent := cache_transparent empty distinct readable last (i := 2) rfl
  exact ⟨_, last, by decide +kernel, transparent.1 true "version v" (by decide +kernel)⟩

/-! ## One file alone -/

/-- The text that a file compiles to, if it does. -/
def Compiled.result? (c : Compiled) : Option String := if c.failed then none else some c.ir

/-- A text that was compiled was not taken from the cache. -/
theorem compile_cached (files : Source.Files) (file : Source.File) (withLibrary canceled : Bool) :
    (compile files file withLibrary canceled).result.cached = false := by
  unfold compile
  simp only
  split <;> rfl

/-- Compiling a file with a cache takes the turns of that file, one after the other. -/
theorem compileCached_turns {d : Disk} {path : String} {req : Request} {canceled : Bool}
    {content : Bytes} (hasCache : req.cache = some cache) (read : d.read path = .ok content)
    (compiles : ∀ files file, files = ({} : Source.Files).addLoaded path content →
      files.get? 0 = some file →
      compilers req.toolchain req.withLibrary file.content =
        (compile files file req.withLibrary canceled).result.result?) :
    ∃ m, Turns cache compilers [⟨path, content, req.toolchain, req.withLibrary⟩]
        (.start d [⟨path, content, req.toolchain, req.withLibrary⟩]) m ∧
      m.disk = (compileCached d path req canceled).2 ∧
      m.status = [.ofCompiled (compileCached d path req canceled).1.result] := by
  generalize hj : (⟨path, content, req.toolchain, req.withLibrary⟩ : Job) = j
  generalize hfiles : ({} : Source.Files).addLoaded path content = files
  obtain ⟨file, hfile, text⟩ : ∃ file, files.get? 0 = some file ∧ file.content = j.text := by
    subst hfiles hj
    exact ⟨_, rfl, rfl⟩
  have result := compiles files file hfiles.symm hfile
  have toolchain : j.toolchain = req.toolchain := by rw [← hj]
  have key : cacheKey j.toolchain req.withLibrary file.content = j.key := by
    rw [text, ← hj]
    rfl
  have compiled : compilers.result j = (compile files file req.withLibrary canceled).result.result? := by
    rw [← result, text, ← hj]
    rfl
  have looked : Turn cache compilers [j] (.start d [j]) ⟨cache.touched d,
      [.ofLookup (cache.get d j.key j.toolchain)]⟩ := .lookUp (i := 0) rfl rfl
  unfold compileCached
  simp only [hasCache, read, hfiles, hfile, Option.getD_some, ← toolchain, key]
  split
  · rename_i e found
    rw [found] at looked
    exact ⟨_, .single looked, rfl, rfl⟩
  · rename_i found missed
    have unknown : Headway.ofLookup (cache.get d j.key j.toolchain) = .missed := by
      unfold Headway.ofLookup
      split
      · rename_i e here
        exact absurd here (missed e)
      · rfl
    rw [unknown] at looked
    have ran : Turn cache compilers [j] ⟨cache.touched d, [.missed]⟩
        ⟨cache.touched d, [.ofResult (compilers.result j)]⟩ := .compile (i := 0) rfl rfl
    rw [compiled] at ran
    have notCached := compile_cached files file req.withLibrary canceled
    generalize (compile files file req.withLibrary canceled) = outcome at ran notCached
    split
    · rename_i fails
      refine ⟨_, .tail (.single looked) ran, rfl, ?_⟩
      simp [Compiled.result?, Headway.ofResult, Headway.ofCompiled, fails]
    · rename_i succeeds
      have built : outcome.result.result? = some outcome.result.ir := if_neg succeeds
      rw [built] at ran
      have stored : Turn cache compilers [j] ⟨cache.touched d, [.compiled outcome.result.ir]⟩
          ⟨(cache.put (cache.touched d) j.key (j.entry outcome.result.ir)).toOption.getD
            (cache.touched d), [.done false outcome.result.ir]⟩ := .store (i := 0) rfl rfl
      have entry : j.entry outcome.result.ir =
          { toolchain := j.toolchain, source := path, ir := outcome.result.ir } := by rw [← hj]; rfl
      refine ⟨_, .tail (.tail (.single looked) ran) stored, ?_, ?_⟩
      · rw [entry]
        split
        · rename_i d₁ put
          rw [put]
          rfl
        · rename_i e put
          rw [put]
          rfl
      · split <;> simp [Headway.ofCompiled, succeeds, notCached]

end Transparent

end SysY.Build
