import Mathlib.Data.List.Basic
import SysY.Disk

/-! # Reading what was written

A path that was joined from a directory and a name leads to a place with that name, whatever the
directory is. So files with different names in one directory are different files: writing one of
them does not change what is read from another, and removing files only takes away. -/

namespace SysY

namespace Path

/-- A text that names one step of a path. -/
structure IsName (n : String) : Prop where
  nonempty : n ≠ ""
  slashless : '/' ∉ n.toList
  notDot : n ≠ "."
  notDotDot : n ≠ ".."

section Parts

variable {n : String}

theorem parts_name (name : IsName n) : parts n = [n] := by
  simp [parts, List.splitOn_eq_singleton name.slashless]

theorem parts_below (s : String) (name : IsName n) : parts (s ++ "/" ++ n) = parts s ++ [n] := by
  have split : (s ++ "/" ++ n).toList = s.toList ++ '/' :: n.toList := by simp
  rw [parts, split, List.splitOn_append_cons_self, List.splitOn_eq_singleton name.slashless]
  simp [parts]

/-- The last name of joined names is the last part of the path. -/
theorem parts_intercalate (ns : List String) (name : IsName n) :
    ∃ ps, parts (String.intercalate "/" (ns ++ [n])) = ps ++ [n] := by
  have apart : ∀ ms : List (List Char), ms ≠ [] →
      List.intercalate ['/'] (ms ++ [n.toList]) = List.intercalate ['/'] ms ++ '/' :: n.toList := by
    intro ms
    induction ms with
    | nil => exact fun h => absurd rfl h
    | cons m ms ih =>
      intro _
      cases ms with
      | nil => simp [List.intercalate]
      | cons m' ms => simpa [List.intercalate] using ih (by simp)
  cases ns with
  | nil =>
    have single : String.intercalate "/" ([] ++ [n]) = n := by
      rw [← String.toList_inj, String.toList_intercalate]
      simp
    exact ⟨[], by rw [single]; exact parts_name name⟩
  | cons m ms =>
    refine ⟨parts (String.intercalate "/" (m :: ms)), ?_⟩
    rw [← parts_below _ name]
    congr 1
    rw [← String.toList_inj, String.toList_intercalate]
    have split := apart ((m :: ms).map String.toList) (by simp)
    simpa [String.toList_intercalate] using split

theorem parts_ofNames (rooted : Bool) (ns : List String) (name : IsName n) :
    ∃ ps, parts (ofNames rooted (ns ++ [n])) = ps ++ [n] := by
  obtain ⟨ps, split⟩ := parts_intercalate ns name
  cases rooted with
  | false => exact ⟨ps, by simpa [ofNames] using split⟩
  | true =>
    refine ⟨"" :: ps, ?_⟩
    have slash : ("/" ++ String.intercalate "/" (ns ++ [n])).toList =
        [] ++ '/' :: (String.intercalate "/" (ns ++ [n])).toList := by simp
    rw [parts] at split
    rw [ofNames, if_pos rfl, parts, slash, List.splitOn_append_cons_self, List.map_append, split]
    simp

theorem names_of_parts {p : String} {ps : List String} (name : IsName n)
    (split : parts p = ps ++ [n]) : ∃ ns, names p = ns ++ [n] := by
  refine ⟨(ps.foldl (step (isAbs p)) []).reverse, ?_⟩
  rw [names, split, List.foldl_append]
  simp [step, name.nonempty, name.notDot, name.notDotDot]

/-- A path that is joined from a directory and a name ends with the name. -/
theorem parts_join (dir : String) (name : IsName n) : ∃ ps, parts (join [dir, n]) = ps ++ [n] := by
  have cleaned : ∀ p ps, parts p = ps ++ [n] → ∃ qs, parts (clean p) = qs ++ [n] := by
    intro p ps split
    obtain ⟨ns, eq⟩ := names_of_parts name split
    rw [clean, eq]
    exact parts_ofNames _ ns name
  by_cases empty : dir = ""
  · have join_eq : join [dir, n] = clean n := by
      rw [join, List.dropWhile_cons_of_pos (by simpa using empty),
        List.dropWhile_cons_of_neg (by simpa using name.nonempty)]
      congr 1
    rw [join_eq]
    exact cleaned n [] (parts_name name)
  · have join_eq : join [dir, n] = clean (dir ++ "/" ++ n) := by
      rw [join, List.dropWhile_cons_of_neg (by simpa using empty)]
      congr 1
    rw [join_eq]
    exact cleaned _ _ (parts_below dir name)

end Parts
end Path

namespace Disk

variable {d d' : Disk} {place q : List String} {path : String} {content : Bytes}

/-! ## Places -/

theorem follow_snoc {n : String} (name : Path.IsName n) {ps : List String}
    (h : d.follow place (ps ++ [n]) = .ok q) : q.getLast? = some n := by
  induction ps generalizing place with
  | nil =>
    simp only [List.nil_append, follow] at h
    split at h
    · cases h
    · cases h
    · simp only [name.nonempty, name.notDot, name.notDotDot, or_self, if_false] at h
      cases h
      simp
  | cons m ps ih =>
    simp only [List.cons_append, follow] at h
    split at h
    · cases h
    · cases h
    · split at h
      · exact ih h
      · split at h
        · exact ih h
        · exact ih h

/-- The place of a name in a directory has that name. -/
theorem locate_join {dir n : String} (name : Path.IsName n)
    (h : d.locate (Path.join [dir, n]) = .ok q) : q.getLast? = some n := by
  obtain ⟨ps, split⟩ := Path.parts_join dir name
  unfold locate at h
  split at h
  · cases h
  · rw [split] at h
    exact follow_snoc name h

/-- Where there is no new directory, no new place can be reached. -/
theorem follow_of_less (less : ∀ {x}, d'.node? x = some .dir → d.node? x = some .dir)
    {ps : List String} (h : d'.follow place ps = .ok q) : d.follow place ps = .ok q := by
  induction ps generalizing place with
  | nil => exact h
  | cons m ps ih =>
    simp only [follow] at h ⊢
    split at h
    · cases h
    · cases h
    · rename_i isDir
      rw [less isDir]
      simp only
      split at h
      · rename_i stay
        rw [if_pos stay]
        exact ih h
      · rename_i stay
        rw [if_neg stay]
        split at h
        · rename_i up
          rw [if_pos up]
          exact ih h
        · rename_i up
          rw [if_neg up]
          exact ih h

theorem locate_of_less (less : ∀ {x}, d'.node? x = some .dir → d.node? x = some .dir)
    (cwd : d'.cwd = d.cwd) (h : d'.locate path = .ok q) : d.locate path = .ok q := by
  unfold locate at h ⊢
  split at h
  · cases h
  · rename_i nonempty
    rw [if_neg nonempty, ← cwd]
    exact follow_of_less less h

theorem read_eq_ok : d.read path = .ok content ↔
    ∃ q, d.locate path = .ok q ∧ d.node? q = some (.file content) := by
  unfold read
  split
  · rename_i failed
    simp [failed]
  · rename_i q found
    simp only [found, Except.ok.injEq, exists_eq_left']
    split <;> simp_all

/-! ## Writing and removing -/

/-- Taking a place out of a list of places takes out nothing else. -/
theorem lookup_without (nodes : List (List String × Node)) (place q : List String) :
    (nodes.filter (·.1 != place)).lookup q = if q = place then none else nodes.lookup q := by
  induction nodes with
  | nil => simp
  | cons x xs ih =>
    obtain ⟨k, m⟩ := x
    by_cases drop : k = place
    · subst drop
      by_cases same : q = k
      · simpa [same] using ih
      · have apart : (q == k) = false := by simpa using same
        simpa [List.lookup_cons, same, apart] using ih
    · have kept : ((k, m) :: xs).filter (·.1 != place) = (k, m) :: xs.filter (·.1 != place) := by
        simp [drop]
      rw [kept]
      rw [List.lookup_cons, List.lookup_cons]
      split
      · rename_i same
        rw [if_neg (by rw [eq_of_beq same]; exact drop)]
      · exact ih

theorem node?_put {n : Node} (nonempty : place ≠ []) :
    (d.put place n).node? q = if q = place then some n else d.node? q := by
  unfold node?
  by_cases root : q = []
  · simp [root, Ne.symm nonempty]
  · by_cases same : q = place
    · subst same
      simp [root, put, List.lookup_append, lookup_without]
    · have apart : (q == place) = false := by simpa using same
      simp [root, same, put, List.lookup_append, lookup_without, List.lookup_cons, apart]

/-- What is read after writing a file was written, or it was there before. -/
theorem read_write {path' : String} {content' : Bytes} (wrote : d.write path content = .ok d')
    (h : d'.read path' = .ok content') : d.read path' = .ok content' ∨
      content' = content ∧ ∃ q, d.locate path = .ok q ∧ d.locate path' = .ok q := by
  unfold write at wrote
  split at wrote
  · cases wrote
  · rename_i place found
    split at wrote
    · cases wrote
    · rename_i noDir
      cases wrote
      have nonempty : place ≠ [] := by
        rintro rfl
        exact noDir rfl
      have less : ∀ {x}, (d.put place (.file content)).node? x = some .dir →
          d.node? x = some .dir := by
        intro x isDir
        rw [node?_put nonempty] at isDir
        split at isDir
        · cases isDir
        · exact isDir
      obtain ⟨q, located, here⟩ := read_eq_ok.mp h
      have located' := locate_of_less less rfl located
      rw [node?_put nonempty] at here
      split at here
      · rename_i same
        subst same
        cases here
        exact .inr ⟨rfl, q, found, located'⟩
      · exact .inl (read_eq_ok.mpr ⟨q, located', here⟩)

/-- What is read after removing something was there before. -/
theorem read_remove {path' : String} (removed : d.remove path = .ok d')
    (h : d'.read path' = .ok content) : d.read path' = .ok content := by
  unfold remove at removed
  split at removed
  · cases removed
  · rename_i place found
    split at removed
    · cases removed
    · split at removed
      · cases removed
      · cases removed
        have less : ∀ {x n}, ({ d with nodes := d.nodes.filter (·.1 != place) } : Disk).node? x =
            some n → d.node? x = some n := by
          intro x n here
          unfold node? at here ⊢
          split at here
          · rename_i root
            rw [if_pos root]
            exact here
          · rename_i root
            rw [if_neg root]
            rw [lookup_without] at here
            split at here
            · cases here
            · exact here
        obtain ⟨q, located, here⟩ := read_eq_ok.mp h
        exact read_eq_ok.mpr ⟨q, locate_of_less less rfl located, less here⟩

end Disk
end SysY
