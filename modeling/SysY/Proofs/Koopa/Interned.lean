import Mathlib.Data.List.Basic
import Mathlib.Data.List.Nodup
import SysY.Koopa.Interned

/-! # Interned types are the same when their numbers are

The text of a type can be read in one way only: the first character tells what kind of type it is, and
no type goes on where the text of its part ends, because only a colon could continue it and behind a
part stands a comma or a closing bracket. So types with the same text are the same. A table that looks
for types by their texts therefore gives the same number to the same types only, in whatever order they
are built. -/

namespace SysY.Koopa

namespace Ty

/-! ## The characters of a type -/

/-- The characters behind the parameters of a function. -/
def resultChars (ret : Ty) : List Char :=
  if ret = .unit then [] else ':' :: ' ' :: ret.text.toList

/-- The characters of all parameters but the first. -/
def furtherChars (params : List Ty) : List Char := params.flatMap fun p => ',' :: ' ' :: p.text.toList

/-- The characters of the parameters of a function. -/
def paramChars : List Ty → List Char
  | [] => []
  | p :: ps => p.text.toList ++ furtherChars ps

theorem toList_text_array (elem : Ty) (length : Nat) : (array elem length).text.toList =
    '[' :: (elem.text.toList ++ ',' :: ' ' :: (Nat.toDigits 10 length ++ [']'])) := by
  simp [text]

theorem toList_text_pointer (target : Ty) :
    (pointer target).text.toList = '*' :: target.text.toList := by
  simp [text]

theorem toList_texts (params : List Ty) :
    (String.intercalate ", " (texts params)).toList = paramChars params := by
  match params with
  | [] => simp [texts, paramChars]
  | [p] => simp [texts, paramChars, furtherChars]
  | p :: q :: ps =>
    have rest := toList_texts (q :: ps)
    simp only [texts] at rest
    simp [texts, rest, paramChars, furtherChars]

/-- The return type of a function is left out if it is the unit type. -/
theorem text_func (params : List Ty) (ret : Ty) : (func params ret).text =
    "(" ++ String.intercalate ", " (texts params) ++ ")" ++
      if ret = .unit then "" else ": " ++ ret.text := by
  have joined (s : String) : "): " ++ s = ")" ++ (": " ++ s) := by
    rw [← String.append_assoc]
    rfl
  cases ret <;> simp [text, joined, String.append_assoc]

theorem toList_text_func (params : List Ty) (ret : Ty) : (func params ret).text.toList =
    '(' :: (paramChars params ++ ')' :: resultChars ret) := by
  rw [text_func]
  by_cases void : ret = unit <;>
    simp [void, toList_texts, resultChars, -String.toList_intercalate]

/-- The first character of a type. -/
def leading : Ty → Char
  | i32 => 'i'
  | unit => 'u'
  | array .. => '['
  | pointer _ => '*'
  | func .. => '('

theorem head?_text (t : Ty) : t.text.toList.head? = some t.leading := by
  cases t with
  | i32 | unit => simp [text, leading]
  | array => simp [toList_text_array, leading]
  | pointer => simp [toList_text_pointer, leading]
  | func => simp [toList_text_func, leading]

/-! ## A type is known by its text -/

/-- Texts that begin alike belong to types of the same kind. -/
theorem leading_eq {a b : Ty} {rest rest' : List Char}
    (same : a.text.toList ++ rest = b.text.toList ++ rest') : a.leading = b.leading := by
  have heads := congrArg List.head? same
  rwa [List.head?_append, List.head?_append, head?_text, head?_text, Option.some_or, Option.some_or,
    Option.some.injEq] at heads

/-- A length ends where its digits do. -/
theorem toDigits_append_inj {n m : Nat} {rest rest' : List Char}
    (same : Nat.toDigits 10 n ++ ']' :: rest = Nat.toDigits 10 m ++ ']' :: rest') :
    n = m ∧ rest = rest' := by
  have digits (k : Nat) (rest : List Char) :
      (Nat.toDigits 10 k ++ ']' :: rest).takeWhile Char.isDigit = Nat.toDigits 10 k := by
    rw [List.takeWhile_append_of_pos fun c mem => Nat.isDigit_of_mem_toDigits (by decide) (by decide) mem]
    simp
  have equal := congrArg (List.takeWhile Char.isDigit) same
  rw [digits, digits] at equal
  rw [equal] at same
  refine ⟨?_, by simpa using same⟩
  rw [← Nat.ofDigitChars_ten_toDigits (n := n), equal, Nat.ofDigitChars_ten_toDigits]

/-- A return type that is not left out is behind the parameters and a colon. -/
theorem resultChars_append_inj {ret ret' : Ty} {rest rest' : List Char}
    (inj : ret.text.toList ++ rest = ret'.text.toList ++ rest' → ret = ret' ∧ rest = rest')
    (ends : rest.head? ≠ some ':') (ends' : rest'.head? ≠ some ':')
    (same : resultChars ret ++ rest = resultChars ret' ++ rest') : ret = ret' ∧ rest = rest' := by
  unfold resultChars at same
  by_cases void : ret = unit <;> by_cases void' : ret' = unit <;> simp only [void, void', if_true,
    if_false, List.nil_append, List.cons_append, List.cons.injEq, true_and] at same
  · exact ⟨void.trans void'.symm, same⟩
  -- Only one of the two is left out: then what follows it would begin with the colon of the other.
  · rw [same] at ends
    exact absurd rfl ends
  · rw [← same] at ends'
    exact absurd rfl ends'
  · exact inj same

/-- Behind a parameter stands a comma or the closing bracket. -/
theorem head?_furtherChars (params : List Ty) (rest : List Char) :
    (furtherChars params ++ ')' :: rest).head? ≠ some ':' := by
  cases params <;> simp [furtherChars]

/-- No parameter begins with the closing bracket. -/
theorem paramChars_cons_ne (p : Ty) (ps : List Ty) (rest rest' : List Char) :
    paramChars (p :: ps) ++ ')' :: rest ≠ ')' :: rest' := by
  intro same
  have heads := congrArg List.head? same
  rw [paramChars, List.append_assoc, List.head?_append, head?_text, Option.some_or] at heads
  cases p <;> simp [leading] at heads

mutual

/-- A type can be read from the front of a text that does not go on with a colon. -/
theorem text_append_inj : (a b : Ty) → {rest rest' : List Char} → rest.head? ≠ some ':' →
    rest'.head? ≠ some ':' → a.text.toList ++ rest = b.text.toList ++ rest' → a = b ∧ rest = rest'
  | i32, b, _, _, _, _, same => by
    have kind := leading_eq same
    cases b with
    | i32 => exact ⟨rfl, List.append_cancel_left same⟩
    | _ => simp [leading] at kind
  | unit, b, _, _, _, _, same => by
    have kind := leading_eq same
    cases b with
    | unit => exact ⟨rfl, List.append_cancel_left same⟩
    | _ => simp [leading] at kind
  | array elem length, b, _, _, _, _, same => by
    have kind := leading_eq same
    cases b with
    | array elem' length' =>
      simp only [toList_text_array, List.cons_append, List.append_assoc, List.nil_append,
        List.cons.injEq, true_and] at same
      obtain ⟨rfl, behind⟩ := text_append_inj elem elem' (by simp) (by simp) same
      simp only [List.cons.injEq, true_and] at behind
      obtain ⟨rfl, rest⟩ := toDigits_append_inj behind
      exact ⟨rfl, rest⟩
    | _ => simp [leading] at kind
  | pointer target, b, _, _, ends, ends', same => by
    have kind := leading_eq same
    cases b with
    | pointer target' =>
      simp only [toList_text_pointer, List.cons_append, List.cons.injEq, true_and] at same
      obtain ⟨rfl, rest⟩ := text_append_inj target target' ends ends' same
      exact ⟨rfl, rest⟩
    | _ => simp [leading] at kind
  | func params ret, b, _, _, ends, ends', same => by
    have kind := leading_eq same
    cases b with
    | func params' ret' =>
      simp only [toList_text_func, List.cons_append, List.append_assoc, List.cons.injEq,
        true_and] at same
      obtain ⟨rfl, behind⟩ := paramChars_append_inj params params' same
      obtain ⟨rfl, rest⟩ := resultChars_append_inj (text_append_inj ret ret' ends ends') ends ends'
        behind
      exact ⟨rfl, rest⟩
    | _ => simp [leading] at kind

/-- The parameters of a function end at the closing bracket. -/
theorem paramChars_append_inj : (ps qs : List Ty) → {rest rest' : List Char} →
    paramChars ps ++ ')' :: rest = paramChars qs ++ ')' :: rest' → ps = qs ∧ rest = rest'
  | [], [], _, _, same => ⟨rfl, (List.cons.inj same).2⟩
  | [], q :: qs, _, _, same => absurd same.symm (paramChars_cons_ne q qs _ _)
  | p :: ps, [], _, _, same => absurd same (paramChars_cons_ne p ps _ _)
  | p :: ps, q :: qs, rest, rest', same => by
    rw [paramChars, paramChars, List.append_assoc, List.append_assoc] at same
    obtain ⟨rfl, behind⟩ := text_append_inj p q (head?_furtherChars ps rest)
      (head?_furtherChars qs rest') same
    obtain ⟨rfl, rest⟩ := furtherChars_append_inj ps qs behind
    exact ⟨rfl, rest⟩

theorem furtherChars_append_inj : (ps qs : List Ty) → {rest rest' : List Char} →
    furtherChars ps ++ ')' :: rest = furtherChars qs ++ ')' :: rest' → ps = qs ∧ rest = rest'
  | [], [], _, _, same => ⟨rfl, (List.cons.inj same).2⟩
  | [], q :: qs, _, _, same => by simp [furtherChars] at same
  | p :: ps, [], _, _, same => by simp [furtherChars] at same
  | p :: ps, q :: qs, rest, rest', same => by
    simp only [furtherChars, List.flatMap_cons, List.cons_append, List.append_assoc, List.cons.injEq,
      true_and] at same
    obtain ⟨rfl, behind⟩ := text_append_inj p q (head?_furtherChars ps rest)
      (head?_furtherChars qs rest') same
    obtain ⟨rfl, rest⟩ := furtherChars_append_inj ps qs behind
    exact ⟨rfl, rest⟩

end

/-- Types with the same text are the same. -/
theorem text_injective : Function.Injective text := by
  intro a b same
  have whole : a.text.toList ++ [] = b.text.toList ++ [] := by rw [same]
  exact (@text_append_inj a b [] [] nofun nofun whole).1

end Ty

/-! ## Types are known by their numbers -/

namespace TyTable

variable {t : TyTable} {made : List (TyId × Ty)}

/-- A node of a table is that of a type. -/
structure Denotes (entry : TyNode × String) (ty : Ty) : Prop where
  text : entry.2 = ty.text
  isUnit : entry.1 = .unit ↔ ty = .unit

/-- A number stands for a type. -/
def Stands (t : TyTable) (id : TyId) (ty : Ty) : Prop :=
  ∃ entry, t.entries[id]? = some entry ∧ Denotes entry ty

theorem Stands.text {id : TyId} {ty : Ty} (h : t.Stands id ty) : t.text id = ty.text := by
  obtain ⟨entry, here, denotes⟩ := h
  rw [TyTable.text, here]
  exact denotes.text

theorem Stands.isUnit {id : TyId} {ty : Ty} (h : t.Stands id ty) :
    t.isUnit id = true ↔ ty = .unit := by
  obtain ⟨entry, here, denotes⟩ := h
  rw [TyTable.isUnit, here, ← denotes.isUnit]
  simp

/-- The numbers that were given out stand for the types that were asked for, and no two entries have the
same text. -/
structure Exact (t : TyTable) (made : List (TyId × Ty)) : Prop where
  distinct : (t.entries.map (·.2)).Nodup
  typed : ∀ entry ∈ t.entries, ∃ ty, Denotes entry ty
  unit : t.Stands unit .unit
  stands : ∀ p ∈ made, t.Stands p.1 p.2

theorem start_exact : ({} : TyTable).Exact [(i32, .i32), (unit, .unit)] := by
  have i32 : Denotes (.i32, "i32") .i32 := ⟨rfl, by simp⟩
  have unit : Denotes (.unit, "unit") .unit := ⟨rfl, by simp⟩
  refine ⟨by decide, ?_, ⟨_, rfl, unit⟩, ?_⟩
  · simp only [List.forall_mem_cons]
    exact ⟨⟨_, i32⟩, ⟨_, unit⟩, nofun⟩
  · simp only [List.forall_mem_cons]
    exact ⟨⟨_, rfl, i32⟩, ⟨_, rfl, unit⟩, nofun⟩

/-- A node with the text of a type gets a number that stands for it. -/
theorem Exact.intern (h : t.Exact made) {node : TyNode} {ty : Ty} (text : t.render node = ty.text)
    (isUnit : node = .unit ↔ ty = .unit) :
    (t.intern node).2.Exact (((t.intern node).1, ty) :: made) := by
  unfold TyTable.intern
  simp only [text]
  split
  · rename_i id found
    obtain ⟨inside, here, -⟩ := List.findIdx?_eq_some_iff_getElem.mp found
    obtain ⟨ty', denotes⟩ := h.typed _ (List.getElem_mem inside)
    -- The entry that was found belongs to this very type, because no other type has its text.
    have same : ty' = ty := by
      refine Ty.text_injective ?_
      rw [← denotes.text]
      exact eq_of_beq here
    subst same
    exact ⟨h.distinct, h.typed, h.unit, List.forall_mem_cons.mpr
      ⟨⟨_, List.getElem?_eq_getElem inside, denotes⟩, h.stands⟩⟩
  · rename_i absent
    have denotes : Denotes (node, ty.text) ty := ⟨rfl, isUnit⟩
    have stays {id : TyId} {ty' : Ty} (stands : t.Stands id ty') :
        (⟨t.entries ++ [(node, ty.text)]⟩ : TyTable).Stands id ty' := by
      obtain ⟨entry, here, denotes⟩ := stands
      exact ⟨entry, List.getElem?_append_left (List.getElem?_eq_some_iff.mp here).1 ▸ here, denotes⟩
    refine ⟨?_, ?_, stays h.unit, List.forall_mem_cons.mpr
      ⟨⟨_, by simp, denotes⟩, fun p mem => stays (h.stands p mem)⟩⟩
    · rw [List.map_append, List.nodup_append]
      refine ⟨h.distinct, by simp, fun old mem new mem' same => ?_⟩
      obtain ⟨entry, here, rfl⟩ := List.mem_map.mp mem
      obtain rfl := List.mem_singleton.mp mem'
      exact absurd (beq_iff_eq.mpr same) (by simpa using List.findIdx?_eq_none_iff.mp absent entry here)
    · intro entry mem
      rcases List.mem_append.mp mem with old | new
      · exact h.typed entry old
      · obtain rfl := List.mem_singleton.mp new
        exact ⟨ty, denotes⟩

/-- What can be asked of a table: new types out of types that were asked for before, by anyone and in
any order. With each number that is given out stands the type that was meant. -/
inductive Made : TyTable → List (TyId × Ty) → Prop
  | start : Made {} [(i32, .i32), (unit, .unit)]
  | array {t t' : TyTable} {made : List (TyId × Ty)} {e id : TyId} {elem : Ty} {length : Int} :
      Made t made → (e, elem) ∈ made → t.arrayOf e length = .ok (id, t') →
      Made t' ((id, .array elem length.toNat) :: made)
  | pointer {t : TyTable} {made : List (TyId × Ty)} {p : TyId} {target : Ty} :
      Made t made → (p, target) ∈ made →
      Made (t.pointerTo p).2 (((t.pointerTo p).1, .pointer target) :: made)
  | func {t : TyTable} {made : List (TyId × Ty)} (params : List (TyId × Ty))
      (ret : Option (TyId × Ty)) : Made t made → (∀ p ∈ params, p ∈ made) → (∀ r ∈ ret, r ∈ made) →
      Made (t.funcType (params.map (·.1)) (ret.map (·.1))).2
        (((t.funcType (params.map (·.1)) (ret.map (·.1))).1,
          .func (params.map (·.2)) ((ret.map (·.2)).getD .unit)) :: made)

/-- The integer type and the unit type are there from the start. -/
theorem Made.start_mem (h : Made t made) : (i32, .i32) ∈ made ∧ (unit, .unit) ∈ made := by
  induction h with
  | start => simp
  | array _ _ _ ih | pointer _ _ ih | func _ _ _ _ _ ih =>
    exact ⟨List.mem_cons_of_mem _ ih.1, List.mem_cons_of_mem _ ih.2⟩

theorem Made.exact (h : Made t made) : t.Exact made := by
  induction h with
  | start => exact start_exact
  | array _ elem asked ih =>
    unfold arrayOf at asked
    split at asked
    · cases asked
    · obtain ⟨rfl, rfl⟩ := Prod.mk.inj (Except.ok.inj asked)
      exact ih.intern (by rw [render, (ih.stands _ elem).text]; rfl) (by simp)
  | pointer _ target ih =>
    exact ih.intern (by rw [render, (ih.stands _ target).text]; rfl) (by simp)
  | @func t made params ret _ known known' ih =>
    have texts (params : List (TyId × Ty)) (known : ∀ p ∈ params, p ∈ made) :
        (params.map (·.1)).map t.text = Ty.texts (params.map (·.2)) := by
      induction params with
      | nil => rfl
      | cons p ps ihp =>
        obtain ⟨first, others⟩ := List.forall_mem_cons.mp known
        rw [List.map_cons, List.map_cons, ihp others, (ih.stands p first).text]
        rfl
    have result : t.Stands ((ret.map (·.1)).getD unit) ((ret.map (·.2)).getD .unit) := by
      cases ret with
      | none => exact ih.unit
      | some r => exact ih.stands r (known' r rfl)
    refine ih.intern ?_ (by simp)
    rw [render, texts params known, result.text, Ty.text_func]
    simp only [result.isUnit]

mutual

/-- All arrays of a type have a positive length. -/
def Proper : Ty → Prop
  | .array elem length => Proper elem ∧ 0 < length
  | .pointer target => Proper target
  | .func params ret => ProperAll params ∧ Proper ret
  | _ => True

/-- All arrays of some types have a positive length. -/
def ProperAll : List Ty → Prop
  | [] => True
  | ty :: tys => Proper ty ∧ ProperAll tys

end

mutual

/-- Every type whose arrays have positive lengths can be built, and nothing is forgotten. -/
theorem Made.build : (ty : Ty) → Proper ty → {t : TyTable} → {made : List (TyId × Ty)} →
    Made t made → ∃ id t' made', t.build ty = .ok (id, t') ∧ Made t' made' ∧ made ⊆ made' ∧
      (id, ty) ∈ made'
  | .i32, _, t, made, h => ⟨_, t, made, rfl, h, List.Subset.refl _, h.start_mem.1⟩
  | .unit, _, t, made, h => ⟨_, t, made, rfl, h, List.Subset.refl _, h.start_mem.2⟩
  | .array elem length, proper, t, made, h => by
    obtain ⟨e, t', made', built, h', keeps, mem⟩ := Made.build elem proper.1 h
    have asked : t'.arrayOf e length = .ok (t'.intern (.array e length)) := by
      rw [arrayOf, if_neg (by have := proper.2; omega)]
      rfl
    refine ⟨_, _, _, ?_, h'.array mem asked, List.subset_cons_of_subset _ keeps, List.mem_cons_self⟩
    rw [TyTable.build, built]
    exact asked
  | .pointer target, proper, t, made, h => by
    obtain ⟨p, t', made', built, h', keeps, mem⟩ := Made.build target proper h
    refine ⟨_, _, _, ?_, h'.pointer mem, List.subset_cons_of_subset _ keeps, List.mem_cons_self⟩
    rw [TyTable.build, built]
    rfl
  | .func params ret, proper, t, made, h => by
    obtain ⟨ps, t₁, made₁, built, h₁, keeps, known, tys⟩ := Made.buildAll params proper.1 h
    obtain ⟨r, t₂, made₂, built', h₂, keeps', mem⟩ := Made.build ret proper.2 h₁
    have next := h₂.func ps (some (r, ret))
      (fun p here => keeps' (known p here)) (by rintro _ ⟨⟩; exact mem)
    rw [tys] at next
    refine ⟨_, _, _, ?_, next, List.subset_cons_of_subset _ (List.Subset.trans keeps keeps'),
      List.mem_cons_self⟩
    rw [TyTable.build, built]
    simp only [bind, Except.bind, built']
    rfl

theorem Made.buildAll : (tys : List Ty) → ProperAll tys → {t : TyTable} →
    {made : List (TyId × Ty)} → Made t made → ∃ (asked : List (TyId × Ty)) (t' : TyTable) (made' : _),
      t.buildAll tys = .ok (asked.map (·.1), t') ∧ Made t' made' ∧ made ⊆ made' ∧
      (∀ p ∈ asked, p ∈ made') ∧ asked.map (·.2) = tys
  | [], _, t, made, h => ⟨[], t, made, rfl, h, List.Subset.refl _, by simp, rfl⟩
  | ty :: tys, proper, t, made, h => by
    obtain ⟨id, t₁, made₁, built, h₁, keeps, mem⟩ := Made.build ty proper.1 h
    obtain ⟨asked, t₂, made₂, built', h₂, keeps', known, rfl⟩ := Made.buildAll tys proper.2 h₁
    refine ⟨(id, ty) :: asked, t₂, made₂, ?_, h₂, List.Subset.trans keeps keeps',
      List.forall_mem_cons.mpr ⟨keeps' mem, known⟩, rfl⟩
    rw [TyTable.buildAll, built]
    simp only [bind, Except.bind, built']
    rfl

end

/-- Types have the same text only if they are the same. So two types of a table, whoever asked for them
and when, have the same text if and only if they are the same, and the same number likewise. -/
theorem number_eq_iff : (∀ a b : Ty, a.text = b.text ↔ a = b) ∧
    ∀ (t : TyTable) (made : List (TyId × Ty)), Made t made → ∀ p ∈ made, ∀ q ∈ made,
      (t.text p.1 = t.text q.1 ↔ p.2 = q.2) ∧ (p.1 = q.1 ↔ p.2 = q.2) := by
  have texts (a b : Ty) : a.text = b.text ↔ a = b := Ty.text_injective.eq_iff
  refine ⟨texts, fun t made h p mem q mem' => ?_⟩
  have exact := h.exact
  have known := exact.stands p mem
  have known' := exact.stands q mem'
  refine ⟨by rw [known.text, known'.text, texts], fun same => ?_, fun same => ?_⟩
  · rw [← texts, ← known.text, same, known'.text]
  · obtain ⟨entry, here, denotes⟩ := known
    obtain ⟨entry', here', denotes'⟩ := known'
    have inside : p.1 < (t.entries.map (·.2)).length := by
      rw [List.length_map]
      exact (List.getElem?_eq_some_iff.mp here).1
    refine (List.getElem?_inj inside exact.distinct).mp ?_
    rw [List.getElem?_map, List.getElem?_map, here, here', Option.map_some, Option.map_some,
      denotes.text, denotes'.text, same]

/-- Functions that return a function, and functions that take one. -/
theorem nestedFunctions_numbered : ∃ t made, Made t made ∧
    (3, .func [] (.func [] .unit)) ∈ made ∧ (4, .func [.func [] .unit] .unit) ∈ made ∧
    (t.text 3 = t.text 4 ↔ Ty.func [] (.func [] .unit) = .func [.func [] .unit] .unit) ∧
    ((3 : TyId) = 4 ↔ Ty.func [] (.func [] .unit) = .func [.func [] .unit] .unit) := by
  let f : Ty := .func [] .unit
  have first : Made _ [(2, f), (0, .i32), (1, .unit)] :=
    Made.start.func [] none nofun nofun
  have second : Made _ [(3, .func [] f), (2, f), (0, .i32), (1, .unit)] :=
    first.func [] (some (2, f)) nofun (by rintro _ ⟨⟩; simp)
  have third : Made _ [(4, .func [f] .unit), (3, .func [] f), (2, f), (0, .i32), (1, .unit)] :=
    second.func [(2, f)] none (by simp) nofun
  have returns : (3, .func [] f) ∈ [(4, .func [f] .unit), (3, .func [] f), (2, f), (0, .i32),
    ((1, .unit) : TyId × Ty)] := by simp
  have numbered := number_eq_iff.2 _ _ third _ returns _ List.mem_cons_self
  exact ⟨_, _, third, returns, List.mem_cons_self, numbered⟩

end TyTable
end SysY.Koopa
