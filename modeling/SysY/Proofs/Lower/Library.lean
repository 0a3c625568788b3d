import SysY.Proofs.Koopa.TextBehind
import SysY.Proofs.Lower.Inert
import SysY.Proofs.Lower.Output

/-! # The runtime library is inert when it is not used

The runtime library is declared ahead of the first item. A source in which none of its names occurs
is lowered to the same program with or without it, behind its declarations, or fails for the same
reason. So the text of the program only gets one line more for each function of the library. -/

namespace SysY

namespace Lower

/-! ## The state ahead of the first item -/

/-- The state after the runtime library was declared. -/
@[irreducible]
def libraryState : State :=
  match declareLibrary library {} with
  | .ok _ σ => σ
  | .error _ σ => σ

/-- The text of the declarations of the runtime library. -/
def libraryLines : List String :=
  ["decl @getint(): i32",
   "decl @getch(): i32",
   "decl @getarray(*i32): i32",
   "decl @putint(i32): i32",
   "decl @putch(i32): i32",
   "decl @putarray(i32, *i32): i32",
   "decl @starttime(): i32",
   "decl @stoptime(): i32"]

/-- The program holds the functions of the library and nothing else, their names and no others are
bound globally, no function is being built, and no body was lowered. -/
structure State.OnlyLibrary (σ : State) : Prop where
  fns : σ.program.fns.toList.map (·.name) = library.map ("@" ++ ·.name)
  lines : σ.program.fns.toList.map (·.declLine) = libraryLines
  bodiless : ∀ d ∈ σ.program.fns.toList, d.layout = []
  inner : ∀ x ∈ σ.program.values.toList, x.home.isSome
  blocks : σ.program.blocks.isEmpty
  names : σ.symbols.global.names.map (·.1) = (library.map (·.name)).reverse
  kind : σ.symbols.global.kind = .global
  locals : σ.symbols.locals.isEmpty
  counts : σ.symbols.pushes = 0 ∧ σ.symbols.pops = 0
  frame : σ.frame.fn = 0 ∧ σ.frame.ret = .int ∧ σ.frame.span = {} ∧ σ.frame.block = 0 ∧
    σ.frame.isOpen = false ∧ σ.frame.nextBlock = 0 ∧ σ.frame.loops = []
  bodies : σ.bodies = []

/-- Declaring the library succeeds, and does no more than that. -/
theorem declareLibrary_library :
    declareLibrary library {} = .ok () libraryState ∧ libraryState.OnlyLibrary := by
  have runs : (match declareLibrary library {} with
    | .ok .. => true
    | .error .. => false) = true := by decide +kernel
  refine ⟨?_, ?_⟩
  · unfold libraryState
    generalize declareLibrary library {} = r at runs
    cases r with
    | ok => rfl
    | error => cases runs
  · constructor <;> decide +kernel

/-- Names other than those of the runtime library are free. -/
theorem libraryState_free {name : String} :
    libraryState.symbols.globalId? name = none ↔ name ∉ library.map (·.name) := by
  rw [← List.mem_reverse, ← declareLibrary_library.2.names]
  refine List.lookup_eq_none_iff.trans ?_
  simp only [bne_iff_ne, List.mem_map, not_exists, not_and]
  exact forall₂_congr fun entry _ => ne_comm

theorem libraryState_called {d : Koopa.Fn} (mem : d ∈ libraryState.program.fns) :
    ∃ l ∈ library, d.name = "@" ++ l.name := by
  have listed := List.mem_map_of_mem (f := (·.name)) (Array.mem_toList_iff.mpr mem)
  rw [declareLibrary_library.2.fns] at listed
  obtain ⟨l, here, same⟩ := List.mem_map.mp listed
  exact ⟨l, here, same.symm⟩

theorem libraryState_declares : libraryState.program.Declares := by
  have only := declareLibrary_library.2
  refine ⟨fun d mem => only.bodiless d (Array.mem_toList_iff.mpr mem),
    fun x mem => only.inner x (Array.mem_toList_iff.mpr mem), ?_, ?_⟩
  all_goals
    rw [Koopa.Program.fnNames, only.fns]
    decide

theorem libraryState_outside : libraryState.frame = {} := by
  have same := declareLibrary_library.2.frame
  revert same
  cases libraryState.frame
  rintro ⟨rfl, rfl, rfl, rfl, rfl, rfl, rfl⟩
  rfl

theorem libraryState_named : ∀ d ∈ libraryState.program.fns,
    ∃ name, d.name = "@" ++ name ∧ (libraryState.symbols.globalId? name).isSome := by
  intro d mem
  obtain ⟨l, here, named⟩ := libraryState_called mem
  refine ⟨l.name, named, Option.isSome_iff_ne_none.mpr fun free => ?_⟩
  exact libraryState_free.mp free (List.mem_map_of_mem here)

/-- The runtime library, declared ahead of the first item. -/
def libraryAhead : Ahead :=
  have only := declareLibrary_library.2
  ⟨libraryState, libraryState_declares, libraryState_named, Array.isEmpty_iff.mp only.blocks,
    List.isEmpty_iff.mp only.locals, only.kind, only.counts, libraryState_outside, only.bodies⟩

theorem libraryAhead_lines : libraryAhead.program.fns.toList.map (fun d => [d.declLine]) =
    libraryLines.map ([·]) := by
  have same : libraryAhead.program = libraryState.program := rfl
  rw [same, ← declareLibrary_library.2.lines, List.map_map]
  exact List.map_congr_left fun d _ => rfl

/-! ## Units -/

section Units

variable {base : Ahead} {u : CompUnit}

theorem closeBlocks_beside : Beside base id
    (do setProgram (← lift (← get).program.closeBlocks)) (do
      setProgram (← lift (← get).program.closeBlocks)) :=
  get_beside fun σ avoids => by
    refine liftBind_beside (σ.program.closeBlocks_follows base.program base.declares)
      fun p closed => setProgram_beside ?_
    exact (Koopa.Program.avoids_closable base.declares.nameless).closeBlocks closed avoids

/-- A unit that names none of the functions that are declared ahead. -/
theorem unit_beside (only : u.Only base.Free) (canceled : Bool) :
    Beside base id (unit false canceled u) (unit false canceled u) :=
  (items_beside canceled only).next fun _ => closeBlocks_beside

theorem unit_library (canceled : Bool) :
    unit true canceled u {} = unit false canceled u libraryState := by
  change (declareLibrary library >>= fun _ => unit false canceled u) {} = _
  exact bind_ok declareLibrary_library.1

/-- How a unit is lowered without the runtime library and with it, when it names no function of
the library. -/
theorem unit_endBeside (only : u.Only libraryAhead.Free) (canceled : Bool) :
    EndBeside libraryAhead id (unit false canceled u {}) (unit true canceled u {}) := by
  have ends := unit_beside only canceled {} ⟨by simp, by simp⟩
  rw [State.behind_start] at ends
  rw [unit_library]
  exact ends

end Units

end Lower

/-- A unit that names no function of the runtime library is lowered with the library to what it is
lowered to without it, behind the library. -/
theorem Lowered.library_behind {u : CompUnit} (only : u.Only Lower.libraryAhead.Free)
    (canceled : Bool) :
    (∃ e f, (ofUnit u false canceled).result = .error e ∧
      (ofUnit u true canceled).result = .error f ∧ e.Alike f) ∨
    ∃ σ : Lower.State, Lower.unit false canceled u {} = .ok () σ ∧ σ.Avoids Lower.libraryAhead ∧
      (ofUnit u false canceled).result = .ok σ.program ∧
      (ofUnit u true canceled).result = .ok (σ.program.behind Lower.libraryAhead.program) := by
  have ends := Lower.unit_endBeside only canceled
  unfold ofUnit
  generalize Lower.unit false canceled u {} = r, Lower.unit true canceled u {} = r' at ends
  cases ends with
  | @ok a σ avoids => exact .inr ⟨σ, rfl, avoids, rfl, rfl⟩
  | error alike => exact .inl ⟨_, _, rfl, rfl, alike⟩

section Source

open Koopa.Program (pages)

variable {f : Source.File} {u : CompUnit}

/-- A source in which no name of the runtime library occurs either fails for the same reason with
and without the library, or is lowered to programs whose texts have the same global variables and
the same functions; with the library there is one more line for each of its functions in between. -/
theorem library_inert (parsed : (Parsed.ofLexed (.ofFile f) false).result = .ok u)
    (unnamed : ∀ t ∈ (Lexed.ofFile f).tokens, t.kind = .ident →
      t.name ∉ Lower.library.map (·.name)) (canceled : Bool) :
    (∃ e, (Lowered.ofUnit u true canceled).result = .error e ∧
      (Lowered.ofUnit u false canceled).result = .error e) ∨
    ∃ p q globals fns, (Lowered.ofUnit u true canceled).result = .ok p ∧
      (Lowered.ofUnit u false canceled).result = .ok q ∧
      p.parts = .ok (globals, Lower.libraryLines.map ([·]) ++ fns) ∧
      q.parts = .ok (globals, fns) ∧
      p.text = .ok (pages globals (Lower.libraryLines.map ([·]) ++ fns)) ∧
      q.text = .ok (pages globals fns) := by
  have whole := Parsed.whole parsed
  have only : u.Only Lower.libraryAhead.Free :=
    Parsed.only parsed fun t mem isName => Lower.libraryState_free.mpr (unnamed t mem isName)
  rcases Lowered.library_behind only canceled with
    ⟨e, e', failed, failed', alike⟩ | ⟨σ, ran, avoids, made, made'⟩
  · refine .inl ⟨e, ?_, failed⟩
    rcases alike with rfl | ⟨unexpected, -⟩
    · exact failed'
    · exact absurd (Lowered.expected whole failed) unexpected
  · obtain ⟨avail, made₀⟩ := Lowered.made whole ran
    obtain ⟨globals, fns, parts, parts'⟩ :=
      Koopa.Program.parts_behind Lower.libraryAhead.declares avoids made₀.ok
    rw [Lower.libraryAhead_lines] at parts'
    refine .inr ⟨_, _, globals, fns, made', made, parts', parts, ?_, ?_⟩
    · rw [Koopa.Program.text_eq_pages, parts']
      rfl
    · rw [Koopa.Program.text_eq_pages, parts]
      rfl

theorem sample_unnamed : ∀ t ∈ (Lexed.ofFile sample).tokens, t.kind = .ident →
    t.name ∉ Lower.library.map (·.name) := by decide +kernel

/-- The text of the sample without the library has the same parts, and no more. -/
theorem sample_library_inert : ∃ q globals fns,
    (Lowered.ofUnit sampleUnit false false).result = .ok q ∧
      sampleProgram.text = .ok (pages globals (Lower.libraryLines.map ([·]) ++ fns)) ∧
      q.text = .ok (pages globals fns) := by
  rcases library_inert sample_parsed sample_unnamed false with
    ⟨e, failed, -⟩ | ⟨p, q, globals, fns, made, made', -, -, text, text'⟩
  · exact absurd (sample_accepted.symm.trans failed) nofun
  · obtain rfl := Except.ok.inj (sample_accepted.symm.trans made)
    exact ⟨q, globals, fns, made', text, text'⟩

end Source

end SysY
