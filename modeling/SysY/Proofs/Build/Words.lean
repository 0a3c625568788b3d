import SysY.Build.Compile
import SysY.Proofs.Lower.Words
import SysY.Proofs.Syntax.Exact
import SysY.Proofs.Syntax.Words

/-! # Only words count

How a source text is laid out makes no difference to what it is compiled to. White space, line
breaks and comments separate words and otherwise only move them, and where a word stands is of
use to diagnostics alone. -/

namespace SysY.Build

open Source (Files File)

/-- The file of a text that exists only in memory. -/
def virtualFile (name : String) (content : Bytes) : File :=
  ((({} : Files).addVirtual name content).get? 0).getD default

section Stages

variable {file file' : File} {l l' : Lexed} (read : Lexed.read file = .ok l)
  (read' : Lexed.read file' = .ok l')
include read read'

/-- Files that were read without lexical errors, with the same words. -/
theorem lexed_same (clean : l.errors = []) (clean' : l'.errors = []) (words : l.words = l'.words) :
    l.Same l' := by
  obtain ⟨-, rfl⟩ := Lexed.read_eq_ok.mp read
  obtain ⟨-, rfl⟩ := Lexed.read_eq_ok.mp read'
  exact ⟨words, (Lexed.ofFile_tokens file).1, (Lexed.ofFile_tokens file').1, clean, clean'⟩

omit read read' in
/-- A program that is refused is refused for the same reason in any file. -/
theorem finishProgram_same (id id' : Nat) (p : Koopa.Program) :
    Outcome.Same Eq (finishProgram id p).2 (finishProgram id' p).2 := by
  unfold finishProgram
  cases p.validate with
  | error f => exact .error rfl
  | ok issues =>
    cases issues with
    | some issues => exact .error rfl
    | none => cases p.text <;> exact .rfl _

/-- The stages of compiling go the same way for files of the same words. -/
theorem runStages_same (same : l.Same l') (withLibrary : Bool) :
    Outcome.Same Eq (runStages file withLibrary).2 (runStages file' withLibrary).2 := by
  have parsed := Parsed.result_same same false
  unfold runStages
  rw [read, read']
  dsimp only
  rw [same.clean, same.clean']
  dsimp only [List.head?_nil]
  generalize (Parsed.ofLexed l false).result = x, (Parsed.ofLexed l' false).result = x' at parsed
  cases parsed with
  | error related => exact .error related
  | @ok u u' related =>
    have lowered := Lowered.result_same related withLibrary false
    dsimp only
    generalize Lowered.ofUnit u withLibrary false = l,
      Lowered.ofUnit u' withLibrary false = l' at lowered
    obtain ⟨result, bodies⟩ := l
    obtain ⟨result', bodies'⟩ := l'
    cases lowered with
    | error related => exact .error related
    | ok related =>
      subst related
      exact finishProgram_same _ _ _

end Stages

section Compile

variable {files : Files} {file : File} {withLibrary : Bool}

theorem compile_of_ok {p : Koopa.Program} {text : String}
    (ran : (runStages file withLibrary).2 = .ok (p, text)) :
    (compile files file withLibrary false).result =
      { path := file.path, files := files, program := some p, ir := text } := by
  unfold compile
  generalize runStages file withLibrary = stages at ran
  obtain ⟨runs, r⟩ := stages
  obtain rfl : r = .ok (p, text) := ran
  rfl

theorem compile_of_error {f : Failure} (ran : (runStages file withLibrary).2 = .error f) :
    (compile files file withLibrary false).result =
      { path := file.path, files := files, failure := some f } := by
  unfold compile
  generalize runStages file withLibrary = stages at ran
  obtain ⟨runs, r⟩ := stages
  obtain rfl : r = .error f := ran
  rfl

end Compile

/-- Two texts of the same words that are read without lexical errors are compiled to the same program
and text, or not at all for the same reason: with the same code and the same message. -/
theorem compileText_same_words {name name' : String} {content content' : Bytes} {l l' : Lexed}
    (read : Lexed.read (virtualFile name content) = .ok l) (clean : l.errors = [])
    (read' : Lexed.read (virtualFile name' content') = .ok l') (clean' : l'.errors = [])
    (words : l.words = l'.words) (withLibrary canceled : Bool) :
    let c := (compileText name content withLibrary canceled).result
    let c' := (compileText name' content' withLibrary canceled).result
    (c.failure = none ∧ c'.failure = none ∧ c.program = c'.program ∧ c.ir = c'.ir) ∨
      ∃ f f', c.failure = some f ∧ c'.failure = some f' ∧ f.code = f'.code ∧
        (Diag.Diagnostic.ofFailure f).message = (Diag.Diagnostic.ofFailure f').message := by
  cases canceled with
  | true => exact .inr ⟨.canceled, .canceled, rfl, rfl, rfl, rfl⟩
  | false =>
    unfold compileText
    dsimp only
    rw [← virtualFile, ← virtualFile]
    have same := lexed_same read read' clean clean' words
    rcases (runStages_same read read' same withLibrary).cases with
      ⟨r, ran, ran'⟩ | ⟨f, f', ran, ran', same⟩
    · rw [compile_of_ok ran, compile_of_ok ran']
      exact .inl ⟨rfl, rfl, rfl, rfl⟩
    · rw [compile_of_error ran, compile_of_error ran']
      exact .inr ⟨f, f', rfl, rfl, Failure.code_of_blank same, Failure.message_of_blank same⟩

/-- A program on one line. -/
def dense : Bytes := Bytes.ofString "int main()\x7breturn 1+2;\x7d"

/-- The same program with comments, on several lines. -/
def airy : Bytes :=
  Bytes.ofString "// Three.\nint main ( ) \x7b\n  /* the\n sum */ return 1 + 2 ;\n\x7d\n"

/-- Both become the same text. -/
theorem dense_airy_same : (compileText "dense.sy" dense true false).result.failure.isNone ∧
    (compileText "dense.sy" dense true false).result.ir =
      (compileText "airy.sy" airy true false).result.ir := by
  have read : Lexed.read (virtualFile "dense.sy" dense) =
      .ok (.ofFile (virtualFile "dense.sy" dense)) := Lexed.read_eq_ok.mpr ⟨by decide +kernel, rfl⟩
  have read' : Lexed.read (virtualFile "airy.sy" airy) =
      .ok (.ofFile (virtualFile "airy.sy" airy)) := Lexed.read_eq_ok.mpr ⟨by decide +kernel, rfl⟩
  have clean : (Lexed.ofFile (virtualFile "dense.sy" dense)).errors = [] := by decide +kernel
  have clean' : (Lexed.ofFile (virtualFile "airy.sy" airy)).errors = [] := by decide +kernel
  have words : (Lexed.ofFile (virtualFile "dense.sy" dense)).words =
      (Lexed.ofFile (virtualFile "airy.sy" airy)).words := by decide +kernel
  have succeeds : (compileText "dense.sy" dense true false).result.failure.isNone := by
    decide +kernel
  refine ⟨succeeds, ?_⟩
  rcases compileText_same_words read clean read' clean' words true false with
    ⟨-, -, -, same⟩ | ⟨f, -, fails, -⟩
  · exact same
  · rw [fails] at succeeds
    cases succeeds

end SysY.Build
