import SysY.Failure

/-! # Stages and progress

The stages of compiling a file, and the events that tell how far a build has come. -/

namespace SysY.Build

/-- A step of compiling a file. -/
inductive Stage where
  | lex | parse | lower | validate | emit
  /-- Looking the result up instead of compiling. -/
  | cache
deriving DecidableEq, Repr

/-- The name of a stage. -/
def Stage.name : Stage → String
  | lex => "lex"
  | parse => "parse"
  | lower => "lower"
  | validate => "validate"
  | emit => "emit"
  | cache => "cache"

/-- The stages of compiling, in order. -/
def Stage.all : List Stage := [.lex, .parse, .lower, .validate, .emit]

/-- How far a file is. -/
inductive Status where
  | queued | working | done | cached | error
deriving DecidableEq, Repr

/-- The name of a status. -/
def Status.name : Status → String
  | queued => "queued"
  | working => "working"
  | done => "done"
  | cached => "cached"
  | error => "error"

/-- Progress of a file. A file that is queued is at no stage yet. -/
structure Event where
  file : String
  stage : Option Stage
  status : Status
  failure : Option Failure := none

/-- A timed phase: a stage of a file, and a remark on how it ended. -/
structure Phase where
  file : String
  name : String
  note : String := ""
deriving DecidableEq, Repr

end SysY.Build
