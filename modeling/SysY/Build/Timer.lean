import SysY.Build.Stage

/-! # Timings

Which phases were timed. How long a phase took is not part of a computation, so that a summary is
given a text for it. -/

namespace SysY.Build

/-- The phases that were timed, in the order in which they began. -/
structure Timer where
  phases : List Phase := []
deriving Repr

namespace Timer

/-- Begin a phase. Its number is the number of phases before it. -/
def start (t : Timer) (file name : String) : Timer :=
  { t with phases := t.phases ++ [{ file := file, name := name }] }

/-- End a phase with a remark. There is no phase with a number out of range. -/
def finish (t : Timer) (number : Nat) (note : String) : Timer :=
  { t with phases := t.phases.modify number fun p => { p with note := note } }

/-- Begin and end a phase. -/
def record (t : Timer) (file name : String) (failed : Bool) : Timer :=
  (t.start file name).finish t.phases.length (if failed then "failed" else "")

/-- How often each phase occurred, by first occurrence. -/
def report (t : Timer) : List (String × Nat) :=
  let names := t.phases.map (·.name)
  names.eraseDups.map fun n => (n, names.count n)

/-- All phases with their durations, and the total. Blanks at the end of a name do not show. -/
def summary (t : Timer) (duration : String) : String :=
  let row (name : String) (calls : Nat) : String :=
    let label := String.ofList (("  " ++ name).toList.reverse.dropWhile (· == ' ')).reverse
    s!"{label} {duration} ms" ++ (if calls > 1 then s!"  x{calls}" else "") ++ "\n"
  "timings:\n" ++ String.join (t.report.map fun (n, calls) => row n calls) ++ row "total" 1

end Timer
end SysY.Build
