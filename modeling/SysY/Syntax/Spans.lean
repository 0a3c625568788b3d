import SysY.Syntax

/-! # Span checks

Whether the spans of a unit and its items fit into the file they come from. -/

namespace SysY

open Source (Span)

/-- What can be wrong with the spans of a unit. -/
inductive SpanIssue where
  | fileOutside (span : Span) (size : Nat)
  | noItem (id : Nat)
  | emptyItem (span : Span)
  | otherFile (span : Span) (file : Nat)
  | itemOutside (span file : Span)
deriving DecidableEq, Repr

/-- The issue in words. -/
def SpanIssue.message : SpanIssue → String
  | fileOutside s size => s!"file span {s.text} outside content of {size} bytes"
  | noItem id => s!"nil item for id={id}"
  | emptyItem s => s!"empty item span {s.text}"
  | otherFile s file => s!"item span {s.text} points to file {s.file}, want {file}"
  | itemOutside s f => s!"item span {s.text} outside file span {f.text}"

/-- What is wrong with an item of a unit that spans `whole` in file number `file`. -/
def Item.spanIssue? (file : Nat) (whole : Span) (item : Item) : Option SpanIssue :=
  match item with
  | .missing id => some (.noItem id)
  | .fn s _ | .decl s _ | .bare s _ =>
    if s.stop ≤ s.start then some (.emptyItem s)
    else if s.file ≠ file then some (.otherFile s file)
    else if s.start < whole.start ∨ whole.stop < s.stop then some (.itemOutside s whole)
    else none

/-- All that is wrong with the spans of a unit from a file of `size` bytes. When the unit itself
does not fit, its items are not looked at. -/
def CompUnit.spanIssues (u : CompUnit) (file size : Nat) : List SpanIssue :=
  if u.span.stop < u.span.start ∨ size < u.span.stop then [.fileOutside u.span size]
  else u.items.filterMap (Item.spanIssue? file u.span)

end SysY
