import SysY.Trace.Event
import SysY.Trace.Ring

/-! # Tracers

A tracer records events. It writes them to an output as they come, keeps the most recent ones in a
ring, or does both. Stored events are numbered in order, and so are spans. -/

namespace SysY.Trace

/-- The number of numbers for events and spans. They are 64-bit words. -/
def numberModulus : Nat := 0x10000000000000000

/-- The next number. After the greatest one comes 0. -/
def nextNumber (n : Nat) : Nat := (n + 1) % numberModulus

/-- What is shown for times, durations and workers, which no computation depends on. -/
structure Stamp where
  time : String := ""
  /-- The time of day. -/
  clock : String := ""
  /-- A duration with its unit. -/
  duration : String := ""
  /-- A duration in milliseconds, without unit. -/
  milliseconds : String := ""
  worker : Option Nat := none

/-- An event in the ring. The extra fields of an end event stay those of its span. -/
structure Record where
  event : Event
  ofSpan : Bool := false

/-- A tracer with what it has recorded. Without output and ring it records nothing. -/
structure Tracer where
  level : Level := .off
  /-- The format of the output, if events are written. -/
  stream : Option Format := none
  /-- The most recent events, if they are kept. -/
  ring : Option (Ring Record) := none
  /-- What has been written. -/
  output : String := ""
  lastSeq : Nat := 0
  lastSpan : Nat := 0
  stamp : Stamp := {}

/-- An open span. One that is not recorded has number 0 and only knows its parent. -/
structure Span where
  recorded : Bool := false
  number : Nat := 0
  parent : Nat := 0
  scope : Scope := ⟨0⟩
  name : String := ""
  extra : List (String × String) := []
deriving Inhabited

namespace Span

/-- The number under which children of a span are recorded. -/
def id (s : Span) : Nat := if s.number = 0 then s.parent else s.number

/-- Set an extra field. -/
def setExtra (s : Span) (key value : String) : Span :=
  { s with extra := s.extra.filter (·.1 != key) ++ [(key, value)] }

end Span

namespace Tracer

/-- The tracer for a level and a storage mode. At level `off` nothing is recorded. -/
def create (level : Level) (mode : Mode) (format : Format) (ringSize : Int) (stamp : Stamp) :
    Outcome Tracer := do
  if level = .off then return { stamp := stamp }
  else if mode = .ring then
    return { level := level, ring := some (← Ring.empty ringSize), stamp := stamp }
  else if mode = .stream then return { level := level, stream := some format, stamp := stamp }
  else if mode = .both then
    return { level := level, stream := some format, ring := some (← Ring.empty ringSize)
             stamp := stamp }
  else throw (.other s!"trace: unknown storage mode {mode.name}")

/-- Whether anything is traced. -/
def isEnabled (t : Tracer) : Bool := t.level ≠ .off

/-- Write an event to the output. -/
def write (t : Tracer) (e : Event) : Tracer :=
  match t.stream with
  | none => t
  | some f =>
    if t.level.emits e.scope || e.kind = .heartbeat then
      let seq := nextNumber t.lastSeq
      { t with lastSeq := seq, output := t.output ++ ({ e with seq := seq } : Event).render f }
    else t

/-- Keep an event in the ring. At level `error` the ring keeps what level `phase` records. -/
def keep (t : Tracer) (e : Event) (ofSpan : Bool) : Tracer :=
  match t.ring with
  | none => t
  | some r =>
    let level := if t.level = .error then .phase else t.level
    if level.emits e.scope || e.kind = .heartbeat then
      let seq := nextNumber t.lastSeq
      let record : Record := { event := { e with seq := seq }, ofSpan := ofSpan }
      { t with lastSeq := seq, ring := some (r.push record) }
    else t

/-- Record an event; `ofSpan` tells whether it ends a span. -/
def emitAs (t : Tracer) (ofSpan : Bool) (e : Event) : Tracer := (t.write e).keep e ofSpan

/-- Record an event. -/
def emit (t : Tracer) (e : Event) : Tracer := t.emitAs false e

/-- Whether spans and points of a scope reach the tracer. At level `error` passes do, so that a ring
can keep them. -/
def wants (t : Tracer) (s : Scope) : Bool :=
  t.isEnabled && (t.level.emits s || (t.level = .error && s.number ≤ Scope.pass.number))

/-- Open a span below another one. -/
def start (t : Tracer) (scope : Scope) (name : String) (parent : Nat) : Span × Tracer :=
  if t.wants scope then
    let span := nextNumber t.lastSpan
    let t := ({ t with lastSpan := span } : Tracer).emit
      { time := t.stamp.time, kind := .spanBegin, scope := scope, span := span, parent := parent,
        worker := t.stamp.worker, name := name }
    ({ recorded := true, number := span, parent := parent, scope := scope, name := name }, t)
  else ({ parent := parent }, t)

/-- Let the stored end events of a span have its extra fields. -/
def refresh (t : Tracer) (s : Span) : Tracer :=
  { t with
    ring := t.ring.map (·.map fun r =>
      if r.ofSpan && r.event.span == s.number then
        { r with event := { r.event with extra := s.extra } }
      else r) }

/-- Attach an extra field to the end event of a span. -/
def annotate (t : Tracer) (s : Span) (key value : String) : Span × Tracer :=
  if !s.recorded then (s, t)
  else
    let s := s.setExtra key value
    (s, t.refresh s)

/-- Close a span. -/
def finish (t : Tracer) (s : Span) (detail : String) : Span × Tracer :=
  if !s.recorded then (s, t)
  else
    let (s, t) := t.annotate s "dur" t.stamp.duration
    (s, t.emitAs true
      { time := t.stamp.time, kind := .spanEnd, scope := s.scope, span := s.number,
        parent := s.parent, worker := t.stamp.worker, name := s.name, detail := detail,
        extra := s.extra })

/-- Record a point below a span. -/
def point (t : Tracer) (scope : Scope) (name detail : String) (parent : Nat) : Tracer :=
  if t.wants scope then
    t.emit { time := t.stamp.time, kind := .point, scope := scope, parent := parent,
             worker := t.stamp.worker, name := name, detail := detail }
  else t

/-- The events in the ring, oldest first. -/
def recent? (t : Tracer) : Option (List Event) := t.ring.map fun r => r.toList.map (·.event)

/-- The events in the ring as text. -/
def dump? (t : Tracer) (f : Format) : Option String :=
  t.recent?.map fun es => String.join (es.map (·.render f))

/-- Record `n` heartbeats. -/
def heartbeats (t : Tracer) (n : Nat) : Tracer :=
  if t.isEnabled then
    (List.range n).foldl (fun t i => t.emit
      { time := t.stamp.time, kind := .heartbeat, scope := .driver, worker := t.stamp.worker,
        name := "heartbeat", detail := s!"#{i + 1}" }) t
  else t

end Tracer

/-! ## Tasks -/

/-- What a run did, as far as it is traced. -/
inductive Task where
  /-- Something that takes time and contains other tasks. -/
  | span (scope : Scope) (name : String) (extra : List (String × String)) (detail : String)
      (inner : List Task)
  /-- Something that just happens. -/
  | point (scope : Scope) (name detail : String)
  /-- A task that is attached to the parent of the span it happens in. -/
  | beside (task : Task)

namespace Tracer

mutual

/-- Record a task inside of span `parent`, whose own parent is `outer`. -/
def record (t : Tracer) (outer parent : Nat) : Task → Tracer
  | .span scope name extra detail inner =>
    let (s, t) := t.start scope name parent
    let (s, t) := extra.foldl (fun (s, t) (k, v) => Tracer.annotate t s k v) (s, t)
    let t := recordAll t parent s.id inner
    (t.finish s detail).2
  | .point scope name detail => t.point scope name detail parent
  | .beside task => record t outer outer task

/-- Record tasks in order. -/
def recordAll (t : Tracer) (outer parent : Nat) : List Task → Tracer
  | [] => t
  | task :: tasks => recordAll (record t outer parent task) outer parent tasks

end

end Tracer
end SysY.Trace
