import Mathlib.Data.List.DropRight
import SysY.Trace.Tracer

/-! # Rings keep the latest events

The slots of a ring lie in two parts, those in front of its head and those from the head on. As long as
the ring is not full, the front part holds all entries; from then on the back part followed by the front
part does, and storing an entry moves one slot from the back to the front. So a ring always holds the
latest entries, as many as it has slots. A tracer stores the events that its level lets through, and
numbers them as they come, with the 64-bit words of a counter that goes up. -/

namespace SysY.Trace

namespace Ring

variable {α : Type} {r : Ring α} {front back : List (Option α)} {capacity : Nat} {entries : List α}

/-! ## The two parts of a ring -/

/-- The slots in front of the head, and those from the head on, of which there is always one. -/
structure Parts (r : Ring α) (front back : List (Option α)) : Prop where
  slots : r.slots.toList = front ++ back
  head : r.head = front.length
  room : back ≠ []

theorem Parts.size (h : r.Parts front back) : r.slots.size = front.length + back.length := by
  rw [← Array.length_toList, h.slots, List.length_append]

theorem Parts.toList_eq (h : r.Parts front back) :
    r.toList = (if r.full then back ++ front else front).filterMap id := by
  simp only [toList, h.slots, h.head, List.drop_left, List.take_left]

section Push

variable {slot : Option α} {rest : List (Option α)} (h : r.Parts front (slot :: rest)) (a : α)
include h

/-- The first slot from the head on takes the new entry. -/
theorem Parts.slots_push : (r.push a).slots.toList = front ++ some a :: rest := by
  simp [push, h.slots, h.head, List.set_append_right]

/-- While slots are left behind it, the new entry joins the front part. -/
theorem Parts.push_inside (more : rest ≠ []) :
    (r.push a).Parts (front ++ [some a]) rest ∧ (r.push a).full = r.full := by
  have after : front.length + 1 < r.slots.size := by
    have := List.length_pos_of_ne_nil more
    rw [h.size, List.length_cons]
    omega
  have next : (r.push a).head = front.length + 1 := by
    rw [push, h.head]
    exact Nat.mod_eq_of_lt after
  refine ⟨⟨by simp [h.slots_push a], by simp [next], more⟩, ?_⟩
  have wraps : ((r.head + 1) % r.slots.size == 0) = false := by
    rw [h.head, Nat.mod_eq_of_lt after]
    rfl
  simp only [push, wraps, Bool.or_false]

end Push

/-- Behind the last slot comes the first one again, and the ring is full. -/
theorem Parts.push_last {slot : Option α} (h : r.Parts front [slot]) (a : α) :
    (r.push a).Parts [] (front ++ [some a]) ∧ (r.push a).full = true := by
  have wraps : (r.head + 1) % r.slots.size = 0 := by
    rw [h.head, h.size, List.length_singleton, Nat.mod_self]
  refine ⟨⟨h.slots_push a, by simp only [push, wraps, List.length_nil], by simp⟩, ?_⟩
  simp only [push, wraps, beq_self_eq_true, Bool.or_true]

/-! ## The entries of a ring -/

/-- A ring holds the latest of some entries: all of them until it is full, and then as many as it has
slots. -/
inductive Holds (r : Ring α) (capacity : Nat) (entries : List α) : Prop
  | filling (front back : List (Option α)) (parts : r.Parts front back)
      (size : front.length + back.length = capacity) (full : r.full = false)
      (all : front = entries.map some)
  | full (front back : List (Option α)) (parts : r.Parts front back)
      (size : front.length + back.length = capacity) (full : r.full = true)
      (many : capacity ≤ entries.length)
      (latest : back ++ front = (entries.rtake capacity).map some)

/-- The number of slots for a wanted capacity. -/
def slotsFor (capacity : Int) : Nat := if capacity ≤ 0 then 4096 else capacity.toNat

theorem slotsFor_pos (capacity : Int) : 0 < slotsFor capacity := by
  unfold slotsFor
  split <;> omega

theorem empty_eq (capacity : Int) : (empty capacity : Outcome (Ring α)) =
    if slotsFor capacity * 104 ≤ 0x1000000000000 then .ok (free (slotsFor capacity))
    else .outOfRange := by
  have limit : slotsFor capacity ≤ maxSlots ↔ slotsFor capacity * 104 ≤ 0x1000000000000 :=
    Nat.le_div_iff_mul_le (by decide)
  simp only [← limit]
  rfl

theorem free_holds {n : Nat} (positive : 0 < n) : (free n : Ring α).Holds n [] := by
  refine .filling [] _ ⟨Array.toList_replicate, rfl, ?_⟩ (by simp) rfl rfl
  rw [ne_eq, List.replicate_eq_nil_iff]
  exact positive.ne'

/-- One entry more drives out the oldest of the latest entries. -/
theorem rtake_concat {n : Nat} (positive : 0 < n) (many : n ≤ entries.length) (a : α) :
    (entries ++ [a]).rtake n = (entries.rtake n).tail ++ [a] := by
  have next : entries.length + 1 - n = entries.length - n + 1 := by omega
  rw [List.rtake, List.length_append, List.length_singleton, next, List.rtake, List.tail_drop]
  exact List.drop_append_of_le_length (by omega)

theorem Holds.push (h : r.Holds capacity entries) (a : α) :
    (r.push a).Holds capacity (entries ++ [a]) := by
  cases h with
  | filling front back parts size full all =>
    match back, parts.room with
    | [slot], _ =>
      -- The last free slot is taken. From here on the ring holds `capacity` entries.
      obtain ⟨parts', full'⟩ := parts.push_last a
      have length : (entries ++ [a]).length = capacity := by
        rw [← size, all]
        simp
      refine .full [] (front ++ [some a]) parts' (by simpa using size) full' (Nat.le_of_eq length.symm) ?_
      rw [List.rtake, length, Nat.sub_self, all]
      simp
    | slot :: next :: rest, _ =>
      obtain ⟨parts', full'⟩ := parts.push_inside a nofun
      refine .filling _ _ parts' ?_ (full'.trans full) (by simp [all])
      simp only [List.length_append, List.length_cons, List.length_nil] at size ⊢
      omega
  | full front back parts size full many latest =>
    have positive : 0 < capacity := by
      have := List.length_pos_of_ne_nil parts.room
      omega
    have many' : capacity ≤ (entries ++ [a]).length := by
      rw [List.length_append]
      omega
    -- The new entry overwrites the first slot of the back part, which is that of the oldest entry.
    have moved : (back ++ front).tail ++ [some a] = ((entries ++ [a]).rtake capacity).map some := by
      rw [latest, rtake_concat positive many, List.map_append, List.map_tail]
      rfl
    match back, parts.room with
    | [slot], _ =>
      obtain ⟨parts', full'⟩ := parts.push_last a
      exact .full [] (front ++ [some a]) parts' (by simpa using size) full' many' (by simpa using moved)
    | slot :: next :: rest, _ =>
      obtain ⟨parts', full'⟩ := parts.push_inside a nofun
      refine .full _ _ parts' ?_ (full'.trans full) many' (by simpa using moved)
      simp only [List.length_append, List.length_cons, List.length_nil] at size ⊢
      omega

/-- What a ring shows are the latest entries, oldest first. -/
theorem Holds.toList_eq (h : r.Holds capacity entries) : r.toList = entries.rtake capacity := by
  cases h with
  | filling front back parts size full all =>
    have few : entries.length - capacity = 0 := by
      rw [← size, all, List.length_map]
      omega
    rw [parts.toList_eq, full, List.rtake, few, all]
    simp [List.filterMap_map]
  | full front back parts size full many latest =>
    rw [parts.toList_eq, full, if_pos rfl, latest]
    simp [List.filterMap_map]

example : ([1, 2, 3, 4, 5].foldl Ring.push (.free 3)).toList = [3, 4, 5] := by decide

end Ring

/-! ## What a tracer stores -/

/-- The events that a ring stores at a level: those whose scope the level lets through, where level
`error` counts as `phase`, and heartbeats at every level. -/
inductive Stored : Level → Event → Prop
  | heartbeat {level : Level} {e : Event} (beats : e.kind = .heartbeat) : Stored level e
  | error {e : Event} (coarse : e.scope.number ≤ Scope.pass.number) : Stored .error e
  | phase {e : Event} (coarse : e.scope.number ≤ Scope.pass.number) : Stored .phase e
  | detail {e : Event} (coarse : e.scope.number ≤ Scope.module.number) : Stored .detail e
  | debug {e : Event} : Stored .debug e

/-- The test with which a ring is guarded. -/
theorem stored_iff (level : Level) (e : Event) :
    ((if level = .error then .phase else level).emits e.scope || e.kind = .heartbeat) = true ↔
      Stored level e := by
  constructor
  · intro passes
    rw [Bool.or_eq_true, decide_eq_true_eq] at passes
    rcases passes with emits | beats
    · by_cases isError : level = .error
      · subst isError
        exact .error (by simpa [Level.emits] using emits)
      · rw [if_neg isError, Level.emits] at emits
        split at emits
        · subst level
          exact .phase (of_decide_eq_true emits)
        · split at emits
          · subst level
            exact .detail (of_decide_eq_true emits)
          · obtain rfl := of_decide_eq_true emits
            exact .debug
    · exact .heartbeat beats
  · rintro (beats | coarse | coarse | coarse | _)
    · simp [beats]
    all_goals simp_all [Level.emits, Level.error, Level.phase, Level.detail, Level.debug]

instance (level : Level) : DecidablePred (Stored level) :=
  fun e => decidable_of_iff _ (stored_iff level e)

/-- An event as it was before it got its number. -/
def Event.unnumbered (e : Event) : Event := { e with seq := 0 }

namespace Tracer

variable {start t : Tracer} {capacity taken : Nat} {events : List Event}

/-- Let other tracers take some of the numbers that all of them share. -/
def shareNumbers (t : Tracer) (n : Nat) : Tracer :=
  { t with lastSeq := (t.lastSeq + n) % numberModulus }

/-- Record events in order; before each one other tracers take some numbers. -/
def emitAll (t : Tracer) (run : List (Nat × Event)) : Tracer :=
  run.foldl (fun t step => (t.shareNumbers step.1).emit step.2) t

/-- The events of a run that a ring stores at a level. -/
def storedOf (level : Level) (run : List (Nat × Event)) : List Event :=
  (run.map (·.2)).filter (Stored level)

/-- The number that writing an event takes, if it takes one. -/
def writesFor (t : Tracer) (e : Event) : Nat :=
  if t.stream.isSome ∧ (t.level.emits e.scope || e.kind = .heartbeat) then 1 else 0

/-- The numbers that are taken in a run: by other tracers, by writing and by storing. -/
def numbersTaken (t : Tracer) (run : List (Nat × Event)) : Nat :=
  run.foldr (fun step n =>
    step.1 + t.writesFor step.2 + (if Stored t.level step.2 then 1 else 0) + n) 0

/-- The numbers of a counter that goes up from `first` and not beyond `last`, as 64-bit words. -/
def CountedUp (first last : Nat) (words : List Nat) : Prop :=
  ∃ ns : List Nat, words = ns.map (· % UInt64.size) ∧ ns.Pairwise (· < ·) ∧
    ∀ n ∈ ns, first < n ∧ n ≤ last

theorem numberModulus_eq : numberModulus = UInt64.size := rfl

section CountedUp

variable {first last : Nat} {words : List Nat} (h : CountedUp first last words)
include h

theorem CountedUp.more {last' : Nat} (le : last ≤ last') : CountedUp first last' words := by
  obtain ⟨ns, eq, ordered, bounds⟩ := h
  exact ⟨ns, eq, ordered, fun n mem => ⟨(bounds n mem).1, (bounds n mem).2.trans le⟩⟩

theorem CountedUp.concat (le : first ≤ last) :
    CountedUp first (last + 1) (words ++ [(last + 1) % UInt64.size]) := by
  obtain ⟨ns, rfl, ordered, bounds⟩ := h
  refine ⟨ns ++ [last + 1], by rw [List.map_append]; rfl, ?_, fun n mem => ?_⟩
  · refine List.pairwise_append.mpr ⟨ordered, List.pairwise_singleton _ _, fun n mem m mem' => ?_⟩
    obtain rfl := List.mem_singleton.mp mem'
    exact Nat.lt_succ_of_le (bounds n mem).2
  · rcases List.mem_append.mp mem with here | here
    · exact ⟨(bounds n here).1, Nat.le_succ_of_le (bounds n here).2⟩
    · obtain rfl := List.mem_singleton.mp here
      exact ⟨Nat.lt_succ_of_le le, Nat.le_refl _⟩

theorem CountedUp.drop (n : Nat) : CountedUp first last (words.drop n) := by
  obtain ⟨ns, rfl, ordered, bounds⟩ := h
  exact ⟨ns.drop n, List.map_drop.symm, ordered.sublist (List.drop_sublist n ns),
    fun m mem => bounds m (List.mem_of_mem_drop mem)⟩

/-- As long as the counter has not come round, the words grow. -/
theorem CountedUp.pairwise (small : last < UInt64.size) : words.Pairwise (· < ·) := by
  obtain ⟨ns, rfl, ordered, bounds⟩ := h
  refine List.pairwise_map.mpr (ordered.imp_of_mem fun {n m} mem mem' lt => ?_)
  rwa [Nat.mod_eq_of_lt ((bounds n mem).2.trans_lt small),
    Nat.mod_eq_of_lt ((bounds m mem').2.trans_lt small)]

end CountedUp

/-- A tracer has come from `start`, with a counter that has gone up by `taken`, and its ring holds the
latest of some events. -/
structure Keeps (start t : Tracer) (capacity : Nat) (events : List Event) (taken : Nat) : Prop where
  level : t.level = start.level
  stream : t.stream = start.stream
  counter : t.lastSeq % numberModulus = (start.lastSeq + taken) % numberModulus
  holds : ∃ r records, t.ring = some r ∧ r.Holds capacity records ∧
    records.map (·.event.unnumbered) = events.map (·.unnumbered) ∧
    CountedUp start.lastSeq (start.lastSeq + taken) (records.map (·.event.seq))

/-- Numbers that others take do not matter to the ring. -/
theorem Keeps.shareNumbers (h : Keeps start t capacity events taken) (n : Nat) :
    Keeps start (t.shareNumbers n) capacity events (taken + n) := by
  obtain ⟨level, stream, counter, r, records, ring, holds, same, numbers⟩ := h
  refine ⟨level, stream, ?_, r, records, ring, holds, same, numbers.more (by omega)⟩
  rw [Tracer.shareNumbers, Nat.mod_mod, ← Nat.add_assoc, ← Nat.mod_add_mod, counter,
    Nat.mod_add_mod]

/-- Writing an event takes at most a number. -/
theorem Keeps.write (h : Keeps start t capacity events taken) (e : Event) :
    Keeps start (t.write e) capacity events (taken + start.writesFor e) := by
  rw [writesFor, ← h.level, ← h.stream]
  unfold Tracer.write
  split
  · rename_i stream
    rw [if_neg (by simp [stream])]
    exact h
  · rename_i f stream
    by_cases passes : t.level.emits e.scope || e.kind = .heartbeat
    · have next := h.shareNumbers 1
      rw [if_pos passes, if_pos ⟨by rw [stream]; rfl, passes⟩]
      exact ⟨next.level, next.stream, next.counter, next.holds⟩
    · rw [if_neg passes, if_neg fun both => passes both.2]
      exact h

/-- Keeping an event adds it to those of the ring if the level lets it through. -/
theorem Keeps.keep (h : Keeps start t capacity events taken) (e : Event) (ofSpan : Bool) :
    Keeps start (t.keep e ofSpan) capacity (events ++ if Stored start.level e then [e] else [])
      (taken + if Stored start.level e then 1 else 0) := by
  have next := h.shareNumbers 1
  obtain ⟨level, stream, counter, r, records, ring, holds, same, numbers⟩ := h
  have test := stored_iff t.level e
  rw [← level]
  by_cases stored : Stored t.level e
  · let record : Record := { event := { e with seq := nextNumber t.lastSeq }, ofSpan := ofSpan }
    have kept : t.keep e ofSpan =
        { t with lastSeq := nextNumber t.lastSeq, ring := some (r.push record) } := by
      simp only [Tracer.keep, ring, test.mpr stored, if_true, record]
    have number : nextNumber t.lastSeq = (start.lastSeq + taken + 1) % UInt64.size := by
      rw [nextNumber, ← Nat.mod_add_mod, counter, Nat.mod_add_mod, numberModulus_eq]
    rw [kept, if_pos stored, if_pos stored]
    refine ⟨level, stream, next.counter, _, records ++ [record], rfl, holds.push record, ?_, ?_⟩
    · rw [List.map_append, List.map_append, same]
      rfl
    · rw [List.map_append, ← Nat.add_assoc]
      show CountedUp _ _ (_ ++ [nextNumber t.lastSeq])
      rw [number]
      exact numbers.concat (by omega)
  · have kept : t.keep e ofSpan = t := by
      simp only [Tracer.keep, ring, test.not.mpr stored]
      rfl
    rw [kept, if_neg stored, if_neg stored, List.append_nil]
    exact ⟨level, stream, counter, r, records, ring, holds, same, numbers⟩

theorem Keeps.emitAll (h : Keeps start t capacity events taken) (run : List (Nat × Event)) :
    Keeps start (t.emitAll run) capacity (events ++ storedOf start.level run)
      (taken + start.numbersTaken run) := by
  induction run generalizing t events taken with
  | nil => simpa [Tracer.emitAll, storedOf, numbersTaken] using h
  | cons step run ih =>
    have next := ih (((h.shareNumbers step.1).write step.2).keep step.2 false)
    have events_eq : (events ++ if Stored start.level step.2 then [step.2] else []) ++
        storedOf start.level run = events ++ storedOf start.level (step :: run) := by
      by_cases stored : Stored start.level step.2 <;> simp [storedOf, stored]
    have taken_eq : taken + step.1 + start.writesFor step.2 +
        (if Stored start.level step.2 then 1 else 0) + start.numbersTaken run =
          taken + start.numbersTaken (step :: run) := by
      simp only [numbersTaken, List.foldr_cons]
      omega
    rw [events_eq, taken_eq] at next
    exact next

/-- For a capacity whose slots, of 104 bytes each, need no more than 2⁴⁸ bytes there is a ring, and it
shows the latest of the events that the level of its tracer lets through, oldest first and as many as
it has slots. Their numbers are
those of a counter that goes up, as 64-bit words: they grow from each event to the next as long as
the counter has not come round. Larger capacities are refused. -/
theorem ring_keeps_latest (t : Tracer) (capacity : Int) (run : List (Nat × Event)) :
    (Ring.slotsFor capacity * 104 ≤ 0x1000000000000 → ∃ ring shown,
      Ring.empty capacity = .ok ring ∧
      ({ t with ring := some ring }.emitAll run).recent? = some shown ∧
      shown.length = min (storedOf t.level run).length (Ring.slotsFor capacity) ∧
      shown.map (·.unnumbered) =
        ((storedOf t.level run).rtake (Ring.slotsFor capacity)).map (·.unnumbered) ∧
      CountedUp t.lastSeq (t.lastSeq + t.numbersTaken run) (shown.map (·.seq)) ∧
      (t.lastSeq + t.numbersTaken run < UInt64.size → (shown.map (·.seq)).Pairwise (· < ·))) ∧
    (0x1000000000000 < Ring.slotsFor capacity * 104 →
      (Ring.empty capacity : Outcome (Ring Record)) = .outOfRange) := by
  constructor
  · intro small
    let start : Tracer := { t with ring := some (.free (Ring.slotsFor capacity)) }
    have none : CountedUp start.lastSeq (start.lastSeq + 0) [] := ⟨[], rfl, .nil, nofun⟩
    have fresh : Keeps start start (Ring.slotsFor capacity) [] 0 :=
      ⟨rfl, rfl, rfl, _, [], rfl, Ring.free_holds (Ring.slotsFor_pos capacity), rfl, none⟩
    obtain ⟨-, -, -, r, records, ring, holds, same, numbers⟩ := fresh.emitAll run
    rw [Nat.zero_add] at numbers
    have length : records.length = (storedOf t.level run).length := by
      simpa using congrArg List.length same
    have shown : CountedUp t.lastSeq (t.lastSeq + t.numbersTaken run)
        (((records.rtake (Ring.slotsFor capacity)).map (·.event)).map (·.seq)) := by
      rw [List.map_map, List.rtake, List.map_drop]
      exact numbers.drop _
    refine ⟨.free (Ring.slotsFor capacity), (records.rtake (Ring.slotsFor capacity)).map (·.event),
      ?_, ?_, ?_, ?_, shown, shown.pairwise⟩
    · rw [Ring.empty_eq, if_pos small]
    · rw [recent?, ring, ← holds.toList_eq]
      rfl
    · rw [List.length_map, List.rtake, List.length_drop, length]
      omega
    · rw [List.map_map, List.rtake, List.rtake, length, List.map_drop, List.map_drop]
      exact congrArg _ same
  · intro large
    rw [Ring.empty_eq, if_neg (Nat.not_le.mpr large)]

/-- A pass, a function, a heartbeat and a command. The numbers start over before the last event. -/
def sampleRun : List (Nat × Event) :=
  [(0, { kind := .point, scope := .pass, name := "lex" }),
   (1, { kind := .point, scope := .module, name := "main" }),
   (2, { kind := .heartbeat, scope := .module, name := "heartbeat" }),
   (numberModulus - 5, { kind := .point, scope := .driver, name := "build" })]

theorem sampleRun_kept :
    (∃ ring shown, Ring.empty 2 = .ok ring ∧
      (({ level := .error, ring := some ring } : Tracer).emitAll sampleRun).recent? = some shown ∧
      shown.map (·.unnumbered) =
        [{ kind := .heartbeat, scope := .module, name := "heartbeat" },
         { kind := .point, scope := .driver, name := "build" }] ∧
      CountedUp 0 (UInt64.size + 1) (shown.map (·.seq)) ∧ shown.map (·.seq) = [5, 1]) ∧
    (Ring.empty 0x7fffffffffffffff : Outcome (Ring Record)) = .outOfRange := by
  obtain ⟨small, -⟩ := ring_keeps_latest { level := .error } 2 sampleRun
  obtain ⟨-, large⟩ := ring_keeps_latest { level := .error } 0x7fffffffffffffff sampleRun
  obtain ⟨ring, shown, made, recent, -, same, numbers, -⟩ := small (by decide)
  refine ⟨⟨ring, shown, made, recent, same, numbers, ?_⟩, large (by decide)⟩
  obtain rfl : Ring.free 2 = ring := Except.ok.inj made
  obtain rfl := Option.some.inj recent
  rfl

/-- A capacity that fits in 64 bits, with which no tracer can be made. -/
theorem create_faults :
    Tracer.create .phase .ring .text 0x7fffffffffffffff {} = .error (.fault none) := rfl

end Tracer
end SysY.Trace
