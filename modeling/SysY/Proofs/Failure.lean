import SysY.Failure

/-! # Operations in sequence

What two operations in sequence come to when each of them can fail: for operations that only give a
result, and for operations on a state, which also leave one behind when they fail. -/

namespace SysY

section Except

variable {ε α β : Type} {x : Except ε α} {f : α → Except ε β}

/-- An operation that can fail and that is followed by another one succeeds when both do. -/
theorem Except.bind_eq_ok {b : β} : (x >>= f) = .ok b ↔ ∃ a, x = .ok a ∧ f a = .ok b := by
  cases x with
  | error e => simp [bind, Except.bind]
  | ok a => simp [bind, Except.bind]

/-- A sequence of two operations fails when one of them does. -/
theorem Except.bind_eq_error {e : ε} :
    (x >>= f) = .error e ↔ x = .error e ∨ ∃ a, x = .ok a ∧ f a = .error e := by
  cases x with
  | error e => simp [bind, Except.bind]
  | ok a => simp [bind, Except.bind]

theorem ok_bind (a : α) (next : α → Outcome β) : ((.ok a : Outcome α) >>= next) = next a :=
  rfl

end Except

section State

variable {ε σ α β : Type} {m : EStateM ε σ α} {next : α → EStateM ε σ β} {s s' : σ}

/-- An operation that succeeds is followed by the next one. -/
theorem bind_ok {a : α} (ran : m s = .ok a s') : (m >>= next) s = next a s' := by
  simp only [bind, EStateM.bind, ran]

/-- Two operations on a state succeed in sequence when both do. -/
theorem bind_eq_ok {b : β} :
    (m >>= next) s = .ok b s' ↔ ∃ a s₁, m s = .ok a s₁ ∧ next a s₁ = .ok b s' := by
  simp only [bind, EStateM.bind]
  cases m s with
  | ok a s₁ => simp [and_assoc]
  | error e s₁ => simp

/-- They fail when one of them does. -/
theorem bind_eq_error {e : ε} : (m >>= next) s = .error e s' ↔
    m s = .error e s' ∨ ∃ a s₁, m s = .ok a s₁ ∧ next a s₁ = .error e s' := by
  simp only [bind, EStateM.bind]
  cases m s with
  | ok a s₁ => simp [and_assoc]
  | error f s₁ => simp

end State

end SysY
