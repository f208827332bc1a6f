import Mathlib.Tactic.Common

/-! Computations that may end with an error: what is known of the parts of one
that gave a result. -/

namespace Fallible

variable {η α β : Type}

theorem bind_ok {x : Except η α} {f : α → Except η β} {result : β} :
    (x >>= f) = .ok result ↔ ∃ value, x = .ok value ∧ f value = .ok result := by
  cases x with
  | error halt => simp only [bind, Except.bind, reduceCtorEq, false_and, exists_false]
  | ok value => simp only [bind, Except.bind, Except.ok.injEq, exists_eq_left']

theorem bind_error {x : Except η α} {f : α → Except η β} {halt : η} :
    (x >>= f) = .error halt ↔ x = .error halt ∨ ∃ value, x = .ok value ∧ f value = .error halt := by
  cases x with
  | error other => simp [bind, Except.bind]
  | ok value => simp [bind, Except.bind]

@[simp] theorem bind_ok_left (value : α) (f : α → Except η β) : ((Except.ok value : Except η α) >>= f) = f value := rfl

@[simp] theorem bind_error_left (halt : η) (f : α → Except η β) :
    ((Except.error halt : Except η α) >>= f) = .error halt := rfl

@[simp] theorem pure_ok (value : α) : (pure value : Except η α) = .ok value := rfl

theorem toOption_ok {x : Except η α} {value : α} : x.toOption = some value ↔ x = .ok value := by
  cases x <;> simp [Except.toOption]

theorem some_ok {x : Option (Except η α)} {value : α} : x.bind Except.toOption = some value ↔ x = some (.ok value) := by
  cases x <;> simp [toOption_ok]

/-- A computation that was evaluated, with whatever a test on its result shows. -/
theorem tested_ok {x : Except η α} (test : α → Bool) (passed : x.toOption.any test = true) :
    ∃ value, x = .ok value ∧ test value = true := by
  cases x with
  | error halt => simp [Except.toOption] at passed
  | ok value => exact ⟨value, rfl, passed⟩

end Fallible
