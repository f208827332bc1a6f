import Mathlib.Tactic.Common

/-! Two computations side by side. They are related when they end the same way:
with the same error, or with results that are related. -/

namespace Relational

variable {η α β γ δ : Type}

def Related (R : α → β → Prop) : Except η α → Except η β → Prop
  | .ok one, .ok two => R one two
  | .error one, .error two => one = two
  | _, _ => False

section rules
variable {R : α → β → Prop} {S : γ → δ → Prop} {x : Except η α} {y : Except η β}

theorem Related.bind {f : α → Except η γ} {g : β → Except η δ} (first : Related R x y)
    (next : ∀ one two, R one two → Related S (f one) (g two)) : Related S (x >>= f) (y >>= g) := by
  cases x with
  | error =>
    cases y with
    | error => exact first
    | ok => cases first
  | ok one =>
    cases y with
    | error => cases first
    | ok two => exact next one two first

theorem Related.ite {p q : Prop} [Decidable p] [Decidable q] {x' : Except η α} {y' : Except η β} (same : p ↔ q)
    (yes : Related R x y) (no : Related R x' y') : Related R (if p then x else x') (if q then y else y') := by
  by_cases holds : p
  · simpa [holds, same.mp holds] using yes
  · have fails : ¬ q := fun other => holds (same.mpr other)
    simpa [holds, fails] using no

theorem Related.result {one : α} (both : Related R (.ok one) y) : ∃ two, y = .ok two ∧ R one two := by
  cases y with
  | error => cases both
  | ok two => exact ⟨two, rfl, both⟩

theorem Related.outcome (both : Related R x y) :
    (∃ halt, x = .error halt ∧ y = .error halt) ∨ ∃ one two, x = .ok one ∧ y = .ok two ∧ R one two := by
  cases x with
  | error halt =>
    cases y with
    | error other => exact .inl ⟨halt, rfl, congrArg _ (Eq.symm both)⟩
    | ok => cases both
  | ok one =>
    cases y with
    | error => cases both
    | ok two => exact .inr ⟨one, two, rfl, rfl, both⟩

end rules
end Relational
