import Mathlib.Data.List.Forall2
import Uthreads.Library.Transition

/-! Two systems that are given the same calls. A system that halts accepts no
further calls. -/

namespace Lockstep
open Transition

variable {σ τ α ρ ρ' η η' : Type}

/-- What comes of a list of calls: the results up to the end of the list or up to
the first halt. -/
inductive Execution (step : σ → α → Except η (ρ × σ) → Prop) : σ → List α → List (ρ × σ) → Option η → Prop where
  | done {s : σ} : Execution step s [] [] none
  | halts {s : σ} {call : α} {calls : List α} {halt : η} (stops : step s call (.error halt)) :
      Execution step s (call :: calls) [] (some halt)
  | goes {s : σ} {call : α} {calls : List α} {result : ρ × σ} {seen : List (ρ × σ)} {ending : Option η}
      (moves : step s call (.ok result)) (later : Execution step result.2 calls seen ending) :
      Execution step s (call :: calls) (result :: seen) ending

theorem execution_of_run {β κ : Type} {takes : σ → β → σ → Prop} {step : σ → α → Except η (ρ × σ) → Prop} (result : β → ρ)
    (key : β → κ) (key' : α → κ)
    (steps : ∀ s label s' call, key label = key' call → takes s label s' → step s call (.ok (result label, s')))
    {s final : σ} {trace : List (Move σ β)} (run : Run takes s trace final) {calls : List α}
    (same : trace.map (fun move => key move.label) = calls.map key') :
    Execution step s calls (trace.map fun move => (result move.label, move.after)) none := by
  induction calls generalizing s trace with
  | nil =>
    obtain rfl := List.map_eq_nil_iff.mp same
    exact .done
  | cons call calls ih =>
    obtain ⟨⟨before, label, after⟩, later, rfl, first, rest⟩ := List.map_eq_cons_iff.mp same
    obtain ⟨rfl, taken, run'⟩ := run.head
    exact Execution.goes (steps _ _ _ _ first taken) (ih run' rest)

def Both (halts : η → η' → Prop) (goes : ρ × σ → ρ' × τ → Prop) : Except η (ρ × σ) → Except η' (ρ' × τ) → Prop
  | .error one, .error two => halts one two
  | .ok one, .ok two => goes one two
  | _, _ => False

/-- The rule for two systems: a relation that every call keeps, and that says
enough about the results, holds throughout. -/
theorem Execution.lockstep {first : σ → α → Except η (ρ × σ) → Prop} {second : τ → α → Except η' (ρ' × τ) → Prop}
    (halts : η → η' → Prop) (goes : ρ × σ → ρ' × τ → Prop) (tied : σ → τ → Prop)
    (kept : ∀ s t call x y, tied s t → first s call x → second t call y →
      Both halts (fun one two => goes one two ∧ tied one.2 two.2) x y)
    {s : σ} {t : τ} {calls : List α} {seen : List (ρ × σ)} {seen' : List (ρ' × τ)} {ending : Option η}
    {ending' : Option η'} (start : tied s t) (one : Execution first s calls seen ending)
    (two : Execution second t calls seen' ending') : List.Forall₂ goes seen seen' ∧ Option.Rel halts ending ending' := by
  induction one generalizing t seen' with
  | done =>
    cases two
    exact ⟨.nil, .none⟩
  | halts stops =>
    cases two with
    | halts stops' => exact ⟨.nil, .some (kept _ _ _ _ _ start stops stops')⟩
    | goes moves' => exact (kept _ _ _ _ _ start stops moves').elim
  | goes moves _ ih =>
    cases two with
    | halts stops' => exact (kept _ _ _ _ _ start moves stops').elim
    | goes moves' later' =>
      obtain ⟨same, tied⟩ := kept _ _ _ _ _ start moves moves'
      obtain ⟨rest, ends⟩ := ih tied later'
      exact ⟨.cons same rest, ends⟩

end Lockstep
