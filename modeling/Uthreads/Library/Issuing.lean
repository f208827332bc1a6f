import Mathlib.Order.Basic
import Uthreads.Library.Transition

/-! Numbers that a system gives out on request, the least free one first, and gives
out again once it has taken them back. -/

namespace Issuing
open Transition

universe u v w x

variable {σ : Type u} {α : Type v} {ι : Type w} {ρ : Type x}

/-- The smallest number from `low` on, below `bound`, that is not in use. -/
structure Least [LE ι] [LT ι] (used : ι → Prop) (low bound number : ι) : Prop where
  range : low ≤ number ∧ number < bound
  free : ¬ used number
  least : ∀ other, low ≤ other → other < number → used other

/-- Who asks for a number and where, how one is refused or issued, and how it is given
back. A number from `first` on may be in use, one from `low` on is given out. -/
structure Numbers (σ : Type u) (α : Type v) (ι : Type w) (ρ : Type x) where
  used : σ → ι → Prop
  first : ι
  low : ι
  bound : ι
  asks : ρ → Move σ α → Prop
  refuses : ρ → Move σ α → Prop
  issues : ι → Move σ α → Prop
  recycles : ι → Move σ α → Prop

variable [LE ι] [LT ι]

inductive Numbers.Grants (n : Numbers σ α ι ρ) (place : ρ) (move : Move σ α) : Prop where
  | refused (full : ∀ number, n.first ≤ number → number < n.bound → n.used move.before number) (refuses : n.refuses place move)
  | given (number : ι) (least : Least (n.used move.before) n.low n.bound number) (issues : n.issues number move)
      (live : n.used move.after number)

/-- What the steps from valid states have to show. -/
structure Numbers.Lawful (n : Numbers σ α ι ρ) (step : σ → α → σ → Prop) (valid : σ → Prop) : Prop where
  grants : ∀ {place move}, step move.before move.label move.after → valid move.before → n.asks place move → n.Grants place move
  asks : ∀ {number move}, n.issues number move → ∃ place, n.asks place move ∧ ¬ n.refuses place move
  single : ∀ {one two move}, n.issues one move → n.issues two move → one = two
  recycles : ∀ {number move}, step move.before move.label move.after → n.used move.before number →
    ¬ n.used move.after number → n.recycles number move

namespace Numbers.Lawful

variable {n : Numbers σ α ι ρ} {step : σ → α → σ → Prop} {valid : σ → Prop} {start final : σ} {trace : List (Move σ α)}

theorem allocates {number : ι} {move : Move σ α} (lawful : n.Lawful step valid) (taken : step move.before move.label move.after)
    (held : valid move.before) (issues : n.issues number move) : ¬ n.used move.before number ∧ n.used move.after number := by
  obtain ⟨place, asks, goes⟩ := lawful.asks issues
  cases lawful.grants taken held asks with
  | refused _ refuses => exact absurd refuses goes
  | given other least issued live =>
    obtain rfl := lawful.single issued issues
    exact ⟨least.free, live⟩

theorem run_grants (lawful : n.Lawful step valid) (run : Run step start trace final)
    (held : ∀ {earlier state}, Run step start earlier state → valid state) :
    ∀ move ∈ trace, ∀ place, n.asks place move → n.Grants place move := by
  intro move member place asks
  obtain ⟨first, last, rfl, before, taken, -⟩ := run.at_mem member
  exact lawful.grants taken (held before) asks

/-- A number that is issued twice has been given back in between. -/
theorem given_out_once (lawful : n.Lawful step valid) (run : Run step start trace final)
    (held : ∀ {earlier state}, Run step start earlier state → valid state) :
    ∀ first one middle two last number, trace = first ++ one :: (middle ++ two :: last) → n.issues number one →
      n.issues number two → ∃ move ∈ middle, n.recycles number move := by
  rintro first one middle two last number rfl one' two'
  obtain ⟨move, member, taken, used, gone⟩ := run.given_back (n.issues number) (n.used · number)
    (fun _ _ before taken issues => lawful.allocates taken (held before) issues) one' two'
  exact ⟨move, member, lawful.recycles taken used gone⟩

end Numbers.Lawful
end Issuing
