import Mathlib.Data.List.Forall2
import Uthreads.Library.Transition

/-! Runs of small steps that are seen as runs of large ones. A large step takes
effect at once, with one of the small steps; the others only complete it or do
not concern it. -/

namespace Transition

universe u v w x

variable {σ : Type u} {α : Type v} {τ : Type w} {β : Type x}

/-- The small steps `step` are serialized by the large steps `large`. What a small
state completes to is `matched` with a state of the large steps, as far as it
completes to anything, and the steps that are `seen` are those that take effect. -/
structure Serializes (step : σ → α → σ → Prop) (large : τ → β → τ → Prop) (allowed : Move σ α → Prop)
    (valid completes : σ → Prop) (matched : σ → τ → Prop) (seen : Move σ α → Bool)
    (agrees : Move σ α → Move τ β → Prop) : Prop where
  preserved : ∀ move, allowed move → step move.before move.label move.after → valid move.before → valid move.after
  completed : ∀ move, allowed move → step move.before move.label move.after → valid move.before →
    completes move.after → completes move.before
  silent : ∀ move, allowed move → step move.before move.label move.after → valid move.before →
    completes move.after → seen move = false → ∀ t, matched move.before t → matched move.after t
  effect : ∀ move, allowed move → step move.before move.label move.after → valid move.before →
    completes move.after → seen move = true → ∀ t, matched move.before t →
      ∃ label t', large t label t' ∧ matched move.after t' ∧ agrees move ⟨t, label, t'⟩

namespace Serializes

variable {step : σ → α → σ → Prop} {large : τ → β → τ → Prop} {allowed : Move σ α → Prop}
  {valid completes : σ → Prop} {matched : σ → τ → Prop} {seen : Move σ α → Bool}
  {agrees : Move σ α → Move τ β → Prop} {start final : σ} {trace : List (Move σ α)} {t : τ}

theorem run (serializes : Serializes step large allowed valid completes matched seen agrees)
    (run : Run step start trace final) (only : ∀ move ∈ trace, allowed move) (initial : valid start)
    (begins : matched start t) (ends : completes final) :
    ∃ history t', Run large t history t' ∧ matched final t' ∧ List.Forall₂ agrees (trace.filter seen) history := by
  induction run with
  | start => exact ⟨[], t, .start, begins, .nil⟩
  | @next trace state label final run taken ih =>
    have earlier := fun move member => only move (List.mem_append_left _ member)
    have last := only ⟨state, label, final⟩ (by simp)
    have kept := run.invariant allowed earlier valid initial serializes.preserved
    obtain ⟨history, t', sequential, reached, paired⟩ :=
      ih earlier (serializes.completed _ last taken kept ends)
    rw [List.filter_append]
    cases effect : seen ⟨state, label, final⟩ with
    | false =>
      refine ⟨history, t', sequential, serializes.silent _ last taken kept ends effect _ reached, ?_⟩
      simpa [List.filter, effect] using paired
    | true =>
      obtain ⟨label, next, done, reached, agreed⟩ := serializes.effect _ last taken kept ends effect _ reached
      refine ⟨_, next, sequential.next done, reached, ?_⟩
      simp only [List.filter, effect]
      exact List.rel_append paired (.cons agreed .nil)

end Serializes

theorem effect_of_paired {agrees : Move σ α → Move τ β → Prop} {moves : List (Move σ α)} {history : List (Move τ β)}
    (paired : List.Forall₂ agrees moves history) : ∀ large ∈ history, ∃ move ∈ moves, agrees move large := by
  induction paired with
  | nil => simp
  | cons agrees _ ih =>
    refine List.forall_mem_cons.mpr ⟨⟨_, List.mem_cons_self, agrees⟩, fun large member => ?_⟩
    obtain ⟨move, later, agrees⟩ := ih large member
    exact ⟨move, List.mem_cons_of_mem _ later, agrees⟩

end Transition
