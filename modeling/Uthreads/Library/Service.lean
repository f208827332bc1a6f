import Uthreads.Library.Fifo
import Uthreads.Library.Transition

/-! How long a queue keeps somebody waiting who does not leave it. The states of a
machine have a queue that is served at the front, and a count of those served. -/

namespace Fifo
open Transition

universe u v

variable {σ : Type u} {α : Type v} {ι : Type} [DecidableEq ι] {item : ι} {queue queue' ahead : List ι} {count count' : Nat}

/-- What a step may do as far as `item` can tell: others come, another one leaves, or
the front is served. -/
inductive Advances (item : ι) (queue : List ι) (count : Nat) : List ι → Nat → ι → Prop where
  | come {last : ι} (new : List ι) : Advances item queue count (queue ++ new) count last
  | leave {last gone : ι} (new : List ι) (other : gone ≠ item) : Advances item queue count ((queue ++ new).erase gone) count last
  | serve {next : ι} {rest : List ι} (new : List ι) (front : queue ++ new = next :: rest) : Advances item queue count rest (count + 1) next

theorem Advances.still {last : ι} : Advances item queue count queue count last := by
  have came : Advances item queue count (queue ++ []) count last := .come []
  rwa [List.append_nil] at came

theorem Advances.withdraw {last gone : ι} (other : gone ≠ item) : Advances item queue count (queue.erase gone) count last := by
  have left : Advances item queue count ((queue ++ []).erase gone) count last := .leave [] other
  rwa [List.append_nil] at left

theorem Advances.waits {last : ι} (advances : Advances item queue count queue' count' last) (waits : Waits queue ahead item) :
    last = item ∨ ∃ fewer, Waits queue' fewer item ∧ fewer.length + count' ≤ ahead.length + count := by
  cases advances with
  | come new => exact .inr ⟨ahead, waits.arrive new, Nat.le_refl _⟩
  | leave new other =>
    refine .inr ⟨_, (waits.arrive new).withdraw other, ?_⟩
    exact Nat.add_le_add_right (List.erase_sublist.length_le) count
  | serve new front =>
    rcases (waits.arrive new).serve front with ⟨-, same⟩ | ⟨fewer, rfl, still⟩
    · exact .inl same
    · refine .inr ⟨fewer, still, ?_⟩
      rw [List.length_cons]
      omega

section run
variable {step : σ → α → σ → Prop} {start final : σ} {trace : List (Move σ α)} {queueOf : σ → List ι} {served : σ → Nat}
  {current : σ → ι}

/-- A bound on how long something takes, from which every step takes what it serves. -/
theorem run_within (within : σ → Nat → Prop) (served : σ → Nat) (done : σ → Prop) {bound : Nat} (run : Run step start trace final)
    (progress : ∀ move ∈ trace, ∀ bound, within move.before bound → done move.after ∨
      ∃ less, within move.after less ∧ less + served move.after ≤ bound + served move.before)
    (bounded : within start bound) : (∃ move ∈ trace, done move.after) ∨
      ∃ less, within final less ∧ less + served final ≤ bound + served start := by
  induction run with
  | start => exact .inr ⟨bound, bounded, Nat.le_refl _⟩
  | @next trace state label final run taken ih =>
    obtain ⟨earlier, now⟩ := List.forall_mem_append.mp progress
    rcases ih earlier with ⟨move, member, reached⟩ | ⟨less, still, closer⟩
    · exact .inl ⟨move, List.mem_append_left _ member, reached⟩
    · rcases now ⟨state, label, final⟩ (List.mem_singleton_self _) less still with reached | ⟨fewer, still, next⟩
      · exact .inl ⟨_, List.mem_append_right _ (List.mem_singleton_self _), reached⟩
      · exact .inr ⟨fewer, still, Nat.le_trans next closer⟩

/-- Nobody waits for longer than it takes to serve those ahead. -/
theorem served_within (queueOf : σ → List ι) (served : σ → Nat) (current : σ → ι) (run : Run step start trace final) (advances : ∀ move ∈ trace,
      Advances item (queueOf move.before) (served move.before) (queueOf move.after) (served move.after) (current move.after))
    (waits : Waits (queueOf start) ahead item) (long : served start + ahead.length < served final) :
    ∃ move ∈ trace, current move.after = item := by
  have front : ∃ fewer, Waits (queueOf start) fewer item ∧ fewer.length = ahead.length := ⟨ahead, waits, rfl⟩
  have closer := run_within (fun s bound => ∃ fewer, Waits (queueOf s) fewer item ∧ fewer.length = bound) served
    (fun s => current s = item) run (fun move member bound => by
      rintro ⟨fewer, waits, rfl⟩
      rcases (advances move member).waits waits with same | ⟨less, still, closer⟩
      · exact .inl same
      · exact .inr ⟨_, ⟨less, still, rfl⟩, closer⟩) front
  rcases closer with dispatched | ⟨fewer, -, bound⟩
  · exact dispatched
  · omega

end run
end Fifo
