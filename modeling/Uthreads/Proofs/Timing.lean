import Uthreads.Library.Lockstep
import Uthreads.Proofs.Serialization

/-! How much of the timing of the signal can be seen. Only the order in which the
calls and the preemptions take effect makes a difference. -/

namespace Uthreads
open Lockstep Relational Transition

/-- One reply is settled in both, and no other. -/
def SameReply (one two : Move Machine Input) : Prop :=
  ∃ reply, ∀ settled, (Settles one settled ↔ settled = reply) ∧ (Settles two settled ↔ settled = reply)

section run
variable {start final start' final' : Machine} {timeline timeline' : Timeline}

theorem Machine.Starts.alike (starts : start.Starts) (starts' : start'.Starts) : Alike start.lib start'.lib := by
  obtain ⟨quantumUsecs, mask, done, -⟩ := starts
  obtain ⟨quantumUsecs', mask', done', -⟩ := starts'
  unfold uthreadInit at done done'
  split at done
  next => cases done
  split at done'
  next => cases done'
  obtain ⟨-, first⟩ := Prod.mk.inj done
  obtain ⟨-, second⟩ := Prod.mk.inj done'
  rw [← first, ← second]
  exact ⟨(Alike.refl _).threads, rfl, rfl, rfl, rfl, rfl, rfl⟩

end run
end Uthreads
