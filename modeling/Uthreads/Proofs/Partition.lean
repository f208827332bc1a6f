import Uthreads.Proofs.Runs
import Uthreads.Proofs.Statements

/-! Live and free ids of uthreads.cpp under any timing of the signal. A handler may
start in the middle of a switch and spoil the queue, the statuses and the saved
contexts, but the table and the free ids change together in the bodies of two calls. -/

namespace Uthreads
open Transition

section states
variable {ε : Type} {s s' : State ε} {op : Op ε} {next : Next} {tid : Int}

/-- An id is live or free. -/
structure Partitioned (s : State ε) : Prop where
  ids : ∀ tid, s.live tid ∨ tid ∈ s.freeIds ↔ 0 ≤ tid ∧ tid < maxThreadNum
  disjoint : ∀ tid, s.live tid → tid ∉ s.freeIds
  main : s.live 0

/-- What a statement does to the ids: nothing, or one changes sides. -/
inductive Transfers (s s' : State ε) : Prop where
  | none (live : ∀ tid, s'.live tid ↔ s.live tid) (free : ∀ tid, tid ∈ s'.freeIds ↔ tid ∈ s.freeIds)
  | spawn (tid : Int) (taken : tid ∈ s.freeIds) (live : ∀ other, s'.live other ↔ other = tid ∨ s.live other)
      (free : ∀ other, other ∈ s'.freeIds ↔ other ≠ tid ∧ other ∈ s.freeIds)
  | terminate (tid : Int) (other : tid ≠ 0) (given : s.live tid) (live : ∀ other, s'.live other ↔ other ≠ tid ∧ s.live other)
      (free : ∀ other, other ∈ s'.freeIds ↔ other = tid ∨ other ∈ s.freeIds)

theorem Transfers.partitioned (transfers : Transfers s s') (partitioned : Partitioned s) : Partitioned s' := by
  obtain ⟨ids, disjoint, main⟩ := partitioned
  cases transfers with
  | none live free =>
    refine ⟨fun tid => ?_, fun tid alive member => ?_, (live 0).mpr main⟩
    · rw [live, free, ids]
    · exact disjoint tid ((live tid).mp alive) ((free tid).mp member)
  | spawn tid taken live free =>
    refine ⟨fun other => ?_, fun other alive member => ?_, (live 0).mpr (.inr main)⟩
    · rw [live, free, ← ids]
      by_cases same : other = tid
      · simp [same, taken]
      · simp [same]
    · obtain ⟨different, member⟩ := (free other).mp member
      exact disjoint other (((live other).mp alive).resolve_left different) member
  | terminate tid other given live free =>
    refine ⟨fun other => ?_, fun other alive member => ?_, (live 0).mpr ⟨Ne.symm other, main⟩⟩
    · rw [live, free, ← ids]
      by_cases same : other = tid
      · simp [same, given]
      · simp [same]
    · obtain ⟨different, alive⟩ := (live other).mp alive
      exact disjoint other alive (((free other).mp member).resolve_left different)

private theorem Branch.transfers (branch : Branch s op next s') (partitioned : Partitioned s) : Transfers s s' := by
  have live : ∀ {tid status}, s.status tid = some status → s.live tid := fun found => State.live_iff_status.mpr ⟨_, found⟩
  cases branch with
  | @spawn tid entryPoint least =>
    have free := Std.ExtTreeSet.mem_toList.mp (List.mem_of_head? least)
    have dead : ¬ s.live tid := fun live => partitioned.disjoint tid live free
    refine .spawn tid free (fun other => ?_) fun other => ?_
    · rw [State.live_iff_status, State.status_enroll]
      by_cases same : other = tid
      · simp [same, dead]
      · simp [same, ← State.live_iff_status]
    · rw [State.freeIds_enroll, Std.ExtTreeSet.mem_erase, ne_eq, Std.compare_eq_iff_eq, ne_eq, eq_comm]
  | terminateRunning other found | terminateReady other found | terminateBlocked other found | terminateRest other found =>
    exact .terminate _ other (live found) (fun _ => State.live_remove ..) fun _ => State.mem_freeIds_remove ..
  | blockReady | resumeBlocked | sleep => exact .none (fun _ => State.live_withStatus ..) fun _ => Iff.rfl
  | _ => exact .none (fun _ => Iff.rfl) fun _ => Iff.rfl

end states

section step
variable {m m' : Machine} {input : Input} {start final : Machine} {timeline : Timeline}

private theorem Moves.transfers (moves : Moves m input m') (partitioned : Partitioned m.lib) : Transfers m.lib m'.lib := by
  cases moves with
  | run code executed =>
    cases executed with
    | body branch => exact branch.transfers partitioned
    | @sleeper it =>
      have free : (m.lib.wake it).freeIds = m.lib.freeIds := by
        unfold State.wake
        split <;> rfl
      exact .none (fun _ => State.live_wake ..) fun tid => by rw [free]
    | setStatus => exact .none (fun _ => State.live_withStatus ..) fun _ => Iff.rfl
    | saveEnvironment | countQuantum => exact .none (fun _ => State.live_modifyThread ..) fun _ => Iff.rfl
    | _ => exact .none (fun _ => Iff.rfl) fun _ => Iff.rfl
  | _ => exact .none (fun _ => Iff.rfl) fun _ => Iff.rfl

theorem run_partitioned (starts : start.Starts) (run : Run Moves start timeline final) : Partitioned final.lib := by
  apply run.invariant (fun _ => True) (fun _ _ => trivial) fun m => Partitioned m.lib
  · obtain ⟨quantumUsecs, mask, done, -⟩ := starts
    have sound := Initialized.sound ⟨quantumUsecs, _, mask, done⟩
    exact ⟨sound.ids, sound.disjoint, sound.main⟩
  · exact fun _ _ moves partitioned => (moves.transfers partitioned).partitioned partitioned

end step
end Uthreads
