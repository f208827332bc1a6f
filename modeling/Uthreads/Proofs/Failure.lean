import Uthreads.Proofs.Runs

/-! The calls that return -1. They leave every container alone, but they return
with the timer signal masked. -/

namespace Uthreads
open Transition

variable {ε : Type} {s s' start reached : State ε}

/-- The checks a call makes on its arguments before it does anything. -/
def Op.Accepted (op : Op ε) (s : State ε) : Prop :=
  match op with
  | .spawn entryPoint => s.freeIds.toList.head?.isSome ∧ entryPoint.isSome
  | .terminate tid => tid = 0 ∨ s.live tid
  | .block tid => tid ≠ 0 ∧ s.live tid
  | .resume tid | .getQuantums tid => s.live tid
  | .sleep numQuantums => s.runningTid ≠ 0 ∧ 0 ≤ numQuantums
  | .getTid | .getTotalQuantums | .preempt => True

instance (op : Op ε) (s : State ε) : Decidable (op.Accepted s) :=
  match op with
  | .spawn _ | .sleep _ | .block _ => inferInstanceAs (Decidable (_ ∧ _))
  | .terminate _ => inferInstanceAs (Decidable (_ ∨ _))
  | .resume tid | .getQuantums tid => inferInstanceAs (Decidable (s.live tid))
  | .getTid | .getTotalQuantums | .preempt => inferInstanceAs (Decidable True)

private theorem Branch.fails_not_accepted {op : Op ε} {message : String} (branch : Branch s op (.fails message) s') :
    ¬ op.Accepted s := by
  cases branch with
  | spawnFull full => simp [Op.Accepted, full]
  | spawnNull least => simp [Op.Accepted]
  | terminateMissing other missing =>
    exact fun accepted => accepted.elim other (State.status_eq_none.mp missing)
  | blockZero => exact fun accepted => accepted.1 rfl
  | blockMissing other missing => exact fun accepted => State.status_eq_none.mp missing accepted.2
  | resumeMissing missing | getQuantumsMissing missing => exact State.status_eq_none.mp missing
  | sleepZero zero => exact fun accepted => accepted.1 zero
  | sleepNegative other negative => exact fun accepted => absurd accepted.2 (Int.not_le.mpr negative)

private theorem fails_of_not_accepted {op : Op ε} (rejected : ¬ op.Accepted s) :
    ∃ message, Branch s op (.fails message) s := by
  cases op with
  | spawn entryPoint =>
    cases least : s.freeIds.toList.head? with
    | none => exact ⟨_, .spawnFull least⟩
    | some tid =>
      cases entryPoint with
      | none => exact ⟨_, .spawnNull least⟩
      | some entryPoint => exact absurd ⟨by simp [least], by simp⟩ rejected
  | terminate tid =>
    obtain ⟨other, dead⟩ := not_or.mp rejected
    exact ⟨_, .terminateMissing other (State.status_eq_none.mpr dead)⟩
  | block tid =>
    by_cases zero : tid = 0
    · subst zero; exact ⟨_, .blockZero⟩
    · exact ⟨_, .blockMissing zero (State.status_eq_none.mpr fun live => rejected ⟨zero, live⟩)⟩
  | resume tid => exact ⟨_, .resumeMissing (State.status_eq_none.mpr rejected)⟩
  | getQuantums tid => exact ⟨_, .getQuantumsMissing (State.status_eq_none.mpr rejected)⟩
  | sleep numQuantums =>
    by_cases zero : s.runningTid = 0
    · exact ⟨_, .sleepZero zero⟩
    · exact ⟨_, .sleepNegative zero (Int.not_le.mp fun amount => rejected ⟨zero, amount⟩)⟩
  | getTid | getTotalQuantums | preempt => exact absurd trivial rejected

/-- A failing call has one effect, on the mask. -/
theorem fails_masks {op : Op ε} (here : Context ε) (rejected : ¬ op.Accepted s) :
    ∃ message, op.call here s = .ok (.fails message, blockVtAlarm s) := by
  obtain ⟨message, branch⟩ := fails_of_not_accepted (s := blockVtAlarm s) rejected
  have masked : maskedCall op here s = .ok (.fails message, blockVtAlarm s) := by
    simp [maskedCall, body_of_branch branch]
  cases op with
  | getTid | getTotalQuantums => exact absurd trivial rejected
  | _ => exact ⟨message, masked⟩

private theorem Branch.eval_nonneg {op : Op ε} {result : Returned} {value : Int} (sound : Sound s)
    (branch : Branch s op (.finishes result) s') (read : result.eval (unblockVtAlarm s') = .ok value) : 0 ≤ value := by
  cases branch with
  | spawn least => exact newThread_value read ▸ ((sound.ids _).mp (.inr (least_free least))).1
  | getTid => cases read; exact ((sound.ids _).mp (.inl sound.running_live)).1
  | getTotalQuantums => cases read; exact Int.natCast_nonneg _
  | getQuantums live =>
    simp only [Returned.eval] at read
    split at read
    next => cases read
    next => cases read; exact Int.natCast_nonneg _
  | _ => cases read; exact Int.le_refl _

theorem Step.value_failure {op : Op ε} {here : Context ε} {reply : Reply} (step : Step s here op reply s')
    (sound : Sound s) (failed : reply.value = some failure) : ¬ op.Accepted s := by
  have masked : Sound (blockVtAlarm s) := sound.frame (fun _ => rfl) rfl rfl rfl
  cases step with
  | fails branch => exact branch.fails_not_accepted
  | finishes branch stays read =>
    have positive := branch.eval_nonneg masked read
    simp only [Reply.value, Option.some.injEq] at failed
    rw [failed] at positive
    exact absurd positive (by decide)
  | switches => split at failed <;> simp [Reply.value, success, failure] at failed
  | getTid =>
    have positive := ((sound.ids _).mp (.inl sound.running_live)).1
    simp only [Reply.value, Option.some.injEq] at failed
    rw [failed] at positive
    exact absurd positive (by decide)
  | getTotalQuantums =>
    simp only [Reply.value, Option.some.injEq, failure] at failed
    omega

/-- Of the calls made with the timer signal unmasked, those that cannot return
-1 and change something are the ones whose arguments pass the checks. All that a
refused call changes is the mask, in which the signal stays. The caller may have
changed its mask since the last call. -/
theorem failed_call_unchanged_iff {history : History ε} (initialized : Initialized start)
    (run : Run Takes start history reached) (mask : Finset Signal) (unmasked : sigvtalrm ∉ mask)
    (op : Op ε) (here : Context ε) :
    ((∀ reply s', op.call here { reached with mask } = .ok (reply, s') → reply.value = some failure →
        s' = { reached with mask }) ↔ op.Accepted { reached with mask }) ∧
    (¬ op.Accepted { reached with mask } → ∃ message, op.call here { reached with mask } =
      .ok (.fails message, blockVtAlarm { reached with mask })) := by
  refine ⟨?_, fails_masks here⟩
  have sound : Sound { reached with mask } :=
    (run_sound initialized.sound run).frame (fun _ => rfl) rfl rfl rfl
  constructor
  · intro unchanged
    by_contra rejected
    obtain ⟨message, failed⟩ := fails_masks here rejected
    have same : insert sigvtalrm mask = mask := congrArg State.mask (unchanged _ _ failed rfl)
    exact unmasked (same ▸ Finset.mem_insert_self sigvtalrm mask)
  · intro accepted reply s' taken failed
    exact absurd accepted ((step_of_call sound taken).value_failure sound failed)

/-- A spawn right after the initialisation has nothing to refuse. -/
theorem failed_call_unchanged_spawn : (Op.spawn (some ())).Accepted { booted with mask := ∅ } ∧
    ∀ reply s', (Op.spawn (some ())).call ⟨0, ()⟩ { booted with mask := ∅ } = .ok (reply, s') →
      reply.value = some failure → s' = { booted with mask := ∅ } := by
  have accepted : (Op.spawn (some ())).Accepted { booted with mask := ∅ } := by decide +kernel
  exact ⟨accepted, (failed_call_unchanged_iff booted_initialized .start ∅ (by simp) _ _).1.mpr accepted⟩

/-- `uthread_block(0)` is refused, and the timer can no longer interrupt main. -/
theorem failed_block_masks_timer : ∃ reply s', Initialized booted ∧ sigvtalrm ∉ booted.mask ∧
    (Op.block 0).call ⟨0, ()⟩ booted = .ok (reply, s') ∧ reply.value = some failure ∧ sigvtalrm ∈ s'.mask :=
  ⟨.fails _, _, booted_initialized, by decide +kernel, rfl, rfl, by decide +kernel⟩

end Uthreads
