import Uthreads.Proofs.Runs

/-! The preconditions that uthreads.cpp never tests. A record that is looked up
through `all_threads_[]`, an iterator that is erased and a queue whose head is
taken are there because all containers agree. -/

namespace Uthreads
open Transition

variable {ε : Type} {s s' start final : State ε}

/-- Every stage of `switch_threads` finds the records it dereferences, and the
stage that takes the head of the queue finds one. -/
def SafeSwitch (target : Status) (s : State ε) : Prop :=
  ∃ ticked left chosen, updateSleepers s = .ok ticked ∧ leaveRunning target ticked = .ok left ∧
    left.readyTids ≠ [] ∧ insertReadyToRunning left = .ok chosen ∧
    (target ≠ .terminated → chosen.live ticked.runningTid) ∧ chosen.live chosen.runningTid

/-- What a call may not take for granted and does. Its errors are a missing
record and an erased end; only the end of the process remains of them. -/
structure SafeCall (op : Op ε) (here : Context ε) (s : State ε) : Prop where
  returns : op ≠ .terminate 0 → ∃ reply s', op.call here s = .ok (reply, s')
  exits : op = .terminate 0 → op.call here s = .error (.exit success)
  found : ∀ tid, op = .terminate tid ∨ op = .block tid → s.status tid = some .ready → tid ∈ s.readyTids
  recorded : ∀ tid result s', op = .block tid ∨ op = .resume tid →
    op.body (blockVtAlarm s) = .ok (.finishes result, s') → s.live tid ∧ s'.live tid
  switches : ∀ target prepared, op.body (blockVtAlarm s) = .ok (.switches target, prepared) →
    SafeSwitch target prepared

private theorem Leaving.safe {target : Status} (leaving : Leaving target s) : SafeSwitch target s := by
  have parked := leaving.tick.parked
  obtain ⟨next, rest, queue, -, -⟩ := leaving.switches
  have present := parked.queue_live (queue ▸ List.mem_cons_self)
  have original : target = .ready ∨ target = .blocked → s.tick.live s.tick.runningTid := by
    intro kind
    apply (State.live_tick ..).mpr
    exact leaving.original (by rcases kind with rfl | rfl <;> simp)
  refine ⟨s.tick, s.tick.leave target, (s.tick.leave target).dispatch next rest,
    State.updateSleepers_ok.mpr ⟨leaving.consistent.sleepersLive, rfl⟩,
    State.leaveRunning_ok.mpr ⟨original, rfl⟩, by simp [queue],
    (State.insertReadyToRunning_ok queue).mpr ⟨present, rfl⟩, fun kept => ?_, ?_⟩
  · apply (State.live_withStatus ..).mpr
    exact (State.live_leave ..).mpr ((State.live_tick ..).mpr (leaving.original kept))
  · exact (State.live_withStatus ..).mpr present

private theorem Branch.recorded {op : Op ε} {tid : Int} {result : Returned} (kind : op = .block tid ∨ op = .resume tid)
    (branch : Branch s op (.finishes result) s') : s.live tid ∧ s'.live tid := by
  cases branch with
  | blockReady other found | resumeBlocked found =>
    rcases kind with same | same <;> cases same
    have present := State.live_iff_status.mpr ⟨_, found⟩
    exact ⟨present, (State.live_withStatus ..).mpr present⟩
  | blockAsleep other found | blockRest other found | resumeAsleep found | resumeRest found =>
    rcases kind with same | same <;> cases same
    have present := State.live_iff_status.mpr ⟨_, found⟩
    exact ⟨present, present⟩
  | _ => rcases kind with same | same <;> cases same

/-- As long as no sleeper is terminated, no call of a run, whatever its ids,
creates a null record, erases an end or takes the head of an empty queue. -/
theorem accesses_safe {history : History ε} (initialized : Initialized start) (run : Run Takes start history final)
    (spared : Sparing history) (op : Op ε) (here : Context ε) : SafeCall op here final := by
  have valid := run_wellFormed initialized.wellFormed run spared
  constructor
  · exact fun goesOn => valid.call_ok op here goesOn
  · rintro rfl
    rfl
  · exact fun tid _ ready => (valid.ready tid).mpr ready
  · intro tid result s' kind body
    have recorded := (branch_of_body body).recorded kind
    exact recorded
  · exact fun target prepared body => ((branch_of_body body).switches_leaving valid.masked).safe

/-- Thread 1 terminates itself while thread 2 sleeps its last quantum. -/
theorem accesses_safe_self_termination : ∃ final : State Unit, final.runningTid = 1 ∧ 2 ∈ final.sleepers ∧
    SafeCall (.terminate 1) ⟨1, ()⟩ final := by
  obtain ⟨history, final, run, tested⟩ := perform_tested booted
    [(.spawn (some ()), ⟨0, ()⟩), (.spawn (some ()), ⟨0, ()⟩), (.preempt, ⟨0, ()⟩), (.preempt, ⟨1, ()⟩),
      (.sleep 2, ⟨2, ()⟩), (.preempt, ⟨0, ()⟩)]
    (fun history final => Sparing history ∧ final.runningTid = 1 ∧ 2 ∈ final.sleepers) (by decide +kernel)
  obtain ⟨spared, running, asleep⟩ := of_decide_eq_true tested
  exact ⟨final, running, asleep, accesses_safe booted_initialized run spared _ _⟩

end Uthreads
