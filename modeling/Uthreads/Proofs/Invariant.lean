import Uthreads.Proofs.Runs

/-! The redundant containers of uthreads.cpp describe one and the same
scheduler in every reachable state. -/

namespace Uthreads
open Transition

variable {ε : Type} {s s' start final : State ε}

/-- No sleep lasts a negative number of quantums. -/
def Counting (s : State ε) : Prop := ∀ (tid counter : Int), s.sleepers[tid]? = some counter → 0 ≤ counter

theorem Counting.tick (counting : Counting s) : Counting s.tick := by
  intro tid counter found
  rw [State.getElem?_sleepers_tick] at found
  obtain ⟨old, present, counted⟩ := Option.bind_eq_some_iff.mp found
  have positive := counting tid old present
  unfold countDown at counted
  split at counted
  next => cases counted
  next => cases counted; omega

theorem Branch.switches_counting {op : Op ε} {target : Status} (branch : Branch s op (.switches target) s')
    (counting : Counting s) : Counting s' := by
  cases branch with
  | preempt | blockRunning | terminateRunning => exact counting
  | @sleep numQuantums other amount live =>
    intro tid counter found
    change (s.sleepers.insertIfNew s.runningTid numQuantums)[tid]? = some counter at found
    rw [Std.ExtTreeMap.getElem?_insertIfNew] at found
    split at found
    next => cases found; exact amount
    next => exact counting tid counter found

theorem Step.counting {op : Op ε} {here : Context ε} {reply : Reply} (step : Step s here op reply s')
    (sound : Sound s) (counting : Counting s) : Counting s' := by
  cases kind : op.switching s with
  | false =>
    intro tid counter found
    rw [(step.stays sound kind).sleepers] at found
    exact counting tid counter found
  | true =>
    obtain ⟨target, middle, next, rest, branch, -, -, -, rfl⟩ := step.leaves kind
    intro tid counter found
    rw [State.sleepers_handOver] at found
    exact (branch.switches_counting counting).tick tid counter found

/-- The main thread is MAIN until the first switch; from then on the thread on
the processor is RUNNING. -/
theorem run_status {history : History ε} (initialized : Initialized start) (run : Run Takes start history final) :
    final.status final.runningTid = some (if switches history = 0 then .main else .running) := by
  induction run with
  | start =>
    have fresh := initialized.fresh
    simp [fresh.running, fresh.status]
  | @next history state event final run taken ih =>
    have sound := run_sound initialized.sound run
    have step := step_of_call sound taken
    have counts : switches (history ++ [⟨state, event, final⟩]) =
        switches history + if event.op.switching state = true then 1 else 0 := switches_concat history event
    cases kind : event.op.switching state with
    | false =>
      have stays := step.stays sound kind
      rw [counts, kind, stays.running, stays.status, ih]
      rfl
    | true =>
      obtain ⟨target, middle, next, rest, branch, -, chosen, -, same⟩ := step.leaves kind
      obtain ⟨old, found⟩ := State.live_iff_status.mp chosen
      rw [counts, kind, same, State.runningTid_handOver, State.status_handOver, if_pos rfl, found]
      simp

theorem Fresh.counting (fresh : Fresh s) : Counting s := by
  intro tid counter found
  rw [fresh.sleepers] at found
  simp at found

theorem run_counting {history : History ε} (initialized : Initialized start)
    (run : Run Takes start history final) : Counting final := by
  have both := run.invariant (fun _ => True) (fun _ _ => trivial) (fun s => Sound s ∧ Counting s)
    ⟨initialized.sound, initialized.fresh.counting⟩ fun move _ taken valid =>
      have step := step_of_call valid.1 taken
      ⟨step.sound valid.1, step.counting valid.1 valid.2⟩
  exact both.2

/-- Whatever was called, in whatever order, all containers agree with the
statuses, the ids are shared out, and there is always a thread to run. -/
theorem reachable_representation {history : History ε} (initialized : Initialized start)
    (run : Run Takes start history final) (spared : Sparing history) :
    WellFormed final ∧ Counting final ∧
      final.status final.runningTid = some (if switches history = 0 then .main else .running) :=
  ⟨run_wellFormed initialized.wellFormed run spared, run_counting initialized run, run_status initialized run⟩

/-- A thread sleeps, is blocked in its sleep and wakes up blocked. -/
theorem reachable_representation_blocked_sleeper : ∃ final : State Unit,
    final.status 1 = some .blocked ∧ WellFormed final ∧ Counting final ∧
      final.status final.runningTid = some .running := by
  obtain ⟨history, final, run, tested⟩ := perform_tested booted
    [(.spawn (some ()), ⟨0, ()⟩), (.preempt, ⟨0, ()⟩), (.sleep 1, ⟨1, ()⟩), (.block 1, ⟨0, ()⟩),
      (.preempt, ⟨0, ()⟩)]
    (fun history final => Sparing history ∧ switches history = 3 ∧ final.status 1 = some .blocked) (by decide +kernel)
  obtain ⟨spared, counted, blocked⟩ := of_decide_eq_true tested
  obtain ⟨valid, counting, status⟩ := reachable_representation booted_initialized run spared
  exact ⟨final, blocked, valid, counting, by simpa [counted] using status⟩

end Uthreads
