import Uthreads.Proofs.Runs

/-! What `uthread_terminate` leaves behind. Its switch over the old status has
no case for a sleeper, whose entry then outlives the record. -/

namespace Uthreads
open Fallible Transition

variable {ε : Type} {s s' : State ε}

/-- Nothing refers to the id any more, and nothing that follows can stumble
over it: as long as no sleeper is terminated, every later call comes back. -/
structure Erased (s : State ε) (tid : Int) : Prop where
  record : ¬ s.live tid
  ready : tid ∉ s.readyTids
  blocked : tid ∉ s.blockedTids
  sleepers : tid ∉ s.sleepers
  free : tid ∈ s.freeIds
  wellFormed : WellFormed s
  later : ∀ history final, Run Takes s history final → Sparing history →
    ∀ (op : Op ε) here, op ≠ .terminate 0 → ∃ reply s', op.call here final = .ok (reply, s')

/-- Once the record is gone, agreement of the containers does the rest. -/
theorem WellFormed.erased (valid : WellFormed s) {tid : Int} (range : 0 ≤ tid ∧ tid < maxThreadNum)
    (dead : ¬ s.live tid) : Erased s tid := by
  have none := State.status_eq_none.mpr dead
  refine ⟨dead, fun member => ?_, fun member => dead (valid.blockedLive tid member), fun member => ?_,
    ((valid.ids tid).mpr range).resolve_left dead, valid, fun history final run spared op here goesOn => ?_⟩
  · simpa [none] using (valid.ready tid).mp member
  · simpa [none] using (valid.asleep tid).mp member
  · exact (run_wellFormed valid run spared).call_ok op here goesOn

theorem Branch.terminates {tid : Int} {next : Next} (branch : Branch s (.terminate tid) next s')
    (present : s.live tid) : ¬ s'.live tid := by
  have gone : ¬ (s.remove tid).live tid := fun live => ((State.live_remove ..).mp live).1 rfl
  cases branch with
  | terminateMissing other missing => exact absurd present (State.status_eq_none.mp missing)
  | terminateRunning | terminateReady | terminateBlocked | terminateRest => exact gone

theorem Step.terminates {tid : Int} {here : Context ε} {reply : Reply} (step : Step s here (.terminate tid) reply s')
    (present : s.live tid) : ¬ s'.live tid := by
  cases step with
  | fails branch =>
    cases branch with
    | terminateMissing other missing => exact absurd present (State.status_eq_none.mp missing)
  | finishes branch => exact branch.terminates present
  | switches branch => exact fun live => branch.terminates present ((State.live_handOver ..).mp live)

/-- A termination removes every trace of the thread exactly when the thread was
not asleep. -/
theorem terminate_erases_iff (valid : WellFormed s) {tid : Int} (present : s.live tid) (other : tid ≠ 0)
    (here : Context ε) :
    (∃ reply s', (Op.terminate tid).call here s = .ok (reply, s') ∧ Erased s' tid) ↔
      s.status tid ≠ some .asleep := by
  constructor
  · rintro ⟨reply, s', taken, erased⟩ asleep
    have left : tid ∈ s.sleepers := (valid.asleep tid).mpr asleep
    have body := body_of_branch (.terminateRest (s := blockVtAlarm s) other asleep (by simp))
    have done : (Op.terminate tid).call here s =
        .ok (.returns success, unblockVtAlarm ((blockVtAlarm s).remove tid)) := by
      simp [Op.call, maskedCall, body, Returned.eval]
    rw [done] at taken
    cases taken
    exact erased.sleepers left
  · intro awake
    have spared : (Op.terminate tid : Op ε).Spares s := fun _ same => by cases same; exact awake
    have goesOn : (Op.terminate tid : Op ε) ≠ .terminate 0 := fun same => other (Op.terminate.inj same)
    obtain ⟨reply, s', taken⟩ := valid.call_ok _ here goesOn
    have step := step_of_call valid.sound taken
    have range := (valid.ids tid).mp (.inl present)
    exact ⟨reply, s', taken, (step.wellFormed valid spared).erased range (step.terminates present)⟩

/-- Terminating a ready thread that another thread still waits behind. -/
theorem terminate_erases_ready_thread : ∃ s : State Unit, s.readyTids = [1, 2] ∧
    ∃ reply s', (Op.terminate 1).call ⟨0, ()⟩ s = .ok (reply, s') ∧ Erased s' 1 := by
  obtain ⟨history, s, run, tested⟩ := perform_tested booted
    [(.spawn (some ()), ⟨0, ()⟩), (.spawn (some ()), ⟨0, ()⟩)]
    (fun history s => Sparing history ∧ s.readyTids = [1, 2] ∧ s.live 1 ∧ s.status 1 ≠ some .asleep)
    (by decide +kernel)
  obtain ⟨spared, queue, present, awake⟩ := of_decide_eq_true tested
  have valid := run_wellFormed booted_initialized.wellFormed run spared
  exact ⟨s, queue, (terminate_erases_iff valid present (by decide) ⟨0, ()⟩).mpr awake⟩

/-- Thread 1 sleeps, main terminates it, and two preemptions later the end of
its sleep is looked up in a table that has no such record. -/
theorem asleep_thread_left_behind : ∃ s : State Unit, WellFormed s ∧ s.live 1 ∧
    ∃ reply s', (Op.terminate 1).call ⟨0, ()⟩ s = .ok (reply, s') ∧ 1 ∈ s'.sleepers ∧ ¬ Erased s' 1 ∧
      ∃ history final, Run Takes s' history final ∧ Sparing history ∧
        Op.preempt.call ⟨0, ()⟩ final = .error (.nullRecord 1) := by
  obtain ⟨history, s, run, tested⟩ := perform_tested booted
    [(.spawn (some ()), ⟨0, ()⟩), (.preempt, ⟨0, ()⟩), (.sleep 2, ⟨1, ()⟩)]
    (fun history s => Sparing history ∧ s.live 1 ∧
      ((Op.terminate 1).call ⟨0, ()⟩ s).toOption.any (fun done => 1 ∈ done.2.sleepers ∧
        (perform done.2 [(.preempt, ⟨0, ()⟩)]).any fun later =>
          Sparing later.1 ∧ haltsWith (.nullRecord 1) (Op.preempt.call ⟨0, ()⟩ later.2)))
    (by decide +kernel)
  obtain ⟨spared, present, tested⟩ := of_decide_eq_true tested
  obtain ⟨⟨reply, s'⟩, taken, tested⟩ := tested_ok _ tested
  obtain ⟨left, tested⟩ := of_decide_eq_true tested
  obtain ⟨⟨later, final⟩, performed, tested⟩ := (Option.any_eq_true _ _).mp tested
  obtain ⟨kept, faults⟩ := of_decide_eq_true tested
  exact ⟨s, run_wellFormed booted_initialized.wellFormed run spared, present, reply, s', taken, left,
    fun erased => erased.sleepers left, later, final, perform_run performed, kept, of_haltsWith faults⟩

end Uthreads
