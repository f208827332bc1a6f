import Uthreads.Proofs.Invariant

/-! How long a sleep lasts. The switch that `uthread_sleep` makes itself is the
first to count the sleeper down. -/

namespace Uthreads
open Fallible Transition

variable {ε : Type} {s s' start final : State ε}

structure Asleep (s : State ε) (tid : Int) (left : Int) : Prop where
  counter : s.sleepers[tid]? = some left
  status : s.status tid = some .asleep
  away : s.runningTid ≠ tid

/-- The switch that ends the sleep. A thread that is not blocked joins the queue
with the others that wake up, ahead of a preempted thread; it may be dispatched
at once when nobody else is ready. -/
structure Wakes (tid : Int) (move : Move (State ε) (Event ε)) : Prop where
  gone : tid ∉ move.after.sleepers
  ready : tid ∉ move.before.blockedTids →
    (∃ woken preempted, tid ∈ woken ∧ (∀ other ∈ woken, other ∉ move.after.sleepers) ∧
      (move.label.op = .preempt ∧ preempted = [move.before.runningTid] ∨
        move.label.op ≠ .preempt ∧ preempted = []) ∧
      move.before.readyTids ++ woken ++ preempted = move.after.runningTid :: move.after.readyTids) ∧
    move.after.status tid = some (if move.after.runningTid = tid then .running else .ready)
  blocked : tid ∈ move.before.blockedTids → move.after.status tid = some .blocked ∧ tid ∉ move.after.readyTids

theorem WellFormed.asleep_of_counter (valid : WellFormed s) {tid left : Int} (counter : s.sleepers[tid]? = some left) :
    Asleep s tid left := by
  have member : tid ∈ s.sleepers := OrderedMap.mem_iff_exists.mpr ⟨_, counter⟩
  refine ⟨counter, (valid.asleep tid).mp member, ?_⟩
  rintro rfl
  exact (valid.consistent.unqueued _ rfl).2.1 member

private theorem Branch.switches_same {op : Op ε} {target : Status} (branch : Branch s op (.switches target) s') :
    s'.readyTids = s.readyTids ∧ s'.blockedTids = s.blockedTids ∧ s'.runningTid = s.runningTid ∧
      (op = .preempt ∧ target = .ready ∨ op ≠ .preempt ∧ target ≠ .ready) := by
  cases branch <;> exact ⟨rfl, rfl, rfl, by simp⟩

private theorem switch_sleeper {op : Op ε} {target : Status} {middle : State ε} {here : Context ε} {reply : Reply}
    {next : Int} {rest : List Int} (branch : Branch (blockVtAlarm s) op (.switches target) middle)
    (queue : (middle.tick.leave target).readyTids = next :: rest) {tid left : Int}
    (counter : middle.sleepers[tid]? = some left) (valid : WellFormed (middle.handOver target here next rest)) :
    (left ≠ 0 → Asleep (middle.handOver target here next rest) tid (left - 1)) ∧
      (left = 0 → Wakes tid ⟨s, ⟨op, here, reply⟩, middle.handOver target here next rest⟩) := by
  obtain ⟨sameReady, sameBlocked, sameRunning, preempts⟩ := branch.switches_same
  have sleepers : ∀ other : Int, (middle.handOver target here next rest).sleepers[other]? =
      middle.sleepers[other]?.bind (countDown other) := by
    intro other
    rw [State.sleepers_handOver, State.getElem?_sleepers_tick]
  have entry := sleepers tid
  rw [counter] at entry
  refine ⟨fun going => valid.asleep_of_counter (entry.trans (if_neg going)), ?_⟩
  rintro rfl
  have awake : ∀ other, middle.sleepers[other]? = some 0 → other ∉ (middle.handOver target here next rest).sleepers := by
    intro other ended member
    rw [Std.ExtTreeMap.mem_iff_isSome_getElem?, sleepers, ended] at member
    cases member
  have blocked : ∀ other, other ∈ s.blockedTids → other ∈ (middle.handOver target here next rest).blockedTids := by
    intro other member
    rw [State.blockedTids_handOver, sameBlocked]
    split
    · exact Finset.mem_insert_of_mem member
    · exact member
  have running := State.runningTid_handOver middle target here next rest
  have ready := State.readyTids_handOver middle target here next rest
  refine ⟨awake tid counter, fun free => ⟨?_, ?_⟩, fun held => ?_⟩
  · refine ⟨middle.woken, if target = .ready then [middle.runningTid] else [], ?_, fun other member => ?_, ?_, ?_⟩
    · exact (State.mem_woken ..).mpr ⟨counter, sameBlocked ▸ free⟩
    · exact awake other ((State.mem_woken ..).mp member).1
    · rcases preempts with ⟨rfl, rfl⟩ | ⟨other, kind⟩
      · exact .inl ⟨rfl, by rw [if_pos rfl, sameRunning]; rfl⟩
      · exact .inr ⟨other, if_neg kind⟩
    · rw [State.readyTids_leave, State.readyTids_tick, sameReady] at queue
      exact queue.trans (by rw [running, ready])
  · change (middle.handOver target here next rest).status tid = _
    by_cases dispatched : next = tid
    · subst dispatched
      obtain ⟨old, found⟩ := State.live_iff_status.mp ((State.live_handOver ..).mp (running ▸ valid.running_live))
      rw [State.status_handOver, if_pos rfl, found, if_pos running]
      rfl
    · have queued : tid ∈ next :: rest := by
        rw [← queue, State.readyTids_leave, State.readyTids_tick]
        exact List.mem_append_left _ (List.mem_append_right _ ((State.mem_woken ..).mpr ⟨counter, sameBlocked ▸ free⟩))
      have waits := (List.mem_cons.mp queued).resolve_left (Ne.symm dispatched)
      rw [(valid.ready tid).mp (ready.symm ▸ waits), if_neg (running.symm ▸ dispatched)]
  · have status := (valid.blocked tid).mpr ⟨blocked tid held, awake tid counter⟩
    refine ⟨status, fun member => ?_⟩
    have ready := (valid.ready tid).mp member
    rw [status] at ready
    cases ready

/-- Once the thread sleeps, only switches bring it nearer to its end. -/
theorem Step.sleeper {event : Event ε} (step : Step s event.here event.op event.reply s')
    (valid : WellFormed s) (valid' : WellFormed s') {tid left : Int} (asleep : Asleep s tid left) :
    (event.op.switching s = false → Asleep s' tid left) ∧
      (event.op.switching s = true → (left ≠ 0 → Asleep s' tid (left - 1)) ∧ (left = 0 → Wakes tid ⟨s, event, s'⟩)) := by
  constructor
  · intro stays
    exact valid'.asleep_of_counter ((step.stays valid.sound stays).sleepers ▸ asleep.counter)
  · intro leaves
    obtain ⟨target, middle, next, rest, branch, queue, -, -, rfl⟩ := step.leaves leaves
    have counter : middle.sleepers[tid]? = some left := by
      generalize event.op = op at branch
      cases branch with
      | sleep =>
        have other : tid ≠ (blockVtAlarm s).runningTid := Ne.symm asleep.away
        change (State.doze _ _).sleepers[tid]? = some left
        rw [State.getElem?_doze, if_neg other]
        exact asleep.counter
      | blockRunning | terminateRunning | preempt => exact asleep.counter
    exact switch_sleeper branch queue counter valid'

/-- The call itself: its own switch is the first of the count. -/
theorem sleep_call {event : Event ε} (taken : Takes s event s') (valid : WellFormed s)
    (other : s.runningTid ≠ 0) {numQuantums : Int} (amount : 0 ≤ numQuantums) (call : event.op = .sleep numQuantums) :
    event.op.switching s = true ∧ WellFormed s' ∧ (numQuantums ≠ 0 → Asleep s' s.runningTid (numQuantums - 1)) ∧
      (numQuantums = 0 → Wakes s.runningTid ⟨s, event, s'⟩) := by
  obtain ⟨op, here, reply⟩ := event
  subst call
  have step := step_of_call valid.sound taken
  have leaves : (Op.sleep numQuantums : Op ε).switching s = true := by
    have body := body_of_branch (.sleep (s := blockVtAlarm s) other amount valid.running_live)
    simp [Op.switching, body]
  have valid' := step.wellFormed valid fun _ same => by cases same
  refine ⟨leaves, valid', ?_⟩
  obtain ⟨target, middle, next, rest, branch, queue, -, -, rfl⟩ := step.leaves leaves
  have counter : middle.sleepers[s.runningTid]? = some numQuantums := by
    cases branch with
    | sleep =>
      have awake : s.runningTid ∉ s.sleepers := (valid.consistent.unqueued _ rfl).2.1
      change (State.doze (blockVtAlarm s) _).sleepers[s.runningTid]? = _
      rw [State.getElem?_doze]
      simp [blockVtAlarm, awake]
  exact switch_sleeper branch queue counter valid'

theorem run_asleep {later : History ε} (valid : WellFormed start) {tid left : Int}
    (asleep : Asleep start tid left) (run : Run Takes start later final) (spared : Sparing later)
    (short : (switches later : Int) ≤ left) : Asleep final tid (left - switches later) := by
  induction run with
  | start => simpa using asleep
  | @next history state event final run taken ih =>
    have sparing : Sparing history := fun move member => spared move (List.mem_append_left _ member)
    rw [switches_concat] at short ⊢
    have asleep := ih sparing (by omega)
    have valid := run_wellFormed valid run sparing
    have step := step_of_call valid.sound taken
    have valid' := step.wellFormed valid (spared ⟨state, event, final⟩ (by simp))
    obtain ⟨stays, leaves⟩ := step.sleeper valid valid' asleep
    cases kind : event.op.switching state with
    | false => simpa using stays kind
    | true =>
      rw [kind] at short
      have going : left - switches history ≠ 0 := by simp only [if_true] at short; omega
      have next := (leaves kind).1 going
      rw [if_pos rfl]
      exact (show left - ↑(switches history) - 1 = left - ↑(switches history + 1) by omega) ▸ next

/-- A sleep of `n` quantums lasts for the first `n` switches, counted from the
one of the call itself, and ends with the next, whatever is called meanwhile. -/
theorem sleep_lasts_exactly {event : Event ε} {numQuantums : Int} {asleep : State ε} {later : History ε}
    (valid : WellFormed start) (other : start.runningTid ≠ 0) (amount : 0 ≤ numQuantums)
    (call : event.op = .sleep numQuantums) (run : Run Takes start (⟨start, event, asleep⟩ :: later) final)
    (spared : Sparing later) :
    (∀ first last middle, ⟨start, event, asleep⟩ :: later = first ++ last → first ≠ [] → Run Takes start first middle →
        (switches first : Int) ≤ numQuantums →
        Asleep middle start.runningTid (numQuantums - switches first)) ∧
      ∀ first move last, ⟨start, event, asleep⟩ :: later = first ++ move :: last → switched move = true →
        (switches first : Int) = numQuantums → Wakes start.runningTid move := by
  have begins : Takes start event asleep := run.move_taken ⟨start, event, asleep⟩ (by simp)
  obtain ⟨leaves, valid', going, ending⟩ := sleep_call begins valid other amount call
  have counts : ∀ rest : History ε, switches (⟨start, event, asleep⟩ :: rest) = switches rest + 1 := by
    intro rest
    have one : switched (⟨start, event, asleep⟩ : Move (State ε) (Event ε)) = true := leaves
    exact List.countP_cons_of_pos one
  have sleeping : ∀ first last middle, later = first ++ last → Run Takes asleep first middle →
      (switches first : Int) + 1 ≤ numQuantums →
      WellFormed middle ∧ Asleep middle start.runningTid (numQuantums - switches first - 1) := by
    rintro first last middle rfl run short
    have sparing : Sparing first := fun move member => spared move (List.mem_append_left _ member)
    have asleep := run_asleep valid' (going (by omega)) run sparing (by omega)
    exact ⟨run_wellFormed valid' run sparing,
      (show numQuantums - 1 - switches first = numQuantums - switches first - 1 by omega) ▸ asleep⟩
  constructor
  · intro first last middle same nonempty reached short
    obtain ⟨head, rest, rfl⟩ := List.exists_cons_of_ne_nil nonempty
    obtain ⟨rfl, rfl⟩ := List.cons.inj same
    rw [counts] at short ⊢
    have := (sleeping rest last middle rfl reached.rest (by omega)).2
    exact (show numQuantums - switches rest - 1 = numQuantums - ↑(switches rest + 1) by omega) ▸ this
  · intro first move last same kind exact
    cases first with
    | nil =>
      obtain ⟨rfl, -⟩ := List.cons.inj same
      exact ending (by simpa using exact.symm)
    | cons head rest =>
      obtain ⟨rfl, rfl⟩ := List.cons.inj same
      rw [counts] at exact
      obtain ⟨reached, taken, -⟩ := run.rest.at_move
      obtain ⟨valid, still⟩ := sleeping rest (move :: last) move.before rfl reached (by omega)
      have step := step_of_call valid.sound taken
      have valid' := step.wellFormed valid (spared move (by simp))
      exact ((step.sleeper valid valid' still).2 kind).2 (by omega)

/-- A sleep of one quantum: the thread is still asleep after its own switch, and
the preemption of main ends the sleep. -/
theorem sleep_lasts_exactly_one : ∃ (start asleep final : State Unit) (call preemption : Event Unit),
    start.runningTid = 1 ∧ call.op = .sleep 1 ∧ Takes start call asleep ∧ Asleep asleep 1 0 ∧
      preemption.op = .preempt ∧ Takes asleep preemption final ∧ Wakes 1 ⟨asleep, preemption, final⟩ := by
  obtain ⟨before, start, reach, tested⟩ := perform_tested booted
    [(.spawn (some ()), ⟨0, ()⟩), (.preempt, ⟨0, ()⟩)]
    (fun before start => Sparing before ∧ start.runningTid = 1 ∧
      ((Op.sleep 1).call ⟨1, ()⟩ start).toOption.any fun slept =>
        (Op.sleep 1).switching start ∧ (Op.preempt.call ⟨0, ()⟩ slept.2).toOption.any fun _ =>
          Op.preempt.switching slept.2) (by decide +kernel)
  obtain ⟨calm, running, tested⟩ := of_decide_eq_true tested
  obtain ⟨⟨reply, asleep⟩, slept, tested⟩ := tested_ok _ tested
  obtain ⟨first, tested⟩ := of_decide_eq_true tested
  obtain ⟨⟨answer, final⟩, preempted, second⟩ := tested_ok _ tested
  have valid := run_wellFormed booted_initialized.wellFormed reach calm
  let call : Event Unit := ⟨.sleep 1, ⟨1, ()⟩, reply⟩
  let preemption : Event Unit := ⟨.preempt, ⟨0, ()⟩, answer⟩
  have run : Run Takes start [⟨start, call, asleep⟩, ⟨asleep, preemption, final⟩] final := .cons slept (.single preempted)
  have one : switches ([⟨start, call, asleep⟩] : History Unit) = 1 := List.countP_cons_of_pos first
  have spared : Sparing [(⟨asleep, preemption, final⟩ : Move (State Unit) (Event Unit))] := by
    intro move member
    cases List.mem_singleton.mp member
    exact fun _ same => by cases same
  obtain ⟨sleeping, ending⟩ := sleep_lasts_exactly valid (by rw [running]; decide) (by decide) rfl run spared
  have still := sleeping [⟨start, call, asleep⟩] _ asleep rfl (by simp) (.single slept) (by rw [one]; decide)
  have woken := ending [⟨start, call, asleep⟩] ⟨asleep, preemption, final⟩ [] rfl second (by rw [one]; rfl)
  rw [running] at still woken
  rw [one] at still
  exact ⟨start, asleep, final, call, preemption, running, rfl, slept, still, rfl, preempted, woken⟩

end Uthreads
