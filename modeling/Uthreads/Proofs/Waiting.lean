import Uthreads.Library.Fifo
import Uthreads.Proofs.Invariant

/-! The ready queue is first in, first out. A thread that waits is dispatched by
a switch that can be counted in advance, from its position and from those who
leave the queue ahead of it. -/

namespace Uthreads
open Fallible Transition

variable {ε : Type} {s s' start final : State ε}

/-- A move takes somebody who stood ahead of the thread out of the queue. -/
def cutsAhead (tid : Int) (move : Move (State ε) (Event ε)) : Bool :=
  match move.label.op with
  | .block other | .terminate other =>
    other ∈ move.before.readyTids.takeWhile (· ≠ tid) ∧ other ∉ move.after.readyTids
  | _ => false

def cuts (tid : Int) (history : History ε) : Nat := history.countP (cutsAhead tid)

def StillWaits (tid : Int) (history : History ε) : Prop :=
  ∀ move ∈ history, switched move = true → move.after.runningTid ≠ tid

/-- The ways into the queue lead to its back, and there is one way out of its
middle. -/
theorem Step.queue_stays {op : Op ε} {here : Context ε} {reply : Reply} (step : Step s here op reply s')
    (stays : op.switching s = false) :
    (∃ new, s'.readyTids = s.readyTids ++ new) ∨
      ∃ tid, (op = .block tid ∨ op = .terminate tid) ∧ tid ∈ s.readyTids ∧ s'.readyTids = s.readyTids.erase tid := by
  have same : s'.readyTids = s.readyTids → (∃ new, s'.readyTids = s.readyTids ++ new) ∨
      ∃ tid, (op = .block tid ∨ op = .terminate tid) ∧ tid ∈ s.readyTids ∧ s'.readyTids = s.readyTids.erase tid :=
    fun same => .inl ⟨[], by simpa using same⟩
  cases step with
  | switches branch leaves => simp [leaves] at stays
  | finishes branch =>
    cases branch with
    | spawn => exact .inl ⟨_, State.readyTids_enroll ..⟩
    | resumeBlocked => exact .inl ⟨_, rfl⟩
    | terminateReady other found queued => exact .inr ⟨_, .inr rfl, queued, rfl⟩
    | blockReady other found queued => exact .inr ⟨_, .inl rfl, queued, rfl⟩
    | terminateBlocked | terminateRest | blockAsleep | blockRest | resumeAsleep | resumeRest | getTid
    | getTotalQuantums | getQuantums => exact same rfl
  | fails | getTid | getTotalQuantums => exact same rfl

theorem Step.queue_leaves {op : Op ε} {here : Context ε} {reply : Reply} (step : Step s here op reply s')
    (valid : WellFormed s) (leaves : op.switching s = true) :
    (∃ new, s.readyTids ++ new = s'.runningTid :: s'.readyTids) ∧
      ∀ tid, op = .block tid ∨ op = .terminate tid → tid ∉ s.readyTids := by
  obtain ⟨target, middle, next, rest, branch, queue, -, -, rfl⟩ := step.leaves leaves
  have same : middle.readyTids = s.readyTids := by cases branch <;> rfl
  rw [State.readyTids_leave, State.readyTids_tick, List.append_assoc, same] at queue
  refine ⟨⟨_, by rw [State.runningTid_handOver, State.readyTids_handOver]; exact queue⟩, fun tid kind => ?_⟩
  have away := (valid.consistent.unqueued _ rfl).1
  cases branch with
  | blockRunning other found | terminateRunning other found =>
    have running := valid.only _ (.inl found)
    rcases kind with kind | kind <;> cases kind
    exact running ▸ away
  | sleep | preempt => rcases kind with kind | kind <;> cases kind

section position

private theorem cuts_concat (tid : Int) (history : History ε) (move : Move (State ε) (Event ε)) :
    cuts tid (history ++ [move]) = cuts tid history + if cutsAhead tid move = true then 1 else 0 := by
  unfold cuts
  rw [List.countP_append, List.countP_singleton]

private theorem cutsAhead_of_kept {tid : Int} {event : Event ε}
    (kept : ∀ other, event.op = .block other ∨ event.op = .terminate other → other ∈ s.readyTids → other ∈ s'.readyTids) :
    cutsAhead tid ⟨s, event, s'⟩ = false := by
  obtain ⟨op, here, reply⟩ := event
  have inside : ∀ other, other ∈ s.readyTids.takeWhile (· ≠ tid) → other ∈ s.readyTids := fun other member =>
    (List.takeWhile_sublist _).subset member
  cases op with
  | block other =>
    exact decide_eq_false fun both => both.2 (kept other (.inl rfl) (inside other both.1))
  | terminate other =>
    exact decide_eq_false fun both => both.2 (kept other (.inr rfl) (inside other both.1))
  | _ => rfl

private theorem cutsAhead_withdraw {tid other : Int} {event : Event ε} {ahead : List Int} (valid : WellFormed s)
    (waits : Fifo.Waits s.readyTids ahead tid) (kind : event.op = .block other ∨ event.op = .terminate other)
    (erased : s'.readyTids = s.readyTids.erase other) : cutsAhead tid ⟨s, event, s'⟩ = decide (other ∈ ahead) := by
  have fresh : tid ∉ ahead := by
    obtain ⟨behind, same⟩ := waits
    have distinct := valid.nodup
    rw [same] at distinct
    exact fun member => (List.nodup_append.mp distinct).2.2 tid member tid (by simp) rfl
  have gone : other ∉ s'.readyTids := erased ▸ valid.nodup.not_mem_erase
  have front := waits.unique fresh
  obtain ⟨op, here, reply⟩ := event
  rcases kind with rfl | rfl <;> simp only [cutsAhead, front, gone, not_false_eq_true, and_true]

/-- One move brings a waiting thread forward by one place for every switch and
every departure ahead of it; at the front the next switch dispatches it. -/
private theorem Step.waits {event : Event ε} (step : Step s event.here event.op event.reply s')
    (valid : WellFormed s) (valid' : WellFormed s') {tid : Int} {ahead : List Int}
    (waits : Fifo.Waits s.readyTids ahead tid) (kept : event.op ≠ .block tid ∧ event.op ≠ .terminate tid) :
    event.op.switching s = true ∧ ahead = [] ∧ s'.runningTid = tid ∨
      ∃ fewer, Fifo.Waits s'.readyTids fewer tid ∧ fewer.Sublist ahead ∧ s'.runningTid ≠ tid ∧
        fewer.length + (if event.op.switching s = true then 1 else 0) +
          (if cutsAhead tid ⟨s, event, s'⟩ = true then 1 else 0) = ahead.length := by
  have away : ∀ fewer, Fifo.Waits s'.readyTids fewer tid → s'.runningTid ≠ tid := by
    rintro fewer waits rfl
    exact (valid'.consistent.unqueued _ rfl).1 waits.mem
  cases kind : event.op.switching s with
  | false =>
    right
    rcases step.queue_stays kind with ⟨new, grown⟩ | ⟨other, leaves, queued, erased⟩
    · have still : Fifo.Waits s'.readyTids ahead tid := grown ▸ waits.arrive new
      have uncut : cutsAhead tid ⟨s, event, s'⟩ = false :=
        cutsAhead_of_kept fun other _ member => grown ▸ List.mem_append_left new member
      exact ⟨ahead, still, List.Sublist.refl _, away _ still, by simp [uncut]⟩
    · have different : other ≠ tid := by
        rintro rfl
        exact leaves.elim kept.1 kept.2
      have still : Fifo.Waits s'.readyTids (ahead.erase other) tid := erased ▸ waits.withdraw different
      refine ⟨ahead.erase other, still, List.erase_sublist, away _ still, ?_⟩
      rw [cutsAhead_withdraw valid waits leaves erased, List.length_erase]
      by_cases front : other ∈ ahead
      · have positive := List.length_pos_of_mem front
        simp only [front, decide_true, if_true, Bool.false_eq_true, if_false]
        omega
      · simp [front]
  | true =>
    obtain ⟨⟨new, queue⟩, outside⟩ := step.queue_leaves valid kind
    have uncut : cutsAhead tid ⟨s, event, s'⟩ = false :=
      cutsAhead_of_kept fun other leaves member => absurd member (outside other leaves)
    rcases (waits.arrive new).serve queue with ⟨first, same⟩ | ⟨fewer, rfl, still⟩
    · exact .inl ⟨rfl, first, same⟩
    · exact .inr ⟨fewer, still, List.sublist_cons_self .., away _ still, by simp [uncut]⟩

private theorem run_position {history : History ε} (valid : WellFormed start) {tid : Int} {ahead : List Int}
    (waits : Fifo.Waits start.readyTids ahead tid) (run : Run Takes start history final) (spared : Sparing history)
    (kept : ∀ move ∈ history, move.label.op ≠ .block tid ∧ move.label.op ≠ .terminate tid)
    (waiting : StillWaits tid history) :
    ∃ fewer, Fifo.Waits final.readyTids fewer tid ∧ fewer.Sublist ahead ∧
      fewer.length + switches history + cuts tid history = ahead.length := by
  induction run with
  | start => exact ⟨ahead, waits, List.Sublist.refl _, rfl⟩
  | @next history state event final run taken ih =>
    have earlier : ∀ {p : Move (State ε) (Event ε) → Prop},
        (∀ move ∈ history ++ [⟨state, event, final⟩], p move) → ∀ move ∈ history, p move :=
      fun all move member => all move (List.mem_append_left _ member)
    obtain ⟨fewer, still, sublist, count⟩ := ih (earlier spared) (earlier kept) (earlier waiting)
    have valid := run_wellFormed valid run (earlier spared)
    have step := step_of_call valid.sound taken
    have valid' := step.wellFormed valid (spared ⟨state, event, final⟩ (by simp))
    rw [switches_concat, cuts_concat]
    rcases step.waits valid valid' still (kept ⟨state, event, final⟩ (by simp)) with ⟨kind, -, same⟩ | ⟨less, still, shorter, -, steps⟩
    · exact absurd same (waiting ⟨state, event, final⟩ (by simp) kind)
    · exact ⟨less, still, shorter.trans sublist, by omega⟩

end position

section order

private theorem Step.pair {op : Op ε} {here : Context ε} {reply : Reply} (step : Step s here op reply s')
    (valid : WellFormed s) (valid' : WellFormed s') {one two : Int} (ordered : [one, two].Sublist s.readyTids)
    (first : s'.status one = some .ready) (second : s'.status two = some .ready) :
    [one, two].Sublist s'.readyTids := by
  have queued := fun {tid} => (valid'.ready tid).mpr
  cases kind : op.switching s with
  | false =>
    rcases step.queue_stays kind with ⟨new, grown⟩ | ⟨other, leaves, member, erased⟩
    · rw [grown]
      exact ordered.trans (List.sublist_append_left ..)
    · have gone : other ∉ s'.readyTids := erased ▸ valid.nodup.not_mem_erase
      rw [erased]
      exact Fifo.pair_withdraw ordered (fun same => gone (same ▸ queued first)) fun same => gone (same ▸ queued second)
  | true =>
    obtain ⟨⟨new, queue⟩, -⟩ := step.queue_leaves valid kind
    have away := (valid'.consistent.unqueued _ rfl).1
    have longer := ordered.trans (List.sublist_append_left s.readyTids new)
    rw [queue] at longer
    exact Fifo.pair_serve longer fun same => away (same ▸ queued first)

end order

/-- A thread at position `i` of the queue that nobody blocks or terminates is
dispatched by the switch number `i + 1 - k`, where `k` counts the threads ahead
of it that left the queue before. Until then nobody gets ahead of it, and two
threads that stay ready keep their order. -/
theorem ready_thread_waits_its_turn {history : History ε} (valid : WellFormed start) {tid : Int} {i : Nat}
    (position : start.readyTids[i]? = some tid) (run : Run Takes start history final) (spared : Sparing history)
    (kept : ∀ move ∈ history, move.label.op ≠ .block tid ∧ move.label.op ≠ .terminate tid) :
    (∀ first move last, history = first ++ move :: last → StillWaits tid first → switched move = true →
        (move.after.runningTid = tid ↔ switches (first ++ [move]) + cuts tid first = i + 1)) ∧
      (StillWaits tid history → ∃ ahead behind, final.readyTids = ahead ++ tid :: behind ∧
        ahead.Sublist (start.readyTids.take i) ∧ ahead.length + switches history + cuts tid history = i) ∧
      ∀ one two, [one, two].Sublist start.readyTids →
        (∀ move ∈ history, move.after.status one = some .ready ∧ move.after.status two = some .ready) →
        [one, two].Sublist final.readyTids := by
  obtain ⟨inside, same⟩ := List.getElem?_eq_some_iff.mp position
  have length : (start.readyTids.take i).length = i := List.length_take_of_le (Nat.le_of_lt inside)
  have waits : Fifo.Waits start.readyTids (start.readyTids.take i) tid :=
    ⟨start.readyTids.drop (i + 1), by rw [← same, List.getElem_cons_drop, List.take_append_drop]⟩
  refine ⟨?_, ?_, ?_⟩
  · rintro first ⟨before, event, after⟩ last rfl waiting kind
    obtain ⟨run, taken, -⟩ := run.at_move
    have sparing : Sparing first := fun move member => spared move (List.mem_append_left _ member)
    obtain ⟨ahead, still, -, count⟩ := run_position valid waits run sparing
      (fun move member => kept move (List.mem_append_left _ member)) waiting
    have valid := run_wellFormed valid run sparing
    have step := step_of_call valid.sound taken
    have valid' := step.wellFormed valid (spared ⟨before, event, after⟩ (by simp))
    have leaves : event.op.switching before = true := kind
    rw [switches_concat, if_pos leaves]
    rcases step.waits valid valid' still (kept ⟨before, event, after⟩ (by simp)) with
      ⟨-, rfl, same⟩ | ⟨less, -, -, away, steps⟩
    · exact iff_of_true same (by simp only [List.length_nil] at count; omega)
    · rw [if_pos leaves] at steps
      exact iff_of_false away (by omega)
  · intro waiting
    obtain ⟨ahead, ⟨behind, queue⟩, sublist, count⟩ := run_position valid waits run spared kept waiting
    exact ⟨ahead, behind, queue, sublist, count.trans length⟩
  · intro one two ordered stay
    clear kept
    induction run with
    | start => exact ordered
    | @next history state event final run taken ih =>
      have earlier : ∀ {p : Move (State ε) (Event ε) → Prop},
          (∀ move ∈ history ++ [⟨state, event, final⟩], p move) → ∀ move ∈ history, p move :=
        fun all move member => all move (List.mem_append_left _ member)
      have valid := run_wellFormed valid run (earlier spared)
      have step := step_of_call valid.sound taken
      have valid' := step.wellFormed valid (spared ⟨state, event, final⟩ (by simp))
      obtain ⟨first, second⟩ := stay ⟨state, event, final⟩ (by simp)
      exact step.pair valid valid' (ih (earlier spared) (earlier stay)) first second

/-- Three threads wait, the first is blocked and a switch dispatches the second:
the third is next. -/
theorem ready_thread_waits_its_turn_third : ∃ (start final : State Unit) (history : History Unit),
    start.readyTids = [1, 2, 3] ∧ Run Takes start history final ∧ switches history = 1 ∧ cuts 3 history = 1 ∧
      ∃ ahead behind, final.readyTids = ahead ++ 3 :: behind ∧ ahead.Sublist [1, 2] ∧ ahead.length + 1 + 1 = 2 := by
  obtain ⟨before, start, reach, tested⟩ := perform_tested booted
    [(.spawn (some ()), ⟨0, ()⟩), (.spawn (some ()), ⟨0, ()⟩), (.spawn (some ()), ⟨0, ()⟩)]
    (fun before start => Sparing before ∧ start.readyTids = [1, 2, 3] ∧
      (perform start [(.block 1, ⟨0, ()⟩), (.preempt, ⟨0, ()⟩)]).any fun done =>
        Sparing done.1 ∧ switches done.1 = 1 ∧ cuts 3 done.1 = 1 ∧
          (∀ move ∈ done.1, move.label.op ≠ .block 3 ∧ move.label.op ≠ .terminate 3) ∧
          ∀ move ∈ done.1, switched move = true → move.after.runningTid ≠ 3) (by decide +kernel)
  obtain ⟨calm, queue, tested⟩ := of_decide_eq_true tested
  obtain ⟨⟨history, final⟩, performed, tested⟩ := (Option.any_eq_true _ _).mp tested
  obtain ⟨spared, counted, cut, kept, waiting⟩ := of_decide_eq_true tested
  have run := perform_run performed
  have valid := run_wellFormed booted_initialized.wellFormed reach calm
  have position : start.readyTids[2]? = some 3 := by rw [queue]; rfl
  obtain ⟨-, position, -⟩ := ready_thread_waits_its_turn valid position run spared kept
  rw [queue, counted, cut] at position
  exact ⟨start, final, history, queue, run, counted, cut, position waiting⟩

end Uthreads
