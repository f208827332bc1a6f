import Uthreads.Nim.Proofs.Exclusion

/-! The hand-off of the mutex in nim/uthreads.cpp: who is chosen, and when the
chosen thread is enqueued. -/

namespace Uthreads.Nim
open RoundRobin Transition

variable {ε : Type} {s start final : State ε} {tid : Int}

def State.readyIds (s : State ε) : List Int := s.ready.map s.idOf

def HandsOff (s : State ε) (event : Event ε) : Prop :=
  event.op = .mutexUnlock ∧ event.reply.value = some success ∨ ∃ holder, event.op = .terminate holder ∧ s.Owns holder

/-- The queue at the end of a call that passes the mutex on. Its front is running
by then if the call was a self-termination. -/
def Event.queue (event : Event ε) (before after : State ε) : List Int :=
  match event.op with
  | .terminate tid => if tid = before.runningId then after.runningId :: after.readyIds else after.readyIds
  | _ => after.readyIds

/-- One waiter becomes the holder. It is in the queue at once if it is not
blocked, which is so if any waiter is not. -/
structure HandedTo (before : State ε) (event : Event ε) (after : State ε) (waiter : Int) : Prop where
  waited : waiter ∈ before.mutexBlocked
  left : ∀ tid, tid ∈ after.mutexBlocked ↔ tid ∈ before.mutexBlocked ∧ tid ≠ waiter
  owns : after.Owns waiter
  preferred : waiter ∈ before.blocked → ∀ other ∈ before.mutexBlocked, other ∈ before.blocked
  blocked : waiter ∈ after.blocked ↔ waiter ∈ before.blocked
  absent : waiter ∉ before.readyIds
  queued : event.queue before after =
    before.readyIds.erase (before.idOf before.mutex.threadBlock) ++ if waiter ∈ before.blocked then [] else [waiter]

structure Suspended (s : State ε) (tid : Int) : Prop where
  blocked : tid ∈ s.blocked
  owns : s.Owns tid
  absent : tid ∉ s.readyIds
  away : s.runningId ≠ tid
  resumed : ∀ event after, Takes s event after → event.op = .resume tid →
    after.readyIds = s.readyIds ++ [tid] ∧ tid ∉ after.blocked

section scheduler
variable {a b : Guarded Int} {next value : Option Int} {op : Op ε}

theorem Ruled.leaves (ruled : Ruled next a op value b) (waits : tid ∈ a.waiting) (gone : tid ∉ b.waiting) :
    b.owner = some tid ∨ op = .terminate tid := by
  have granted : tid ∉ (a.grant next).waiting → (a.grant next).owner = some tid := by
    intro gone
    cases next with
    | none => exact absurd waits gone
    | some waiter =>
      by_contra different
      exact gone (Finset.mem_erase_of_ne_of_mem (fun same => different (congrArg some same.symm)) waits)
  have left : ∀ {other}, tid ∉ ((a.surrender other next).drop other).waiting →
      ((a.surrender other next).drop other).owner = some tid ∨ other = tid := by
    intro other gone
    by_cases same : other = tid
    · exact .inr same
    · refine .inl ?_
      have gone : tid ∉ (a.surrender other next).waiting := fun waits =>
        gone (Finset.mem_erase_of_ne_of_mem (Ne.symm same) waits)
      change (a.surrender other next).owner = some tid
      unfold Guarded.surrender at gone ⊢
      split at gone
      next owns =>
        rw [if_pos owns]
        exact granted gone
      next => exact absurd waits gone
  cases ruled with
  | quiet | spawn | block | lockFree | lockAgain | unlockOther => exact absurd waits gone
  | resume =>
    refine absurd waits ?_
    unfold Guarded.release at gone
    split at gone <;> exact gone
  | terminate => exact (left gone).imp_right (congrArg _)
  | terminateSelf _ turn =>
    rw [turn.waiting] at gone
    rw [turn.owner]
    exact (left gone).imp_right (congrArg _)
  | blockSelf _ turn =>
    rw [turn.waiting] at gone
    exact absurd waits gone
  | lockWait _ _ turn =>
    rw [turn.waiting] at gone
    exact absurd (Finset.mem_insert_of_mem waits) gone
  | unlock => exact .inl (granted gone)
  | preempt turn =>
    rw [turn.waiting] at gone
    exact absurd waits gone

/-- What the hand-off to `waiter` does to the scheduler. `queue` is the queue
before a change of turn. -/
structure Passed (a : Guarded Int) (holder waiter : Int) (queue : List Int) (b : Guarded Int) : Prop where
  waiting : b.waiting = a.waiting.erase waiter
  owner : b.owner = some waiter
  held : (b.tasks waiter).map Task.held = (a.tasks waiter).map Task.held
  queue : queue = a.queue.erase holder ++ if a.able waiter then [waiter] else []

private theorem queue_grant {waiter : Int} :
    (a.grant (some waiter)).queue = a.queue ++ if a.able waiter then [waiter] else [] := by
  unfold Guarded.grant
  dsimp only
  split
  · rfl
  · rw [List.append_nil]

private theorem Sane.passed_unlock (sane : Sane a) {waiter : Int} :
    Passed a a.current waiter (a.grant (some waiter)).queue (a.grant (some waiter)) := by
  refine ⟨rfl, rfl, rfl, ?_⟩
  have absent : a.current ∉ a.queue := fun member => ((sane.placed.queued _).mp member).1 rfl
  rw [List.erase_of_not_mem absent, queue_grant]

private theorem Sane.passed_leave (sane : Sane a) {holder waiter : Int} (owns : a.owner = some holder)
    (waits : waiter ∈ a.waiting) : Passed a holder waiter ((a.surrender holder (some waiter)).drop holder).queue
      ((a.surrender holder (some waiter)).drop holder) := by
  have away := (sane.placed.owner holder owns).2
  have different : waiter ≠ holder := fun same => away (same ▸ waits)
  have passes : a.surrender holder (some waiter) = a.grant (some waiter) := if_pos owns
  rw [passes]
  refine ⟨?_, rfl, ?_, ?_⟩
  · apply Finset.erase_eq_of_notMem
    exact fun member => away (Finset.mem_of_mem_erase member)
  · have tasks := (a.grant (some waiter)).toScheduler.tasks_drop holder waiter
    rw [if_neg different] at tasks
    exact congrArg (Option.map Task.held) tasks
  · have dropped : ((a.grant (some waiter)).drop holder).queue = (a.grant (some waiter)).queue.erase holder := rfl
    rw [dropped, queue_grant, List.erase_append]
    split
    · rfl
    · rename_i absent
      rw [List.erase_of_not_mem absent]
      split
      · rw [List.erase_of_not_mem (by simpa using Ne.symm different)]
      · rfl

private theorem Passed.dispatch {holder waiter front : Int} {queue rest : List Int} {c : Guarded Int}
    (passed : Passed a holder waiter queue b) (turn : Guarded.Dispatched b c front rest) : Passed a holder waiter queue c :=
  ⟨turn.waiting.trans passed.waiting, turn.owner.trans passed.owner, (turn.held waiter).trans passed.held, passed.queue⟩

structure Reserved (a : Guarded Int) (tid : Int) : Prop where
  owner : a.owner = some tid
  held : (a.tasks tid).map Task.held = some true

theorem Reserved.idle (reserved : Reserved a tid) : ¬ a.Runnable tid := by
  obtain ⟨task, found, held⟩ := Option.map_eq_some_iff.mp reserved.held
  intro runnable
  simpa [Guarded.able, found, Task.runnable, held] using runnable.1

theorem Reserved.away (reserved : Reserved a tid) (sane : Sane a) : a.current ≠ tid := by
  rintro rfl
  exact reserved.idle (sane.placed.turn _ rfl)

private theorem Reserved.dispatch {front : Int} {rest : List Int} (reserved : Reserved a tid)
    (turn : Guarded.Dispatched a b front rest) : Reserved b tid :=
  ⟨turn.owner.trans reserved.owner, (turn.held tid).trans reserved.held⟩

private theorem Reserved.hold (reserved : Reserved a tid) (other : Int) : Reserved (a.hold other) tid := by
  refine ⟨reserved.owner, ?_⟩
  rw [Guarded.tasks_hold]
  split
  · rename_i same
    obtain ⟨task, found, -⟩ := Option.map_eq_some_iff.mp reserved.held
    simp [← same, found]
  · exact reserved.held

private theorem Reserved.leave (reserved : Reserved a tid) {other : Int} (different : other ≠ tid) :
    Reserved ((a.surrender other next).drop other) tid := by
  have keeps : a.surrender other next = a := if_neg fun owns => different (Option.some.inj (owns.symm.trans reserved.owner))
  rw [keeps]
  have tasks := a.toScheduler.tasks_drop other tid
  rw [if_neg (Ne.symm different)] at tasks
  exact ⟨reserved.owner, (congrArg (Option.map Task.held) tasks).trans reserved.held⟩

theorem Reserved.step (reserved : Reserved a tid) (sane : Sane a) (ruled : Ruled next a op value b)
    (other : op ≠ .resume tid ∧ op ≠ .terminate tid) : Reserved b tid := by
  have away := reserved.away sane
  cases ruled with
  | quiet | lockAgain | unlockOther => exact reserved
  | @spawn _ id new =>
    refine ⟨reserved.owner, ?_⟩
    have tasks := a.toScheduler.tasks_accept id tid
    have different : tid ≠ id := by
      rintro rfl
      simpa [new] using reserved.held
    rw [if_neg different] at tasks
    exact (congrArg (Option.map Task.held) tasks).trans reserved.held
  | @terminate id => exact reserved.leave fun same => other.2 (same ▸ rfl)
  | terminateSelf _ turn => exact (reserved.leave away).dispatch turn
  | block => exact reserved.hold _
  | blockSelf _ turn => exact (reserved.hold _).dispatch turn
  | @resume id =>
    have different : tid ≠ id := fun same => other.1 (same ▸ rfl)
    refine ⟨?_, ?_⟩
    · unfold Guarded.release
      split <;> exact reserved.owner
    · rw [Guarded.tasks_release, if_neg different]
      exact reserved.held
  | lockFree free => exact nomatch free.symm.trans reserved.owner
  | lockWait _ _ turn => exact Reserved.dispatch (a := a.wait) ⟨reserved.owner, reserved.held⟩ turn
  | unlock owns => exact absurd (Option.some.inj (owns.symm.trans reserved.owner)) away
  | preempt turn => exact Reserved.dispatch (a := a.requeue) ⟨reserved.owner, reserved.held⟩ turn

theorem Reserved.resumed (reserved : Reserved a tid) (sane : Sane a)
    (awake : ∀ task, a.tasks tid = some task → task.sleep = none)
    (specified : (Op.resume tid : Op ε).spec next a = .ok (value, b)) :
    b.queue = a.queue ++ [tid] ∧ (b.tasks tid).map Task.held = some false := by
  obtain ⟨task, found, held⟩ := Option.map_eq_some_iff.mp reserved.held
  have away := (sane.placed.owner tid reserved.owner).2
  simp only [Op.spec, found, Option.isNone_some, Bool.false_eq_true, if_false] at specified
  cases specified
  constructor
  · simp [Guarded.release, away, Scheduler.release, found, held, awake task found]
  · simp [Guarded.tasks_release, found]

private theorem Sane.passed_terminate (sane : Sane a) {holder waiter : Int} (owns : a.owner = some holder)
    (waits : waiter ∈ a.waiting) (specified : (Op.terminate holder : Op ε).spec (some waiter) a = .ok (value, b)) :
    Passed a holder waiter (if holder = a.current then b.current :: b.queue else b.queue) b := by
  have left := sane.passed_leave owns waits
  have live := (sane.placed.owner holder owns).1
  simp only [Op.spec] at specified
  split at specified
  next dead => simp [Option.isNone_iff_eq_none.mp dead] at live
  next =>
    split at specified
    next => cases specified
    next =>
      split at specified
      next self =>
        obtain ⟨-, front, rest, turn⟩ := turn_ok specified
        rw [if_pos self, turn.current, turn.queue, ← turn.front]
        exact left.dispatch turn
      next other =>
        cases specified
        rw [if_neg other]
        exact left

private theorem Sane.passed (sane : Sane a) {waiter : Int}
    (specified : (Op.mutexUnlock : Op ε).spec (some waiter) a = .ok (some success, b)) :
    a.owner = some a.current ∧ Passed a a.current waiter b.queue b := by
  simp only [Op.spec] at specified
  split at specified
  next owns =>
    cases specified
    exact ⟨owns, sane.passed_unlock⟩
  next => cases specified

end scheduler

section code

theorem Valid.suspended (valid : Valid s) (reserved : Reserved (abstraction s) tid) : Suspended s tid := by
  have sane := valid.sane
  refine ⟨valid.blocked_iff.mp reserved.held, valid.owns_iff.mpr reserved.owner, ?_, reserved.away sane, ?_⟩
  · exact fun member => reserved.idle ((sane.placed.queued tid).mp member).2
  · intro event after taken resumes
    have awake : ∀ task, (abstraction s).tasks tid = some task → task.sleep = none := by
      intro task found
      obtain ⟨thread, -, rfl⟩ := Option.map_eq_some_iff.mp found
      rfl
    obtain ⟨valid', specified⟩ := valid.step taken
    rw [resumes] at specified
    obtain ⟨queue, held⟩ := reserved.resumed sane awake specified
    refine ⟨queue, fun blocked => ?_⟩
    exact nomatch (valid'.blocked_iff.mpr blocked).symm.trans held

theorem run_suspended (valid : Valid s) (reserved : Reserved (abstraction s) tid) {history : History ε}
    (run : Run Takes s history final)
    (others : ∀ move ∈ history, move.label.op ≠ .resume tid ∧ move.label.op ≠ .terminate tid) : Suspended final tid := by
  have kept := run.invariant (fun move => move.label.op ≠ .resume tid ∧ move.label.op ≠ .terminate tid) others
    (fun s => Valid s ∧ Reserved (abstraction s) tid) ⟨valid, reserved⟩
    fun move other taken ⟨valid, reserved⟩ => ⟨(valid.step taken).1, reserved.step valid.sane (valid.ruled taken) other⟩
  exact kept.1.suspended kept.2

private theorem Valid.passed (valid : Valid s) {event : Event ε} {after : State ε} (taken : Takes s event after)
    (passes : HandsOff s event) {waiter : Int} (next : event.choice.next s = some waiter) :
    Passed (abstraction s) (s.idOf s.mutex.threadBlock) waiter (event.queue s after) (abstraction after) := by
  obtain ⟨-, specified⟩ := valid.step taken
  have waits : waiter ∈ (abstraction s).waiting := by
    have eligible := eligible valid.filed taken.1
    rw [next] at eligible
    exact eligible.1
  rw [next] at specified
  have holder : ∀ {holder}, (abstraction s).owner = some holder → s.idOf s.mutex.threadBlock = holder := by
    intro holder owns
    exact (valid.owns_iff.mpr owns).2.idOf
  rcases passes with ⟨unlocks, succeeds⟩ | ⟨tid, terminates, owns⟩
  · rw [unlocks, succeeds] at specified
    obtain ⟨owns, passed⟩ := valid.sane.passed specified
    rw [holder owns, Event.queue, unlocks]
    exact passed
  · rw [terminates] at specified
    have owns := valid.owns_iff.mp owns
    rw [holder owns, Event.queue, terminates]
    exact valid.sane.passed_terminate owns waits specified

theorem Valid.handedTo (valid : Valid s) {event : Event ε} {after : State ε} (taken : Takes s event after)
    (passes : HandsOff s event) (waited : ∃ tid, tid ∈ s.mutexBlocked) : ∃ waiter, HandedTo s event after waiter := by
  obtain ⟨valid', -⟩ := valid.step taken
  have eligible := eligible valid.filed taken.1
  cases next : event.choice.next s with
  | none =>
    obtain ⟨tid, waits⟩ := waited
    rw [next] at eligible
    have member := mem_waiting.mpr waits
    rw [eligible] at member
    exact absurd member (Finset.notMem_empty tid)
  | some waiter =>
    rw [next] at eligible
    obtain ⟨waits, best⟩ := eligible
    have able : ∀ {tid}, tid ∈ s.mutexBlocked → (abstraction s).able tid = !decide (tid ∈ s.blocked) := by
      intro tid waits
      obtain ⟨pointer, files⟩ := valid.filed.exists_files (valid.filed.live_mutexBlocked waits)
      exact files.able
    have member := mem_waiting.mp waits
    have passed := valid.passed taken passes next
    refine ⟨waiter, member, fun tid => ?_, valid'.owns_iff.mpr passed.owner, fun blocked other waiting => ?_, ?_, ?_, ?_⟩
    · rw [← mem_waiting, passed.waiting, Finset.mem_erase, mem_waiting, and_comm]
    · have unable := best (by simp [able member, blocked]) other (mem_waiting.mpr waiting)
      simpa [able waiting] using unable
    · rw [← valid'.blocked_iff, passed.held, valid.blocked_iff]
    · exact fun queued => ((valid.placed.queued waiter).mp queued).2.2 waits
    · have queued := passed.queue
      have queue : (abstraction s).queue = s.readyIds := rfl
      rw [able member, queue] at queued
      by_cases blocked : waiter ∈ s.blocked <;> simpa [blocked] using queued

end code

/-- Nobody who waits for the mutex is forgotten, and nobody is woken up twice. -/
theorem no_waiter_lost {history : History ε} (initialized : Initialized start) (run : Run Takes start history final) :
    (final.mutex.blocked = false → final.mutexBlocked = ∅) ∧ ∀ event after, Takes final event after →
      (∀ tid ∈ final.mutexBlocked, tid ∉ after.mutexBlocked → after.Owns tid ∨ event.op = .terminate tid) ∧
      (HandsOff final event → (∃ tid, tid ∈ final.mutexBlocked) → ∃ waiter, HandedTo final event after waiter ∧
        (waiter ∈ final.blocked → ∀ later last, Run Takes after later last →
          (∀ move ∈ later, move.label.op ≠ .resume waiter ∧ move.label.op ≠ .terminate waiter) → Suspended last waiter)) := by
  have valid := run_valid initialized run
  refine ⟨fun free => ?_, fun event after taken => ⟨fun tid waits gone => ?_, fun passes waited => ?_⟩⟩
  · have nobody := valid.placed.unowned (by simp [abstraction, free])
    apply Std.ExtTreeMap.ext_getElem?
    intro tid
    have absent : tid ∉ final.mutexBlocked := by
      rw [← mem_waiting, nobody]
      exact Finset.notMem_empty tid
    rw [Std.ExtTreeMap.getElem?_eq_none absent, Std.ExtTreeMap.getElem?_empty]
  · have valid' := (valid.step taken).1
    rw [valid'.owns_iff]
    exact (valid.ruled taken).leaves (mem_waiting.mpr waits) (mt mem_waiting.mp gone)
  · obtain ⟨waiter, handed⟩ := valid.handedTo taken passes waited
    refine ⟨waiter, handed, fun blocked later last run' others => ?_⟩
    have valid' := (valid.step taken).1
    have reserved : Reserved (abstraction after) waiter :=
      ⟨valid'.owns_iff.mp handed.owns, valid'.blocked_iff.mpr (handed.blocked.mpr blocked)⟩
    exact run_suspended valid' reserved run' others

/-- Thread 1 is blocked while it waits, and main unlocks the mutex. -/
theorem no_waiter_lost_blocked_waiter : ∃ (final : State Unit) (event : Event Unit) (after : State Unit) (waiter : Int),
    HandsOff final event ∧ HandedTo final event after waiter ∧ Suspended after waiter := by
  obtain ⟨history, final, run, tested⟩ := perform_tested booted
    [(.spawn (), ⟨0, ()⟩), (.mutexLock, ⟨0, ()⟩), (.preempt, ⟨0, ()⟩), (.mutexLock, ⟨1, ()⟩), (.block 1, ⟨0, ()⟩)]
    (fun _ final => 1 ∈ final.mutexBlocked ∧ (∀ tid ∈ final.mutexBlocked.keys, tid ∈ final.blocked) ∧
      tries final .mutexUnlock ⟨0, ()⟩ fun reply _ => reply.value = some success) (by decide +kernel)
  obtain ⟨waits, held, tried⟩ := of_decide_eq_true tested
  obtain ⟨reply, after, taken, succeeds⟩ := takes_of_tries tried
  have passes : HandsOff final ⟨.mutexUnlock, .plain final, ⟨0, ()⟩, reply⟩ := .inl ⟨rfl, of_decide_eq_true succeeds⟩
  have moved := (no_waiter_lost booted_initialized run).2 _ after taken
  obtain ⟨waiter, handed, suspended⟩ := moved.2 passes ⟨1, waits⟩
  have blocked := held waiter (Std.ExtTreeMap.mem_keys.mpr handed.waited)
  exact ⟨final, _, after, waiter, passes, handed, suspended blocked [] after .start (by simp)⟩

end Uthreads.Nim
