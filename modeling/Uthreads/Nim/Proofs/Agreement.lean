import Uthreads.Library.Lockstep
import Uthreads.Nim.Proofs.Places
import Uthreads.Proofs.Simulation

/-! The two libraries on the calls that they share. Both implement the same
scheduler, one without a lock and one whose lock is never used. -/

namespace Uthreads.Nim
open RoundRobin Relational Transition Lockstep

variable {ε : Type}

/-- The calls that both libraries offer, but for the timer and the mutex. -/
inductive Call (ε : Type) where
  | spawn (entryPoint : ε)
  | terminate (tid : Int)
  | block (tid : Int)
  | resume (tid : Int)
  | getTid
  | getQuantums (tid : Int)
  | getTotalQuantums
  | preempt

namespace Call

def classic : Call ε → Uthreads.Op ε
  | .spawn entryPoint => .spawn (some entryPoint)
  | .terminate tid => .terminate tid
  | .block tid => .block tid
  | .resume tid => .resume tid
  | .getTid => .getTid
  | .getQuantums tid => .getQuantums tid
  | .getTotalQuantums => .getTotalQuantums
  | .preempt => .preempt

def nim : Call ε → Op ε
  | .spawn entryPoint => .spawn entryPoint
  | .terminate tid => .terminate tid
  | .block tid => .block tid
  | .resume tid => .resume tid
  | .getTid => .getTid
  | .getQuantums tid => .getQuantums tid
  | .getTotalQuantums => .getTotalQuantums
  | .preempt => .preempt

end Call

def Classic (s : Uthreads.State ε) (call : Call ε) (outcome : Except Uthreads.Halt (Reply × Uthreads.State ε)) : Prop :=
  ∃ here, call.classic.call here s = outcome

def Variant (s : State ε) (call : Call ε) (outcome : Except Halt (Reply × State ε)) : Prop :=
  ∃ (choice : Choice) (here : Context ε), choice.Fits s ∧ call.nim.call choice here s = outcome

/-- What a state of each library says about the threads. -/
structure Matches (s : Uthreads.State ε) (n : State ε) : Prop where
  live : ∀ tid, s.live tid ↔ n.live tid
  running : n.Files s.runningTid n.running
  ready : s.readyTids = n.ready.map n.idOf
  blocked : ∀ tid, tid ∈ s.blockedTids ↔ tid ∈ n.blocked
  quantums : ∀ tid, s.quantums tid = (n.thread tid).map Thread.quantums
  total : s.totalQuantums = n.totalQuantum

section scheduler

def unlocked (a : Scheduler Int) : Guarded Int := ⟨a, none, ∅⟩

def Awake (a : Scheduler Int) : Prop := ∀ tid task, a.tasks tid = some task → task.sleep = none

variable {a : Scheduler Int} {next value : Option Int} {tid : Int}

theorem Awake.hold (awake : Awake a) : Awake (a.hold tid) := by
  intro other task found
  rw [Scheduler.tasks_hold] at found
  split at found
  · obtain ⟨old, before, rfl⟩ := Option.map_eq_some_iff.mp found
    exact awake tid old before
  · exact awake other task found

theorem Awake.drop (awake : Awake a) : Awake (a.drop tid) := by
  intro other task found
  rw [Scheduler.tasks_drop] at found
  split at found
  · cases found
  · exact awake other task found

theorem unlocked_release : (unlocked a).release tid = unlocked (a.release tid) := by
  unfold Guarded.release
  exact congrArg (Guarded.mk · none ∅) (if_neg (Finset.notMem_empty tid))

theorem unlocked_surrender : (unlocked a).surrender tid next = unlocked a := if_neg nofun

theorem turn_unlocked (awake : Awake a) (filled : a.queue ≠ []) :
    turn value (unlocked a) = .ok (value, unlocked (a.switch allIds false)) := by
  obtain ⟨front, rest, queue⟩ := List.exists_cons_of_ne_nil filled
  rw [turn, Guarded.dispatch_eq_some (a := unlocked a) queue, Scheduler.switch, Scheduler.countDown_awake _ _ awake]
  rfl

def besideLock : Option (Option Int × Scheduler Int) → Except Halt (Option Int × Guarded Int)
  | none => .error (.exit success)
  | some (value, a) => .ok (value, unlocked a)

/-- Main is always there to run, and every call has the same effect. -/
theorem spec_agrees (sane : Sane (unlocked a)) (awake : Awake a) (call : Call ε) (next : Option Int) :
    call.nim.spec next (unlocked a) = besideLock (call.classic.spec a) := by
  have tasks : (unlocked a).tasks = a.tasks := rfl
  have current : (unlocked a).current = a.current := rfl
  have main : (a.tasks 0).isNone = false := by
    have live : (a.tasks 0).isSome = true := sane.main_live
    rw [← Option.not_isSome, live]
    rfl
  have filled : a.current ≠ 0 → a.queue.erase a.current ≠ [] := by
    intro other
    have able : (unlocked a).able 0 = true := by
      obtain ⟨task, found, held⟩ := Option.map_eq_some_iff.mp sane.main
      have found : a.tasks 0 = some task := found
      simp [Guarded.able, tasks, found, Task.runnable, held, awake 0 task found]
    have queued : 0 ∈ a.queue := (sane.placed.queued 0).mpr
      ⟨fun same => other (Option.some.inj same), able, Finset.notMem_empty 0⟩
    exact List.ne_nil_of_mem ((List.mem_erase_of_ne (Ne.symm other)).mpr queued)
  cases call with
  | spawn entryPoint =>
    simp only [Call.nim, Call.classic, Op.spec, Uthreads.Op.spec, tasks]
    cases allIds.find? fun id => (a.tasks id).isNone <;> rfl
  | terminate tid =>
    simp only [Call.nim, Call.classic, Op.spec, Uthreads.Op.spec, tasks, current, unlocked_surrender]
    by_cases zero : tid = 0
    · rw [zero, main, if_pos rfl]
      rfl
    · rw [if_neg zero]
      cases (a.tasks tid).isNone with
      | true => rfl
      | false =>
        by_cases self : tid = a.current
        · subst self
          rw [if_neg Bool.false_ne_true, if_neg Bool.false_ne_true, if_neg (show a.current ≠ mainThread from zero),
            if_pos rfl, if_pos rfl]
          exact turn_unlocked awake.drop (filled zero)
        · rw [if_neg Bool.false_ne_true, if_neg Bool.false_ne_true, if_neg (show tid ≠ mainThread from zero),
            if_neg self, if_neg self]
          rfl
  | block tid =>
    simp only [Call.nim, Call.classic, Op.spec, Uthreads.Op.spec, tasks, current]
    by_cases refused : (a.tasks tid).isNone = true ∨ tid = mainThread
    · rw [if_pos refused, if_pos (show tid = 0 ∨ _ from refused.symm)]
      rfl
    · rw [if_neg refused, if_neg (show ¬ (tid = 0 ∨ _) from mt Or.symm refused)]
      by_cases self : tid = a.current
      · subst self
        rw [if_pos rfl, if_pos rfl]
        exact turn_unlocked awake.hold (filled fun zero => refused (.inr zero))
      · rw [if_neg self, if_neg self]
        rfl
  | resume tid =>
    simp only [Call.nim, Call.classic, Op.spec, Uthreads.Op.spec, tasks, unlocked_release]
    cases (a.tasks tid).isNone <;> rfl
  | getTid | getTotalQuantums => rfl
  | getQuantums tid =>
    simp only [Call.nim, Call.classic, Op.spec, Uthreads.Op.spec, tasks]
    cases a.tasks tid <;> rfl
  | preempt =>
    have turns : turn none (unlocked a.requeue) = .ok (none, unlocked (a.requeue.switch allIds false)) :=
      turn_unlocked awake (by simp [Scheduler.requeue])
    rw [Scheduler.switch, Scheduler.countDown_awake a.requeue _ awake] at turns
    simp only [Call.nim, Call.classic, Op.spec, Uthreads.Op.spec, Scheduler.switch, Scheduler.countDown_awake _ _ awake]
    exact turns

end scheduler

section states
variable {s : Uthreads.State ε} {n : State ε}

structure Tied (s : Uthreads.State ε) (n : State ε) : Prop where
  wellFormed : WellFormed s
  counting : Counting s
  valid : Valid n
  same : abstraction n = unlocked (Uthreads.abstraction s)

theorem Tied.awake (tied : Tied s n) : Awake (Uthreads.abstraction s) := by
  intro tid task found
  have same : (abstraction n).tasks tid = some task := by rw [tied.same]; exact found
  obtain ⟨thread, -, rfl⟩ := Option.map_eq_some_iff.mp same
  rfl

theorem Tied.spares (tied : Tied s n) (op : Uthreads.Op ε) : op.Spares s := by
  rintro tid - asleep
  obtain ⟨quantums, -, task⟩ := task_live (State.live_iff_status.mpr ⟨_, asleep⟩)
  have sleeps := Std.ExtTreeMap.mem_iff_isSome_getElem?.mp ((tied.wellFormed.asleep tid).mpr asleep)
  have idle := tied.awake tid _ task
  rw [Option.map_eq_none_iff] at idle
  simp [idle] at sleeps

theorem Tied.matched (tied : Tied s n) : Matches s n := by
  have tasks : (abstraction n).tasks = (Uthreads.abstraction s).tasks := congrArg (·.tasks) tied.same
  have live : ∀ tid, s.live tid ↔ n.live tid := by
    intro tid
    rw [tied.valid.live_iff, tasks, ← not_iff_not, ← tasks_isNone]
    simp
  have current : (abstraction n).current = s.runningTid := congrArg (·.current) tied.same
  refine ⟨live, current ▸ tied.valid.current, ?_, fun tid => ?_, fun tid => ?_, ?_⟩
  · exact (congrArg (·.queue) tied.same).symm
  · rw [← tied.valid.blocked_iff, tasks]
    constructor
    · intro member
      obtain ⟨quantums, -, task⟩ := task_live (tied.wellFormed.blockedLive tid member)
      simp [task, member]
    · intro held
      obtain ⟨task, found, held⟩ := Option.map_eq_some_iff.mp held
      obtain ⟨quantums, -, rfl⟩ := Option.map_eq_some_iff.mp found
      exact of_decide_eq_true held
  · have counts := congrArg (Option.map Task.quantums) (congrFun tasks tid)
    simpa [abstraction, Uthreads.abstraction, Function.comp_def] using counts.symm
  · exact (congrArg (·.total) tied.same).symm

/-- A call of both libraries keeps them together. -/
theorem Tied.call (tied : Tied s n) {call : Call ε} {x : Except Uthreads.Halt (Reply × Uthreads.State ε)}
    {y : Except Halt (Reply × State ε)} (classic : Classic s call x) (variant : Variant n call y) :
    Both (fun one two => one = .exit success ∧ two = .exit success)
      (fun one two => (one.1.value = two.1.value ∧ Matches one.2 two.2) ∧ Tied one.2 two.2) x y := by
  obtain ⟨here, rfl⟩ := classic
  obtain ⟨choice, there, fits, rfl⟩ := variant
  have spared := tied.spares call.classic
  have specified := spec_agrees (tied.same ▸ tied.valid.sane) tied.awake call (choice.next n)
  have follows := tied.wellFormed.follows tied.counting spared here
  have related := (call_related tied.valid fits call.nim there).outcome
  rw [tied.same, specified] at related
  unfold Follows at follows
  split at follows
  next ends =>
    rw [ends] at related
    rcases related with ⟨halt, stops, same⟩ | ⟨_, _, _, impossible, -⟩
    · cases same
      rw [follows, stops]
      exact ⟨rfl, rfl⟩
    · cases impossible
  next value a goes =>
    rw [goes] at related
    obtain ⟨reply, s', taken, returned, reached⟩ := follows
    rcases related with ⟨_, _, impossible⟩ | ⟨⟨reply', n'⟩, _, taken', done, returned', implements, -⟩
    · cases impossible
    · cases done
      have moved : Uthreads.Takes s ⟨call.classic, here, reply⟩ s' := taken
      have moved' : Takes n ⟨call.nim, choice, there, reply'⟩ n' := ⟨fits, taken'⟩
      have step := step_of_call tied.wellFormed.sound moved
      have tied' : Tied s' n' := by
        refine ⟨step.wellFormed tied.wellFormed spared, step.counting tied.wellFormed.sound tied.counting,
          (tied.valid.step moved').1, ?_⟩
        rw [implements.same, reached]
      rw [taken, taken']
      exact ⟨⟨returned.trans returned'.symm, tied'.matched⟩, tied'⟩

theorem tied_of_initialized (started : Uthreads.Initialized s) (started' : Initialized n) : Tied s n := by
  obtain ⟨⟨-, same⟩, -⟩ := started'.implements
  refine ⟨started.wellFormed, started.fresh.counting, started'.valid, same.trans ?_⟩
  rw [started.abstraction_eq]
  rfl

end states

/-- Whatever the same calls are, both libraries return the same values, leave the
same threads in the same places and end the process at the same call. -/
theorem libraries_agree {quantumUsecs : Int} {address : Pointer} {here there : Context ε} {mask mask' : Finset Signal}
    {s : Uthreads.State ε} {n : State ε} (notNull : address ≠ nullptr)
    (started : Uthreads.uthreadInit quantumUsecs here (.blank mask) = (.returns success, s))
    (started' : uthreadInit quantumUsecs address there (.blank mask') = (.returns success, n))
    {calls : List (Call ε)} {seen : List (Reply × Uthreads.State ε)} {seen' : List (Reply × State ε)}
    {ending : Option Uthreads.Halt} {ending' : Option Halt} (classic : Execution Classic s calls seen ending)
    (variant : Execution Variant n calls seen' ending') :
    Matches s n ∧ List.Forall₂ (fun one two => one.1.value = two.1.value ∧ Matches one.2 two.2) seen seen' ∧
      Option.Rel (fun one two => one = .exit success ∧ two = .exit success) ending ending' := by
  have tied : Tied s n := tied_of_initialized ⟨quantumUsecs, here, mask, started⟩
    ⟨quantumUsecs, address, there, mask', notNull, started'⟩
  refine ⟨tied.matched, Execution.lockstep _ _ Tied ?_ tied classic variant⟩
  exact fun _ _ _ _ _ tied => tied.call

section runs

/-- A run of either library that made the shared calls is an execution of them. -/
theorem classic_execution {s final : Uthreads.State ε} {history : Uthreads.History ε} (run : Run Uthreads.Takes s history final)
    {calls : List (Call ε)} (same : history.map (fun move => move.label.op) = calls.map Call.classic) :
    Execution Classic s calls (history.map fun move => (move.label.reply, move.after)) none := by
  apply execution_of_run Uthreads.Event.reply Uthreads.Event.op Call.classic _ run same
  intro s event s' call same taken
  exact ⟨event.here, same ▸ taken⟩

theorem variant_execution {n final : State ε} {history : History ε} (run : Run Takes n history final)
    {calls : List (Call ε)} (same : history.map (fun move => move.label.op) = calls.map Call.nim) :
    Execution Variant n calls (history.map fun move => (move.label.reply, move.after)) none := by
  apply execution_of_run Event.reply Event.op Call.nim _ run same
  intro s event s' call same taken
  exact ⟨event.choice, event.here, taken.1, same ▸ taken.2⟩

end runs

/-- Thread 1 is blocked by itself and resumed, and thread 2 is terminated. -/
theorem libraries_agree_blocked_thread : ∃ (seen : List (Reply × Uthreads.State Unit)) (seen' : List (Reply × State Unit)),
    seen.length = 6 ∧ List.Forall₂ (fun one two => one.1.value = two.1.value ∧ Matches one.2 two.2) seen seen' := by
  let calls : List (Call Unit) := [.spawn (), .spawn (), .preempt, .block 1, .terminate 2, .resume 1]
  obtain ⟨history, final, run, tested⟩ := Uthreads.perform_tested Uthreads.booted (calls.map fun call => (call.classic, ⟨0, ()⟩))
    (fun history _ => history.length = 6 ∧ history.map (fun move => move.label.op) = calls.map Call.classic) (by decide +kernel)
  obtain ⟨history', final', run', tested'⟩ := perform_tested booted (calls.map fun call => (call.nim, ⟨0, ()⟩))
    (fun history _ => history.map (fun move => move.label.op) = calls.map Call.nim) (by decide +kernel)
  obtain ⟨length, same⟩ := of_decide_eq_true tested
  have started : Uthreads.uthreadInit 1000000 ⟨0, ()⟩ (.blank ∅) = (.returns success, Uthreads.booted) := rfl
  have started' : uthreadInit 1000000 1 ⟨0, ()⟩ (.blank ∅) = (.returns success, booted) := rfl
  have agree := libraries_agree (by decide) started started' (classic_execution run same)
    (variant_execution run' (of_decide_eq_true tested'))
  exact ⟨_, _, by simpa using length, agree.2.1⟩

end Uthreads.Nim
