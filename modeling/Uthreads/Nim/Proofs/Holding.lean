import Uthreads.Nim.Proofs.Exclusion
import Uthreads.Nim.Proofs.Serialization

/-! Mutual exclusion of the threads that have come back from `uthread_mutex_lock`,
wherever the timer signal arrives. Who holds the mutex is read off what the
threads execute. -/

namespace Uthreads.Nim
open RoundRobin Transition

def Retains (tid : Int) (move : Move Machine Input) : Prop :=
  ¬ Begins (.terminate tid) move ∧ ¬ (Begins .mutexUnlock move ∧ move.before.lib.runningId = tid)

/-- The thread has called `uthread_mutex_lock`, which did not fail, and has had the
processor since, without giving up the mutex or being terminated. -/
def Holding (tid : Int) (timeline : List (Move Machine Input)) : Prop :=
  ∃ first calling middle back last, timeline = first ++ calling :: (middle ++ back :: last) ∧
    Begins .mutexLock calling ∧ calling.before.lib.runningId = tid ∧
    (∀ reply rest, calling.after.code = .returns reply :: rest → reply = .returns success) ∧
    back.before.lib.runningId = tid ∧ inSwitch back.before.code = false ∧
    ∀ move ∈ middle ++ back :: last, Retains tid move

section spec
variable {a b : Guarded Int} {op : Op Code} {next value : Option Int} {tid : Int}

/-- The owner keeps the lock until it gives it up or is terminated. -/
private theorem Ruled.owner_kept (ruled : Ruled next a op value b) (spared : op ≠ .terminate tid)
    (kept : op = .mutexUnlock → a.current ≠ tid) (owns : a.owner = some tid) : b.owner = some tid := by
  have surrender : ∀ other, other ≠ tid → a.surrender other next = a := fun other different =>
    if_neg fun same => different (Option.some.inj (same.symm.trans owns))
  cases ruled with
  | quiet | spawn | block | lockAgain | unlockOther => exact owns
  | resume =>
    unfold Guarded.release
    split <;> exact owns
  | @terminate other =>
    rw [surrender other fun same => spared (congrArg Op.terminate same)]
    exact owns
  | terminateSelf _ turn =>
    rw [turn.owner, surrender a.current fun same => spared (congrArg Op.terminate same)]
    exact owns
  | blockSelf _ turn | lockWait _ _ turn | preempt turn => exact turn.owner.trans owns
  | lockFree free => cases free.symm.trans owns
  | unlock current => exact absurd (Option.some.inj (current.symm.trans owns)) (kept rfl)

private theorem waits_grant (waits : tid ∈ a.waiting) :
    tid ∈ (a.grant next).waiting ∨ (a.grant next).owner = some tid := by
  cases next with
  | none => exact .inl waits
  | some heir =>
    by_cases same : tid = heir
    · exact .inr (congrArg some same.symm)
    · exact .inl (Finset.mem_erase_of_ne_of_mem same waits)

/-- Who waits for the lock does so until it is given it or is terminated. -/
private theorem Ruled.waiting_kept (ruled : Ruled next a op value b) (spared : op ≠ .terminate tid)
    (waits : tid ∈ a.waiting) : tid ∈ b.waiting ∨ b.owner = some tid := by
  have leaves : ∀ other, other ≠ tid → tid ∈ ((a.surrender other next).drop other).waiting ∨
      ((a.surrender other next).drop other).owner = some tid := by
    intro other different
    unfold Guarded.surrender
    split
    · exact (waits_grant waits).imp_left (Finset.mem_erase_of_ne_of_mem different.symm)
    · exact .inl (Finset.mem_erase_of_ne_of_mem different.symm waits)
  cases ruled with
  | quiet | spawn | block | lockFree | lockAgain | unlockOther => exact .inl waits
  | resume =>
    unfold Guarded.release
    split <;> exact .inl waits
  | @terminate other => exact leaves other fun same => spared (congrArg Op.terminate same)
  | terminateSelf _ turn =>
    rw [turn.waiting, turn.owner]
    exact leaves a.current fun same => spared (congrArg Op.terminate same)
  | blockSelf _ turn | preempt turn => exact .inl (turn.waiting ▸ waits)
  | lockWait _ _ turn => exact .inl (turn.waiting ▸ Finset.mem_insert_of_mem waits)
  | unlock => exact waits_grant waits

private def Spares (tid : Int) (step : Move (Guarded Int) Label) : Prop :=
  step.label.op ≠ .terminate tid ∧ (step.label.op = .mutexUnlock → step.before.current ≠ tid)

private theorem run_owner_kept {trace : List (Move (Guarded Int) Label)} (run : Run SpecTakes a trace b)
    (spared : ∀ step ∈ trace, Spares tid step) (owns : a.owner = some tid) : b.owner = some tid :=
  run.invariant (Spares tid) spared (fun a => a.owner = some tid) owns fun _ spared taken owns =>
    (ruled_of_spec taken.2).owner_kept spared.1 spared.2 owns

private theorem run_waiting_kept {trace : List (Move (Guarded Int) Label)} (run : Run SpecTakes a trace b)
    (spared : ∀ step ∈ trace, Spares tid step) (asked : tid ∈ a.waiting ∨ a.owner = some tid) :
    tid ∈ b.waiting ∨ b.owner = some tid :=
  run.invariant (Spares tid) spared (fun a => tid ∈ a.waiting ∨ a.owner = some tid) asked fun _ spared taken asked => by
    have ruled := ruled_of_spec taken.2
    rcases asked with waits | owns
    · exact ruled.waiting_kept spared.1 waits
    · exact .inr (ruled.owner_kept spared.1 spared.2 owns)

private theorem Ruled.asked (ruled : Ruled next a (.mutexLock : Op Code) value b) (granted : value ≠ some fail) :
    a.current ∈ b.waiting ∨ b.owner = some a.current := by
  cases ruled with
  | quiet other => exact absurd rfl other.1
  | lockFree => exact .inr rfl
  | lockAgain => exact absurd rfl granted
  | lockWait _ _ turn =>
    rw [turn.waiting]
    exact .inl (Finset.mem_insert_self ..)

end spec

section segment
variable {resumption : Resumption} {start one two : Machine} {middle : List (Move Machine Input)} {tid : Int}

structure Between (resumption : Resumption) (m : Machine) : Prop where
  unwinding : Unwinding m
  framed : resumption = .afterSwitch → Framed m
  outside : inSwitch m.code = false
  valid : Valid m.lib

theorem run_between (starts : start.Starts) (run : Run (Machine.StepsResuming resumption) start middle one)
    (lands : ∀ move ∈ middle, Lands resumption move) (outside : inSwitch one.code = false) : Between resumption one := by
  obtain ⟨-, -, valid, -⟩ := run_serialized starts run lands (complete_outside outside)
  obtain ⟨unwinding, framed⟩ := run.invariant (Lands resumption) lands
    (fun m => Unwinding m ∧ (resumption = .afterSwitch → Framed m)) ⟨starts.unwinding, fun _ => starts.framed⟩
    serializes.preserved
  exact ⟨unwinding, framed, outside, valid⟩

theorem Between.segment (between : Between resumption one)
    (run : Run (Machine.StepsResuming resumption) one middle two) (lands : ∀ move ∈ middle, Lands resumption move)
    (outside : inSwitch two.code = false) :
    ∃ trace, Run SpecTakes (abstraction one.lib) trace (abstraction two.lib) ∧
      List.Forall₂ Performs (middle.filter committing) trace := by
  obtain ⟨trace, a, refined, reached, paired⟩ := serializes.run run lands
    ⟨between.unwinding, between.framed⟩ (fun lib done => by
      obtain rfl := Except.ok.inj ((complete_outside between.outside).symm.trans done)
      exact ⟨between.valid, rfl⟩)
    ⟨two.lib, complete_outside outside⟩
  obtain ⟨-, rfl⟩ := reached _ (complete_outside outside)
  exact ⟨trace, refined, paired⟩

private theorem Performs.spares {move : Move Machine Input} {step : Move (Guarded Int) Label} (performs : Performs move step)
    (seen : committing move = true) (retains : Retains tid move) : Spares tid step := by
  obtain ⟨choice, op, rest, label, code⟩ := commits_of_committing seen
  obtain ⟨op', rest', code', same, -⟩ := performs.decides
  obtain rfl := Instr.call.inj (List.cons.inj (code.symm.trans code')).1
  obtain ⟨alive, locked⟩ := retains
  rw [Spares, same, performs.before]
  refine ⟨fun terminates => alive ?_, fun unlocks running => locked ⟨?_, running⟩⟩
  · cases op <;> simp only [Op.enter, reduceCtorEq, Op.terminate.injEq] at terminates
    exact ⟨by simp, choice, rest, label, terminates ▸ code⟩
  · cases op <;> simp only [Op.enter, reduceCtorEq] at unlocks
    exact ⟨by simp, choice, rest, label, code⟩

private theorem spares_of_performs {moves : List (Move Machine Input)} {trace : List (Move (Guarded Int) Label)}
    (paired : List.Forall₂ Performs moves trace) (seen : ∀ move ∈ moves, committing move = true)
    (retains : ∀ move ∈ moves, Retains tid move) : ∀ step ∈ trace, Spares tid step := by
  induction paired with
  | nil => simp
  | cons performs _ ih =>
    obtain ⟨first, later⟩ := List.forall_mem_cons.mp seen
    obtain ⟨now, following⟩ := List.forall_mem_cons.mp retains
    exact List.forall_mem_cons.mpr ⟨performs.spares first now, ih later following⟩

private theorem Between.spared (between : Between resumption one)
    (run : Run (Machine.StepsResuming resumption) one middle two) (lands : ∀ move ∈ middle, Lands resumption move)
    (outside : inSwitch two.code = false) (retains : ∀ move ∈ middle, Retains tid move) :
    ∃ trace, Run SpecTakes (abstraction one.lib) trace (abstraction two.lib) ∧ ∀ step ∈ trace, Spares tid step := by
  obtain ⟨trace, refined, paired⟩ := between.segment run lands outside
  refine ⟨trace, refined, spares_of_performs paired (fun move member => ?_) fun move member => ?_⟩
  · exact (List.mem_filter.mp member).2
  · exact retains move (List.mem_filter.mp member).1

private theorem Between.asked {calling : Move Machine Input} (between : Between resumption calling.before)
    (run : Run (Machine.StepsResuming resumption) calling.before (calling :: middle) two)
    (lands : ∀ move ∈ calling :: middle, Lands resumption move)
    (outside : inSwitch two.code = false) (begins : Begins .mutexLock calling)
    (granted : ∀ reply rest, calling.after.code = .returns reply :: rest → reply = .returns success)
    (retains : ∀ move ∈ middle, Retains calling.before.lib.runningId move) :
    calling.before.lib.runningId ∈ (abstraction two.lib).waiting ∨
      (abstraction two.lib).owner = some calling.before.lib.runningId := by
  obtain ⟨-, choice, rest, label, code⟩ := begins
  have seen : committing calling = true := by simp [committing, label, code]
  obtain ⟨trace, refined, paired⟩ := between.segment run lands outside
  rw [List.filter_cons_of_pos seen] at paired
  cases paired with
  | @cons _ step _ trace performs paired =>
    obtain ⟨begin', taken, later⟩ := refined.head
    obtain ⟨op, rest', code', same, decides⟩ := performs.decides
    obtain rfl := Instr.call.inj (List.cons.inj (code.symm.trans code')).1
    have success : step.label.value ≠ some fail := by
      generalize after : calling.after.code = code at decides
      generalize step.label.value = value at decides
      cases decides with
      | returns =>
        obtain rfl := granted _ _ after
        decide
      | @switches exit =>
        unfold Exit.reply
        split <;> decide
    have ruled := ruled_of_spec taken.2
    rw [same] at ruled
    have asked := ruled.asked success
    rw [← begin'] at asked
    refine run_waiting_kept later (spares_of_performs paired (fun move member => ?_) fun move member => ?_) asked
    · exact (List.mem_filter.mp member).2
    · exact retains move (List.mem_filter.mp member).1

end segment

section run
variable {resumption : Resumption} {start final : Machine} {timeline : List (Move Machine Input)} {tid : Int}

private theorem Holding.owner (holding : Holding tid timeline) (starts : start.Starts)
    (run : Run (Machine.StepsResuming resumption) start timeline final)
    (lands : ∀ move ∈ timeline, Lands resumption move) (outside : inSwitch final.code = false) :
    (abstraction final.lib).owner = some tid := by
  obtain ⟨first, calling, middle, back, last, rfl, begins, rfl, granted, running, settled, retains⟩ := holding
  obtain ⟨early, late⟩ := List.forall_mem_append.mp retains
  obtain ⟨soon, following⟩ := List.forall_mem_append.mp lands
  obtain ⟨now, following⟩ := List.forall_mem_cons.mp following
  obtain ⟨meanwhile, ending⟩ := List.forall_mem_append.mp following
  have waits : ∀ move ∈ calling :: middle, Lands resumption move := List.forall_mem_cons.mpr ⟨now, meanwhile⟩
  obtain ⟨before, called, after⟩ := run.at_move
  obtain ⟨between, returned, later⟩ := after.at_move
  have calls : inSwitch calling.before.code = false := by
    obtain ⟨-, _, _, -, code⟩ := begins
    rw [code]
    rfl
  have asked := (run_between starts before soon calls).asked (.cons called between) waits settled begins granted early
  have back' := run_between starts (before.append (.cons called between)) (List.forall_mem_append.mpr ⟨soon, waits⟩) settled
  have away : calling.before.lib.runningId ∉ (abstraction back.before.lib).waiting := by
    rw [← running]
    exact (back'.valid.placed.turn _ rfl).2
  obtain ⟨trace, refined, spared⟩ := back'.spared (.cons returned later) ending outside late
  exact run_owner_kept refined spared (asked.resolve_left away)

/-- In every run whose jumps go to threads that were never switched out, and in every
run at all if contexts are resumed after the switch, at most one thread has come back
from `uthread_mutex_lock` without giving the mutex up since, wherever the signal arrives.
It is the one that the library has as the owner. -/
theorem one_holder (starts : start.Starts) (run : Run (Machine.StepsResuming resumption) start timeline final)
    (lands : ∀ move ∈ timeline, Lands resumption move) (outside : inSwitch final.code = false) (holding : Holding tid timeline) :
    final.lib.Owns tid ∧ ∀ other, Holding other timeline → other = tid := by
  obtain ⟨-, -, valid, -⟩ := run_serialized starts run lands (complete_outside outside)
  have owner := holding.owner starts run lands outside
  refine ⟨valid.owns_iff.mpr owner, fun other holding' => ?_⟩
  exact Option.some.inj ((holding'.owner starts run lands outside).symm.trans owner)

end run

section examples

private def effect (move : Move Machine Input) : Option (Op Unit) :=
  match move.label, move.before.code with
  | .run _, .call op :: _ => some op
  | _, _ => none

private theorem effect_of_begins {op : Op Unit} {move : Move Machine Input} (begins : Begins op move) :
    effect move = some op := by
  obtain ⟨-, choice, rest, label, code⟩ := begins
  simp [effect, label, code]

private def holdsFrom (place count : Nat) (tid : Int) (choice : Choice) (timeline : List (Move Machine Input)) : Bool :=
  cutAt place (fun calling later => calling.label = .run choice ∧ calling.before.code = [.call .mutexLock] ∧
    calling.before.lib.runningId = tid ∧ calling.after.code.head? = some (.moveOut .mutexBlocked) ∧
    (∀ move ∈ later, effect move ≠ some (.terminate tid) ∧
      (effect move = some .mutexUnlock → move.before.lib.runningId ≠ tid)) ∧
    cutAt count (fun back _ => back.before.lib.runningId = tid ∧ inSwitch back.before.code = false) later) timeline

private theorem of_holdsFrom {place count : Nat} {tid : Int} {choice : Choice} {timeline : List (Move Machine Input)}
    (tested : holdsFrom place count tid choice timeline = true) : Holding tid timeline := by
  obtain ⟨calling, later, cut, tested⟩ := of_cutAt tested
  obtain ⟨label, code, running, waits, retains, tested⟩ := of_decide_eq_true tested
  obtain ⟨back, last, cut', tested⟩ := of_cutAt tested
  obtain ⟨returned, outside⟩ := of_decide_eq_true tested
  refine ⟨_, calling, _, back, last, cut' ▸ cut, ⟨by simp, choice, [], label, code⟩, running, ?_, returned, outside, ?_⟩
  · intro reply rest after
    rw [after] at waits
    simp at waits
  · intro move member
    obtain ⟨alive, kept⟩ := retains move (cut' ▸ member)
    exact ⟨fun begins => alive (effect_of_begins begins), fun ⟨begins, here⟩ => kept (effect_of_begins begins) here⟩

/-- Thread 1 waits for the mutex of main, which unlocks it and is preempted. -/
theorem one_holder_waiting_thread : ∃ (timeline : List (Move Machine Input)) (final : Machine),
    Holding 1 timeline ∧ final.lib.Owns 1 := by
  obtain ⟨timeline, final, run, tested⟩ := compute_tested (next_sound .afterSwitch) started
    ([.call (.spawn ()), .run ⟨2, []⟩, .run ⟨3, []⟩, .call .mutexLock, .run ⟨3, []⟩, .run ⟨3, []⟩] ++ expiry ++
      [.call .mutexLock] ++ List.replicate 9 (.run ⟨3, []⟩) ++ [.call .mutexUnlock, .run ⟨3, [(1, 2)]⟩, .run ⟨3, []⟩] ++
      expiry ++ List.replicate 2 (.run ⟨3, []⟩))
    (fun timeline final => inSwitch final.code = false ∧ holdsFrom 15 19 1 ⟨3, []⟩ timeline) (by decide +kernel)
  obtain ⟨outside, held⟩ := of_decide_eq_true tested
  have holding := of_holdsFrom held
  exact ⟨timeline, final, holding, (one_holder started_starts run (fun _ _ => .inl rfl) outside holding).1⟩

end examples
end Uthreads.Nim
