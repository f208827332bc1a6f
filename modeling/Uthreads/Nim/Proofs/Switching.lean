import Uthreads.Library.Relational
import Uthreads.Nim.Proofs.Effects

/-! The pieces that the calls of nim/uthreads.cpp share, in states where every
pointer is filed: the removal of a thread, the hand-off of the mutex and the
switch. -/

namespace Uthreads.Nim
open Fallible OrderedMap Relational RoundRobin

variable {ε : Type}

def Answers (result : Reply × State ε) (spec : Option Int × Guarded Int) : Prop :=
  result.1.value = spec.1 ∧ Implements result.2 spec.2 ∧ result.2.Files spec.2.current result.2.running

section primitives
variable {s : State ε} {tid : Int} {pointer : Pointer}

theorem State.Files.able (files : s.Files tid pointer) : (abstraction s).able tid = !decide (tid ∈ s.blocked) := by
  obtain ⟨thread, found, -⟩ := files.found
  simp [Guarded.able, abstraction, State.thread, files.1, found, Task.runnable]

theorem Filed.ready_allocated (filed : Filed s) : ∀ pointer ∈ s.ready, (s.heap pointer).isSome := by
  intro pointer member
  obtain ⟨tid, files⟩ := filed.ready pointer member
  obtain ⟨thread, found, -⟩ := files.found
  simp [found]

private theorem erase_if_mem {map : Std.ExtTreeMap Int Pointer} :
    (if tid ∈ map then map.erase tid else map) = map.erase tid := by
  split
  · rfl
  · rename_i absent
    exact (erase_of_not_mem absent).symm

theorem freeThread_eq (filed : Filed s) (files : s.Files tid pointer) :
    freeThread tid s = .ok (pointer, s.withdraw tid) := by
  unfold freeThread
  simp only [files.1, Option.getD_some, erase_if_mem]
  rw [findIdeque_eq]
  · rfl
  · exact filed.ready_allocated

section handOff
variable {choice : Choice}

theorem Choice.Fits.entry (fits : choice.Fits s) {iter : Int × Pointer} :
    iter ∈ choice.order ↔ s.mutexBlocked[iter.1]? = some iter.2 :=
  fits.order.mem_iff.trans Std.ExtTreeMap.mem_toList_iff_getElem?_eq_some

theorem Choice.Fits.nil (fits : choice.Fits s) : choice.order = [] ↔ s.mutexBlocked.isEmpty = true := by
  have lists := Std.ExtTreeMap.isEmpty_toList (t := s.mutexBlocked)
  rw [← lists, List.isEmpty_iff]
  exact ⟨fun empty => (empty ▸ fits.order).symm.eq_nil, fun empty => (empty ▸ fits.order).eq_nil⟩

theorem Choice.next_cases (choice : Choice) (s : State ε) :
    (choice.order = [] ∧ choice.next s = none) ∨
      ∃ iter ∈ choice.order, choice.next s = some iter.1 ∧
        (iter.1 ∉ s.blocked ∧ choice.order.find? (fun iter => iter.1 ∉ s.blocked) = some iter ∨
          (∀ other ∈ choice.order, other.1 ∈ s.blocked) ∧ choice.order.head? = some iter ∧
            choice.order.find? (fun iter => iter.1 ∉ s.blocked) = none) := by
  cases found : choice.order.find? (fun iter => iter.1 ∉ s.blocked) with
  | some iter =>
    have free : iter.1 ∉ s.blocked := by simpa using List.find?_some found
    refine .inr ⟨iter, List.mem_of_find?_eq_some found, ?_, .inl ⟨free, rfl⟩⟩
    rw [Choice.next, found]
    rfl
  | none =>
    cases order : choice.order with
    | nil => exact .inl ⟨rfl, by simp [Choice.next, order]⟩
    | cons iter rest =>
      have held : ∀ other ∈ iter :: rest, other.1 ∈ s.blocked := by
        intro other member
        have kept := List.find?_eq_none.mp found other (order ▸ member)
        simpa using kept
      refine .inr ⟨iter, List.mem_cons_self, ?_, .inr ⟨held, rfl, rfl⟩⟩
      simp only [Choice.next, found]
      simp [order]

theorem mutexUnblockRandomThread_eq (filed : Filed s) (fits : choice.Fits s) :
    (choice.next s = none ∧ mutexUnblockRandomThread choice.order s = .ok { s with mutex := ⟨false, nullptr⟩ }) ∨
      ∃ tid pointer, choice.next s = some tid ∧ s.mutexBlocked[tid]? = some pointer ∧
        mutexUnblockRandomThread choice.order s = .ok (s.handTo tid pointer) := by
  unfold mutexUnblockRandomThread
  rcases choice.next_cases s with ⟨empty, none⟩ | ⟨⟨tid, pointer⟩, member, next, chosen⟩
  · exact .inl ⟨none, by rw [if_pos (fits.nil.mp empty)]⟩
  · have waits := fits.entry.mp member
    have files := filed.files (filed.mutexBlocked tid pointer waits)
    have notNull := filed.notNull files
    have nonempty : ¬ s.mutexBlocked.isEmpty = true := fun empty => List.ne_nil_of_mem member (fits.nil.mpr empty)
    refine .inr ⟨tid, pointer, next, waits, ?_⟩
    have holder : (State.getId { s with mutex := ⟨true, pointer⟩ } pointer : Except Halt Int) = .ok tid := files.getId
    have queued : (if tid ∉ s.blocked then
          { s with mutex := ⟨true, pointer⟩, mutexBlocked := s.mutexBlocked.erase tid, ready := s.ready ++ [pointer] }
        else { s with mutex := ⟨true, pointer⟩, mutexBlocked := s.mutexBlocked.erase tid }) = s.handTo tid pointer := by
      unfold State.handTo
      by_cases held : tid ∈ s.blocked <;> simp [held]
    rw [if_neg nonempty]
    rcases chosen with ⟨-, found⟩ | ⟨-, first, found⟩
    · simp only [found, Option.map_some, Option.getD_some, if_neg notNull, holder, bind_ok_left, pure_ok, queued]
    · simp only [found, first, Option.map_none, Option.getD_none, if_true, Option.map_some, Option.getD_some, holder,
        bind_ok_left, pure_ok, queued]

/-- Nobody is passed over for a thread that is blocked. -/
theorem eligible (filed : Filed s) (fits : choice.Fits s) : (abstraction s).Eligible (choice.next s) := by
  have able : ∀ {tid}, tid ∈ s.mutexBlocked → (abstraction s).able tid = !decide (tid ∈ s.blocked) := by
    intro tid waits
    obtain ⟨pointer, files⟩ := filed.exists_files (filed.live_mutexBlocked waits)
    exact files.able
  rcases choice.next_cases s with ⟨empty, none⟩ | ⟨iter, member, next, chosen⟩
  · rw [none]
    apply Finset.eq_empty_of_forall_notMem
    intro tid waits
    have kept := Std.ExtTreeMap.isEmpty_iff.mp (fits.nil.mp empty)
    rw [mem_waiting, kept] at waits
    simp at waits
  · rw [next]
    have waits : iter.1 ∈ s.mutexBlocked :=
      mem_iff_exists.mpr ⟨_, fits.entry.mp member⟩
    refine ⟨mem_waiting.mpr waits, fun unable other waiting => ?_⟩
    have waiting := mem_waiting.mp waiting
    rw [able waits] at unable
    rw [able waiting]
    rcases chosen with ⟨free, -⟩ | ⟨held, -, -⟩
    · simp [free] at unable
    · obtain ⟨pointer, found⟩ := mem_iff_exists.mp waiting
      simpa using held (other, pointer) (fits.entry.mpr found)

end handOff

section switch
variable {a : Guarded Int} {moveTo : States} {initAlarm : Bool} {here : Context ε}

def leave (initAlarm jump : Bool) (here : Context ε) (s : State ε) : Except Halt (State ε) := do
  let s ← saveEnv s.running here s
  match s.ready with
  | [] => .error .emptyReady
  | front :: rest => if jump then startThread front (s.advance initAlarm front rest) else pure (s.advance initAlarm front rest)

theorem switchThread_eq {jump : Bool} {moved : State ε} (out : moveOut moveTo s.running s = .ok moved)
    (running : moved.running = s.running) : switchThread moveTo initAlarm jump here s = leave initAlarm jump here moved := by
  rw [switchThread, out, bind_ok_left, leave, running]
  cases initAlarm <;> rfl

private theorem turn_eq {value : Option Int} {next : Int} {rest : List Int} (queue : a.queue = next :: rest) :
    turn value a = .ok (value, { a with
      toScheduler := Scheduler.modify { a.toScheduler with current := next, queue := rest, total := a.total + 1 } next
        fun task => { task with quantums := task.quantums + 1 } }) := by
  rw [turn, Guarded.dispatch_eq_some queue, Scheduler.dispatch, queue]
  rfl

private theorem turn_nil {value : Option Int} (queue : a.queue = []) : turn value a = .error .emptyReady := by
  rw [turn, Guarded.dispatch_eq_none.mpr queue]

theorem Implements.queue (implements : Implements s a) : a.queue = s.ready.map s.idOf := by
  rw [← implements.same]
  rfl

structure Chosen (s : State ε) (a : Guarded Int) (tid : Int) (rest : List Int) : Prop where
  implements : Implements s { a with current := tid, queue := rest, total := a.total + 1 }
  current : s.Files tid s.running

private theorem Chosen.start {value : Option Int} {reply : Reply} {tid : Int} {rest : List Int} (chosen : Chosen s a tid rest)
    (queue : a.queue = tid :: rest) (same : reply.value = value) :
    Related Answers (do let s' ← startThread s.running s; pure (reply, s')) (turn value a) := by
  obtain ⟨thread, record, -⟩ := chosen.current.found
  rw [startThread_eq record, turn_eq queue]
  exact ⟨same, chosen.implements.start chosen.current, chosen.current.modify fun _ => rfl⟩

/-- The switch away from a thread that is allocated: with nobody in the queue
there is no way on, otherwise its front is chosen. -/
private theorem leave_cases (initAlarm : Bool) (here : Context ε) (implements : Implements s a)
    (allocated : (s.heap s.running).isSome) :
    (a.queue = [] ∧ ∀ jump, leave initAlarm jump here s = .error .emptyReady) ∨
      ∃ tid rest chosen, a.queue = tid :: rest ∧ Chosen chosen a tid rest ∧
        chosen.allThreads = s.allThreads ∧ (∀ pointer, (chosen.heap pointer).map Thread.id = (s.heap pointer).map Thread.id) ∧
        leave initAlarm false here s = .ok chosen ∧ leave initAlarm true here s = startThread chosen.running chosen := by
  obtain ⟨thread, found⟩ := Option.isSome_iff_exists.mp allocated
  simp only [leave, saveEnv_eq found, bind_ok_left]
  have saved := implements.save s.running { here with savedMask := s.mask }
  have ids : ∀ pointer, ((s.modify s.running fun thread => { thread with env := { here with savedMask := s.mask } }).heap
      pointer).map Thread.id = (s.heap pointer).map Thread.id := fun pointer => State.map_modify Thread.id fun _ => rfl
  have table : (s.modify s.running fun thread => { thread with env := { here with savedMask := s.mask } }).allThreads =
      s.allThreads := rfl
  generalize s.modify s.running (fun thread => { thread with env := { here with savedMask := s.mask } }) = kept
    at saved ids table
  have queue := saved.queue
  cases ready : kept.ready with
  | nil => exact .inl ⟨by rw [queue, ready]; rfl, fun _ => rfl⟩
  | cons front rest =>
    obtain ⟨tid, files⟩ := saved.filed.ready front (ready ▸ List.mem_cons_self)
    have advanced := saved.advance initAlarm ready files
    refine .inr ⟨tid, rest.map kept.idOf, kept.advance initAlarm front rest, ?_, ⟨advanced, ?_⟩, ?_, ?_, rfl, ?_⟩
    · rw [queue, ready, List.map_cons, files.idOf]
    · cases initAlarm <;> exact files
    · cases initAlarm <;> exact table
    · cases initAlarm <;> exact ids
    · cases initAlarm <;> rfl

theorem jump_related (implements : Implements s a) (allocated : (s.heap s.running).isSome) {reply : Reply}
    {value : Option Int} (same : reply.value = value) :
    Related Answers (do let s' ← leave initAlarm true here s; pure (reply, s')) (turn value a) := by
  rcases leave_cases initAlarm here implements allocated with
    ⟨empty, stuck⟩ | ⟨tid, rest, chosen, queue, started, -, -, -, jumps⟩
  · rw [stuck true, turn_nil empty]
    rfl
  · rw [jumps]
    exact started.start queue same

theorem delete_related (implements : Implements s a) {pointer : Pointer} {tid : Int}
    (running : s.running = pointer) (record : (s.heap pointer).map Thread.id = some tid)
    (gone : s.allThreads[tid]? = none) :
    Related Answers (do
      let s ← leave true false here s
      let s ← delete pointer s
      let s ← startThread s.running s
      pure (.nothing, s)) (turn none a) := by
  have allocated : (s.heap s.running).isSome := by
    rw [running, ← Option.isSome_map (f := Thread.id), record]
    rfl
  rcases leave_cases true here implements allocated with
    ⟨empty, stuck⟩ | ⟨next, rest, chosen, queue, started, table, ids, stays, -⟩
  · rw [stuck false, turn_nil empty]
    rfl
  · obtain ⟨thread, found⟩ := Option.map_eq_some_iff.mp ((ids pointer).trans record)
    have null := started.implements.filed.null
    have apart : ∀ other, ¬ chosen.Files other pointer := by
      intro other files
      have same := Option.some.inj (files.2.symm.trans ((ids pointer).trans record))
      exact nomatch (same ▸ table ▸ files.1).symm.trans gone
    have notNull : pointer ≠ nullptr := by
      rintro rfl
      exact nomatch found.1.symm.trans null
    have stored := started.implements.store none notNull apart started.current
    have kept : (chosen.store pointer none).Files next (chosen.store pointer none).running := by
      have different : chosen.running ≠ pointer := fun same => apart next (same ▸ started.current)
      exact started.current.store different
    rw [stays, bind_ok_left, delete_eq found.1 null, bind_ok_left]
    exact Chosen.start ⟨stored, kept⟩ queue rfl

end switch
end primitives

end Uthreads.Nim
