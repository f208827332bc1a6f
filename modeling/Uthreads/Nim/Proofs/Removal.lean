import Uthreads.Nim.Proofs.HandOff
import Uthreads.Nim.Proofs.Statements

/-! A termination in nim/uthreads.cpp, wherever the thread is and whether or not
it has the mutex. No container keeps its pointer, and nothing else is lost. -/

namespace Uthreads.Nim
open Fallible OrderedMap Relational Transition

variable {ε : Type}

/-- What the departure of the thread makes of the mutex, of those who wait for it,
and whom it adds to the queue. -/
inductive Vacates (s : State ε) (tid : Int) : MutexBlock → Std.ExtTreeMap Int Pointer → List Pointer → Prop where
  | other (elsewhere : ¬ s.Owns tid) : Vacates s tid s.mutex s.mutexBlocked []
  | free (owns : s.Owns tid) (nobody : s.mutexBlocked = ∅) : Vacates s tid ⟨false, nullptr⟩ s.mutexBlocked []
  | passes {waiter pointer} (owns : s.Owns tid) (waits : s.mutexBlocked[waiter]? = some pointer) (other : waiter ≠ tid) :
      Vacates s tid ⟨true, pointer⟩ (s.mutexBlocked.erase waiter) (if waiter ∈ s.blocked then [] else [pointer])

structure Forgotten (s : State ε) (pointer : Pointer) : Prop where
  allThreads : ∀ tid : Int, s.allThreads[tid]? ≠ some pointer
  running : s.running ≠ pointer
  ready : pointer ∉ s.ready
  blocked : ∀ tid : Int, s.blocked[tid]? ≠ some pointer
  mutexBlocked : ∀ tid : Int, s.mutexBlocked[tid]? ≠ some pointer
  threadBlock : s.mutex.threadBlock ≠ pointer

/-- The thread is taken out of every container, and nobody else is but the waiter
that is given the mutex. If the thread was running, the front of the queue is. -/
structure Removed (before : State ε) (tid : Int) (pointer : Pointer) (after : State ε) : Prop where
  allThreads : after.allThreads = before.allThreads.erase tid
  blocked : after.blocked = before.blocked.erase tid
  mutex : ∃ mutexBlocked woken, Vacates before tid after.mutex mutexBlocked woken ∧
    after.mutexBlocked = mutexBlocked.erase tid ∧
    (if before.running = pointer then after.running :: after.ready else after.ready) =
      before.ready.erase pointer ++ woken
  running : before.running ≠ pointer → after.running = before.running

section pieces
variable {s s' : State ε} {tid : Int} {pointer : Pointer} {choice : Choice} {here : Context ε}

/-- The search by id finds the pointer that is filed under it. -/
theorem State.readyWithout_eq (filed : Filed s) (files : s.Files tid pointer) :
    s.readyWithout tid = s.ready.erase pointer := by
  have search : ∀ pointers : List Pointer, (∀ other ∈ pointers, s.idOf other = tid ↔ other = pointer) →
      (pointers.map s.idOf).idxOf? tid = pointers.idxOf? pointer := by
    intro pointers same
    induction pointers with
    | nil => rfl
    | cons other rest ih =>
      have first := same other List.mem_cons_self
      rw [List.map_cons, List.idxOf?_cons, List.idxOf?_cons, ih fun other member => same other (List.mem_cons_of_mem _ member)]
      by_cases here : other = pointer
      · rw [if_pos (by simpa using first.mpr here), if_pos (by simpa using here)]
      · rw [if_neg (by simpa using mt first.mp here), if_neg (by simpa using here)]
  rw [State.readyWithout, List.erase_eq_eraseIdx, search]
  · cases s.ready.idxOf? pointer <;> rfl
  · intro other member
    obtain ⟨id, files'⟩ := filed.ready other member
    rw [files'.idOf]
    constructor
    · rintro rfl
      exact files'.inj files
    · rintro rfl
      exact files'.id_inj files

private theorem leaveMutex_elsewhere (filed : Filed s) (elsewhere : ¬ s.Owns tid) :
    leaveMutex tid choice.order s = .ok s := by
  unfold leaveMutex
  split
  next taken =>
    obtain ⟨holder, files, -⟩ := filed.owner taken
    rw [files.getId, bind_ok_left, if_neg]
    · rfl
    · rintro rfl
      exact elsewhere ⟨taken, files⟩
  next => rfl

private theorem leaveMutex_owner (owns : s.Owns tid) :
    leaveMutex tid choice.order s = mutexUnblockRandomThread choice.order s := by
  rw [leaveMutex, if_pos owns.1, owns.2.getId, bind_ok_left, if_pos rfl]

private theorem leaveMutex_vacates (valid : Valid s) (fits : choice.Fits s) (left : leaveMutex tid choice.order s = .ok s') :
    ∃ mutex mutexBlocked woken, Vacates s tid mutex mutexBlocked woken ∧
      s' = { s with mutex, mutexBlocked, ready := s.ready ++ woken } := by
  by_cases owns : s.Owns tid
  · rw [leaveMutex_owner owns] at left
    rcases mutexUnblockRandomThread_eq valid.filed fits with ⟨nobody, unblocked⟩ | ⟨waiter, other, -, waits, unblocked⟩
    · obtain rfl := Except.ok.inj (left.symm.trans unblocked)
      have empty : s.mutexBlocked = ∅ := by
        rcases choice.next_cases s with ⟨order, -⟩ | ⟨iter, -, next, -⟩
        · exact Std.ExtTreeMap.isEmpty_iff.mp (fits.nil.mp order)
        · exact nomatch nobody.symm.trans next
      exact ⟨_, _, _, .free owns empty, by rw [List.append_nil]⟩
    · obtain rfl := Except.ok.inj (left.symm.trans unblocked)
      have away := (valid.placed.owner tid (valid.owns_iff.mp owns)).2
      have different : waiter ≠ tid := by
        rintro rfl
        exact away (mem_waiting.mpr (mem_iff_exists.mpr ⟨other, waits⟩))
      refine ⟨_, _, _, .passes owns waits different, ?_⟩
      unfold State.handTo
      split
      · rw [List.append_nil]
      · rfl
  · rw [leaveMutex_elsewhere valid.filed owns] at left
    obtain rfl := Except.ok.inj left
    exact ⟨_, _, _, .other owns, by rw [List.append_nil]⟩

private theorem Vacates.woken {mutex : MutexBlock} {mutexBlocked : Std.ExtTreeMap Int Pointer} {woken : List Pointer}
    (filed : Filed s) (files : s.Files tid pointer) (vacates : Vacates s tid mutex mutexBlocked woken) : pointer ∉ woken := by
  cases vacates with
  | other | free => exact List.not_mem_nil
  | @passes waiter other' owns waits other =>
    have files' := filed.files (filed.mutexBlocked waiter other' waits)
    split
    · exact List.not_mem_nil
    · intro member
      obtain rfl := List.mem_singleton.mp member
      exact other (files'.id_inj files)

/-- The state after the hand-off and the removal from the containers. -/
def State.Vacated (s : State ε) (tid : Int) (pointer : Pointer) (free : State ε) : Prop :=
  ∃ mutex mutexBlocked woken, Vacates s tid mutex mutexBlocked woken ∧
    free = { s with
      allThreads := s.allThreads.erase tid
      blocked := s.blocked.erase tid
      mutexBlocked := mutexBlocked.erase tid
      ready := s.ready.erase pointer ++ woken
      mutex }

private theorem freeThread_vacated (valid : Valid s) (fits : choice.Fits s) (files : s.Files tid pointer) {left : State ε}
    {toDel : Pointer} (leaves : leaveMutex tid choice.order s = .ok left) (freed : freeThread tid left = .ok (toDel, s')) :
    toDel = pointer ∧ s.Vacated tid pointer s' := by
  obtain ⟨granted, handed, implements, table, heap, -⟩ := leaveMutex_eq valid fits tid
  obtain rfl := Except.ok.inj (leaves.symm.trans handed)
  have files' : left.Files tid pointer := ⟨table ▸ files.1, heap ▸ files.2⟩
  obtain ⟨rfl, rfl⟩ := Prod.mk.inj (Except.ok.inj ((freeThread_eq implements.filed files').symm.trans freed))
  obtain ⟨mutex, mutexBlocked, woken, vacates, rfl⟩ := leaveMutex_vacates valid fits leaves
  have queue : (s.ready ++ woken).erase pointer = s.ready.erase pointer ++ woken := by
    by_cases queued : pointer ∈ s.ready
    · exact List.erase_append_left _ queued
    · rw [List.erase_append_right _ queued, List.erase_of_not_mem queued, List.erase_of_not_mem]
      exact vacates.woken valid.filed files
  refine ⟨rfl, mutex, mutexBlocked, woken, vacates, ?_⟩
  rw [State.withdraw, State.readyWithout_eq implements.filed files', queue]

structure Kept (s s' : State ε) : Prop where
  allThreads : s'.allThreads = s.allThreads
  blocked : s'.blocked = s.blocked
  mutexBlocked : s'.mutexBlocked = s.mutexBlocked
  mutex : s'.mutex = s.mutex

private theorem Kept.trans {middle : State ε} (one : Kept s middle) (two : Kept middle s') : Kept s s' :=
  ⟨two.allThreads.trans one.allThreads, two.blocked.trans one.blocked, two.mutexBlocked.trans one.mutexBlocked,
    two.mutex.trans one.mutex⟩

private theorem delete_kept (done : delete pointer s = .ok s') : Kept s s' ∧ s'.ready = s.ready ∧ s'.running = s.running := by
  rcases delete_ok done with rfl | ⟨-, rfl⟩
  · exact ⟨⟨rfl, rfl, rfl, rfl⟩, rfl, rfl⟩
  · exact ⟨⟨rfl, rfl, rfl, rfl⟩, rfl, rfl⟩

private theorem startThread_kept (done : startThread pointer s = .ok s') :
    Kept s s' ∧ s'.ready = s.ready ∧ s'.running = s.running := by
  obtain ⟨thread, -, done⟩ := bind_ok.mp done
  cases done
  exact ⟨⟨rfl, rfl, rfl, rfl⟩, rfl, rfl⟩

private theorem switchThread_kept (done : switchThread .none true false here s = .ok s') :
    Kept s s' ∧ s.ready = s'.running :: s'.ready := by
  obtain ⟨moved, out, done⟩ := bind_ok.mp done
  cases out
  obtain ⟨saved, saves, done⟩ := bind_ok.mp done
  obtain ⟨thread, -, saves⟩ := bind_ok.mp saves
  cases saves
  split at done
  next => cases done
  next front rest queue =>
    cases done
    exact ⟨⟨rfl, rfl, rfl, rfl⟩, queue⟩

private theorem terminate_vacated (valid : Valid s) (fits : choice.Fits s) (files : s.Files tid pointer) (notMain : tid ≠ mainThread)
    {reply : Reply} (called : uthreadTerminate tid choice.order here s = .ok (reply, s')) :
    ∃ free, (block s).Vacated tid pointer free ∧ Kept free s' ∧
      if s.running = pointer then free.ready = s'.running :: s'.ready
      else s'.ready = free.ready ∧ s'.running = s.running := by
  have present : ¬ tid ∉ (block s).allThreads := not_not.mpr files.live
  rw [uthreadTerminate, if_neg present, if_neg notMain] at called
  obtain ⟨left, leaves, called⟩ := bind_ok.mp called
  obtain ⟨⟨toDel, free⟩, freed, called⟩ := bind_ok.mp called
  obtain ⟨current, id, called⟩ := bind_ok.mp called
  obtain ⟨-, vacated⟩ := freeThread_vacated valid.block fits.block files leaves freed
  obtain ⟨-, heap, running, -⟩ := terminate_pieces leaves freed
  have self : tid = current ↔ s.running = pointer := by
    rw [getId_ok, heap, running] at id
    constructor
    · rintro rfl
      have same : (abstraction s).current = tid := Option.some.inj (valid.current.2.symm.trans id)
      exact valid.current.inj (same ▸ files)
    · rintro rfl
      exact Option.some.inj (files.2.symm.trans id)
  refine ⟨free, vacated, ?_⟩
  split at called
  next same =>
    rw [if_pos (self.mp same)]
    obtain ⟨switched, switches, called⟩ := bind_ok.mp called
    obtain ⟨deleted, deletes, called⟩ := bind_ok.mp called
    obtain ⟨started, starts, called⟩ := bind_ok.mp called
    cases called
    obtain ⟨one, queue⟩ := switchThread_kept switches
    obtain ⟨two, ready, running'⟩ := delete_kept deletes
    obtain ⟨three, ready', running''⟩ := startThread_kept starts
    exact ⟨(one.trans two).trans three, by rw [queue, running'', running', ready', ready]⟩
  next other =>
    rw [if_neg (mt self.mpr other)]
    obtain ⟨deleted, deletes, called⟩ := bind_ok.mp called
    cases called
    obtain ⟨kept, ready, running'⟩ := delete_kept deletes
    exact ⟨kept.trans ⟨rfl, rfl, rfl, rfl⟩, ready, running'.trans running⟩

theorem terminate_removed (valid : Valid s) (fits : choice.Fits s) (files : s.Files tid pointer) (notMain : tid ≠ mainThread)
    {reply : Reply} (called : uthreadTerminate tid choice.order here s = .ok (reply, s')) : Removed s tid pointer s' := by
  obtain ⟨free, ⟨mutex, mutexBlocked, woken, vacates, rfl⟩, kept, turn⟩ := terminate_vacated valid fits files notMain called
  have vacates : Vacates s tid mutex mutexBlocked woken := by
    cases vacates with
    | other elsewhere => exact .other elsewhere
    | free owns nobody => exact .free owns nobody
    | passes owns waits other => exact .passes owns waits other
  refine ⟨kept.allThreads, kept.blocked, ⟨mutexBlocked, woken, kept.mutex ▸ vacates, kept.mutexBlocked, ?_⟩, fun other => ?_⟩
  · split
    next same =>
      rw [if_pos same] at turn
      exact turn.symm
    next other =>
      rw [if_neg other] at turn
      exact turn.1
  · rw [if_neg other] at turn
    exact turn.2

end pieces

section valid
variable {s after start final : State ε} {tid : Int} {pointer : Pointer} {choice : Choice}

/-- Whatever the containers hold is filed, so a pointer that is filed under no id
is in none of them. -/
private theorem Valid.forgotten (valid : Valid s) (notNull : pointer ≠ nullptr)
    (unfiled : ∀ tid : Int, s.allThreads[tid]? ≠ some pointer) : Forgotten s pointer := by
  refine ⟨unfiled, ?_, fun member => ?_, fun id found => ?_, fun id found => ?_, ?_⟩
  · rintro rfl
    exact unfiled _ valid.current.1
  · obtain ⟨id, files⟩ := valid.filed.ready pointer member
    exact unfiled id files.1
  · exact unfiled id (valid.filed.blocked id pointer found)
  · exact unfiled id (valid.filed.mutexBlocked id pointer found)
  · rintro rfl
    cases taken : s.mutex.blocked with
    | false => exact notNull (valid.filed.unheld taken)
    | true =>
      obtain ⟨id, files⟩ := valid.filed.holder taken
      exact unfiled id files.1

structure Unknown (s : State ε) (tid : Int) : Prop where
  allThreads : tid ∉ s.allThreads
  ready : tid ∉ s.readyIds
  blocked : tid ∉ s.blocked
  mutexBlocked : tid ∉ s.mutexBlocked

private theorem Valid.unknown (valid : Valid s) (dead : ¬ s.live tid) : Unknown s tid := by
  refine ⟨dead, fun member => ?_, fun member => ?_, fun member => ?_⟩
  · obtain ⟨pointer, queued, rfl⟩ := List.mem_map.mp member
    obtain ⟨id, files⟩ := valid.filed.ready pointer queued
    exact dead (files.idOf ▸ files.live)
  · exact dead (valid.filed.live_blocked member)
  · exact dead (valid.filed.live_mutexBlocked member)

private theorem Removed.forgotten (removed : Removed s tid pointer after) (valid : Valid s) (valid' : Valid after)
    (files : s.Files tid pointer) : Unknown after tid ∧ Forgotten after pointer := by
  constructor
  · apply valid'.unknown
    rw [State.live, removed.allThreads, mem_erase]
    exact fun live => live.1 rfl
  · apply valid'.forgotten (valid.filed.notNull files)
    intro id found
    rw [removed.allThreads] at found
    obtain ⟨different, found⟩ := of_getElem?_erase found
    exact different ((valid.filed.files found).id_inj files)

private theorem Removed.heir (removed : Removed s tid pointer after) (valid : Valid s) (valid' : Valid after)
    (owns : s.Owns tid) : s.mutexBlocked = ∅ ∧ after.mutex = ⟨false, nullptr⟩ ∨
      ∃ waiter, waiter ∈ s.mutexBlocked ∧ waiter ≠ tid ∧ after.Owns waiter := by
  obtain ⟨mutexBlocked, woken, vacates, -, -⟩ := removed.mutex
  generalize same : after.mutex = mutex at vacates
  cases vacates with
  | other elsewhere => exact absurd owns elsewhere
  | free owns nobody => exact .inl ⟨nobody, rfl⟩
  | @passes waiter other' owns waits other =>
    refine .inr ⟨waiter, mem_iff_exists.mpr ⟨other', waits⟩, other, congrArg MutexBlock.blocked same, ?_⟩
    rw [same]
    apply valid'.filed.files
    rw [removed.allThreads, getElem?_erase, if_neg other]
    exact valid.filed.mutexBlocked waiter other' waits

private theorem turn_error {a : RoundRobin.Guarded Int} {value : Option Int} {halt : Halt} (stuck : turn value a = .error halt) :
    halt = .emptyReady := by
  unfold turn at stuck
  split at stuck
  · exact (Except.error.inj stuck).symm
  · cases stuck

/-- How a termination ends: at once, or with a switch if there is anybody to
switch to. -/
private theorem Valid.terminates (valid : Valid s) (fits : choice.Fits s) (live : s.live tid) (notMain : tid ≠ mainThread)
    (here : Context ε) :
    (tid ≠ s.runningId → ∃ reply after, (Op.terminate tid).call choice here s = .ok (reply, after) ∧
      reply.value = some success) ∧
    (tid = s.runningId → (Op.terminate tid).call choice here s = .error .emptyReady ∨
      ∃ reply after, (Op.terminate tid).call choice here s = .ok (reply, after) ∧ reply.value = none) := by
  have present : ¬ ((abstraction s).tasks tid).isNone = true := not_not.mpr live ∘ valid.filed.isNone_tasks.mp
  have related := (call_related valid fits (.terminate tid) here).outcome
  simp only [Op.spec, if_neg present, if_neg notMain] at related
  constructor
  · intro other
    have other : tid ≠ (abstraction s).current := other
    rw [if_neg other] at related
    rcases related with ⟨halt, -, impossible⟩ | ⟨⟨reply, after⟩, _, called, answer, same, -⟩
    · cases impossible
    · cases answer
      exact ⟨reply, after, called, same⟩
  · intro self
    have self : tid = (abstraction s).current := self
    rw [if_pos self] at related
    rcases related with ⟨halt, called, stuck⟩ | ⟨⟨reply, after⟩, ⟨value, a⟩, called, turned, same, -⟩
    · exact .inl (called.trans (congrArg _ (turn_error stuck)))
    · exact .inr ⟨reply, after, called, same.trans (turn_ok turned).1⟩

end valid

/-- A termination of any live thread but main, in any reachable state, leaves no
trace of it, and all others where they were but for the waiter that is given the
mutex. -/
theorem terminate_leaves_no_trace {start final : State ε} {history : List (Move (State ε) (Event ε))}
    (initialized : Initialized start) (run : Run Takes start history final) {tid : Int} (live : final.live tid)
    (notMain : tid ≠ mainThread) {choice : Choice} (fits : choice.Fits final) (here : Context ε) :
    ∃ pointer, final.Files tid pointer ∧
      (∀ reply after, (Op.terminate tid).call choice here final = .ok (reply, after) →
        Unknown after tid ∧ Forgotten after pointer ∧ Removed final tid pointer after ∧
        (final.Owns tid → final.mutexBlocked = ∅ ∧ after.mutex = ⟨false, nullptr⟩ ∨
          ∃ waiter, waiter ∈ final.mutexBlocked ∧ waiter ≠ tid ∧ after.Owns waiter)) ∧
      (tid ≠ final.runningId → ∃ reply after, (Op.terminate tid).call choice here final = .ok (reply, after) ∧
        reply.value = some success) ∧
      (tid = final.runningId → (Op.terminate tid).call choice here final = .error .emptyReady ∨
        ∃ reply after, (Op.terminate tid).call choice here final = .ok (reply, after) ∧ reply.value = none) := by
  have valid := run_valid initialized run
  obtain ⟨pointer, files⟩ := valid.filed.exists_files live
  refine ⟨pointer, files, fun reply after called => ?_, valid.terminates fits live notMain here⟩
  have taken : Takes final ⟨.terminate tid, choice, here, reply⟩ after := ⟨fits, called⟩
  have valid' := (valid.step taken).1
  have removed := terminate_removed valid fits files notMain called
  obtain ⟨unknown, forgotten⟩ := removed.forgotten valid valid' files
  exact ⟨unknown, forgotten, removed, removed.heir valid valid'⟩

/-- Main has blocked thread 1, which has the mutex, and terminates it while thread
2 waits. -/
theorem terminate_leaves_no_trace_blocked_holder : ∃ (final after : State Unit) (pointer : Pointer),
    final.Owns 1 ∧ 1 ∈ final.blocked ∧ (∃ reply, (Op.terminate 1).call (.plain final) ⟨0, ()⟩ final = .ok (reply, after)) ∧
    Removed final 1 pointer after ∧ ∃ waiter, waiter ∈ final.mutexBlocked ∧ waiter ≠ 1 ∧ after.Owns waiter := by
  obtain ⟨history, final, run, tested⟩ := perform_tested booted
    [(.spawn (), ⟨0, ()⟩), (.spawn (), ⟨0, ()⟩), (.preempt, ⟨0, ()⟩), (.mutexLock, ⟨1, ()⟩), (.preempt, ⟨1, ()⟩),
      (.mutexLock, ⟨2, ()⟩), (.block 1, ⟨0, ()⟩)]
    (fun _ final => (Choice.plain final).Fits final ∧ final.live 1 ∧ 1 ∈ final.blocked ∧ 2 ∈ final.mutexBlocked ∧
      final.runningId = 0 ∧ final.mutex.blocked = true ∧ final.allThreads[(1 : Int)]? = some final.mutex.threadBlock)
    (by decide +kernel)
  obtain ⟨fits, live, blocked, waits, running, taken, holder⟩ := of_decide_eq_true tested
  have owns : final.Owns 1 := ⟨taken, (run_valid booted_initialized run).filed.files holder⟩
  obtain ⟨pointer, -, ends, answers, -⟩ := terminate_leaves_no_trace booted_initialized run live (by decide) fits ⟨0, ()⟩
  obtain ⟨reply, after, called, -⟩ := answers (by simp [running])
  obtain ⟨-, -, removed, heir⟩ := ends reply after called
  refine ⟨final, after, pointer, owns, blocked, ⟨reply, called⟩, removed, (heir owns).resolve_left ?_⟩
  rintro ⟨nobody, -⟩
  rw [nobody] at waits
  simp at waits

end Uthreads.Nim
