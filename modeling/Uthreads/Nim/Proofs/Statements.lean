import Uthreads.Nim.Model.Machine
import Uthreads.Nim.Proofs.Records

/-! What the calls of nim/uthreads.cpp do to the threads that are allocated,
whatever state they are made in. -/

namespace Uthreads.Nim
open Fallible OrderedMap

variable {ε : Type}

structure Quiet (s s' : State ε) : Prop where
  heap : s'.heap = s.heap
  allThreads : s'.allThreads = s.allThreads
  running : s'.running = s.running
  set : s'.set = s.set
  total : s'.totalQuantum = s.totalQuantum

/-- What a call that does not switch does to the threads. -/
inductive Effect (s s' : State ε) : Op ε → Prop where
  | quiet {op} (same : Quiet s s') : Effect s s' op
  | spawn {f : ε} {address : Pointer} (notNull : address ≠ nullptr) (fresh : s.heap address = none)
      (room : ¬ (s.allThreads.size : Int) + 1 > maxThreadNum)
      (running : s'.running = s.running) (set : s'.set = s.set) (total : s'.totalQuantum = s.totalQuantum)
      (heap : s'.heap = Function.update s.heap address (some (.spawned (getId s) f)))
      (allThreads : s'.allThreads = s.allThreads.insert (getId s) address) : Effect s s' (.spawn f)
  | terminate {tid : Int} {pointer : Pointer} (filed : s.allThreads[tid]? = some pointer)
      (notMain : tid ≠ mainThread) (other : (s.heap s.running).map Thread.id ≠ some tid) (running : s'.running = s.running)
      (set : s'.set = s.set) (total : s'.totalQuantum = s.totalQuantum)
      (heap : s'.heap = Function.update s.heap pointer none ∨ pointer = nullptr ∧ s'.heap = s.heap)
      (allThreads : s'.allThreads = s.allThreads.erase tid) : Effect s s' (.terminate tid)

def State.Full (s : State ε) : Prop := (s.allThreads.size : Int) + 1 > maxThreadNum

instance (s : State ε) : Decidable s.Full := inferInstanceAs (Decidable (_ > _))

/-- What a call that does not switch does last: a spawn without room returns at once. -/
inductive Ends (s : State ε) : Op ε → State ε → Prop where
  | unblocks {op : Op ε} {last} (set : last.set = s.set) (room : ∀ f, op = .spawn f → ¬ s.Full) : Ends s op (unblock last)
  | full {f} (full : s.Full) : Ends s (.spawn f) (block s)

theorem Effect.containers {s : State ε} {op : Op ε} {ready : List Pointer} {mutexBlocked blocked : Std.ExtTreeMap Int Pointer}
    {mutex : MutexBlock} {mask : Finset Signal} : Effect s { s with ready, mutexBlocked, blocked, mutex, mask } op :=
  .quiet ⟨rfl, rfl, rfl, rfl, rfl⟩

theorem Effect.frame {s s' : State ε} {op : Op ε} (effect : Effect s s' op) : s'.running = s.running ∧ s'.set = s.set := by
  cases effect with
  | quiet quiet => exact ⟨quiet.running, quiet.set⟩
  | spawn _ _ _ running set | terminate _ _ _ running set => exact ⟨running, set⟩

structure Entered (exit : Exit) (s s' : State ε) : Prop where
  heap : s'.heap = s.heap
  running : s'.running = s.running
  set : s'.set = s.set
  total : s'.totalQuantum = s.totalQuantum
  mask : s'.mask = s.set ∪ s.mask
  allThreads : exit.toDel = none ∧ s'.allThreads = s.allThreads ∨
    ∃ tid pointer, exit.toDel = some pointer ∧ s.allThreads[tid]? = some pointer ∧ tid ≠ mainThread ∧
      (s.heap s.running).map Thread.id = some tid ∧ s'.allThreads = s.allThreads.erase tid

/-- How a call gets to its `switchThread`, and with what state. -/
inductive Enters (order : List (Int × Pointer)) (s : State ε) : Op ε → Exit → State ε → Prop where
  | terminate {tid left toDel free} (live : tid ∈ s.allThreads) (notMain : tid ≠ mainThread)
      (leaves : leaveMutex tid order (Nim.block s) = .ok left) (freed : freeThread tid left = .ok (toDel, free))
      (self : free.getId free.running = .ok tid) : Enters order s (.terminate tid) ⟨.none, true, some toDel⟩ free
  | block {tid} (filed : s.allThreads[tid]? = some s.running) (notMain : tid ≠ mainThread)
      (unqueued : findIdeque tid (Nim.block s) = .ok none) :
      Enters order s (.block tid) ⟨.blocked, true, none⟩ (Nim.block s)
  | mutexLock {holder id} (taken : s.mutex.blocked = true) (held : s.getId s.mutex.threadBlock = .ok holder)
      (caller : s.getId s.running = .ok id) (other : holder ≠ id) : Enters order s .mutexLock ⟨.mutexBlocked, true, none⟩
        { Nim.block s with mutexBlocked := s.mutexBlocked.insert id s.running }
  | preempt : Enters order s .preempt ⟨.ready, false, none⟩ (Nim.block s)

section pieces
variable {s s' : State ε} {order : List (Int × Pointer)} {tid : Int}

theorem getId_ok {pointer : Pointer} {id : Int} : s.getId pointer = .ok id ↔ (s.heap pointer).map Thread.id = some id := by
  unfold State.getId State.deref
  cases s.heap pointer <;> simp [bind, Except.bind]

theorem mutexUnblockRandomThread_quiet (done : mutexUnblockRandomThread order s = .ok s') :
    ∃ mutex mutexBlocked ready, s' = { s with mutex, mutexBlocked, ready } := by
  unfold mutexUnblockRandomThread at done
  split at done
  next => cases done; exact ⟨_, _, _, rfl⟩
  next =>
    obtain ⟨id, -, done⟩ := bind_ok.mp done
    obtain rfl := Except.ok.inj done
    generalize (if (_ : Pointer) = nullptr then _ else _) = toSet
    split <;> exact ⟨_, _, _, rfl⟩

theorem leaveMutex_quiet (done : leaveMutex tid order s = .ok s') :
    ∃ mutex mutexBlocked ready, s' = { s with mutex, mutexBlocked, ready } := by
  unfold leaveMutex at done
  split at done
  next =>
    obtain ⟨holder, -, done⟩ := bind_ok.mp done
    split at done
    next => exact mutexUnblockRandomThread_quiet done
    next => cases done; exact ⟨_, _, _, rfl⟩
  next => cases done; exact ⟨_, _, _, rfl⟩

theorem freeThread_ok {pointer : Pointer} (done : freeThread tid s = .ok (pointer, s')) :
    pointer = s.allThreads[tid]?.getD nullptr ∧
      ∃ blocked ready mutexBlocked, s' = { s with allThreads := s.allThreads.erase tid, blocked, ready, mutexBlocked } := by
  unfold freeThread at done
  obtain ⟨readyPtr, -, done⟩ := bind_ok.mp done
  cases done
  exact ⟨rfl, _, _, _, rfl⟩

theorem terminate_pieces {free : State ε} {pointer : Pointer} (left : leaveMutex tid order (block s) = .ok s')
    (freed : freeThread tid s' = .ok (pointer, free)) : pointer = s.allThreads[tid]?.getD nullptr ∧
      free.heap = s.heap ∧ free.running = s.running ∧ free.set = s.set ∧ free.totalQuantum = s.totalQuantum ∧
      free.mask = s.set ∪ s.mask ∧ free.allThreads = s.allThreads.erase tid := by
  obtain ⟨mutex, waiting, ready, rfl⟩ := leaveMutex_quiet left
  obtain ⟨found, blocked, queue, waits, rfl⟩ := freeThread_ok freed
  exact ⟨found, rfl, rfl, rfl, rfl, rfl, rfl⟩

theorem delete_ok {pointer : Pointer} (done : delete pointer s = .ok s') :
    s' = s.store pointer none ∨ pointer = nullptr ∧ s' = s := by
  unfold delete at done
  split at done
  next null => cases done; exact .inr ⟨null, rfl⟩
  next =>
    obtain ⟨thread, -, done⟩ := bind_ok.mp done
    cases done
    exact .inl rfl

theorem deref_ok {pointer : Pointer} {thread : Thread ε} : s.deref pointer = .ok thread ↔ s.heap pointer = some thread := by
  unfold State.deref
  cases s.heap pointer <;> simp

theorem moveOut_ok {moveTo : States} {pointer : Pointer} (moved : moveOut moveTo pointer s = .ok s') :
    ∃ blocked mutexBlocked ready, s' = { s with blocked, mutexBlocked, ready } := by
  cases moveTo with simp only [moveOut] at moved
  | blocked | mutexBlocked =>
    obtain ⟨id, -, moved⟩ := bind_ok.mp moved
    cases moved
    exact ⟨_, _, _, rfl⟩
  | ready | running | none => cases moved; exact ⟨_, _, _, rfl⟩

end pieces

theorem startThread_executed {m m' : Machine} {choice : Choice} {rest : Code}
    (executed : m.execute choice rest .startThread = .ok m') :
    ∃ thread, m.lib.heap m.lib.running = some thread ∧ m' =
      { m with
        lib := { m.lib.store m.lib.running (some { thread with quantums := thread.quantums + 1 }) with
          mask := thread.env.savedMask }
        sp := thread.env.sp
        code := thread.env.pc } := by
  obtain ⟨thread, found, executed⟩ := bind_ok.mp executed
  obtain ⟨lib, started, executed⟩ := bind_ok.mp executed
  rw [startThread, found, bind_ok_left] at started
  cases started
  cases executed
  exact ⟨thread, deref_ok.mp found, rfl⟩

section calls
variable {s s' : State ε} {op : Op ε} {choice : Choice} {here : Context ε} {reply : Reply}

theorem untilSwitch_cases {exit : Exit} {order : List (Int × Pointer)}
    (enters : op.untilSwitch order s = .ok (some (exit, s'))) :
    Enters order s op exit s' := by
  cases op with simp only [Op.untilSwitch] at enters
  | terminate tid =>
    split at enters
    next => cases enters
    next present =>
      obtain ⟨live, notMain⟩ := not_or.mp present
      obtain ⟨left, leaves, enters⟩ := bind_ok.mp enters
      obtain ⟨⟨toDel, free⟩, freed, enters⟩ := bind_ok.mp enters
      obtain ⟨current, id, enters⟩ := bind_ok.mp enters
      split at enters
      next self =>
        cases enters
        exact .terminate (not_not.mp live) notMain leaves freed (self ▸ id)
      next => cases enters
  | block tid =>
    split at enters
    next => cases enters
    next thread filed =>
      split at enters
      next => cases enters
      next notMain =>
        obtain ⟨found, looked, enters⟩ := bind_ok.mp enters
        split at enters
        next self =>
          cases enters
          have running : s.running = thread := self.2
          exact .block (running ▸ filed) notMain (self.1 ▸ looked)
        next => cases enters
  | mutexLock =>
    split at enters
    next taken =>
      obtain ⟨holder, held, enters⟩ := bind_ok.mp enters
      obtain ⟨id, caller, enters⟩ := bind_ok.mp enters
      split at enters
      next => cases enters
      next other =>
        cases enters
        exact .mutexLock taken held caller other
    next => cases enters
  | preempt =>
    cases enters
    exact .preempt
  | spawn | resume | getTid | getQuantums | getTotalQuantums | mutexUnlock => cases enters

theorem Enters.entered {exit : Exit} {order : List (Int × Pointer)} (enters : Enters order s op exit s') :
    Entered exit s s' := by
  cases enters with
  | @terminate tid left toDel free live notMain leaves freed self =>
    obtain ⟨found, heap, running, set, total, mask, allThreads⟩ := terminate_pieces leaves freed
    obtain ⟨pointer, filed⟩ := mem_iff_exists.mp live
    rw [filed, Option.getD_some] at found
    rw [getId_ok, heap, running] at self
    exact ⟨heap, running, set, total, mask, .inr ⟨tid, pointer, congrArg some found, filed, notMain, self, allThreads⟩⟩
  | block | mutexLock | preempt => exact ⟨rfl, rfl, rfl, rfl, rfl, .inl ⟨rfl, rfl⟩⟩

private structure Outcome (s : State ε) (op : Op ε) (s' : State ε) : Prop where
  effect : Effect s s' op
  ends : Ends s op s'
  others : s'.mask \ s.set = s.mask \ s.set

private theorem unblock_others {last : State ε} (set : last.set = s.set) (mask : last.mask = s.set ∪ s.mask) :
    (unblock last).mask \ s.set = s.mask \ s.set := by
  rw [unblock, set, mask, sdiff_idem, Finset.union_sdiff_left]

private theorem outcome_unblock {ready : List Pointer} {mutexBlocked blocked : Std.ExtTreeMap Int Pointer} {mutex : MutexBlock}
    (other : ∀ f, op ≠ .spawn f) :
    Outcome s op (unblock { s with ready, mutexBlocked, blocked, mutex, mask := s.set ∪ s.mask }) :=
  ⟨.containers, .unblocks rfl fun f spawns => absurd spawns (other f), unblock_others rfl rfl⟩

private theorem terminate_outcome {tid : Int} (stays : (Op.terminate tid : Op ε).untilSwitch choice.order s = .ok none)
    (called : uthreadTerminate tid choice.order here s = .ok (reply, s')) :
    Outcome s (.terminate tid) s' := by
  simp only [uthreadTerminate] at called
  simp only [Op.untilSwitch] at stays
  split at called
  next => cases called; exact outcome_unblock (by simp)
  next live =>
    split at called
    next =>
      obtain ⟨_, -, ends⟩ := bind_ok.mp called
      cases ends
    next notMain =>
      rw [if_neg (not_or.mpr ⟨live, notMain⟩)] at stays
      obtain ⟨left, leaves, called⟩ := bind_ok.mp called
      obtain ⟨⟨toDel, free⟩, freed, called⟩ := bind_ok.mp called
      obtain ⟨current, id, called⟩ := bind_ok.mp called
      rw [leaves, bind_ok_left, freed, bind_ok_left, id, bind_ok_left] at stays
      obtain ⟨found, heap, running, set, total, mask, allThreads⟩ := terminate_pieces leaves freed
      obtain ⟨pointer, filed⟩ := mem_iff_exists.mp (not_not.mp live)
      have filed : s.allThreads[tid]? = some pointer := filed
      rw [filed, Option.getD_some] at found
      split at called
      next self =>
        rw [if_pos self] at stays
        cases stays
      next other =>
        obtain ⟨deleted, removed, called⟩ := bind_ok.mp called
        cases called
        have different : (s.heap s.running).map Thread.id ≠ some tid := by
          rw [← heap, ← running, getId_ok.mp id]
          exact fun same => other (Option.some.inj same).symm
        subst found
        rcases delete_ok removed with rfl | ⟨null, rfl⟩
        · refine ⟨?_, .unblocks set (by simp), unblock_others set mask⟩
          exact .terminate filed notMain different running set total (.inl (congrArg (Function.update · _ _) heap)) allThreads
        · refine ⟨?_, .unblocks set (by simp), unblock_others set mask⟩
          exact .terminate filed notMain different running set total (.inr ⟨null, heap⟩) allThreads

private theorem block_outcome {tid : Int} (stays : (Op.block tid : Op ε).untilSwitch choice.order s = .ok none)
    (called : uthreadBlock tid here s = .ok (reply, s')) : Outcome s (.block tid) s' := by
  simp only [Op.untilSwitch] at stays
  simp only [uthreadBlock] at called
  split at called
  next => cases called; exact outcome_unblock (by simp)
  next thread found =>
    rw [found] at stays
    dsimp only at stays
    split at called
    next => cases called; exact outcome_unblock (by simp)
    next notMain =>
      rw [if_neg notMain] at stays
      obtain ⟨position, found, called⟩ := bind_ok.mp called
      rw [found, bind_ok_left] at stays
      split at called
      next => cases called; exact outcome_unblock (by simp)
      next =>
        split at called
        next current =>
          rw [if_pos ⟨rfl, current⟩] at stays
          cases stays
        next => cases called; exact outcome_unblock (by simp)

private theorem mutexLock_outcome (stays : (Op.mutexLock : Op ε).untilSwitch choice.order s = .ok none)
    (called : uthreadMutexLock here s = .ok (reply, s')) : Outcome s .mutexLock s' := by
  simp only [Op.untilSwitch] at stays
  simp only [uthreadMutexLock] at called
  split at called
  next taken =>
    rw [if_pos taken] at stays
    obtain ⟨holder, held, called⟩ := bind_ok.mp called
    obtain ⟨id, current, called⟩ := bind_ok.mp called
    rw [held, bind_ok_left, current, bind_ok_left] at stays
    split at called
    next => cases called; exact outcome_unblock (by simp)
    next other =>
      rw [if_neg other] at stays
      cases stays
  next => cases called; exact outcome_unblock (by simp)

private theorem mutexUnlock_outcome {order : List (Int × Pointer)} (called : uthreadMutexUnlock order s = .ok (reply, s')) :
    Outcome s .mutexUnlock s' := by
  simp only [uthreadMutexUnlock] at called
  split at called
  next => cases called; exact outcome_unblock (by simp)
  next =>
    obtain ⟨id, -, called⟩ := bind_ok.mp called
    obtain ⟨holder, -, called⟩ := bind_ok.mp called
    split at called
    next => cases called; exact outcome_unblock (by simp)
    next =>
      obtain ⟨passed, passes, called⟩ := bind_ok.mp called
      obtain ⟨mutex, waiting, ready, rfl⟩ := mutexUnblockRandomThread_quiet passes
      cases called
      exact outcome_unblock (by simp)

/-- A call that does not switch creates a thread, deletes another one than the
running thread, or leaves the threads alone. It unblocks the signal if it is no
spawn without room. -/
private theorem call_outcome (fits : choice.Fits s) (stays : op.untilSwitch choice.order s = .ok none)
    (called : op.call choice here s = .ok (reply, s')) : Outcome s op s' := by
  cases op with simp only [Op.call] at called
  | spawn f =>
    simp only [uthreadSpawn] at called
    split at called
    next full => cases called; exact ⟨.containers, .full full, Finset.union_sdiff_left ..⟩
    next room =>
      cases called
      exact ⟨.spawn fits.notNull fits.fresh room rfl rfl rfl rfl rfl, .unblocks rfl fun _ _ => room, unblock_others rfl rfl⟩
  | terminate tid => exact terminate_outcome stays called
  | block tid => exact block_outcome stays called
  | resume tid =>
    simp only [uthreadResume] at called
    split at called
    next => cases called; exact outcome_unblock (by simp)
    next =>
      split at called
      all_goals
        cases called
        exact outcome_unblock (by simp)
  | getTid =>
    obtain ⟨id, -, called⟩ := bind_ok.mp called
    cases called
    exact outcome_unblock (by simp)
  | getQuantums tid =>
    simp only [uthreadGetQuantums] at called
    split at called
    next => cases called; exact outcome_unblock (by simp)
    next =>
      obtain ⟨count, -, called⟩ := bind_ok.mp called
      cases called
      exact outcome_unblock (by simp)
  | getTotalQuantums => cases called; exact outcome_unblock (by simp)
  | mutexLock => exact mutexLock_outcome stays called
  | mutexUnlock => exact mutexUnlock_outcome called
  | preempt => cases stays

theorem call_effect (fits : choice.Fits s) (stays : op.untilSwitch choice.order s = .ok none)
    (called : op.call choice here s = .ok (reply, s')) : Effect s s' op :=
  (call_outcome fits stays called).effect

theorem call_ends (fits : choice.Fits s) (stays : op.untilSwitch choice.order s = .ok none)
    (called : op.call choice here s = .ok (reply, s')) : Ends s op s' :=
  (call_outcome fits stays called).ends

theorem call_others (fits : choice.Fits s) (stays : op.untilSwitch choice.order s = .ok none)
    (called : op.call choice here s = .ok (reply, s')) : s'.mask \ s.set = s.mask \ s.set :=
  (call_outcome fits stays called).others

end calls
end Uthreads.Nim
