import Uthreads.Library.Guarded
import Uthreads.Model.Specification
import Uthreads.Nim.Model.Operations

/-! What nim/uthreads.cpp is for, without pointers and containers: the same
calls on the abstract scheduler with its lock. Nothing here is translated from
the source. -/

namespace Uthreads.Nim
open RoundRobin

variable {ε : Type}

def State.idOf (s : State ε) (pointer : Pointer) : Int := ((s.heap pointer).map Thread.id).getD fail

def State.thread (s : State ε) (tid : Int) : Option (Thread ε) := s.allThreads[tid]?.bind s.heap

/-- The scheduler that a state implements. -/
def abstraction (s : State ε) : Guarded Int where
  tasks tid := (s.thread tid).map fun thread => ⟨decide (tid ∈ s.blocked), none, thread.quantums⟩
  current := s.idOf s.running
  queue := s.ready.map s.idOf
  total := s.totalQuantum
  owner := if s.mutex.blocked then some (s.idOf s.mutex.threadBlock) else none
  waiting := s.mutexBlocked.keys.toFinset

/-- Who is given the mutex next, if it is given up now. -/
def Choice.next (choice : Choice) (s : State ε) : Option Int :=
  ((choice.order.find? fun iter => iter.1 ∉ s.blocked).or choice.order.head?).map Prod.fst

/-- The processor goes to the front of the queue, and `value` to the caller
when it is next resumed. -/
def turn (value : Option Int) (a : Guarded Int) : Except Halt (Option Int × Guarded Int) :=
  match a.dispatch with
  | none => .error .emptyReady
  | some a => .ok (value, a)

/-- The effect of a call and the value it returns to its caller, if any, where
the mutex goes to `next` if it is given up. -/
def Op.spec (op : Op ε) (next : Option Int) (a : Guarded Int) : Except Halt (Option Int × Guarded Int) :=
  match op with
  | .spawn _ =>
    match allIds.find? fun id => (a.tasks id).isNone with
    | none => .ok (some fail, a)
    | some id => .ok (some id, a.accept id)
  | .terminate tid =>
    if (a.tasks tid).isNone then .ok (some fail, a)
    else if tid = mainThread then .error (.exit success)
    else if tid = a.current then turn none ((a.surrender tid next).drop tid)
    else .ok (some success, (a.surrender tid next).drop tid)
  | .block tid =>
    if (a.tasks tid).isNone ∨ tid = mainThread then .ok (some fail, a)
    else if tid = a.current then turn (some success) (a.hold tid)
    else .ok (some success, a.hold tid)
  | .resume tid => if (a.tasks tid).isNone then .ok (some fail, a) else .ok (some success, a.release tid)
  | .getTid => .ok (some a.current, a)
  | .getQuantums tid =>
    match a.tasks tid with
    | none => .ok (some fail, a)
    | some task => .ok (some task.quantums, a)
  | .getTotalQuantums => .ok (some a.total, a)
  | .mutexLock =>
    match a.owner with
    | none => .ok (some success, { a with owner := some a.current })
    | some owner => if owner = a.current then .ok (some fail, a) else turn (some success) a.wait
  | .mutexUnlock => if a.owner = some a.current then .ok (some success, a.grant next) else .ok (some fail, a)
  | .preempt => turn none a.requeue

def specInit : Guarded Int where
  toScheduler := Uthreads.specInit
  owner := none
  waiting := ∅

end Uthreads.Nim
