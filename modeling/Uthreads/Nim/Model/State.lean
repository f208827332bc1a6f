import Uthreads.Model.State

/-! The global data of nim/uthreads.cpp. The containers store pointers, so the
threads live in a heap of their own, and a thread has no status: what it does
shows in where its pointer is stored. -/

namespace Uthreads.Nim

def fail : Int := -1
def mainThread : Int := 0
def secToMicro : Int := 1000000
def prefixLibraryError : String := "thread library error: "
def initError : String := "quantum_usecs must be positive integer"
def spawnError : String := "max threads running has been reached"
def terminateError : String := "the given id to terminate was not found"
def blockError : String := "the given id to block was not found"
def blockZeroError : String := "not allowed to block main thread"
def unblockError : String := "unable to resume an unblocked thread, or a non existing thread"
def mutexBlockSame : String := "mutex is already blocked with the same thread"
def mutexAlreadyUnblocked : String := "mutex is already unblocked"
def mutexBlockedBySomeoneElse : String := "mutex is already blocked by a different thread"
def getQuantumErr : String := "get quantums got wrong id"

def printErrors (msg : String) : String := prefixLibraryError ++ msg ++ "\n"

abbrev Pointer := Nat

def nullptr : Pointer := 0

inductive States where
  | ready
  | running
  | blocked
  | mutexBlocked
  | none
  deriving DecidableEq, Repr

structure Thread (ε : Type) where
  id : Int
  quantums : Nat
  env : SigjmpBuf ε
  deriving DecidableEq

namespace Thread
variable {ε : Type}

def main (here : Context ε) : Thread ε := ⟨0, 1, { here with savedMask := ∅ }⟩

/-- The constructor for all other threads: the saved context is redirected to
the thread's own stack and to the function `f`. -/
def spawned (id : Int) (f : ε) : Thread ε := ⟨id, 0, { sp := id, pc := f, savedMask := ∅ }⟩

end Thread

structure MutexBlock where
  blocked : Bool
  threadBlock : Pointer
  deriving DecidableEq, Repr

/-- The globals, the threads that are allocated and the signal mask of the
process. The maps are unordered in the source. Where one is iterated over, the
order is a parameter of the function. -/
structure State (ε : Type) where
  heap : Pointer → Option (Thread ε)
  running : Pointer
  ready : List Pointer
  mutexBlocked : Std.ExtTreeMap Int Pointer
  blocked : Std.ExtTreeMap Int Pointer
  allThreads : Std.ExtTreeMap Int Pointer
  timer : Itimerval
  set : Finset Signal
  quantumTime : Int
  totalQuantum : Nat
  mutex : MutexBlock
  mask : Finset Signal

/-- How a call can end other than by returning: the process exits, a pointer to
no thread is dereferenced, or the front of an empty deque is taken. -/
inductive Halt where
  | exit (code : Int)
  | badPointer (pointer : Pointer)
  | emptyReady
  deriving DecidableEq, Repr

namespace State
variable {ε : Type}

def blank (mask : Finset Signal) : State ε where
  heap := fun _ => none
  running := nullptr
  ready := []
  mutexBlocked := ∅
  blocked := ∅
  allThreads := ∅
  timer := ⟨0, 0, 0, 0⟩
  set := ∅
  quantumTime := 0
  totalQuantum := 0
  mutex := ⟨false, nullptr⟩
  mask

def deref (s : State ε) (pointer : Pointer) : Except Halt (Thread ε) :=
  match s.heap pointer with
  | none => .error (.badPointer pointer)
  | some thread => .ok thread

def getId (s : State ε) (pointer : Pointer) : Except Halt Int := do
  let thread ← s.deref pointer
  pure thread.id

def getQuantum (s : State ε) (pointer : Pointer) : Except Halt Nat := do
  let thread ← s.deref pointer
  pure thread.quantums

def store (s : State ε) (pointer : Pointer) (thread : Option (Thread ε)) : State ε :=
  { s with heap := Function.update s.heap pointer thread }

end State
end Uthreads.Nim
