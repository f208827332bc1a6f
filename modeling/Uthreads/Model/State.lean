import Mathlib.Data.Finset.Basic
import Mathlib.Logic.Function.Basic
import Std.Data.ExtTreeMap
import Std.Data.ExtTreeSet

/-! The global data of uthreads.cpp. What a saved program counter is stays a
parameter: the scheduler never looks at it, and the signal-level machine
instantiates it with the statements that remain to be executed. -/

namespace Uthreads

def maxThreadNum : Int := 100
def success : Int := 0
def failure : Int := -1
def microToSec : Int := 1000000
def libraryErr : String := "thread library error: "
def inputErr : String := "Invalid input\n"
def maxThreadsErr : String := "Passed the max num of threads\n"
def tidNotExist : String := "This thread doesn't exist\n"
def blockThreatZero : String := "Can not block thread 0\n"
def sleepThreadZero : String := "Can not sleep thread 0\n"
def spawnNull : String := "spawn can't get null entry point\n"

abbrev Signal := Nat

def sigvtalrm : Signal := 26

inductive Status where
  | main
  | ready
  | running
  | blocked
  | asleep
  | terminated
  deriving DecidableEq, Repr

/-- Where code executes: the stack pointer is represented by the thread whose
`stack_` it points into, the program counter by whatever `ε` is. -/
structure Context (ε : Type) where
  sp : Int
  pc : ε
  deriving DecidableEq

structure SigjmpBuf (ε : Type) extends Context ε where
  savedMask : Finset Signal
  deriving DecidableEq

structure UThread (ε : Type) where
  tid : Int
  status : Status
  env : SigjmpBuf ε
  numOfQuantumsRunning : Nat
  deriving DecidableEq

namespace UThread
variable {ε : Type}

/-- The constructor of the main thread. Its `sigsetjmp` saves the caller, and
the saved mask is emptied. -/
def main (here : Context ε) : UThread ε :=
  ⟨0, .main, { here with savedMask := ∅ }, 1⟩

/-- The constructor of a spawned thread: the saved context is redirected to the
thread's own stack and to its entry point. -/
def spawned (tid : Int) (entryPoint : ε) : UThread ε :=
  ⟨tid, .ready, { sp := tid, pc := entryPoint, savedMask := ∅ }, 0⟩

end UThread

structure Itimerval where
  valueSec : Int
  valueUsec : Int
  intervalSec : Int
  intervalUsec : Int
  deriving DecidableEq, Repr

/-- The globals, with the signal mask of the process. A record of
`all_threads_` is present exactly for the live threads. -/
@[ext] structure State (ε : Type) where
  allThreads : Int → Option (UThread ε)
  sleepers : Std.ExtTreeMap Int Int
  blockedTids : Finset Int
  readyTids : List Int
  freeIds : Std.ExtTreeSet Int
  totalQuantums : Nat
  runningTid : Int
  quantum : Int
  timer : Itimerval
  mask : Finset Signal

/-- How a call can end other than by returning: the process exits, a missing
record is dereferenced, a deleted one is read, or a container is told to erase its
end. -/
inductive Halt where
  | exit (code : Int)
  | nullRecord (tid : Int)
  | freedRecord (tid : Int)
  | eraseEnd
  deriving DecidableEq, Repr

namespace State
variable {ε : Type}

/-- The zero-initialised globals of a process that was started with `mask`. -/
def blank (mask : Finset Signal) : State ε where
  allThreads := fun _ => none
  sleepers := ∅
  blockedTids := ∅
  readyTids := []
  freeIds := ∅
  totalQuantums := 0
  runningTid := 0
  quantum := 0
  timer := ⟨0, 0, 0, 0⟩
  mask

def status (s : State ε) (tid : Int) : Option Status := (s.allThreads tid).map UThread.status

def quantums (s : State ε) (tid : Int) : Option Nat := (s.allThreads tid).map UThread.numOfQuantumsRunning

/-- An update through `all_threads_[tid]->`. The lookup inserts a null record
when the key is absent, and the dereference then faults. -/
def updateThread (s : State ε) (tid : Int) (f : UThread ε → UThread ε) : Except Halt (State ε) :=
  match s.allThreads tid with
  | none => .error (.nullRecord tid)
  | some thread => .ok { s with allThreads := Function.update s.allThreads tid (some (f thread)) }

def setStatus (s : State ε) (tid : Int) (status : Status) : Except Halt (State ε) :=
  s.updateThread tid fun thread => { thread with status }

/-- `all_threads_.emplace` leaves an existing record alone. -/
def emplaceThread (s : State ε) (tid : Int) (thread : UThread ε) : State ε :=
  match s.allThreads tid with
  | none => { s with allThreads := Function.update s.allThreads tid (some thread) }
  | some _ => s

/-- `ready_tids_.erase(std::find(...))`, undefined when the id is not found. -/
def eraseReady (s : State ε) (tid : Int) : Except Halt (State ε) :=
  if tid ∈ s.readyTids then .ok { s with readyTids := s.readyTids.erase tid } else .error .eraseEnd

end State
end Uthreads
