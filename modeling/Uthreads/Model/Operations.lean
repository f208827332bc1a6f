import Uthreads.Library.Iterator
import Uthreads.Model.State

/-! The functions of uthreads.cpp. A call is one atomic step: it ends when it
returns or when `siglongjmp` hands control to another thread. -/

namespace Uthreads

variable {ε : Type}

def startTimer (s : State ε) : State ε :=
  let sec := s.quantum.tdiv microToSec
  let micro := s.quantum.tmod microToSec
  { s with timer := ⟨sec, micro, sec, micro⟩ }

def resetTimer (s : State ε) : State ε := startTimer { s with timer := ⟨0, 0, 0, 0⟩ }

def blockVtAlarm (s : State ε) : State ε := { s with mask := insert sigvtalrm s.mask }

def unblockVtAlarm (s : State ε) : State ε := { s with mask := s.mask.erase sigvtalrm }

/-- One iteration of the loop in `update_sleepers`, at the entry `it` points to. -/
def updateSleeper (s : State ε) (it : Int × Int) : Except Halt (State ε) := do
  let tid := it.1
  let counter := it.2 - 1
  let s := { s with sleepers := s.sleepers.insert tid counter }
  if counter = -1 then
    let s ←
      if tid ∉ s.blockedTids then do
        let s ← s.setStatus tid .ready
        pure { s with readyTids := s.readyTids ++ [tid] }
      else s.setStatus tid .blocked
    pure { s with sleepers := s.sleepers.erase tid }
  else pure s

/-- The loop from the entry `it` on. The body changes or erases only the entry
at `it`, so the entries from `next_it` on are the ones still to be visited. -/
def updateSleepersFrom : List (Int × Int) → State ε → Except Halt (State ε)
  | [], s => .ok s
  | it :: next, s => do updateSleepersFrom next (← updateSleeper s it)

def updateSleepers (s : State ε) : Except Halt (State ε) := updateSleepersFrom s.sleepers.toList s

/-- The same loop by its two iterators: `next_it` is moved on before the body,
which may erase the entry at `it`. The keys that `it` stands at are kept. -/
def iterateSleepers (fuel : Nat) (s : State ε) : Except Halt (Option (List Int × State ε)) :=
  OrderedMap.walk State.sleepers updateSleeper fuel (OrderedMap.first s.sleepers) s

def insertReadyToRunning (s : State ε) : Except Halt (State ε) :=
  match s.readyTids with
  | [] => .ok { s with runningTid := 0 } -- the enumerator MAIN
  | tid :: rest => { s with runningTid := tid, readyTids := rest }.setStatus tid .running

def saveEnvironment (s : State ε) (tid : Int) (here : Context ε) : Except Halt (State ε) :=
  s.updateThread tid fun thread => { thread with env := { here with savedMask := s.mask } }

/-- `startRunning` of the running thread. The `siglongjmp` restores its mask. -/
def startRunning (s : State ε) : Except Halt (State ε) :=
  match s.allThreads s.runningTid with
  | none => .error (.nullRecord s.runningTid)
  | some thread => .ok { s with
      allThreads := Function.update s.allThreads s.runningTid
        (some { thread with numOfQuantumsRunning := thread.numOfQuantumsRunning + 1 })
      mask := thread.env.savedMask }

/-- The `switch (to)` of `switch_threads`, on the thread that gives up the processor. -/
def leaveRunning (target : Status) (s : State ε) : Except Halt (State ε) :=
  match target with
  | .ready => { s with readyTids := s.readyTids ++ [s.runningTid] }.setStatus s.runningTid .ready
  | .blocked => { s with blockedTids := insert s.runningTid s.blockedTids }.setStatus s.runningTid .blocked
  | _ => .ok s

/-- `here` is what `sigsetjmp` saves if the departing thread is kept: its own
continuation after the call. A terminated thread jumps past the save. -/
def switchThreads (target : Status) (here : Context ε) (s : State ε) : Except Halt (State ε) := do
  let s ← updateSleepers s
  let origTid := s.runningTid
  let s ← leaveRunning target s
  let s ← insertReadyToRunning s
  let s := { s with totalQuantums := s.totalQuantums + 1 }
  let s ← if target = .terminated then pure s else saveEnvironment s origTid here
  startRunning (unblockVtAlarm s)

/-- What a `return` evaluates after `unblock_vtAlarm()`. The id of a new thread is
read through the pointer to its record, which may have been deleted by then. -/
inductive Returned where
  | value (value : Int)
  | newThread (tid : Int)
  | quantumsOf (tid : Int)
  deriving DecidableEq, Repr

def Returned.eval (s : State ε) : Returned → Except Halt Int
  | .value result => .ok result
  | .newThread tid => if (s.allThreads tid).isSome then .ok tid else .error (.freedRecord tid)
  | .quantumsOf tid =>
    match s.allThreads tid with
    | none => .error (.nullRecord tid)
    | some thread => .ok thread.numOfQuantumsRunning

/-- How the body of a call goes on after its containers are updated: an early
`return FAILURE` with its message, the common exit, or a switch. -/
inductive Next where
  | fails (message : String)
  | finishes (result : Returned)
  | switches (target : Status)
  deriving DecidableEq, Repr

def uthreadSpawn (entryPoint : Option ε) (s : State ε) : Except Halt (Next × State ε) :=
  match s.freeIds.toList.head?, entryPoint with
  | none, _ => .ok (.fails (libraryErr ++ maxThreadsErr), s)
  | some _, none => .ok (.fails (libraryErr ++ spawnNull), s)
  | some tid, some entryPoint =>
    let s := { s with freeIds := s.freeIds.erase tid }
    let s := s.emplaceThread tid (.spawned tid entryPoint)
    .ok (.finishes (.newThread tid), { s with readyTids := s.readyTids ++ [tid] })

def uthreadTerminate (tid : Int) (s : State ε) : Except Halt (Next × State ε) :=
  if tid = 0 then .error (.exit success)
  else match s.allThreads tid with
    | none => .ok (.fails (libraryErr ++ tidNotExist), s)
    | some thread =>
      let s := { s with
        freeIds := s.freeIds.insert tid
        allThreads := Function.update s.allThreads tid none }
      match thread.status with
      | .running => .ok (.switches .terminated, unblockVtAlarm (resetTimer s))
      | .ready => do .ok (.finishes (.value success), ← s.eraseReady tid)
      | .blocked => .ok (.finishes (.value success), { s with blockedTids := s.blockedTids.erase tid })
      | .main | .asleep | .terminated => .ok (.finishes (.value success), s)

def uthreadBlock (tid : Int) (s : State ε) : Except Halt (Next × State ε) :=
  if tid = 0 then .ok (.fails (libraryErr ++ blockThreatZero), s)
  else match s.allThreads tid with
    | none => .ok (.fails (libraryErr ++ tidNotExist), s)
    | some thread =>
      match thread.status with
      | .running => .ok (.switches .blocked, resetTimer s)
      | .ready => do
        let s ← s.eraseReady tid
        let s ← { s with blockedTids := insert tid s.blockedTids }.setStatus tid .blocked
        .ok (.finishes (.value success), s)
      | .asleep => .ok (.finishes (.value success), { s with blockedTids := insert tid s.blockedTids })
      | .blocked | .main | .terminated => .ok (.finishes (.value success), s)

def uthreadResume (tid : Int) (s : State ε) : Except Halt (Next × State ε) :=
  match s.allThreads tid with
  | none => .ok (.fails (libraryErr ++ tidNotExist), s)
  | some thread => do
    let s ←
      if thread.status = .blocked then do
        let s := { s with blockedTids := s.blockedTids.erase tid, readyTids := s.readyTids ++ [tid] }
        s.setStatus tid .ready
      else pure s
    -- the second test reads the status again, after the first may have changed it
    let s := if s.status tid = some .asleep then { s with blockedTids := s.blockedTids.erase tid } else s
    .ok (.finishes (.value success), s)

def uthreadSleep (numQuantums : Int) (s : State ε) : Except Halt (Next × State ε) :=
  if s.runningTid = 0 then .ok (.fails (libraryErr ++ sleepThreadZero), s)
  else if numQuantums < 0 then .ok (.fails (libraryErr ++ inputErr), s)
  else do
    let s ← s.setStatus s.runningTid .asleep
    let s := { s with sleepers := s.sleepers.insertIfNew s.runningTid numQuantums }
    .ok (.switches .asleep, resetTimer s)

def uthreadGetQuantums (tid : Int) (s : State ε) : Except Halt (Next × State ε) :=
  match s.allThreads tid with
  | none => .ok (.fails (libraryErr ++ tidNotExist), s)
  | some _ => .ok (.finishes (.quantumsOf tid), s)

/-- The handler masks the signal and switches; what follows the switch runs
when the preempted thread is resumed. -/
def timerHandler (s : State ε) : Except Halt (Next × State ε) := .ok (.switches .ready, s)

/-- The entry points, and the timer signal. -/
inductive Op (ε : Type) where
  | spawn (entryPoint : Option ε)
  | terminate (tid : Int)
  | block (tid : Int)
  | resume (tid : Int)
  | sleep (numQuantums : Int)
  | getTid
  | getTotalQuantums
  | getQuantums (tid : Int)
  | preempt
  deriving DecidableEq

/-- What a call gives back to its caller, at once or when the caller is next
resumed. A preemption and a self-termination give back nothing. -/
inductive Reply where
  | returns (value : Int)
  | fails (message : String)
  | nothing
  deriving DecidableEq, Repr

def Reply.value : Reply → Option Int
  | .returns value => some value
  | .fails _ => some failure
  | .nothing => none

/-- The part of a call between `block_vtAlarm()` and its return or its switch. -/
def Op.body : Op ε → State ε → Except Halt (Next × State ε)
  | .spawn entryPoint => uthreadSpawn entryPoint
  | .terminate tid => uthreadTerminate tid
  | .block tid => uthreadBlock tid
  | .resume tid => uthreadResume tid
  | .sleep numQuantums => uthreadSleep numQuantums
  | .getTid => fun s => .ok (.finishes (.value s.runningTid), s)
  | .getTotalQuantums => fun s => .ok (.finishes (.value s.totalQuantums), s)
  | .getQuantums tid => uthreadGetQuantums tid
  | .preempt => timerHandler

/-- The calls that execute `switch_threads`. -/
def Op.switching (op : Op ε) (s : State ε) : Bool :=
  match op.body (blockVtAlarm s) with
  | .ok (.switches _, _) => true
  | _ => false

/-- A call that masks the signal, from its entry to the return or the jump. The
early failures return without `unblock_vtAlarm()`. -/
def maskedCall (op : Op ε) (here : Context ε) (s : State ε) : Except Halt (Reply × State ε) := do
  let (next, s) ← op.body (blockVtAlarm s)
  match next with
  | .fails message => .ok (.fails message, s)
  | .finishes result => do
    let s := unblockVtAlarm s
    .ok (.returns (← result.eval s), s)
  | .switches target => do
    let s ← switchThreads target here s
    .ok (if target = .terminated ∨ target = .ready then .nothing else .returns success, s)

def Op.call (op : Op ε) (here : Context ε) (s : State ε) : Except Halt (Reply × State ε) :=
  match op with
  | .getTid => .ok (.returns s.runningTid, s)
  | .getTotalQuantums => .ok (.returns s.totalQuantums, s)
  | op => maskedCall op here s

def uthreadInit (quantumUsecs : Int) (here : Context ε) (s : State ε) : Reply × State ε :=
  if quantumUsecs ≤ 0 then (.fails (libraryErr ++ inputErr), s)
  else
    let s := { s with allThreads := Function.update s.allThreads 0 (some (.main here)) }
    let s := { s with totalQuantums := 1 }
    let ids : List Int := (List.range (maxThreadNum - 1).toNat).map fun i : Nat => (↑(i + 1) : Int)
    let s := { s with freeIds := ids.foldl (fun free id => free.insert id) s.freeIds }
    let s := { s with quantum := quantumUsecs }
    (.returns success, startTimer s)

def Initialized (s : State ε) : Prop :=
  ∃ quantumUsecs here mask, uthreadInit quantumUsecs here (.blank mask) = (.returns success, s)

/-- A call as it occurs in a run, with the context its caller was in. -/
structure Event (ε : Type) where
  op : Op ε
  here : Context ε
  reply : Reply

def Takes (s : State ε) (event : Event ε) (s' : State ε) : Prop :=
  event.op.call event.here s = .ok (event.reply, s')

end Uthreads
