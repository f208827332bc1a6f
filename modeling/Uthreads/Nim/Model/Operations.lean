import Uthreads.Model.Operations
import Uthreads.Nim.Model.State

/-! The functions of nim/uthreads.cpp. A call is one atomic step: it ends when
it returns or when `siglongjmp` hands control to another thread. What a thread
that was switched out executes when it is resumed comes after its own call of
`switchThread`. -/

namespace Uthreads.Nim

variable {ε : Type}

def block (s : State ε) : State ε := { s with mask := s.set ∪ s.mask }

def unblock (s : State ε) : State ε := { s with mask := s.mask \ s.set }

def spawnIds : List Int := (List.range (maxThreadNum - 1).toNat).map fun i : Nat => (↑(i + 1) : Int)

def getId (s : State ε) : Int := (spawnIds.find? fun i => i ∉ s.allThreads).getD (maxThreadNum - 1)

/-- The loop of `findIdeque` from the position `it` on. -/
def findIdequeFrom (s : State ε) (id : Int) : List Pointer → Nat → Except Halt (Option Nat)
  | [], _ => .ok none
  | pointer :: next, it => do
    let found ← s.getId pointer
    if found = id then .ok (some it) else findIdequeFrom s id next (it + 1)

def findIdeque (id : Int) (s : State ε) : Except Halt (Option Nat) := findIdequeFrom s id s.ready 0

/-- `allThreads[id]` inserts a null pointer for a missing id, which is erased at once. -/
def freeThread (id : Int) (s : State ε) : Except Halt (Pointer × State ε) := do
  let temp := s.allThreads[id]?.getD nullptr
  let s := { s with allThreads := s.allThreads.erase id }
  let s := { s with blocked := if id ∈ s.blocked then s.blocked.erase id else s.blocked }
  let readyPtr ← findIdeque id s
  let s := { s with ready := (readyPtr.map s.ready.eraseIdx).getD s.ready }
  let s := { s with mutexBlocked := if id ∈ s.mutexBlocked then s.mutexBlocked.erase id else s.mutexBlocked }
  pure (temp, s)

/-- Nothing happens for a null pointer. -/
def delete (pointer : Pointer) (s : State ε) : Except Halt (State ε) :=
  if pointer = nullptr then .ok s
  else do
    let _ ← s.deref pointer
    pure (s.store pointer none)

def freeEntry (s : State ε) (i : Nat) : Except Halt (State ε) :=
  match s.allThreads[(i : Int)]? with
  | none => .ok s
  | some thread => delete thread s

def freeAllThread (s : State ε) : Except Halt (State ε) := (List.range maxThreadNum.toNat).foldlM freeEntry s

def runTimer (s : State ε) : State ε :=
  let sec := s.quantumTime.tdiv secToMicro
  let micro := s.quantumTime.tmod secToMicro
  { s with timer := ⟨sec, micro, sec, micro⟩ }

def saveEnv (pointer : Pointer) (here : Context ε) (s : State ε) : Except Halt (State ε) := do
  let thread ← s.deref pointer
  pure (s.store pointer (some { thread with env := { here with savedMask := s.mask } }))

/-- The `siglongjmp` restores the mask of the thread. -/
def startThread (pointer : Pointer) (s : State ε) : Except Halt (State ε) := do
  let thread ← s.deref pointer
  let s := s.store pointer (some { thread with quantums := thread.quantums + 1 })
  pure { s with mask := thread.env.savedMask }

/-- Where `switchThread` stores the leaving thread. -/
def moveOut (moveTo : States) (goingOut : Pointer) (s : State ε) : Except Halt (State ε) :=
  match moveTo with
  | .blocked => do
    let id ← s.getId goingOut
    pure { s with blocked := s.blocked.insert id goingOut }
  | .mutexBlocked => do
    let id ← s.getId goingOut
    pure { s with mutexBlocked := s.mutexBlocked.insert id goingOut }
  | .ready => .ok { s with ready := s.ready ++ [goingOut] }
  | .running | .none => .ok s

/-- `here` is what `saveEnv` saves. -/
def switchThread (moveTo : States) (initAlarm jump : Bool) (here : Context ε) (s : State ε) : Except Halt (State ε) := do
  let goingOut := s.running
  let s ← moveOut moveTo goingOut s
  let s ← saveEnv goingOut here s
  match s.ready with
  | [] => .error .emptyReady
  | front :: rest => do
    let s := { s with running := front, ready := rest }
    let s := if initAlarm then runTimer s else s
    let s := { s with totalQuantum := s.totalQuantum + 1 }
    if jump then startThread s.running s else pure s

/-- `order` is the order in which the iteration meets the entries of `mutexBlocked`. -/
def mutexUnblockRandomThread (order : List (Int × Pointer)) (s : State ε) : Except Halt (State ε) :=
  if s.mutexBlocked.isEmpty then .ok { s with mutex := ⟨false, nullptr⟩ }
  else do
    let toSet := ((order.find? fun iter => iter.1 ∉ s.blocked).map Prod.snd).getD nullptr
    let toSet := if toSet = nullptr then (order.head?.map Prod.snd).getD nullptr else toSet
    let s := { s with mutex := ⟨true, toSet⟩ }
    let id ← s.getId toSet
    let s := { s with mutexBlocked := s.mutexBlocked.erase id }
    pure (if id ∉ s.blocked then { s with ready := s.ready ++ [toSet] } else s)

/-- The early return leaves the signal blocked. -/
def uthreadSpawn (f : ε) (address : Pointer) (s : State ε) : Except Halt (Reply × State ε) :=
  let s := block s
  if (s.allThreads.size : Int) + 1 > maxThreadNum then .ok (.fails (printErrors spawnError), s)
  else
    let id := getId s
    let s := s.store address (some (.spawned id f))
    let s := { s with allThreads := s.allThreads.insert id address, ready := s.ready ++ [address] }
    .ok (.returns id, unblock s)

/-- The holder of the mutex gives it up before it is terminated. -/
def leaveMutex (tid : Int) (order : List (Int × Pointer)) (s : State ε) : Except Halt (State ε) :=
  if s.mutex.blocked then do
    let holder ← s.getId s.mutex.threadBlock
    if tid = holder then mutexUnblockRandomThread order s else pure s
  else .ok s

def uthreadTerminate (tid : Int) (order : List (Int × Pointer)) (here : Context ε) (s : State ε) :
    Except Halt (Reply × State ε) :=
  let s := block s
  if tid ∉ s.allThreads then .ok (.fails (printErrors terminateError), unblock s)
  else if tid = mainThread then do
    let _ ← freeAllThread s
    .error (.exit success)
  else do
    let s ← leaveMutex tid order s
    let (toDel, s) ← freeThread tid s
    let current ← s.getId s.running
    if tid = current then do
      let s ← switchThread .none true false here s
      let s ← delete toDel s
      let s ← startThread s.running s
      pure (.nothing, s)
    else do
      let s ← delete toDel s
      pure (.returns success, unblock s)

def uthreadBlock (tid : Int) (here : Context ε) (s : State ε) : Except Halt (Reply × State ε) :=
  let s := block s
  match s.allThreads[tid]? with
  | none => .ok (.fails (printErrors blockError), unblock s)
  | some thread =>
    if tid = mainThread then .ok (.fails (printErrors blockZeroError), unblock s)
    else do
      let found ← findIdeque tid s
      match found with
      | some it =>
        pure (.returns success, unblock { s with ready := s.ready.eraseIdx it, blocked := s.blocked.insert tid thread })
      | none =>
        if s.running = thread then do
          let s ← switchThread .blocked true true here s
          pure (.returns success, s)
        else pure (.returns success, unblock { s with blocked := s.blocked.insert tid thread })

def uthreadResume (tid : Int) (s : State ε) : Except Halt (Reply × State ε) :=
  let s := block s
  if tid ∉ s.allThreads then .ok (.fails (printErrors unblockError), unblock s)
  else
    match s.blocked[tid]? with
    | none => .ok (.returns success, unblock s)
    | some current =>
      let s := { s with ready := if tid ∉ s.mutexBlocked then s.ready ++ [current] else s.ready }
      .ok (.returns success, unblock { s with blocked := s.blocked.erase tid })

def uthreadGetTid (s : State ε) : Except Halt (Reply × State ε) := do
  let s := block s
  let temp ← s.getId s.running
  pure (.returns temp, unblock s)

def uthreadGetQuantums (tid : Int) (s : State ε) : Except Halt (Reply × State ε) :=
  let s := block s
  match s.allThreads[tid]? with
  | none => .ok (.fails (printErrors getQuantumErr), unblock s)
  | some thread => do
    let temp ← s.getQuantum thread
    pure (.returns temp, unblock s)

def uthreadGetTotalQuantums (s : State ε) : Except Halt (Reply × State ε) :=
  let s := block s
  .ok (.returns s.totalQuantum, unblock s)

def uthreadMutexLock (here : Context ε) (s : State ε) : Except Halt (Reply × State ε) :=
  let s := block s
  let current := s.running
  if s.mutex.blocked then do
    let holder ← s.getId s.mutex.threadBlock
    let id ← s.getId current
    if holder = id then pure (.fails (printErrors mutexBlockSame), unblock s)
    else do
      let s := { s with mutexBlocked := s.mutexBlocked.insert id current }
      let s ← switchThread .mutexBlocked true true here s
      pure (.returns success, s)
  else .ok (.returns success, unblock { s with mutex := ⟨true, current⟩ })

def uthreadMutexUnlock (order : List (Int × Pointer)) (s : State ε) : Except Halt (Reply × State ε) :=
  let s := block s
  if !s.mutex.blocked then .ok (.fails (printErrors mutexAlreadyUnblocked), unblock s)
  else do
    let id ← s.getId s.running
    let holder ← s.getId s.mutex.threadBlock
    if id ≠ holder then pure (.fails (printErrors mutexBlockedBySomeoneElse), unblock s)
    else do
      let s ← mutexUnblockRandomThread order s
      pure (.returns success, unblock s)

/-- The handler. What follows the switch runs when the preempted thread is resumed. -/
def alarmSigHandler (here : Context ε) (s : State ε) : Except Halt (Reply × State ε) := do
  let s ← switchThread .ready false true here (block s)
  pure (.nothing, s)

/-- The entry points, and the timer signal. -/
inductive Op (ε : Type) where
  | spawn (f : ε)
  | terminate (tid : Int)
  | block (tid : Int)
  | resume (tid : Int)
  | getTid
  | getQuantums (tid : Int)
  | getTotalQuantums
  | mutexLock
  | mutexUnlock
  | preempt
  deriving DecidableEq

/-- What the standard library decides: the address of the next thread that is
allocated, and the order in which `mutexBlocked` is iterated over. -/
structure Choice where
  address : Pointer
  order : List (Int × Pointer)
  deriving DecidableEq

/-- Memory that is handed out is not in use, and an iteration meets every entry once. -/
structure Choice.Fits (choice : Choice) (s : State ε) : Prop where
  notNull : choice.address ≠ nullptr
  fresh : s.heap choice.address = none
  order : choice.order.Perm s.mutexBlocked.toList

def Op.call (op : Op ε) (choice : Choice) (here : Context ε) (s : State ε) : Except Halt (Reply × State ε) :=
  match op with
  | .spawn f => uthreadSpawn f choice.address s
  | .terminate tid => uthreadTerminate tid choice.order here s
  | .block tid => uthreadBlock tid here s
  | .resume tid => uthreadResume tid s
  | .getTid => uthreadGetTid s
  | .getQuantums tid => uthreadGetQuantums tid s
  | .getTotalQuantums => uthreadGetTotalQuantums s
  | .mutexLock => uthreadMutexLock here s
  | .mutexUnlock => uthreadMutexUnlock choice.order s
  | .preempt => alarmSigHandler here s

def installHandlers (s : State ε) : State ε := { s with set := {sigvtalrm} }

def uthreadInit (quantumUsecs : Int) (address : Pointer) (here : Context ε) (s : State ε) : Reply × State ε :=
  if quantumUsecs ≤ 0 then (.fails (printErrors initError), s)
  else
    let s := { s with mutex := ⟨false, nullptr⟩ }
    let s := s.store address (some (.main here))
    let s := { s with allThreads := s.allThreads.insert 0 address, running := address }
    let s := { s with totalQuantum := s.totalQuantum + 1, quantumTime := quantumUsecs }
    (.returns success, runTimer (installHandlers s))

def Initialized (s : State ε) : Prop :=
  ∃ quantumUsecs address here mask, address ≠ nullptr ∧
    uthreadInit quantumUsecs address here (.blank mask) = (.returns success, s)

structure Event (ε : Type) where
  op : Op ε
  choice : Choice
  here : Context ε
  reply : Reply

def Takes (s : State ε) (event : Event ε) (s' : State ε) : Prop :=
  event.choice.Fits s ∧ event.op.call event.choice event.here s = .ok (event.reply, s')

end Uthreads.Nim
