import Uthreads.Nim.Model.Operations

/-! nim/uthreads.cpp under a timer signal that may arrive at any time, with the
contexts that are saved and jumped to. A call that does not switch is one
statement, for no handler can run inside it, and so is a call that does up to
its `switchThread`. From there on the statements are those of the source.

`siglongjmp` is assumed to restore the mask and to jump in one step: no handler
starts between the two, on the stack that is left. `block` is one update of the
mask, without the moment between its two system calls. -/

namespace Uthreads.Nim

/-- How a call enters `switchThread`, and the thread that it deletes before it
jumps itself, if there is one. -/
structure Exit where
  moveTo : States
  initAlarm : Bool
  toDel : Option Pointer
  deriving DecidableEq

/-- The part of a call before its `switchThread`, for the calls that get there. -/
def Op.untilSwitch {ε : Type} (op : Op ε) (order : List (Int × Pointer)) (s : State ε) :
    Except Halt (Option (Exit × State ε)) :=
  match op with
  | .terminate tid =>
    let s := Nim.block s
    if tid ∉ s.allThreads ∨ tid = mainThread then .ok none
    else do
      let s ← leaveMutex tid order s
      let (toDel, s) ← freeThread tid s
      let current ← s.getId s.running
      pure (if tid = current then some (⟨.none, true, some toDel⟩, s) else none)
  | .block tid =>
    let s := Nim.block s
    match s.allThreads[tid]? with
    | none => .ok none
    | some thread =>
      if tid = mainThread then .ok none
      else do
        let found ← findIdeque tid s
        pure (if found = none ∧ s.running = thread then some (⟨.blocked, true, none⟩, s) else none)
  | .mutexLock =>
    let s := Nim.block s
    if s.mutex.blocked then do
      let holder ← s.getId s.mutex.threadBlock
      let id ← s.getId s.running
      pure (if holder = id then none
        else some (⟨.mutexBlocked, true, none⟩, { s with mutexBlocked := s.mutexBlocked.insert id s.running }))
    else .ok none
  | .preempt => .ok (some (⟨.ready, false, none⟩, Nim.block s))
  | .spawn _ | .resume _ | .getTid | .getQuantums _ | .getTotalQuantums | .mutexUnlock => .ok none

inductive Instr where
  | call (op : Op Unit)
  | returns (reply : Reply)
  | unblock
  -- the return of the signal handler
  | sigreturn (mask : Finset Signal)
  -- `Thread *goingOut = running` and the container that it goes to
  | moveOut (moveTo : States)
  | saveEnv (goingOut : Pointer)
  | takeFront
  | runTimer
  | countTotal
  | delete (toDel : Pointer)
  | startThread
  deriving DecidableEq

/-- What remains to be executed. When nothing remains, user code runs. -/
abbrev Code := List Instr

/-- A thread's entry point is user code. -/
def Op.enter : Op Unit → Op Code
  | .spawn _ => .spawn []
  | .terminate tid => .terminate tid
  | .block tid => .block tid
  | .resume tid => .resume tid
  | .getTid => .getTid
  | .getQuantums tid => .getQuantums tid
  | .getTotalQuantums => .getTotalQuantums
  | .mutexLock => .mutexLock
  | .mutexUnlock => .mutexUnlock
  | .preempt => .preempt

/-- What follows `goingOut->saveEnv()` in `switchThread`, and in the call that
has it not jump. The value of `saveEnv` is not looked at. -/
def dispatchCode (initAlarm : Bool) (toDel : Option Pointer) : Code :=
  [.takeFront] ++ (if initAlarm then [.runTimer] else []) ++ [.countTotal] ++
    match toDel with
    | none => [.startThread]
    | some toDel => [.delete toDel, .startThread]

def switchThreadCode (exit : Exit) : Code := .moveOut exit.moveTo :: dispatchCode exit.initAlarm exit.toDel

/-- What a call has left to do after its switch. The handler returns nothing. -/
def Op.afterSwitch : Op Unit → Code
  | .preempt => [.unblock]
  | _ => [.unblock, .returns (.returns success)]

def alarmSigHandlerCode (mask : Finset Signal) : Code := [.call .preempt, .sigreturn mask]

/-- The process: the globals, the stack it executes on, the code it has left and
the signal that waits for delivery. -/
structure Machine where
  lib : State Code
  sp : Int
  code : Code
  pending : Bool

namespace Machine

def execute (m : Machine) (choice : Choice) (rest : Code) : Instr → Except Halt Machine
  | .call op => do
    let switch ← op.enter.untilSwitch choice.order m.lib
    match switch with
    | some (exit, lib) => .ok { m with lib, code := switchThreadCode exit ++ op.afterSwitch ++ rest }
    | none => do
      let (reply, lib) ← op.enter.call choice ⟨m.sp, rest⟩ m.lib
      .ok { m with lib, code := .returns reply :: rest }
  | .returns _ => .ok { m with code := rest }
  | .unblock => .ok { m with lib := Nim.unblock m.lib, code := rest }
  | .sigreturn mask => .ok { m with lib := { m.lib with mask }, code := rest }
  | .moveOut moveTo => do
    let lib ← Nim.moveOut moveTo m.lib.running m.lib
    .ok { m with lib, code := .saveEnv m.lib.running :: rest }
  | .saveEnv goingOut => do
    -- a jump to this context goes on with `rest`, as this thread does now
    let lib ← Nim.saveEnv goingOut ⟨m.sp, rest⟩ m.lib
    .ok { m with lib, code := rest }
  | .takeFront =>
    match m.lib.ready with
    | [] => .error .emptyReady
    | front :: ready => .ok { m with lib := { m.lib with running := front, ready }, code := rest }
  | .runTimer => .ok { m with lib := Nim.runTimer m.lib, code := rest }
  | .countTotal => .ok { m with lib := { m.lib with totalQuantum := m.lib.totalQuantum + 1 }, code := rest }
  | .delete toDel => do
    let lib ← Nim.delete toDel m.lib
    .ok { m with lib, code := rest }
  | .startThread => do
    let thread ← m.lib.deref m.lib.running
    let lib ← Nim.startThread m.lib.running m.lib
    .ok { m with lib, sp := thread.env.sp, code := thread.env.pc }

/-- The signal is raised and not masked. -/
def deliverable (m : Machine) : Bool := m.pending && decide (sigvtalrm ∉ m.lib.mask)

/-- The kernel masks the signal while its handler runs, and the handler's return
restores the mask. -/
def deliver (m : Machine) : Machine where
  lib := { m.lib with mask := insert sigvtalrm m.lib.mask }
  sp := m.sp
  code := alarmSigHandlerCode m.lib.mask ++ m.code
  pending := false

end Machine

/-- What may happen next: the timer expires, the handler starts, the library
executes a statement, or user code calls the library or sets its own mask. -/
inductive Input where
  | expire
  | deliver
  | run (choice : Choice)
  | call (op : Op Unit)
  | sigprocmask (mask : Finset Signal)
  deriving DecidableEq

/-- A step, if it is possible now. A signal that can be delivered is delivered
before anything else is executed. -/
def Machine.step (m : Machine) : Input → Option (Except Halt Machine)
  | .expire => some (.ok { m with pending := true })
  | .deliver => if m.deliverable then some (.ok m.deliver) else none
  | .run choice =>
    match m.code with
    | [] => none
    | instr :: rest => if m.deliverable then none else some (m.execute choice rest instr)
  | .call op =>
    if m.code = [] ∧ ¬ m.deliverable ∧ op ≠ .preempt then some (.ok { m with code := [.call op] }) else none
  | .sigprocmask mask =>
    if m.code = [] ∧ ¬ m.deliverable then some (.ok { m with lib := { m.lib with mask } }) else none

/-- Only a call asks the standard library for something. -/
def Machine.Steps (m : Machine) (input : Input) (m' : Machine) : Prop :=
  m.step input = some (.ok m') ∧ ∀ choice op rest, input = .run choice → m.code = .call op :: rest → choice.Fits m.lib

/-- What a saved context goes on with when it is jumped to: the statement after
`saveEnv`, as in the source, or what follows the thread's own `switchThread`. -/
inductive Resumption where
  | afterSaveEnv
  | afterSwitch
  deriving DecidableEq

def afterStart : Code → Code
  | [] => []
  | .startThread :: rest => rest
  | _ :: rest => afterStart rest

def Resumption.code : Resumption → Code → Code
  | .afterSaveEnv, rest => rest
  | .afterSwitch, rest => afterStart rest

/-- A step of the process, if contexts are resumed in this way. -/
def Machine.stepResuming (resumption : Resumption) (m : Machine) (input : Input) : Option (Except Halt Machine) :=
  match input, m.code with
  | .run _, .saveEnv goingOut :: rest =>
    if m.deliverable then none
    else some do
      let lib ← Nim.saveEnv goingOut ⟨m.sp, resumption.code rest⟩ m.lib
      .ok { m with lib, code := rest }
  | input, _ => m.step input

def Machine.StepsResuming (resumption : Resumption) (m : Machine) (input : Input) (m' : Machine) : Prop :=
  m.stepResuming resumption input = some (.ok m') ∧
    ∀ choice op rest, input = .run choice → m.code = .call op :: rest → choice.Fits m.lib

def Machine.Starts (m : Machine) : Prop :=
  ∃ quantumUsecs address mask, address ≠ nullptr ∧
    uthreadInit quantumUsecs address ⟨0, []⟩ (.blank mask) = (.returns success, m.lib) ∧
    m.sp = 0 ∧ m.code = [] ∧ m.pending = false

end Uthreads.Nim
