import Uthreads.Model.Operations

/-! uthreads.cpp statement by statement, under a timer signal that may arrive at
any of them. What a context has left to execute is its program counter; a
handler runs on top of the code that it interrupted. The statements between
`block_vtAlarm()` and the return or the switch are one, for no handler can run
there, and so is an iteration of `update_sleepers`. `siglongjmp` is assumed to
restore the mask and to jump in one step. -/

namespace Uthreads

inductive Instr where
  | blockVtAlarm
  | unblockVtAlarm
  | body (op : Op Unit)
  | returns (op : Op Unit) (result : Returned)
  | fails (op : Op Unit) (message : String)
  -- the return of the signal handler
  | sigreturn (mask : Finset Signal)
  -- `update_sleepers`, and its loop from an entry on
  | updateSleepers
  | forSleepers (its : List (Int × Int))
  -- `int orig_tid = running_tid_; switch (to)`
  | leave (target : Status)
  | emplaceRunning
  | insertRunning
  | setStatus (status : Status)
  | insertReadyToRunning
  | popFront
  | countTotal
  | saveEnvironment (origTid : Int)
  | startRunning
  | countQuantum (tid : Int)
  | siglongjmp (tid : Int)
  deriving DecidableEq

/-- What remains to be executed. When nothing remains, user code runs. -/
abbrev Code := List Instr

def switchThreadsCode (target : Status) : Code := [.updateSleepers, .leave target]

def timerHandlerCode : Code := [.blockVtAlarm] ++ switchThreadsCode .ready ++ [.unblockVtAlarm]

/-- A thread's entry point is user code. -/
def Op.enter : Op Unit → Op Code
  | .spawn entryPoint => .spawn (entryPoint.map fun _ => [])
  | .terminate tid => .terminate tid
  | .block tid => .block tid
  | .resume tid => .resume tid
  | .sleep numQuantums => .sleep numQuantums
  | .getTid => .getTid
  | .getTotalQuantums => .getTotalQuantums
  | .getQuantums tid => .getQuantums tid
  | .preempt => .preempt

def Op.masks : Op Unit → Bool
  | .getTid | .getTotalQuantums => false
  | _ => true

def Op.code (op : Op Unit) : Code := (if op.masks then [.blockVtAlarm] else []) ++ [.body op]

/-- What a call has left to do once its body is executed. The tail of
`uthread_sleep` does not unmask the signal. -/
def Op.follow (op : Op Unit) : Next → Code
  | .fails message => [.fails op message]
  | .finishes result => (if op.masks then [.unblockVtAlarm] else []) ++ [.returns op result]
  | .switches target => switchThreadsCode target ++
    match op with
    | .sleep _ => [.returns op (.value success)]
    | _ => [.unblockVtAlarm, .returns op (.value success)]

/-- The cases of `switch (to)` and what follows them, up to the save. The case
TERMINATED jumps over the save and never comes back. -/
def leaveCode (target : Status) (origTid : Int) (rest : Code) : Code :=
  match target with
  | .ready =>
    [.emplaceRunning, .setStatus .ready, .insertReadyToRunning, .countTotal, .saveEnvironment origTid] ++ rest
  | .blocked =>
    [.insertRunning, .setStatus .blocked, .insertReadyToRunning, .countTotal, .saveEnvironment origTid] ++ rest
  | .terminated => [.insertReadyToRunning, .countTotal, .unblockVtAlarm, .startRunning]
  | .main | .running | .asleep => [.insertReadyToRunning, .countTotal, .saveEnvironment origTid] ++ rest

/-- The process: the globals, the stack it executes on, the code it has left and
the signal that waits for delivery. -/
structure Machine where
  lib : State Code
  sp : Int
  code : Code
  pending : Bool

namespace Machine

def execute (m : Machine) (rest : Code) : Instr → Except Halt Machine
  | .blockVtAlarm => .ok { m with lib := Uthreads.blockVtAlarm m.lib, code := rest }
  | .unblockVtAlarm => .ok { m with lib := Uthreads.unblockVtAlarm m.lib, code := rest }
  | .body op => do
    let (next, lib) ← op.enter.body m.lib
    .ok { m with lib, code := op.follow next ++ rest }
  | .returns _ result => do
    let _ ← result.eval m.lib
    .ok { m with code := rest }
  | .fails _ _ => .ok { m with code := rest }
  | .sigreturn mask => .ok { m with lib := { m.lib with mask }, code := rest }
  | .updateSleepers => .ok { m with code := .forSleepers m.lib.sleepers.toList :: rest }
  | .forSleepers [] => .ok { m with code := rest }
  | .forSleepers (it :: next) => do
    let lib ← updateSleeper m.lib it
    .ok { m with lib, code := .forSleepers next :: rest }
  | .leave target => .ok { m with code := leaveCode target m.lib.runningTid rest }
  | .emplaceRunning =>
    .ok { m with lib := { m.lib with readyTids := m.lib.readyTids ++ [m.lib.runningTid] }, code := rest }
  | .insertRunning =>
    .ok { m with lib := { m.lib with blockedTids := insert m.lib.runningTid m.lib.blockedTids }, code := rest }
  | .setStatus status => do
    let lib ← m.lib.setStatus m.lib.runningTid status
    .ok { m with lib, code := rest }
  | .insertReadyToRunning =>
    match m.lib.readyTids with
    | [] => .ok { m with lib := { m.lib with runningTid := 0 }, code := rest }
    | tid :: _ => .ok { m with lib := { m.lib with runningTid := tid }, code := .popFront :: .setStatus .running :: rest }
  | .popFront => .ok { m with lib := { m.lib with readyTids := m.lib.readyTids.tail }, code := rest }
  | .countTotal => .ok { m with lib := { m.lib with totalQuantums := m.lib.totalQuantums + 1 }, code := rest }
  | .saveEnvironment origTid => do
    -- the resumed context goes on with `rest`, this one jumps away
    let lib ← Uthreads.saveEnvironment m.lib origTid ⟨m.sp, rest⟩
    .ok { m with lib, code := [.unblockVtAlarm, .startRunning] }
  | .startRunning =>
    match m.lib.allThreads m.lib.runningTid with
    | none => .error (.nullRecord m.lib.runningTid)
    | some _ => .ok { m with code := [.countQuantum m.lib.runningTid, .siglongjmp m.lib.runningTid] }
  | .countQuantum tid => do
    let lib ← m.lib.updateThread tid fun thread =>
      { thread with numOfQuantumsRunning := thread.numOfQuantumsRunning + 1 }
    .ok { m with lib, code := rest }
  | .siglongjmp tid =>
    match m.lib.allThreads tid with
    | none => .error (.nullRecord tid)
    | some thread =>
      .ok { m with lib := { m.lib with mask := thread.env.savedMask }, sp := thread.env.sp, code := thread.env.pc }

/-- The signal is raised and not masked. -/
def deliverable (m : Machine) : Bool := m.pending && decide (sigvtalrm ∉ m.lib.mask)

/-- The kernel masks the signal while its handler runs, and the handler's return
restores the mask. -/
def deliver (m : Machine) : Machine where
  lib := Uthreads.blockVtAlarm m.lib
  sp := m.sp
  code := timerHandlerCode ++ .sigreturn m.lib.mask :: m.code
  pending := false

end Machine

/-- What may happen next: the timer expires, the handler starts, the library
executes a statement, or user code calls the library or sets its own mask. -/
inductive Input where
  | expire
  | deliver
  | run
  | call (op : Op Unit)
  | sigprocmask (mask : Finset Signal)
  deriving DecidableEq

/-- A step, if it is possible now. A signal that can be delivered is delivered
before anything else is executed. -/
def Machine.step (m : Machine) : Input → Option (Except Halt Machine)
  | .expire => some (.ok { m with pending := true })
  | .deliver => if m.deliverable then some (.ok m.deliver) else none
  | .run =>
    match m.code with
    | [] => none
    | instr :: rest => if m.deliverable then none else some (m.execute rest instr)
  | .call op =>
    if m.code = [] ∧ ¬ m.deliverable ∧ op ≠ .preempt then some (.ok { m with code := op.code }) else none
  | .sigprocmask mask =>
    if m.code = [] ∧ ¬ m.deliverable then some (.ok { m with lib := { m.lib with mask } }) else none

def Machine.Steps (m : Machine) (input : Input) (m' : Machine) : Prop := m.step input = some (.ok m')

def Machine.Starts (m : Machine) : Prop :=
  ∃ quantumUsecs mask, uthreadInit quantumUsecs ⟨0, []⟩ (.blank mask) = (.returns success, m.lib) ∧
    m.sp = 0 ∧ m.code = [] ∧ m.pending = false

end Uthreads
