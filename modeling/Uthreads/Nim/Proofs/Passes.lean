import Uthreads.Library.Transition
import Uthreads.Nim.Proofs.Statements

/-! A call of nim/uthreads.cpp that no signal interrupts is the atomic call, and a
handler that no signal interrupts is the atomic preemption. -/

namespace Uthreads.Nim
open Fallible Transition

def Exit.leave {ε : Type} (exit : Exit) (here : Context ε) (s : State ε) : Except Halt (State ε) := do
  let s ← switchThread exit.moveTo exit.initAlarm exit.toDel.isNone here s
  match exit.toDel with
  | none => pure s
  | some toDel =>
    let s ← delete toDel s
    startThread s.running s

def Exit.reply (exit : Exit) : Reply :=
  match exit.moveTo with
  | .none | .ready => .nothing
  | .blocked | .mutexBlocked | .running => .returns success

section entry
variable {ε : Type} {s entered : State ε} {op : Op ε} {choice : Choice} {here : Context ε} {exit : Exit}

theorem Enters.call (enters : Enters choice.order s op exit entered) :
    op.call choice here s = (do let s' ← exit.leave here entered; pure (exit.reply, s')) := by
  cases enters with
  | terminate live notMain leaves freed self =>
    have present : ¬ _ ∉ (Nim.block s).allThreads := not_not.mpr live
    simp only [Op.call, uthreadTerminate, if_neg present, if_neg notMain, leaves, freed, self, if_true, bind_ok_left]
    simp only [Exit.leave, Exit.reply, Option.isNone_some, bind_assoc]
  | block filed notMain unqueued =>
    have filed : (Nim.block s).allThreads[_]? = some (Nim.block s).running := filed
    simp only [Op.call, uthreadBlock, filed, if_neg notMain, unqueued, if_true, bind_ok_left]
    simp only [Exit.leave, Exit.reply, Option.isNone_none, bind_assoc, pure_ok, bind_ok_left]
  | mutexLock taken held caller other =>
    have taken : (Nim.block s).mutex.blocked = true := taken
    have held : (Nim.block s).getId (Nim.block s).mutex.threadBlock = .ok _ := held
    have caller : (Nim.block s).getId (Nim.block s).running = .ok _ := caller
    simp only [Op.call, uthreadMutexLock, if_pos taken, held, caller, if_neg other, bind_ok_left]
    simp only [Exit.leave, Exit.reply, Option.isNone_none, bind_assoc, pure_ok, bind_ok_left]
    rfl
  | preempt =>
    simp only [Op.call, alarmSigHandler, Exit.leave, Exit.reply, Option.isNone_none, bind_assoc, pure_ok, bind_ok_left]

/-- A call that is answered gets to its `switchThread`, or never does. -/
theorem untilSwitch_of_call {result : Reply × State ε} (answers : op.call choice here s = .ok result) :
    ∃ switch, op.untilSwitch choice.order s = .ok switch := by
  cases op with simp only [Op.untilSwitch]
  | terminate tid =>
    split
    next => exact ⟨_, rfl⟩
    next present =>
      obtain ⟨live, notMain⟩ := not_or.mp present
      simp only [Op.call, uthreadTerminate, if_neg live, if_neg notMain] at answers
      obtain ⟨left, leaves, answers⟩ := bind_ok.mp answers
      obtain ⟨⟨toDel, free⟩, freed, answers⟩ := bind_ok.mp answers
      obtain ⟨current, id, -⟩ := bind_ok.mp answers
      simp only [leaves, freed, id, bind_ok_left]
      exact ⟨_, rfl⟩
  | block tid =>
    split
    next => exact ⟨_, rfl⟩
    next pointer found =>
      split
      next => exact ⟨_, rfl⟩
      next notMain =>
        simp only [Op.call, uthreadBlock, found, if_neg notMain] at answers
        obtain ⟨position, looked, -⟩ := bind_ok.mp answers
        rw [looked]
        exact ⟨_, rfl⟩
  | mutexLock =>
    split
    next taken =>
      simp only [Op.call, uthreadMutexLock, if_pos taken] at answers
      obtain ⟨holder, held, answers⟩ := bind_ok.mp answers
      obtain ⟨current, id, -⟩ := bind_ok.mp answers
      simp only [held, id, bind_ok_left]
      exact ⟨_, rfl⟩
    next => exact ⟨_, rfl⟩
  | preempt | spawn | resume | getTid | getQuantums | getTotalQuantums | mutexUnlock => exact ⟨_, rfl⟩

end entry

def Proceeds (choice : Choice) (m m' : Machine) : Prop :=
  ∃ timeline, Run Machine.Steps m timeline m' ∧ ∀ move ∈ timeline, move.label = .run choice

section proceeds
variable {choice : Choice} {m middle final : Machine}

private theorem Proceeds.trans (first : Proceeds choice m middle) (last : Proceeds choice middle final) :
    Proceeds choice m final := by
  obtain ⟨one, run, ran⟩ := first
  obtain ⟨two, run', ran'⟩ := last
  exact ⟨one ++ two, run.append run', List.forall_mem_append.mpr ⟨ran, ran'⟩⟩

end proceeds

section switch
variable {choice : Choice} {s s' : State Code} {sp : Int} {instr : Instr} {rest : Code} {final : Machine}

private theorem proceeds_statement (fits : ∀ op, instr = .call op → choice.Fits s)
    (executed : Machine.execute ⟨s, sp, instr :: rest, false⟩ choice rest instr = .ok final) :
    Proceeds choice ⟨s, sp, instr :: rest, false⟩ final := by
  have taken : Machine.Steps ⟨s, sp, instr :: rest, false⟩ (.run choice) final := by
    refine ⟨congrArg some executed, ?_⟩
    intro other op later same code
    cases same
    exact fits op (List.cons.inj code).1
  exact ⟨_, .single taken, by simp⟩

private theorem proceeds_execute (plain : ∀ op, instr ≠ .call op)
    (executed : Machine.execute ⟨s, sp, instr :: rest, false⟩ choice rest instr = .ok final) :
    Proceeds choice ⟨s, sp, instr :: rest, false⟩ final :=
  proceeds_statement (fun op same => absurd same (plain op)) executed

private theorem proceeds_start (started : startThread s.running s = .ok s') :
    ∃ thread, s'.heap s'.running = some thread ∧
      Proceeds choice ⟨s, sp, .startThread :: rest, false⟩ ⟨s', thread.env.sp, thread.env.pc, false⟩ := by
  obtain ⟨thread, found, jumped⟩ := bind_ok.mp started
  refine ⟨{ thread with quantums := thread.quantums + 1 }, ?_, ?_⟩
  · cases jumped
    exact Function.update_self ..
  · apply proceeds_execute (by simp)
    simp only [Machine.execute, found, started, bind_ok_left]

private theorem proceeds_count {initAlarm : Bool} (next : Proceeds choice
      ⟨{ (if initAlarm then runTimer s else s) with totalQuantum := (if initAlarm then runTimer s else s).totalQuantum + 1 },
        sp, rest, false⟩ final) :
    Proceeds choice ⟨s, sp, (if initAlarm then [.runTimer] else []) ++ .countTotal :: rest, false⟩ final := by
  cases initAlarm with
  | false => exact (proceeds_execute (by simp) rfl).trans next
  | true =>
    apply Proceeds.trans (proceeds_execute (by simp) rfl)
    exact (proceeds_execute (by simp) rfl).trans next

private theorem proceeds_moveOut {moveTo : States} (out : moveOut moveTo s.running s = .ok s') :
    Proceeds choice ⟨s, sp, .moveOut moveTo :: rest, false⟩ ⟨s', sp, .saveEnv s.running :: rest, false⟩ :=
  proceeds_execute (by simp) (by simp only [Machine.execute, out, bind_ok_left])

private theorem proceeds_saveEnv {goingOut : Pointer} (saved : saveEnv goingOut ⟨sp, rest⟩ s = .ok s') :
    Proceeds choice ⟨s, sp, .saveEnv goingOut :: rest, false⟩ ⟨s', sp, rest, false⟩ :=
  proceeds_execute (by simp) (by simp only [Machine.execute, saved, bind_ok_left])

private theorem proceeds_takeFront {front : Pointer} {ready : List Pointer} (queue : s.ready = front :: ready) :
    Proceeds choice ⟨s, sp, .takeFront :: rest, false⟩ ⟨{ s with running := front, ready }, sp, rest, false⟩ :=
  proceeds_execute (by simp) (by simp only [Machine.execute, queue])

private theorem proceeds_delete {toDel : Pointer} (deleted : delete toDel s = .ok s') :
    Proceeds choice ⟨s, sp, .delete toDel :: rest, false⟩ ⟨s', sp, rest, false⟩ :=
  proceeds_execute (by simp) (by simp only [Machine.execute, deleted, bind_ok_left])

/-- `switchThread` without an interruption, and the deletion before the jump. -/
theorem proceeds_switch {exit : Exit} (left : exit.leave ⟨sp, dispatchCode exit.initAlarm exit.toDel ++ rest⟩ s = .ok s') :
    ∃ thread, s'.heap s'.running = some thread ∧
      Proceeds choice ⟨s, sp, switchThreadCode exit ++ rest, false⟩ ⟨s', thread.env.sp, thread.env.pc, false⟩ := by
  obtain ⟨moveTo, initAlarm, toDel⟩ := exit
  obtain ⟨chosen, switched, jumps⟩ := bind_ok.mp left
  obtain ⟨moved, out, switched⟩ := bind_ok.mp switched
  obtain ⟨saved, kept, switched⟩ := bind_ok.mp switched
  have begins : Proceeds choice ⟨s, sp, switchThreadCode ⟨moveTo, initAlarm, toDel⟩ ++ rest, false⟩
      ⟨saved, sp, dispatchCode initAlarm toDel ++ rest, false⟩ := (proceeds_moveOut out).trans (proceeds_saveEnv kept)
  split at switched
  next => cases switched
  next front ready queue =>
    cases toDel with
    | none =>
      cases jumps
      obtain ⟨thread, found, jump⟩ := proceeds_start switched
      refine ⟨thread, found, begins.trans ?_⟩
      rw [dispatchCode, List.append_assoc, List.append_assoc, List.append_assoc]
      exact (proceeds_takeFront queue).trans (proceeds_count jump)
    | some pointer =>
      cases switched
      obtain ⟨deleted, done, started⟩ := bind_ok.mp jumps
      obtain ⟨thread, found, jump⟩ := proceeds_start started
      refine ⟨thread, found, begins.trans ?_⟩
      rw [dispatchCode, List.append_assoc, List.append_assoc, List.append_assoc]
      exact (proceeds_takeFront queue).trans (proceeds_count ((proceeds_delete done).trans jump))

end switch

section call
variable {choice : Choice} {s s' : State Code} {sp : Int} {op : Op Unit} {rest : Code} {reply : Reply}

/-- What a call goes on with when the thread that makes it is jumped to: the
dispatch of the next thread, once more, if it is switched out. -/
def Op.resumes (op : Op Unit) (order : List (Int × Pointer)) (s : State Code) (rest : Code) : Code :=
  match op.enter.untilSwitch order s with
  | .ok (some (exit, _)) => dispatchCode exit.initAlarm exit.toDel ++ (op.afterSwitch ++ rest)
  | _ => rest

/-- Where control is after a call: with the caller, or in the context of the
thread that runs now. -/
def Arrives (op : Op Unit) (order : List (Int × Pointer)) (s : State Code) (sp : Int) (rest : Code) (m : Machine) : Prop :=
  match op.enter.untilSwitch order s with
  | .ok (some _) => ∃ thread, m.lib.heap m.lib.running = some thread ∧ m.sp = thread.env.sp ∧ m.code = thread.env.pc
  | _ => m.sp = sp ∧ m.code = rest

/-- A call without an interruption does what the atomic call does. -/
theorem uninterrupted_call (fits : choice.Fits s)
    (taken : op.enter.call choice ⟨sp, op.resumes choice.order s rest⟩ s = .ok (reply, s')) :
    ∃ final, Proceeds choice ⟨s, sp, .call op :: rest, false⟩ final ∧ final.lib = s' ∧
      Arrives op choice.order s sp rest final := by
  obtain ⟨switch, enters⟩ := untilSwitch_of_call taken
  unfold Arrives
  cases switch with
  | none =>
    rw [Op.resumes, enters] at taken
    rw [enters]
    have called : Proceeds choice ⟨s, sp, .call op :: rest, false⟩ ⟨s', sp, .returns reply :: rest, false⟩ := by
      apply proceeds_statement fun _ _ => fits
      simp only [Machine.execute, enters, taken, bind_ok_left]
    exact ⟨⟨s', sp, rest, false⟩, called.trans (proceeds_execute (by simp) rfl), rfl, rfl, rfl⟩
  | some entry =>
    obtain ⟨exit, entered⟩ := entry
    rw [Op.resumes, enters, (untilSwitch_cases enters).call] at taken
    obtain ⟨final, left, returned⟩ := bind_ok.mp taken
    cases returned
    obtain ⟨thread, found, switched⟩ := proceeds_switch left
    rw [enters]
    refine ⟨_, Proceeds.trans (proceeds_statement (fun _ _ => fits) ?_) switched, rfl, thread, found, rfl, rfl⟩
    simp only [Machine.execute, enters, bind_ok_left, List.append_assoc]

theorem uninterrupted_handler {m : Machine} (set : m.lib.set = {sigvtalrm}) (fits : choice.Fits m.lib)
    (taken : Op.preempt.call choice
      ⟨m.sp, dispatchCode false none ++ (.unblock :: .sigreturn m.lib.mask :: m.code)⟩ m.lib = .ok (reply, s')) :
    ∃ thread, s'.heap s'.running = some thread ∧
      Proceeds choice m.deliver ⟨s', thread.env.sp, thread.env.pc, false⟩ := by
  obtain ⟨final, left, same⟩ := bind_ok.mp taken
  cases same
  have masked : block { m.lib with mask := insert sigvtalrm m.lib.mask } = block m.lib := by
    simp only [block, set, Finset.singleton_union, Finset.insert_idem]
  have switch : Exit.leave ⟨.ready, false, none⟩
      ⟨m.sp, dispatchCode false none ++ (.unblock :: .sigreturn m.lib.mask :: m.code)⟩ (block m.lib) = .ok s' := by
    rw [Exit.leave, Option.isNone_none, left]
    rfl
  obtain ⟨thread, found, switched⟩ := proceeds_switch switch
  refine ⟨thread, found, Proceeds.trans (proceeds_statement (fun _ _ => ⟨fits.notNull, fits.fresh, fits.order⟩) ?_) switched⟩
  rw [← masked]
  rfl

end call
end Uthreads.Nim
