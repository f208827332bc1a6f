import Uthreads.Library.Serialization
import Uthreads.Nim.Proofs.Passes
import Uthreads.Nim.Proofs.Preemptibility
import Uthreads.Nim.Proofs.Runs

/-! nim/uthreads.cpp under the timer signal against the scheduler with its lock.
A switch is executed with the signal masked, so as long as no thread is resumed in
the middle of one a run is a run of the scheduler, call by call and preemption by
preemption. -/

namespace Uthreads.Nim
open Fallible RoundRobin Transition

/-- From the call of `switchThread` to the jump. -/
def inSwitch : Code → Bool
  | .moveOut _ :: _ | .saveEnv _ :: _ | .takeFront :: _ | .runTimer :: _ | .countTotal :: _ => true
  | .delete _ :: _ | .startThread :: _ => true
  | _ => false

def complete (resumption : Resumption) (sp : Int) : Code → State Code → Except Halt (State Code)
  | .moveOut moveTo :: rest, s => do
    let goingOut := s.running
    let s ← moveOut moveTo goingOut s
    let s ← saveEnv goingOut ⟨sp, resumption.code rest⟩ s
    complete resumption sp rest s
  | .saveEnv goingOut :: rest, s => do complete resumption sp rest (← saveEnv goingOut ⟨sp, resumption.code rest⟩ s)
  | .takeFront :: rest, s =>
    match s.ready with
    | [] => .error .emptyReady
    | front :: ready => complete resumption sp rest { s with running := front, ready }
  | .runTimer :: rest, s => complete resumption sp rest (runTimer s)
  | .countTotal :: rest, s => complete resumption sp rest { s with totalQuantum := s.totalQuantum + 1 }
  | .delete toDel :: rest, s => do complete resumption sp rest (← delete toDel s)
  | .startThread :: _, s => startThread s.running s
  | _, s => .ok s

def Machine.completed (resumption : Resumption) (m : Machine) : Except Halt (State Code) :=
  complete resumption m.sp m.code m.lib

/-- A jump goes to a context that is in no switch. In the source that is the context
of a thread that was never switched out. -/
def Lands (resumption : Resumption) (move : Move Machine Input) : Prop :=
  resumption = .afterSwitch ∨ ∀ choice rest thread, move.label = .run choice → move.before.code = .startThread :: rest →
    move.before.lib.heap move.before.lib.running = some thread → inSwitch thread.env.pc = false

structure Framed (m : Machine) : Prop where
  code : inSwitch m.code = true → inSwitch (afterStart m.code) = false
  saved : ∀ pointer thread, m.lib.heap pointer = some thread → inSwitch thread.env.pc = false

/-- What a call or a preemption is on the abstract scheduler: its operation, who is
given the lock if it is given up, and the value for the caller. -/
structure Label where
  op : Op Code
  next : Option Int
  value : Option Int

def SpecTakes (a : Guarded Int) (label : Label) (a' : Guarded Int) : Prop :=
  a.Eligible label.next ∧ label.op.spec label.next a = .ok (label.value, a')

def committing (move : Move Machine Input) : Bool :=
  match move.label, move.before.code with
  | .run _, .call _ :: _ => true
  | _, _ => false

/-- The code that a call goes on with, and the value that it has for its caller. -/
inductive Decides (op : Op Unit) (rest : Code) : Code → Option Int → Prop where
  | returns {reply} : Decides op rest (.returns reply :: rest) reply.value
  | switches {exit} : Decides op rest (switchThreadCode exit ++ op.afterSwitch ++ rest) exit.reply.value

/-- The statement with which a call takes effect, and the step of the scheduler. -/
structure Performs (move : Move Machine Input) (step : Move (Guarded Int) Label) : Prop where
  before : step.before = abstraction move.before.lib
  decides : ∃ op rest, move.before.code = .call op :: rest ∧ step.label.op = op.enter ∧
    Decides op rest move.after.code step.label.value

section complete
variable {resumption : Resumption} {m m' : Machine} {sp : Int} {s : State Code} {code rest : Code} {instr : Instr}

theorem complete_outside (outside : inSwitch code = false) : complete resumption sp code s = .ok s := by
  cases code with
  | nil => rfl
  | cons instr rest => cases instr <;> first | rfl | cases outside

/-- A whole switch is what the call does from its `switchThread` on. -/
theorem complete_switch (exit : Exit) : complete resumption sp (switchThreadCode exit ++ rest) s =
    exit.leave ⟨sp, resumption.code (dispatchCode exit.initAlarm exit.toDel ++ rest)⟩ s := by
  obtain ⟨moveTo, initAlarm, toDel⟩ := exit
  simp only [switchThreadCode, List.cons_append, complete, Exit.leave, switchThread, bind_assoc]
  refine bind_congr fun moved => bind_congr fun saved => ?_
  cases queue : saved.ready with
  | nil => cases toDel <;> simp [dispatchCode, complete, queue]
  | cons front ready => cases initAlarm <;> cases toDel <;> simp [dispatchCode, complete, queue, -pure_ok]

theorem execute_of_taken {choice : Choice} (taken : m.StepsResuming resumption (.run choice) m')
    (code : m.code = instr :: rest) (other : ∀ goingOut, instr ≠ .saveEnv goingOut) :
    m.execute choice rest instr = .ok m' := by
  have stepped := taken.1
  rw [stepResuming_eq fun choice goingOut rest' _ same => other goingOut (List.cons.inj (code.symm.trans same)).1] at stepped
  simp only [Machine.step, code] at stepped
  split at stepped
  next => cases stepped
  next => exact Option.some.inj stepped

theorem saved_of_taken {choice : Choice} {goingOut : Pointer} (taken : m.StepsResuming resumption (.run choice) m')
    (code : m.code = .saveEnv goingOut :: rest) :
    ∃ lib, saveEnv goingOut ⟨m.sp, resumption.code rest⟩ m.lib = .ok lib ∧ m' = { m with lib, code := rest } := by
  have stepped := taken.1
  simp only [Machine.stepResuming, code] at stepped
  split at stepped
  next => cases stepped
  next =>
    obtain ⟨lib, saved, same⟩ := bind_ok.mp (Option.some.inj stepped)
    exact ⟨lib, saved, (Except.ok.inj same).symm⟩

private theorem completed_of_taken {choice : Choice} (taken : m.StepsResuming resumption (.run choice) m')
    (code : m.code = instr :: rest) (inside : inSwitch m.code = true)
    (lands : instr = .startThread → ∀ thread, m.lib.heap m.lib.running = some thread → inSwitch thread.env.pc = false) :
    m'.completed resumption = m.completed resumption := by
  rw [code] at inside
  unfold Machine.completed
  rw [code]
  have executed := execute_of_taken taken code
  cases instr with
  | call | returns | unblock | sigreturn => cases inside
  | saveEnv goingOut =>
    obtain ⟨lib, saved, rfl⟩ := saved_of_taken taken code
    simp [complete, saved]
  | moveOut moveTo =>
    obtain ⟨lib, out, same⟩ := bind_ok.mp (executed (by simp))
    cases same
    simp [complete, out]
  | takeFront =>
    have executed := executed (by simp)
    simp only [Machine.execute] at executed
    split at executed
    next => cases executed
    next queue => cases executed; simp [complete, queue]
  | runTimer | countTotal => cases executed (by simp); rfl
  | delete toDel =>
    obtain ⟨lib, deleted, same⟩ := bind_ok.mp (executed (by simp))
    cases same
    simp [complete, deleted]
  | startThread =>
    obtain ⟨thread, found, executed⟩ := bind_ok.mp (executed (by simp))
    obtain ⟨lib, jumped, same⟩ := bind_ok.mp executed
    cases same
    rw [complete_outside (lands rfl _ (deref_ok.mp found))]
    simp [complete, jumped]

end complete

section framed
variable {m m' : Machine} {input : Input} {choice : Choice} {rest : Code} {instr : Instr}

theorem Unwinds.outside {returns : Bool → Prop} {code : Code} (unwinds : Unwinds returns false code) : inSwitch code = false := by
  cases code with
  | nil => rfl
  | cons instr rest =>
    cases instr with
    | call | returns | unblock | sigreturn => rfl
    | saveEnv => exact unwinds.elim
    | _ => exact absurd unwinds.1 Bool.false_ne_true

theorem afterStart_switchThreadCode (exit : Exit) : afterStart (switchThreadCode exit ++ rest) = rest := by
  obtain ⟨moveTo, initAlarm, toDel⟩ := exit
  cases initAlarm <;> cases toDel <;> rfl

private theorem outside_afterSwitch (op : Op Unit) : inSwitch (op.afterSwitch ++ rest) = false := by
  cases op <;> rfl

private theorem Executes.framed (executed : Executes .afterSwitch m choice rest instr m') (code : m.code = instr :: rest)
    (framed : Framed m) (unwinding : Unwinding m) : inSwitch m'.code = true → inSwitch (afterStart m'.code) = false := by
  have here := framed.code
  have unwinds := unwinding.current.unwinds code
  rw [code] at here
  have outside : inSwitch rest = false → inSwitch rest = true → inSwitch (afterStart rest) = false := by
    intro outside inside
    cases outside.symm.trans inside
  cases executed with
  | enters =>
    intro _
    rw [List.append_assoc, afterStart_switchThreadCode]
    exact outside_afterSwitch _
  | called =>
    intro inside
    cases inside
  | returns =>
    obtain ⟨-, rfl⟩ := unwinds (by simp)
    exact outside rfl
  | unblock => exact outside (Unwinds.outside (unwinds (by simp)))
  | sigreturn => exact outside (Unwinds.outside (unwinds (by simp)).2)
  | moveOut | saveEnv | takeFront | runTimer | countTotal | delete | deleteNull => exact fun _ => here rfl
  | startThread found =>
    intro inside
    cases (framed.saved _ _ found).symm.trans inside

theorem Moves.framed (moves : Moves .afterSwitch m input m') (framed : Framed m) (unwinding : Unwinding m) :
    Framed m' := by
  refine ⟨?_, fun pointer thread found => ?_⟩
  · cases moves with
    | expire | sigprocmask => exact framed.code
    | deliver | call =>
      intro inside
      cases inside
    | run code executed => exact executed.framed code framed unwinding
  · cases moves with
    | run code executed =>
      rcases executed.saved_from found with ⟨before, kept, same, -⟩ | fresh | ⟨rfl, saved⟩
      · exact same ▸ framed.saved pointer before kept
      · rw [fresh]
        rfl
      · have here := framed.code
        rw [code] at here
        rw [saved]
        exact here rfl
    | _ => exact framed.saved pointer thread found

theorem Machine.Starts.framed (starts : m.Starts) : Framed m := by
  obtain ⟨quantumUsecs, address, mask, -, done, -, code, -⟩ := starts
  obtain ⟨fresh, -⟩ := uthreadInit_fresh done
  refine ⟨fun inside => ?_, fun pointer thread found => ?_⟩
  · rw [code] at inside
    cases inside
  · rw [fresh.heap] at found
    rcases of_update found with ⟨-, main⟩ | ⟨-, none⟩
    · cases main
      rfl
    · cases none

theorem Machine.Starts.initialized (starts : m.Starts) : Initialized m.lib := by
  obtain ⟨quantumUsecs, address, mask, notNull, done, -⟩ := starts
  exact ⟨quantumUsecs, address, _, mask, notNull, done⟩

end framed

section step
variable {resumption : Resumption} {m m' : Machine} {input : Input} {lib : State Code}

theorem Valid.masked {ε : Type} {s : State ε} (valid : Valid s) (mask : Finset Signal) : Valid { s with mask } :=
  ⟨{ valid.filed with }, valid.current, valid.placed, valid.main, valid.ids⟩

/-- Outside of a switch, what takes no effect changes at most the mask. -/
theorem Moves.silent (moves : Moves resumption m input m') (unwinding : Unwinding m)
    (outside : inSwitch m.code = false) (silent : committing ⟨m, input, m'⟩ = false) :
    inSwitch m'.code = false ∧ ∃ mask, m'.lib = { m.lib with mask } := by
  cases moves with
  | expire => exact ⟨outside, _, rfl⟩
  | deliver | call => exact ⟨rfl, _, rfl⟩
  | run code executed =>
    have unwinds := unwinding.current.unwinds code
    simp only [committing, code] at silent
    rw [code] at outside
    cases executed with
    | enters | called => cases silent
    | returns =>
      obtain ⟨-, rfl⟩ := unwinds (by simp)
      exact ⟨rfl, _, rfl⟩
    | unblock => exact ⟨Unwinds.outside (unwinds (by simp)), _, rfl⟩
    | sigreturn => exact ⟨Unwinds.outside (unwinds (by simp)).2, _, rfl⟩
    | _ => cases outside
  | sigprocmask => exact ⟨outside, _, rfl⟩

theorem commits_of_committing {move : Move Machine Input} (seen : committing move = true) :
    ∃ choice op rest, move.label = .run choice ∧ move.before.code = .call op :: rest := by
  unfold committing at seen
  split at seen
  next label code => exact ⟨_, _, _, label, code⟩
  next => cases seen

/-- A statement with which a call takes effect is that call, once the switch that
it begins is completed. -/
private theorem effect_of_taken {choice : Choice} {op : Op Unit} {rest : Code}
    (taken : m.StepsResuming resumption (.run choice) m') (code : m.code = .call op :: rest) (valid : Valid m.lib)
    (done : m'.completed resumption = .ok lib) :
    ∃ label, Valid lib ∧ SpecTakes (abstraction m.lib) label (abstraction lib) ∧
      Performs ⟨m, .run choice, m'⟩ ⟨abstraction m.lib, label, abstraction lib⟩ := by
  have fits := taken.2 choice op rest rfl code
  obtain ⟨switch, enters, executed⟩ := bind_ok.mp (execute_of_taken taken code (by simp))
  obtain ⟨here, reply, called, decides⟩ : ∃ here reply, op.enter.call choice here m.lib = .ok (reply, lib) ∧
      Decides op rest m'.code reply.value := by
    cases switch with
    | none =>
      obtain ⟨⟨reply, after⟩, called, same⟩ := bind_ok.mp executed
      cases same
      obtain rfl := Except.ok.inj done
      exact ⟨_, reply, called, .returns⟩
    | some entry =>
      obtain ⟨exit, entered⟩ := entry
      cases executed
      rw [Machine.completed, List.append_assoc, complete_switch] at done
      let here : Context Code :=
        ⟨m.sp, resumption.code (dispatchCode exit.initAlarm exit.toDel ++ (op.afterSwitch ++ rest))⟩
      have called : op.enter.call choice here m.lib = .ok (exit.reply, lib) := by
        rw [(untilSwitch_cases enters).call, done]
        rfl
      exact ⟨here, exit.reply, called, .switches⟩
  have event : Takes m.lib ⟨op.enter, choice, here, reply⟩ lib := ⟨fits, called⟩
  obtain ⟨valid', specified⟩ := valid.step event
  exact ⟨⟨op.enter, choice.next m.lib, reply.value⟩, valid', ⟨eligible valid.filed fits, specified⟩, rfl, op, rest, code,
    rfl, decides⟩

theorem completed_inside (taken : m.StepsResuming resumption input m') (unwinding : Unwinding m)
    (framed : resumption = .afterSwitch → Framed m) (lands : Lands resumption ⟨m, input, m'⟩)
    (inside : inSwitch m.code = true) : m'.completed resumption = m.completed resumption := by
  cases moves_of_step taken with
  | expire => rfl
  | deliver unmasked =>
    rcases unwinding.current with unwinds | ⟨_, _, masked, _⟩
    · cases inside.symm.trans (Unwinds.outside (unmasked ▸ unwinds))
    · cases unmasked.symm.trans masked
  | run code =>
    refine completed_of_taken taken code inside fun jumps thread found => ?_
    rcases lands with repaired | fresh
    · exact (framed repaired).saved _ thread found
    · exact fresh _ _ thread rfl (jumps ▸ code) found
  | call user | sigprocmask user =>
    rw [user] at inside
    cases inside

/-- As long as no jump goes into the middle of a switch, the runs of the process are
serialized by the abstract scheduler. -/
theorem serializes : Serializes (Machine.StepsResuming resumption) SpecTakes (Lands resumption)
    (fun m => Unwinding m ∧ (resumption = .afterSwitch → Framed m)) (fun m => ∃ lib, m.completed resumption = .ok lib)
    (fun m a => ∀ lib, m.completed resumption = .ok lib → Valid lib ∧ abstraction lib = a) committing Performs := by
  refine ⟨?_, ?_, ?_, ?_⟩
  · rintro move - taken ⟨unwinding, framed⟩
    have moves := moves_of_step taken
    refine ⟨moves.unwinding unwinding, ?_⟩
    rintro rfl
    exact moves.framed (framed rfl) unwinding
  · rintro move lands taken ⟨unwinding, framed⟩ ends
    cases inside : inSwitch move.before.code with
    | true => exact completed_inside taken unwinding framed lands inside ▸ ends
    | false => exact ⟨_, complete_outside inside⟩
  · rintro move lands taken ⟨unwinding, framed⟩ ends quiet a matched lib done
    cases inside : inSwitch move.before.code with
    | true => exact matched lib (completed_inside taken unwinding framed lands inside ▸ done)
    | false =>
      obtain ⟨after, mask, same⟩ := (moves_of_step taken).silent unwinding inside quiet
      obtain ⟨valid, here⟩ := matched _ (complete_outside inside)
      obtain rfl := Except.ok.inj ((complete_outside after).symm.trans done)
      rw [same]
      exact ⟨valid.masked mask, here⟩
  · rintro move - taken ⟨unwinding, framed⟩ ⟨lib, done⟩ seen a matched
    obtain ⟨choice, op, rest, label, code⟩ := commits_of_committing seen
    have outside : inSwitch move.before.code = false := by rw [code]; rfl
    obtain ⟨valid, rfl⟩ := matched _ (complete_outside outside)
    obtain ⟨before, input, after⟩ := move
    cases label
    obtain ⟨label, valid', step, performs⟩ := effect_of_taken taken code valid done
    refine ⟨label, _, step, fun lib' done' => ?_, performs⟩
    obtain rfl := Except.ok.inj (done.symm.trans done')
    exact ⟨valid', rfl⟩

end step

section run
variable {resumption : Resumption} {start final : Machine} {timeline : List (Move Machine Input)}

theorem run_serialized {lib : State Code} (starts : start.Starts)
    (run : Run (Machine.StepsResuming resumption) start timeline final) (lands : ∀ move ∈ timeline, Lands resumption move)
    (done : final.completed resumption = .ok lib) :
    ∃ trace, Run SpecTakes specInit trace (abstraction lib) ∧ Valid lib ∧
      List.Forall₂ Performs (timeline.filter committing) trace := by
  have user : inSwitch start.code = false := by
    obtain ⟨_, _, _, -, -, -, code, -⟩ := starts
    rw [code]
    rfl
  have initialized := starts.initialized
  obtain ⟨trace, a, refined, reached, paired⟩ := serializes.run run lands
    ⟨starts.unwinding, fun _ => starts.framed⟩ (t := specInit) (fun lib done => by
      obtain rfl := Except.ok.inj ((complete_outside user).symm.trans done)
      exact ⟨initialized.valid, initialized.implements.1.2⟩)
    ⟨lib, done⟩
  obtain ⟨valid, rfl⟩ := reached lib done
  exact ⟨trace, refined, valid, paired⟩

/-- In every run whose jumps go to threads that were never switched out, and in every
run at all if contexts are resumed after the switch, what the calls and the timer do is
what the scheduler with its lock does, with the same values, wherever the signal
arrives. Outside of a switch the globals implement its state. -/
theorem guarded_scheduler_refined (starts : start.Starts)
    (run : Run (Machine.StepsResuming resumption) start timeline final) (lands : ∀ move ∈ timeline, Lands resumption move)
    (outside : inSwitch final.code = false) :
    ∃ trace, Run SpecTakes specInit trace (abstraction final.lib) ∧ Valid final.lib ∧
      List.Forall₂ Performs (timeline.filter committing) trace :=
  run_serialized starts run lands (complete_outside outside)

def expiry : List Input := [.expire, .deliver] ++ List.replicate 6 (.run ⟨3, []⟩)

/-- Main takes the mutex and is preempted, and thread 1 waits for it. -/
theorem guarded_scheduler_refined_waiting_thread : ∃ (trace : List (Move (Guarded Int) Label)) (final : Machine),
    Run SpecTakes specInit trace (abstraction final.lib) ∧ (abstraction final.lib).waiting = {1} ∧
      (abstraction final.lib).owner = some 0 ∧ trace.length = 4 := by
  obtain ⟨timeline, final, run, tested⟩ := compute_tested (next_sound .afterSwitch) started
    ([.call (.spawn ()), .run ⟨2, []⟩, .run ⟨3, []⟩, .call .mutexLock, .run ⟨3, []⟩, .run ⟨3, []⟩] ++ expiry ++
      [.call .mutexLock] ++ List.replicate 7 (.run ⟨3, []⟩))
    (fun timeline final => inSwitch final.code = false ∧ final.sp = 0 ∧ (timeline.filter committing).length = 4 ∧
      (abstraction final.lib).waiting = {1} ∧ (abstraction final.lib).owner = some 0)
    (by decide +kernel)
  obtain ⟨outside, -, effects, waiting, owner⟩ := of_decide_eq_true tested
  obtain ⟨trace, refined, -, paired⟩ := guarded_scheduler_refined started_starts run (fun _ _ => .inl rfl) outside
  exact ⟨trace, final, refined, waiting, owner, paired.length_eq.symm.trans effects⟩

end run
end Uthreads.Nim
