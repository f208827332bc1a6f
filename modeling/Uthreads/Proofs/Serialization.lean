import Uthreads.Library.Serialization
import Uthreads.Proofs.Alike
import Uthreads.Proofs.Atomicity
import Uthreads.Proofs.Calls
import Uthreads.Proofs.Seats

/-! Every run with atomic switches is a run of atomic calls. A call takes effect
with its body, a handler when it masks the signal; the switch that follows can
then be executed at once. -/

namespace Uthreads
open Fallible Relational Transition

def complete (sp : Int) : Code → State Code → Except Halt (State Code)
  | .unblockVtAlarm :: rest, s => if inSwitch rest then complete sp rest (unblockVtAlarm s) else .ok s
  | .updateSleepers :: rest, s => do complete sp rest (← updateSleepers s)
  | .forSleepers its :: rest, s => do complete sp rest (← updateSleepersFrom its s)
  | .leave target :: rest, s => do
    let origTid := s.runningTid
    let s ← leaveRunning target s
    let s ← insertReadyToRunning s
    let s := { s with totalQuantums := s.totalQuantums + 1 }
    let s ← if target = .terminated then pure s else saveEnvironment s origTid ⟨sp, rest⟩
    startRunning (unblockVtAlarm s)
  | .emplaceRunning :: rest, s => complete sp rest { s with readyTids := s.readyTids ++ [s.runningTid] }
  | .insertRunning :: rest, s => complete sp rest { s with blockedTids := insert s.runningTid s.blockedTids }
  | .setStatus status :: rest, s => do complete sp rest (← s.setStatus s.runningTid status)
  | .insertReadyToRunning :: rest, s => do complete sp rest (← insertReadyToRunning s)
  | .popFront :: rest, s => complete sp rest { s with readyTids := s.readyTids.tail }
  | .countTotal :: rest, s => complete sp rest { s with totalQuantums := s.totalQuantums + 1 }
  | .saveEnvironment origTid :: rest, s => do startRunning (unblockVtAlarm (← saveEnvironment s origTid ⟨sp, rest⟩))
  | .startRunning :: _, s => startRunning s
  | .countQuantum tid :: rest, s => do
    complete sp rest (← s.updateThread tid fun thread =>
      { thread with numOfQuantumsRunning := thread.numOfQuantumsRunning + 1 })
  | .siglongjmp tid :: _, s =>
    match s.allThreads tid with
    | none => .error (.nullRecord tid)
    | some thread => .ok { s with mask := thread.env.savedMask }
  | _, s => .ok s

def Machine.completed (m : Machine) : Except Halt (State Code) := complete m.sp m.code m.lib

/-- A switch that has begun ends with its jump, and the code below it is not in
another one. -/
def Framed : Code → Prop
  | [] => True
  | .body _ :: rest | .returns _ _ :: rest | .fails _ _ :: rest | .sigreturn _ :: rest => inSwitch rest = false ∧ Framed rest
  | .leave _ :: rest | .saveEnvironment _ :: rest => inSwitch rest = false ∧ Framed rest
  | .blockVtAlarm :: rest => (inSwitch rest = true → ∃ later, rest = switchThreadsCode .ready ++ later) ∧ Framed rest
  | _ :: rest => Framed rest

structure AllFramed (m : Machine) : Prop where
  code : Framed m.code
  saved : ∀ tid env, m.lib.env tid = some env → inSwitch env.pc = false ∧ Framed env.pc

/-- The call that takes effect with the next statement. That is its body, but a
`uthread_get_quantums` that finds the record only reads it when it returns. -/
def Machine.commits (m : Machine) : Option (Op Code) :=
  match m.code with
  | .body (.getQuantums tid) :: _ => if m.lib.live tid then none else some (.getQuantums tid)
  | .body op :: _ => some op.enter
  | .returns _ (.quantumsOf tid) :: _ => some (.getQuantums tid)
  | .blockVtAlarm :: rest => if inSwitch rest then some .preempt else none
  | _ => none

def committing (move : Move Machine Input) : Bool := move.label = .run ∧ move.before.commits.isSome

/-- The reply that the body of a call decides. The id of a new thread is read through
its record in the end, so it is given only if the thread is still there. -/
def Next.reply : Next → Option Reply
  | .fails message => some (.fails message)
  | .finishes (.value result) | .finishes (.newThread result) => some (.returns result)
  | .finishes (.quantumsOf _) => none
  | .switches target => some (if target = .terminated ∨ target = .ready then .nothing else .returns success)

/-- The reply that is settled when a call takes effect. -/
inductive Settles (move : Move Machine Input) : Reply → Prop where
  | body {op rest next reply} (code : move.before.code = .body op :: rest) (after : move.after.code = op.follow next ++ rest)
      (decided : next.reply = some reply) : Settles move reply
  | read {op tid rest value} (code : move.before.code = .returns op (.quantumsOf tid) :: rest)
      (read : (Returned.quantumsOf tid).eval move.before.lib = .ok value) : Settles move (.returns value)
  | preempts {rest} (code : move.before.code = .blockVtAlarm :: rest) : Settles move .nothing

/-- The statement with which a call takes effect, and the atomic call: the same
operation in the same state, and the reply that is settled there. -/
structure Commits (move : Move Machine Input) (call : Move (State Code) (Event Code)) : Prop where
  before : Alike move.before.lib call.before
  op : move.before.commits = some call.label.op
  stack : call.label.here.sp = move.before.sp
  reply : Settles move call.label.reply

section settles
variable {move : Move Machine Input} {reply : Reply}

private theorem follow_reply {op : Op Unit} {next next' : Next} (same : op.follow next = op.follow next') : next.reply = next'.reply := by
  cases next with
  | fails message =>
    cases next' with
    | fails => simpa [Op.follow, Next.reply] using same
    | finishes => cases masks : op.masks <;> simp [Op.follow, masks] at same
    | switches => cases same
  | finishes result =>
    cases next' with
    | fails => cases masks : op.masks <;> simp [Op.follow, masks] at same
    | finishes => cases masks : op.masks <;> simp_all [Op.follow]
    | switches => cases masks : op.masks <;> simp [Op.follow, masks, switchThreadsCode] at same
  | switches target =>
    cases next' with
    | fails => cases same
    | finishes => cases masks : op.masks <;> simp [Op.follow, masks, switchThreadsCode] at same
    | switches =>
      obtain ⟨-, same⟩ := List.cons_eq_cons.mp same
      obtain ⟨same, -⟩ := List.cons_eq_cons.mp same
      cases same
      rfl

theorem Settles.unique {reply' : Reply} (settles : Settles move reply) (settles' : Settles move reply') : reply = reply' := by
  cases settles with
  | body code after decided =>
    cases settles' with
    | body code' after' decided' =>
      cases code.symm.trans code'
      have same := follow_reply (List.append_cancel_right (after.symm.trans after'))
      exact Option.some.inj (decided.symm.trans (same.trans decided'))
    | read code' | preempts code' => cases code.symm.trans code'
  | read code read =>
    cases settles' with
    | read code' read' =>
      cases code.symm.trans code'
      cases read.symm.trans read'
      rfl
    | body code' | preempts code' => cases code.symm.trans code'
  | preempts code =>
    cases settles' with
    | preempts => rfl
    | body code' | read code' => cases code.symm.trans code'

theorem Settles.iff (settles : Settles move reply) {settled : Reply} : Settles move settled ↔ settled = reply :=
  ⟨fun other => other.unique settles, fun same => same ▸ settles⟩

end settles

section complete
variable {m m' : Machine} {sp : Int} {s : State Code} {code rest : Code} {instr : Instr}

theorem complete_outside (outside : inSwitch code = false) : complete sp code s = .ok s := by
  cases code with
  | nil => rfl
  | cons instr rest =>
    cases instr with
    | blockVtAlarm | body | returns | fails | sigreturn => rfl
    | unblockVtAlarm =>
      have rest : inSwitch rest = false := outside
      simp [complete, rest]
    | _ => cases outside

theorem complete_switch (target : Status) :
    complete sp (switchThreadsCode target ++ rest) s = switchThreads target ⟨sp, rest⟩ s := rfl

private theorem complete_leave (target : Status) :
    complete sp (leaveCode target s.runningTid rest) s = complete sp (.leave target :: rest) s := by
  cases target with
  | ready | blocked | main | running | asleep | terminated =>
    simp [complete, leaveCode, leaveRunning, inSwitch]

private theorem Executes.completes (executed : Executes m rest instr m') (inside : inSwitch (instr :: rest) = true)
    (saved : ∀ tid env, m.lib.env tid = some env → inSwitch env.pc = false) :
    m'.completed = complete m.sp (instr :: rest) m.lib := by
  cases executed with
  | blockVtAlarm | body | returns | fails | sigreturn => cases inside
  | unblockVtAlarm =>
    have inside : inSwitch rest = true := inside
    simp [Machine.completed, complete, inside]
  | updateSleepers | sleepersDone | emplaceRunning | insertRunning | popFront | countTotal => rfl
  | sleeper live =>
    have updated := State.updateSleeper_ok.mpr ⟨live, rfl⟩
    simp [Machine.completed, complete, updateSleepersFrom, updated]
  | leave => exact complete_leave _
  | @setStatus status live =>
    have updated : m.lib.setStatus _ status = _ := State.setStatus_ok.mpr ⟨live, rfl⟩
    simp [Machine.completed, complete, updated]
  | insertEmpty queue => simp [Machine.completed, complete, insertReadyToRunning, queue]
  | insertFront queue => simp [Machine.completed, complete, insertReadyToRunning, queue]
  | @saveEnvironment origTid live =>
    have updated : Uthreads.saveEnvironment m.lib origTid ⟨m.sp, rest⟩ = _ := State.updateThread_live live _
    simp [Machine.completed, complete, updated, inSwitch, State.saved]
  | startRunning live =>
    obtain ⟨thread, found⟩ := Option.isSome_iff_exists.mp live
    simp [Machine.completed, complete, Uthreads.startRunning, State.updateThread, found]
  | countQuantum live => simp [Machine.completed, complete, State.updateThread_live live]
  | @siglongjmp tid env found =>
    obtain ⟨thread, record, rfl⟩ := Option.map_eq_some_iff.mp found
    simp [Machine.completed, complete_outside (saved tid _ found), complete, record]

end complete

section framed
variable {m m' : Machine} {input : Input} {rest : Code} {instr : Instr}

private theorem Framed.follow (framed : Framed rest) (outside : inSwitch rest = false) (op : Op Unit) (next : Next) :
    Framed (op.follow next ++ rest) := by
  cases next with
  | fails | finishes => cases masks : op.masks <;> simp [Op.follow, masks, Framed, outside, framed]
  | switches target => cases op <;> simp [Op.follow, switchThreadsCode, Framed, inSwitch, outside, framed]

private theorem Framed.leave (framed : Framed rest) (outside : inSwitch rest = false) (target : Status) (running : Int) :
    Framed (leaveCode target running rest) := by
  cases target <;> simp [leaveCode, Framed, outside, framed]

private theorem Executes.framed (executed : Executes m rest instr m') (framed : Framed (instr :: rest))
    (saved : ∀ tid env, m.lib.env tid = some env → inSwitch env.pc = false ∧ Framed env.pc) : Framed m'.code := by
  cases executed with
  | body => exact framed.2.follow framed.1 _ _
  | leave => exact framed.2.leave framed.1 _ _
  | blockVtAlarm | returns | fails | sigreturn => exact framed.2
  | saveEnvironment | startRunning => simp [Framed]
  | siglongjmp found => exact (saved _ _ found).2
  | _ => exact framed

theorem Moves.allFramed (moves : Moves m input m') (outside : input = .deliver → inSwitch m.code = false)
    (framed : AllFramed m) : AllFramed m' := by
  refine ⟨?_, fun tid env found => ?_⟩
  · cases moves with
    | expire => exact framed.code
    | deliver => simp [Machine.deliver, timerHandlerCode, switchThreadsCode, Framed, inSwitch, outside rfl, framed.code]
    | run code executed => exact executed.framed (code ▸ framed.code) framed.saved
    | @call op => cases masks : op.masks <;> simp [Op.code, masks, Framed, inSwitch]
    | sigprocmask user => exact framed.code
  · rcases moves.saved_from found with kept | rfl | ⟨rest, code, rfl⟩
    · exact framed.saved tid env kept
    · exact ⟨rfl, trivial⟩
    · have here := framed.code
      rw [code] at here
      exact here

theorem Machine.Starts.allFramed (starts : m.Starts) : AllFramed m := by
  refine ⟨starts.user ▸ trivial, fun tid env found => ?_⟩
  obtain ⟨-, rfl⟩ := starts.env_main found
  exact ⟨rfl, trivial⟩

end framed

section effect
variable {s s' t lib : State Code} {next : Next} {rest : Code} {sp : Int}

/-- A body decides the reply, unless it has found a record to be read. -/
private theorem Branch.decides {op : Op Unit} (branch : Branch s op.enter next s')
    (unread : ∀ tid, op = .getQuantums tid → ¬ s.live tid) : ∃ reply, next.reply = some reply := by
  generalize same : op.enter = entered at branch
  cases branch with
  | getQuantums live => cases op <;> cases same; exact absurd live (unread _ rfl)
  | _ => exact ⟨_, rfl⟩

private theorem masked_effect {op : Op Unit} (branch : Branch s op.enter next s')
    (done : complete sp (op.follow next ++ rest) s' = .ok lib) (alike : Alike s t) (here : Context Code) :
    ∃ reply t', maskedCall op.enter here t = .ok (reply, t') ∧ Alike lib t' ∧
      ∀ decided, next.reply = some decided → decided = reply := by
  have hidden : Alike s (blockVtAlarm t) := alike.masked
  have bodies := body_alike hidden op.enter
  rw [body_of_branch branch] at bodies
  obtain ⟨⟨_, middle⟩, second, rfl, onward⟩ := bodies.result
  simp only [maskedCall, second, bind_ok_left]
  cases next with
  | fails message =>
    rw [complete_outside (by simp [Op.follow, inSwitch])] at done
    cases done
    exact ⟨_, _, rfl, onward, fun decided same => (Option.some.inj same).symm⟩
  | finishes result =>
    rw [complete_outside (by cases masks : op.masks <;> simp [Op.follow, masks, inSwitch])] at done
    obtain rfl := Except.ok.inj done
    have unmasked : Alike s' (unblockVtAlarm middle) := onward.masked
    obtain ⟨value, read⟩ := branch.eval
    have read : result.eval s' = .ok value := by cases result <;> exact read
    have both := eval_alike unmasked result
    rw [read] at both
    obtain ⟨_, second, rfl⟩ := both.result
    refine ⟨.returns value, _, by simp only [second, bind_ok_left], unmasked, fun decided same => ?_⟩
    cases result with
    | value => cases same; cases read; rfl
    | newThread => cases same; rw [newThread_value read]
    | quantumsOf => cases same
  | switches target =>
    rw [follow_switches, List.append_assoc, complete_switch] at done
    have both := Alike.switchThreads onward target ⟨sp, op.tail ++ rest⟩ here
    rw [done] at both
    obtain ⟨t', switched, both⟩ := both.result
    exact ⟨_, t', by simp only [switched, bind_ok_left], both, fun decided same => (Option.some.inj same).symm⟩

private theorem call_effect {op : Op Unit} (branch : Branch s op.enter next s')
    (done : complete sp (op.follow next ++ rest) s' = .ok lib) (alike : Alike s t) (here : Context Code) :
    ∃ reply t', op.enter.call here t = .ok (reply, t') ∧ Alike lib t' ∧
      ∀ decided, next.reply = some decided → decided = reply := by
  cases op with
  | getTid =>
    cases branch
    obtain rfl := Except.ok.inj done
    exact ⟨_, t, rfl, alike, fun decided same => by rw [← Option.some.inj same, alike.running]⟩
  | getTotalQuantums =>
    cases branch
    obtain rfl := Except.ok.inj done
    exact ⟨_, t, rfl, alike, fun decided same => by rw [← Option.some.inj same, alike.total]⟩
  | _ => exact masked_effect branch done alike here

private theorem read_effect {tid value : Int} (read : (Returned.quantumsOf tid).eval s = .ok value) (alike : Alike s t)
    (here : Context Code) : ∃ t', (Op.getQuantums tid).call here t = .ok (.returns value, t') ∧ Alike s t' := by
  have hidden : Alike s (unblockVtAlarm (blockVtAlarm t)) := alike.masked
  have both := eval_alike hidden (.quantumsOf tid)
  rw [read] at both
  obtain ⟨_, second, rfl⟩ := both.result
  refine ⟨unblockVtAlarm (blockVtAlarm t), ?_, hidden⟩
  cases found : (blockVtAlarm t).allThreads tid with
  | none =>
    have missing : (unblockVtAlarm (blockVtAlarm t)).allThreads tid = none := found
    simp [Returned.eval, missing] at second
  | some thread => simp only [Op.call, maskedCall, Op.body, uthreadGetQuantums, found, bind_ok_left, second]

end effect

section step
variable {m m' : Machine} {input : Input} {t lib : State Code}

theorem Moves.completed_inside (moves : Moves m input m') (framed : AllFramed m) (inside : inSwitch m.code = true)
    (outside : input = .deliver → inSwitch m.code = false) : m'.completed = m.completed := by
  cases moves with
  | expire => rfl
  | deliver => cases inside.symm.trans (outside rfl)
  | run code executed =>
    rw [code] at inside
    exact (executed.completes inside fun tid env found => (framed.saved tid env found).1).trans (by rw [Machine.completed, code])
  | call user | sigprocmask user =>
    rw [user] at inside
    cases inside

private theorem committing_outside (inside : inSwitch m.code = true) : m.commits = none := by
  unfold Machine.commits
  cases code : m.code with
  | nil => rfl
  | cons instr rest =>
    rw [code] at inside
    cases instr with
    | blockVtAlarm | body | returns | fails | sigreturn => cases inside
    | _ => rfl

/-- Outside of a switch, what takes no effect leaves the scheduler alone. -/
theorem Moves.silent (moves : Moves m input m') (framed : AllFramed m) (outside : inSwitch m.code = false)
    (silent : committing ⟨m, input, m'⟩ = false) : inSwitch m'.code = false ∧ Alike m.lib m'.lib := by
  have same : Alike m.lib m.lib := .refl m.lib
  cases moves with
  | expire => exact ⟨outside, same⟩
  | deliver => exact ⟨rfl, same.masked⟩
  | @run instr rest m' code executed =>
    have framed := framed.code
    simp only [committing, Machine.commits, code, true_and] at silent
    rw [code] at outside framed
    cases executed with
    | @body op next lib branch =>
      cases op with
      | getQuantums tid =>
        have live : m.lib.live tid := by
          by_contra dead
          simp [dead] at silent
        cases branch with
        | getQuantumsMissing missing => exact absurd live (State.status_eq_none.mp missing)
        | getQuantums => exact ⟨rfl, same⟩
      | _ => cases silent
    | blockVtAlarm =>
      refine ⟨?_, same.masked⟩
      by_contra inside
      simp [Bool.not_eq_false _ ▸ inside] at silent
    | returns | fails => exact ⟨framed.1, same⟩
    | sigreturn => exact ⟨framed.1, same.masked⟩
    | unblockVtAlarm => exact ⟨outside, same.masked⟩
    | _ => cases outside
  | @call op => exact ⟨by cases masks : op.masks <;> simp [Op.code, masks, inSwitch], same⟩
  | sigprocmask => exact ⟨outside, same.masked⟩

/-- A statement with which a call takes effect is that call, once the switch that
it begins is completed. -/
private theorem Moves.effect (moves : Moves m input m') (framed : AllFramed m) (seen : committing ⟨m, input, m'⟩ = true)
    (done : m'.completed = .ok lib) (alike : Alike m.lib t) :
    ∃ event t', Takes t event t' ∧ Alike lib t' ∧ Commits ⟨m, input, m'⟩ ⟨t, event, t'⟩ := by
  obtain ⟨running, some⟩ := of_decide_eq_true seen
  obtain rfl : input = .run := running
  obtain ⟨op, commits⟩ := Option.isSome_iff_exists.mp some
  cases moves with
  | @run instr rest _ code executed =>
    have effect := commits
    have framed := framed.code
    simp only [Machine.commits, code] at effect
    rw [code] at framed
    cases executed with
    | @body op' next lib branch =>
      have unread : ∀ tid, op' = .getQuantums tid → ¬ m.lib.live tid := by
        rintro tid rfl live
        simp [live] at effect
      have same : op = op'.enter := by
        cases op' with
        | getQuantums tid => simpa [unread tid rfl, eq_comm, Op.enter] using effect
        | _ => exact (Option.some.inj effect).symm
      subst same
      obtain ⟨reply, t', taken, alike', settles⟩ := call_effect branch done alike ⟨m.sp, rest⟩
      obtain ⟨decided, found⟩ := branch.decides unread
      obtain rfl := settles decided found
      exact ⟨⟨op'.enter, ⟨m.sp, rest⟩, decided⟩, t', taken, alike', alike, commits, rfl, .body code rfl found⟩
    | @returns op' result value read =>
      cases result with
      | value | newThread => cases effect
      | quantumsOf tid =>
        obtain rfl := Option.some.inj effect
        obtain ⟨t', taken, alike'⟩ := read_effect read alike ⟨m.sp, rest⟩
        have after : complete m.sp rest m.lib = .ok lib := done
        rw [complete_outside framed.1] at after
        obtain rfl := Except.ok.inj after
        exact ⟨⟨.getQuantums tid, ⟨m.sp, rest⟩, .returns value⟩, t', taken, alike', alike, commits, rfl, .read code read⟩
    | blockVtAlarm =>
      simp only [Option.ite_none_right_eq_some] at effect
      obtain ⟨inside, same⟩ := effect
      obtain rfl := Option.some.inj same
      obtain ⟨later, rfl⟩ := framed.1 inside
      have hidden : Alike (Uthreads.blockVtAlarm m.lib) (Uthreads.blockVtAlarm t) := alike.masked
      have both := Alike.switchThreads hidden .ready ⟨m.sp, later⟩ ⟨m.sp, later⟩
      rw [Machine.completed, complete_switch] at done
      rw [done] at both
      obtain ⟨t', switched, alike'⟩ := both.result
      have taken : Op.preempt.call ⟨m.sp, later⟩ t = .ok (.nothing, t') := by
        simp only [Op.call, maskedCall, Op.body, timerHandler, switched, bind_ok_left]
        rfl
      exact ⟨⟨.preempt, ⟨m.sp, later⟩, .nothing⟩, t', taken, alike', alike, commits, rfl, .preempts code⟩
    | _ => cases effect

/-- The runs of the process with atomic switches are serialized by the atomic calls. -/
theorem serializes : Serializes Machine.AtomicSteps Takes (fun _ => True) AllFramed
    (fun m => ∃ lib, m.completed = .ok lib) (fun m t => ∀ lib, m.completed = .ok lib → Alike lib t) committing Commits := by
  refine ⟨fun move _ taken framed => ?_, fun move _ taken framed ends => ?_,
    fun move _ taken framed ends quiet t matched lib done => ?_, fun move _ taken framed ends seen t matched => ?_⟩
  all_goals obtain ⟨moves, outside⟩ := moves_of_atomicStep taken
  · exact moves.allFramed outside framed
  · cases inside : inSwitch move.before.code with
    | true => exact moves.completed_inside framed inside outside ▸ ends
    | false => exact ⟨_, complete_outside inside⟩
  · cases inside : inSwitch move.before.code with
    | true => exact matched lib (moves.completed_inside framed inside outside ▸ done)
    | false =>
      obtain ⟨after, same⟩ := moves.silent framed inside quiet
      obtain rfl := Except.ok.inj ((complete_outside after).symm.trans done)
      exact same.symm.trans (matched _ (complete_outside inside))
  · have outside : inSwitch move.before.code = false := by
      by_contra inside
      simp [committing, committing_outside (Bool.not_eq_false _ ▸ inside)] at seen
    obtain ⟨lib, done⟩ := ends
    obtain ⟨event, t', call, alike, agrees⟩ := moves.effect framed seen done (matched _ (complete_outside outside))
    refine ⟨event, t', call, fun lib' done' => ?_, agrees⟩
    obtain rfl := Except.ok.inj (done.symm.trans done')
    exact alike

end step

section run
variable {start middle final : Machine} {timeline earlier later : Timeline}

theorem run_serialized {lib : State Code} (starts : start.Starts) (run : Run Machine.AtomicSteps start timeline final)
    (done : final.completed = .ok lib) :
    ∃ history last, Run Takes start.lib history last ∧ Alike lib last ∧
      List.Forall₂ Commits (timeline.filter committing) history := by
  have user : inSwitch start.code = false := by rw [starts.user]; rfl
  obtain ⟨history, last, sequential, reached, paired⟩ := serializes.run run (fun _ _ => trivial) starts.allFramed
    (fun lib done => by
      obtain rfl := Except.ok.inj ((complete_outside user).symm.trans done)
      exact .refl _)
    ⟨lib, done⟩
  exact ⟨history, last, sequential, reached lib done, paired⟩

theorem continued_serialized (starts : start.Starts) (before : Run Machine.AtomicSteps start earlier middle)
    (run : Run Machine.AtomicSteps middle later final) (outside : inSwitch middle.code = false ∧ inSwitch final.code = false) :
    ∃ history last history' last', Run Takes start.lib history last ∧ Alike middle.lib last ∧
      List.Forall₂ Commits (earlier.filter committing) history ∧ Run Takes last history' last' ∧ Alike final.lib last' ∧
      List.Forall₂ Commits (later.filter committing) history' := by
  obtain ⟨history, last, sequential, alike, paired⟩ := run_serialized starts before (complete_outside outside.1)
  have framed := before.invariant (fun _ => True) (fun _ _ => trivial) AllFramed starts.allFramed serializes.preserved
  obtain ⟨history', last', sequential', reached, paired'⟩ := serializes.run run (fun _ _ => trivial) framed
    (fun lib done => by
      obtain rfl := Except.ok.inj ((complete_outside outside.1).symm.trans done)
      exact alike)
    ⟨final.lib, complete_outside outside.2⟩
  exact ⟨history, last, history', last', sequential, alike, paired, sequential', reached _ (complete_outside outside.2), paired'⟩

end run
end Uthreads
