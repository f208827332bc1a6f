import Uthreads.Proofs.Isolation
import Uthreads.Proofs.Serialization

/-! What a call gives back to its caller. However often its thread is interrupted
and switched out on the way, the reply is that of the call's own body. -/

namespace Uthreads
open Transition

def Instr.acts : Instr → Bool
  | .body _ | .returns _ _ | .fails _ _ => true
  | _ => false

def Machine.actsOn (m : Machine) (sp : Int) : Prop := m.sp = sp ∧ ∃ instr ∈ m.code.head?, instr.acts = true

/-- How a call ends whose body went on with `next`. -/
inductive Delivers (op : Op Unit) : Next → Instr → Prop where
  | fails {message} : Delivers op (.fails message) (.fails op message)
  | finishes {result} : Delivers op (.finishes result) (.returns op result)
  | switches {target} : Delivers op (.switches target) (.returns op (.value success))

/-- What a call that ends with a statement gives back to its caller. -/
inductive Yields (s : State Code) : Instr → Reply → Prop where
  | returns {op result value} (read : result.eval s = .ok value) : Yields s (.returns op result) (.returns value)
  | fails {op message} : Yields s (.fails op message) (.fails message)

/-- The last thing that the thread did but for being interrupted: it executed the
body of `op`, which went on with `next`. -/
def LastCall (sp : Int) (op : Op Unit) (next : Next) (timeline : Timeline) : Prop :=
  ∃ earlier body later rest, timeline = earlier ++ body :: later ∧ body.label = .run ∧ body.before.sp = sp ∧
    body.before.code = .body op :: rest ∧ body.after.code = op.follow next ++ rest ∧
    ∀ move ∈ later, move.label = .run → ¬ move.before.actsOn sp

/-- What is left of the calls of a thread: nothing, the body of one, or its end. -/
inductive Stands (timeline : Timeline) (tid : Int) (code : Code) : Prop where
  | idle (none : code.filter Instr.acts = [])
  | called {op} (pending : code.filter Instr.acts = [.body op]) (user : op ≠ .preempt)
  | answering {op next instr} (pending : code.filter Instr.acts = [instr]) (last : LastCall tid op next timeline)
      (delivers : Delivers op next instr) (user : next ≠ .switches .ready) (gone : next = .switches .terminated → Departed code)

structure Carried (timeline : Timeline) (m : Machine) : Prop where
  executing : Stands timeline m.sp m.code
  filed : ∀ tid env, m.lib.env tid = some env → (m.sp = tid → Departed m.code) → Stands timeline tid env.pc

section stands
variable {timeline : Timeline} {move : Move Machine Input} {tid : Int} {code code' rest : Code}

private theorem LastCall.quiet {op : Op Unit} {next : Next} (last : LastCall tid op next timeline)
    (quiet : move.label = .run → ¬ move.before.actsOn tid) : LastCall tid op next (timeline ++ [move]) := by
  obtain ⟨earlier, body, later, rest, cut, run, stack, before, after, idle⟩ := last
  refine ⟨earlier, body, later ++ [move], rest, by simp [cut], run, stack, before, after, ?_⟩
  exact List.forall_mem_append.mpr ⟨idle, List.forall_mem_singleton.mpr quiet⟩

private theorem Stands.quiet (stands : Stands timeline tid code) (quiet : move.label = .run → ¬ move.before.actsOn tid)
    (same : code'.filter Instr.acts = code.filter Instr.acts) (departed : Departed code → Departed code') :
    Stands (timeline ++ [move]) tid code' := by
  cases stands with
  | idle none => exact .idle (same.trans none)
  | called pending user => exact .called (same.trans pending) user
  | answering pending last delivers user gone =>
    exact .answering (same.trans pending) (last.quiet quiet) delivers user fun terminated => departed (gone terminated)

private theorem Stands.single {instr : Instr} (stands : Stands timeline tid (instr :: rest)) (acts : instr.acts = true) :
    rest.filter Instr.acts = [] := by
  cases stands with
  | idle none => simp [acts] at none
  | called pending => simpa [acts] using (List.cons_eq_cons.mp ((List.filter_cons_of_pos acts).symm.trans pending)).2
  | answering pending => exact (List.cons_eq_cons.mp ((List.filter_cons_of_pos acts).symm.trans pending)).2

private theorem Stands.user {op : Op Unit} (stands : Stands timeline tid (.body op :: rest)) : op ≠ .preempt := by
  have acts : (Instr.body op :: rest).filter Instr.acts = .body op :: rest.filter Instr.acts := List.filter_cons_of_pos rfl
  cases stands with
  | idle none => cases acts.symm.trans none
  | called pending user =>
    obtain ⟨same, -⟩ := List.cons_eq_cons.mp (acts.symm.trans pending)
    exact Instr.body.inj same ▸ user
  | answering pending _ delivers =>
    obtain ⟨rfl, -⟩ := List.cons_eq_cons.mp (acts.symm.trans pending)
    cases delivers

private theorem Branch.not_preempts {s s' : State Code} {op : Op Unit} {next : Next} (branch : Branch s op.enter next s')
    (user : op ≠ .preempt) : next ≠ .switches .ready := by
  generalize same : op.enter = entered at branch
  cases branch with
  | preempt => cases op <;> cases same; exact absurd rfl user
  | _ => nofun

theorem not_departed (framed : Framed code) (outside : inSwitch code = false) : ¬ Departed code := by
  induction code with
  | nil => exact id
  | cons instr rest ih =>
    cases instr with
    | body | returns | fails | sigreturn => exact ih framed.2 framed.1
    | unblockVtAlarm => exact ih framed outside
    | blockVtAlarm =>
      cases inside : inSwitch rest with
      | false => exact ih framed.2 inside
      | true =>
        obtain ⟨later, rfl⟩ := framed.1 inside
        simp [switchThreadsCode, Departed]
    | _ => cases outside

private theorem acts_follow (op : Op Unit) (next : Next) :
    ∃ instr, (op.follow next).filter Instr.acts = [instr] ∧ Delivers op next instr := by
  cases next with
  | fails => exact ⟨_, rfl, .fails⟩
  | finishes => exact ⟨_, by cases masks : op.masks <;> simp [Op.follow, masks, Instr.acts], .finishes⟩
  | switches => exact ⟨_, by cases op <;> simp [Op.follow, switchThreadsCode, Instr.acts], .switches⟩

private theorem acts_leave {target : Status} (other : target ≠ .terminated) (running : Int) :
    (leaveCode target running rest).filter Instr.acts = rest.filter Instr.acts := by
  cases target with
  | terminated => exact absurd rfl other
  | _ => simp [leaveCode, Instr.acts]

end stands

section step
variable {timeline : Timeline} {m m' : Machine} {input : Input} {tid : Int} {rest : Code} {instr : Instr}

private theorem Machine.quiet (code : m.code = instr :: rest) (silent : instr.acts = false) : ¬ m.actsOn tid := by
  rintro ⟨-, other, member, acts⟩
  simp only [code, List.head?_cons, Option.mem_some_iff] at member
  exact nomatch (member ▸ acts).symm.trans silent

private theorem Executes.stands (executed : Executes m rest instr m') (code : m.code = instr :: rest) (owned : Owned m)
    (carried : Carried timeline m) : Stands (timeline ++ [⟨m, .run, m'⟩]) m'.sp m'.code := by
  have here := carried.executing
  have current := owned.current
  rw [code] at here current
  have quiet : instr.acts = false → ∀ tid, (.run : Input) = .run → ¬ m.actsOn tid := fun silent tid _ =>
    Machine.quiet code silent
  cases executed with
  | @body op next lib branch =>
    obtain ⟨last, pending, delivers⟩ := acts_follow op next
    have single := here.single rfl
    refine @Stands.answering _ _ _ op next last ?_ ?_ delivers (branch.not_preempts here.user) ?_
    · simp [pending, single]
    · exact ⟨timeline, _, [], rest, rfl, rfl, rfl, code, rfl, by simp⟩
    · rintro rfl
      simp [Op.follow, switchThreadsCode, Departed]
  | returns | fails => exact .idle (here.single rfl)
  | blockVtAlarm | unblockVtAlarm | sigreturn | sleepersDone | emplaceRunning | insertRunning | setStatus | insertEmpty
    | popFront | countTotal | countQuantum =>
    exact here.quiet (quiet rfl _) (by simp [Instr.acts]) id
  | updateSleepers | sleeper | insertFront => exact here.quiet (quiet rfl _) (by simp [Instr.acts]) id
  | @leave target =>
    by_cases terminated : target = .terminated
    · exact .idle (by simp [terminated, leaveCode, Instr.acts])
    · exact here.quiet (quiet rfl _) (by simp [acts_leave terminated, Instr.acts]) fun departed => absurd departed terminated
  | saveEnvironment | startRunning => exact .idle (by simp [Instr.acts])
  | @siglongjmp target env found =>
    have own := (owned.saved _ _ found).1
    have filed := carried.filed target env found fun _ => by simp [code, Departed]
    exact own.symm ▸ filed.quiet (quiet rfl _) rfl id

private theorem Machine.quiet_departed (framed : Framed m.code) (departed : m.sp = tid → Departed m.code) :
    ¬ m.actsOn tid := by
  rintro ⟨here, instr, member, acts⟩
  obtain ⟨rest, code⟩ := List.head?_eq_some_iff.mp member
  rw [code] at departed framed
  refine not_departed framed ?_ (departed here)
  cases instr <;> first | rfl | cases acts

/-- A context that is in its record before and after a step belongs to a thread
that is elsewhere, or that leaves it for good. -/
private theorem Executes.departed (executed : Executes m rest instr m') (code : m.code = instr :: rest) (owned : Owned m)
    (seated : Seated m) (unsaved : instr ≠ .saveEnvironment tid) (present : m'.lib.live tid)
    (away : m'.sp = tid → Departed m'.code) (here : m.sp = tid) : Departed (instr :: rest) := by
  have current := owned.current
  rw [code] at current
  cases executed with
  | @body op next lib branch =>
    rcases departed_follow (away here) with departed | rfl
    · exact departed
    · obtain ⟨seat, holds, seats⟩ := seated.current
      rw [code] at seats
      obtain ⟨env, found⟩ := State.live_iff_env.mp present
      have gone := terminated_env branch holds
      rw [current.1, here] at gone
      cases gone.symm.trans found
  | leave => exact departed_leave (away here)
  | saveEnvironment => exact absurd (congrArg Instr.saveEnvironment (current.1.trans here)) unsaved
  | startRunning | siglongjmp => trivial
  | _ => exact away here

theorem Moves.carried (moves : Moves m input m') (outside : input = .deliver → inSwitch m.code = false) (owned : Owned m)
    (seated : Seated m) (framed : AllFramed m) (carried : Carried timeline m) :
    Carried (timeline ++ [⟨m, input, m'⟩]) m' := by
  refine ⟨?_, fun tid env found away => ?_⟩
  · cases moves with
    | expire => exact carried.executing.quiet (by simp) rfl id
    | deliver =>
      refine carried.executing.quiet (by simp) ?_ fun departed => absurd departed (not_departed framed.code (outside rfl))
      simp [Machine.deliver, timerHandlerCode, switchThreadsCode, Instr.acts]
    | run code executed => exact executed.stands code owned carried
    | @call op _ user =>
      refine @Stands.called _ _ _ op ?_ user
      cases masks : op.masks <;> simp [Op.code, masks, Instr.acts]
    | sigprocmask user => exact carried.executing.quiet (by simp) rfl id
  · have here := carried.executing
    by_cases saving : ∃ rest, m.code = .saveEnvironment tid :: rest ∧ env.pc = rest
    · obtain ⟨rest, code, rfl⟩ := saving
      have current := owned.current
      rw [code] at here current
      obtain rfl := current.1
      exact here.quiet (fun _ => Machine.quiet code rfl) (by simp [Instr.acts]) False.elim
    · rcases moves.saved_from found with kept | rfl | ⟨rest, code, rfl⟩
      · have departed : m.sp = tid → Departed m.code := by
          intro here
          cases moves with
          | expire => exact away here
          | deliver => simp [Machine.deliver, timerHandlerCode, switchThreadsCode, Departed] at away; exact absurd here away
          | @run instr rest _ code executed =>
            rw [code]
            refine executed.departed code owned seated ?_ (State.live_iff_env.mpr ⟨env, found⟩) away here
            rintro rfl
            cases executed
            rw [State.env_saved, if_pos rfl] at found
            obtain ⟨_, _, rfl⟩ := Option.map_eq_some_iff.mp found
            exact saving ⟨rest, code, rfl⟩
          | @call op => cases masks : op.masks <;> simp [Op.code, masks, Departed, here] at away
          | sigprocmask => exact away here
        exact (carried.filed tid env kept departed).quiet (fun _ => Machine.quiet_departed framed.code departed) rfl id
      · exact .idle rfl
      · exact absurd ⟨rest, code, rfl⟩ saving

end step

section run
variable {start final : Machine} {timeline : Timeline} {instr : Instr} {rest : Code}

private theorem Machine.Starts.carried (starts : start.Starts) : Carried [] start := by
  refine ⟨.idle (by simp [starts.user]), fun tid env found _ => ?_⟩
  obtain ⟨-, rfl⟩ := starts.env_main found
  exact .idle rfl

private theorem run_carried (starts : start.Starts) (run : Run Machine.AtomicSteps start timeline final) :
    AllFramed final ∧ Carried timeline final := by
  induction run with
  | start => exact ⟨starts.allFramed, starts.carried⟩
  | next run taken ih =>
    obtain ⟨moves, outside⟩ := moves_of_atomicStep taken
    obtain ⟨framed, carried⟩ := ih
    have isolated := run_isolated starts run
    exact ⟨moves.allFramed outside framed, moves.carried outside isolated.owned isolated.seated framed carried⟩

/-- The reply that the body decided is what the last statement gives, for the id of a
new thread as long as that thread is there. -/
private theorem Delivers.yields {op : Op Unit} {next : Next} {s : State Code} {reply : Reply} (delivers : Delivers op next instr)
    (user : next ≠ .switches .ready) (stays : next ≠ .switches .terminated) (decided : next.reply = some reply)
    (there : ∀ tid, next = .finishes (.newThread tid) → s.live tid) : Yields s instr reply := by
  cases delivers with
  | fails => exact Option.some.inj decided ▸ .fails
  | @finishes result =>
    cases result with
    | value => exact Option.some.inj decided ▸ .returns rfl
    | newThread tid => exact Option.some.inj decided ▸ .returns (eval_newThread.mpr (there tid rfl))
    | quantumsOf => cases decided
  | @switches target =>
    have other : ¬ (target = .terminated ∨ target = .ready) := fun either =>
      either.elim (fun same => stays (same ▸ rfl)) fun same => user (same ▸ rfl)
    rw [Next.reply, if_neg other] at decided
    exact Option.some.inj decided ▸ .returns rfl

/-- In every run with atomic switches a call that returns or fails is the one that
its thread made last, and ends as its own body decided, whatever the timer and the
other threads did since. It gives the reply that was decided there, but for the count
that `uthread_get_quantums` reads now; that of `uthread_spawn` takes that the new
thread is still there. A call in which the thread terminated itself does not end. -/
theorem call_ends_as_decided (starts : start.Starts) (run : Run Machine.AtomicSteps start timeline final)
    (code : final.code = instr :: rest) (acts : instr.acts = true) (ends : ∀ op, instr ≠ .body op) :
    ∃ op next, LastCall final.sp op next timeline ∧ Delivers op next instr ∧ next ≠ .switches .terminated ∧
      ∀ reply, next.reply = some reply → (∀ tid, next = .finishes (.newThread tid) → final.lib.live tid) →
        Yields final.lib instr reply := by
  obtain ⟨framed, carried⟩ := run_carried starts run
  have here := carried.executing
  have framed := framed.code
  rw [code] at here framed
  have pending : (instr :: rest).filter Instr.acts = instr :: rest.filter Instr.acts := List.filter_cons_of_pos acts
  cases here with
  | idle none => simp [acts] at none
  | called called => exact absurd (List.cons_eq_cons.mp (pending.symm.trans called)).1 (ends _)
  | @answering op next only answering last delivers user gone =>
    obtain rfl := (List.cons_eq_cons.mp (pending.symm.trans answering)).1
    have stays : next ≠ .switches .terminated := by
      refine fun terminated => not_departed framed ?_ (gone terminated)
      cases instr <;> first | rfl | cases acts
    exact ⟨op, next, last, delivers, stays, fun reply decided there => delivers.yields user stays decided there⟩

/-- Thread 1 sleeps, main is preempted, and thread 1 is about to return from its call. -/
theorem call_ends_as_decided_after_sleep : ∃ (timeline : Timeline) (final : Machine) (next : Next),
    final.code = [.returns (.sleep 0) (.value success)] ∧ LastCall final.sp (.sleep 0) next timeline ∧
      (next.reply = some (.returns success) → Yields final.lib (.returns (.sleep 0) (.value success)) (.returns success)) := by
  obtain ⟨timeline, final, run, tested⟩ := Machine.booted.perform_tested
    (spawnAndSwitch ++ [.call (.sleep 0)] ++ .replicate 17 .run ++ [.expire, .deliver] ++ .replicate 15 .run)
    (fun timeline final => (∀ move ∈ timeline, move.label = .deliver → inSwitch move.before.code = false) ∧
      final.code = [.returns (.sleep 0) (.value success)])
    (by decide +kernel)
  obtain ⟨outside, code⟩ := of_decide_eq_true tested
  obtain ⟨op, next, last, delivers, -, gives⟩ := call_ends_as_decided Machine.booted_starts (run_atomic run outside) code rfl
    (by simp)
  cases delivers <;> exact ⟨timeline, final, _, code, last, fun decided => gives _ decided nofun⟩

end run
end Uthreads
