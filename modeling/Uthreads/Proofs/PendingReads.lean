import Uthreads.Proofs.Partition
import Uthreads.Proofs.SelfTermination
import Uthreads.Proofs.Suspension

/-! Records that are read after the signal is unmasked. `uthread_get_quantums`
reads the record that its check found, `uthread_spawn` that of the thread it
created, and both may lose the processor before the read. -/

namespace Uthreads
open Transition

@[simp] def Instr.record : Instr → Option Int
  | .returns _ result => result.record
  | _ => none

/-- The code is past the check and still has to read the record of `tid`. -/
def Expects (tid : Int) (code : Code) : Prop := ∃ instr ∈ code, instr.record = some tid

instance (tid : Int) (code : Code) : Decidable (Expects tid code) :=
  inferInstanceAs (Decidable (∃ instr ∈ code, instr.record = some tid))

@[simp] theorem expects_nil (tid : Int) : ¬ Expects tid [] := fun ⟨_, member, _⟩ => nomatch member

@[simp] theorem expects_cons {tid : Int} {instr : Instr} {rest : Code} :
    Expects tid (instr :: rest) ↔ instr.record = some tid ∨ Expects tid rest :=
  List.exists_mem_cons_iff ..

@[simp] theorem expects_append {tid : Int} {first last : Code} :
    Expects tid (first ++ last) ↔ Expects tid first ∨ Expects tid last := by
  simp only [Expects, List.mem_append, or_and_right, exists_or]

/-- A call on the stack `sp` still has to read the record of `tid`: the call that
executes, or one that goes on when its thread is resumed. -/
def Expected (sp tid : Int) (m : Machine) : Prop :=
  m.sp = sp ∧ Expects tid m.code ∨
    ∃ other env, m.Suspended other env ∧ env.sp = sp ∧ Expects tid env.pc

/-- The next statement is the existence check of a `uthread_get_quantums` that
succeeds, or it creates the thread of a `uthread_spawn`. -/
def Checks (tid : Int) (m : Machine) (input : Input) : Prop :=
  input = .run ∧ (∃ rest, m.code = .body (.getQuantums tid) :: rest) ∧ m.lib.live tid ∨
    HandsOut tid m input ∧ ¬ m.lib.live tid

/-- The call on the stack `sp` has found or created the record of `tid` at `check`,
and has had to read it ever since. -/
structure AwaitsRead (timeline : Timeline) (sp tid : Int) (check : Move Machine Input) (later : Timeline) : Prop where
  cut : ∃ first, timeline = first ++ check :: later
  checks : Checks tid check.before check.label
  stack : check.before.sp = sp
  found : check.after.lib.live tid
  expected : ∀ move ∈ check :: later, Expected sp tid move.after

section branch
variable {ε : Type} {s s' : State ε} {tid : Int}

/-- A read is only prepared for a record that is there. -/
private theorem Branch.prepares {op : Op ε} {result : Returned} (branch : Branch s op (.finishes result) s')
    (record : result.record = some tid) :
    s'.live tid ∧ (op = .getQuantums tid ∧ s.live tid ∨
      s.freeIds.toList.head? = some tid ∧ ∃ entryPoint, op = .spawn (some entryPoint)) := by
  cases branch with
  | @spawn new entryPoint least =>
    obtain rfl := Option.some.inj record
    refine ⟨?_, .inr ⟨least, entryPoint, rfl⟩⟩
    rw [State.live_iff_status, State.status_enroll]
    by_cases live : s.live new
    · simpa [live] using State.live_iff_status.mp live
    · simp [live]
  | getQuantums live =>
    obtain rfl := Option.some.inj record
    exact ⟨live, .inl ⟨rfl, live⟩⟩
  | _ => cases record

private theorem follow_expects {op : Op Unit} {next : Next} (expects : Expects tid (op.follow next)) :
    ∃ result, next = .finishes result ∧ result.record = some tid := by
  cases next with
  | fails message => simp [Op.follow] at expects
  | finishes result =>
    refine ⟨result, rfl, ?_⟩
    cases masks : op.masks <;> simpa [Op.follow, masks] using expects
  | switches target => cases op <;> simp [Op.follow, switchThreadsCode, Returned.record] at expects

private theorem leave_expects {target : Status} {running : Int} {rest : Code}
    (expects : Expects tid (leaveCode target running rest)) : Expects tid rest := by
  cases target <;> simp [leaveCode] at expects
  all_goals exact expects

/-- A record is only deleted by a termination, which prepares no read and leaves
the contexts of the other threads alone. -/
private theorem Branch.deletes {op : Op ε} {next : Next} (branch : Branch s op next s') (live : s.live tid)
    (gone : ¬ s'.live tid) :
    op = .terminate tid ∧ (∀ result, next = .finishes result → result.record = none) ∧
      ∀ other, other ≠ tid → s'.env other = s.env other := by
  have removed : ∀ {other}, ¬ (s.remove other).live tid → other = tid := by
    intro other gone
    by_contra different
    exact gone ((State.live_remove ..).mpr ⟨Ne.symm different, live⟩)
  have kept : ∀ other, other ≠ tid → (s.remove tid).env other = s.env other := by
    intro other different
    simp [State.remove, State.env, different]
  cases branch with
  | @spawn new entryPoint least =>
    rw [State.live_iff_status, State.status_enroll] at gone
    obtain ⟨status, found⟩ := State.live_iff_status.mp live
    split at gone
    · exact absurd ⟨_, rfl⟩ gone
    · exact absurd ⟨_, found⟩ gone
  | terminateRunning other found =>
    obtain rfl := removed gone
    refine ⟨rfl, ?_, kept⟩
    intro result same
    cases same
  | terminateReady | terminateBlocked | terminateRest =>
    obtain rfl := removed gone
    refine ⟨rfl, fun result same => ?_, kept⟩
    cases same
    rfl
  | blockReady | resumeBlocked | sleep => exact absurd ((State.live_withStatus ..).mpr live) gone
  | _ => exact absurd live gone

end branch

section step
variable {m m' : Machine} {input : Input} {sp tid : Int} {rest : Code} {instr : Instr}

private theorem Executes.expects (executed : Executes m rest instr m') (code : m.code = instr :: rest)
    (expects : Expects tid m'.code) :
    m'.sp = m.sp ∧ Expects tid rest ∨ Expected m'.sp tid m ∨
      m'.sp = m.sp ∧ m'.lib.live tid ∧ (Checks tid m .run ∨ HandsOut tid m .run) := by
  cases executed with
  | @body op next lib branch =>
    refine (expects_append.mp expects).symm.imp (fun left => ⟨rfl, left⟩) fun prepared => .inr ?_
    obtain ⟨result, rfl, record⟩ := follow_expects prepared
    obtain ⟨present, ⟨same, live⟩ | ⟨least, entryPoint, same⟩⟩ := branch.prepares record
    · cases op <;> simp only [Op.enter, reduceCtorEq, Op.getQuantums.injEq] at same
      subst same
      exact ⟨rfl, present, .inl (.inl ⟨rfl, ⟨_, code⟩, live⟩)⟩
    · cases op <;> simp only [Op.enter, reduceCtorEq, Op.spawn.injEq] at same
      obtain ⟨_, rfl, _⟩ := Option.map_eq_some_iff.mp same
      exact ⟨rfl, present, .inr ⟨rfl, least, (), _, code⟩⟩
  | leave => exact .inl ⟨rfl, leave_expects expects⟩
  | siglongjmp found => exact .inr (.inl (.inr ⟨_, _, ⟨by simp [Machine.executing, code, executing], found⟩, rfl, expects⟩))
  | updateSleepers | sleeper | insertFront => exact .inl ⟨rfl, by simpa using expects⟩
  | saveEnvironment | startRunning => simp at expects
  | _ => exact .inl ⟨rfl, expects⟩

private theorem Moves.expected (moves : Moves m input m') (restored : Restored m) (marked : Marked m)
    (expected : Expected sp tid m') :
    Expected sp tid m ∨ m.sp = sp ∧ m'.lib.live tid ∧ (Checks tid m input ∨ HandsOut tid m input) := by
  rcases expected with ⟨stack, expects⟩ | ⟨other, env, suspended, stack, expects⟩
  · cases moves with
    | expire | sigprocmask => exact .inl (.inl ⟨stack, expects⟩)
    | deliver =>
      have left : Expects tid m.code := by simpa [Machine.deliver, timerHandlerCode, switchThreadsCode] using expects
      exact .inl (.inl ⟨stack, left⟩)
    | run code executed =>
      rcases executed.expects code expects with ⟨same, left⟩ | earlier | ⟨same, live, checks⟩
      · exact .inl (.inl ⟨same ▸ stack, code ▸ expects_cons.mpr (.inr left)⟩)
      · exact .inl (stack ▸ earlier)
      · exact .inr ⟨same ▸ stack, live, checks⟩
    | @call op => cases masks : op.masks <;> simp [Op.code, masks] at expects
  · refine .inl ?_
    rcases moves.suspended_from restored marked suspended with earlier | fresh | ⟨rest, code, rfl⟩
    · exact .inr ⟨other, env, earlier, stack, expects⟩
    · exact absurd (fresh ▸ expects) (expects_nil tid)
    · exact .inl ⟨stack, code ▸ expects_cons.mpr (.inr expects)⟩

/-- A record goes by the body of a termination. -/
theorem Moves.deletes (moves : Moves m input m') (live : m.lib.live tid) (gone : ¬ m'.lib.live tid) :
    input = .run ∧ ∃ rest, m.code = .body (.terminate tid) :: rest ∧ (Expects tid m'.code → Expects tid rest) := by
  cases moves with
  | run code executed =>
    cases executed with
    | @body op next lib branch =>
      obtain ⟨same, finishes, -⟩ := branch.deletes live gone
      cases op <;> simp only [Op.enter, reduceCtorEq, Op.terminate.injEq] at same
      subst same
      refine ⟨rfl, _, code, fun expects => ?_⟩
      refine (expects_append.mp expects).resolve_left fun prepared => ?_
      obtain ⟨result, rfl, record⟩ := follow_expects prepared
      cases (finishes result rfl).symm.trans record
    | sleeper => exact absurd ((State.live_wake ..).mpr live) gone
    | setStatus => exact absurd ((State.live_withStatus ..).mpr live) gone
    | saveEnvironment | countQuantum => exact absurd ((State.live_modifyThread ..).mpr live) gone
    | _ => exact absurd live gone
  | _ => exact absurd live gone

end step

section run
variable {start final : Machine} {timeline : Timeline}

section awaits
variable {sp tid : Int} {check : Move Machine Input} {later : Timeline}

theorem AwaitsRead.live (run : Run Moves start timeline final) (awaits : AwaitsRead timeline sp tid check later)
    (alive : ∀ move ∈ check :: later, move.after.lib.live tid) : final.lib.live tid := by
  obtain ⟨first, rfl⟩ := awaits.cut
  rcases run.at_move.2.2.final_mem with rfl | ⟨move, member, rfl⟩
  · exact alive check List.mem_cons_self
  · exact alive move (List.mem_cons_of_mem _ member)

end awaits

end run

section runs

private def Code.terminates : Code → Bool
  | .body (.terminate _) :: _ => true
  | _ => false

end runs
end Uthreads
