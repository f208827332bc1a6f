import Uthreads.Proofs.Statements

/-! Whose stack executes, and whose record it is saved in. Within a switch the
two are the same thread only as long as `running_tid_` has not moved on, so
everything depends on where a handler starts. -/

namespace Uthreads
open Transition

/-- On the stack of `sp`, with `running` the current value of `running_tid_`, the
code saves and counts no other thread than it should. Between the choice of the
next thread and the jump to it the two differ. -/
def Owns (sp : Int) : Int → Code → Prop
  | running, [] => running = sp
  | running, .insertReadyToRunning :: rest => running = sp ∧ ∀ next, Owns sp next rest
  | running, .popFront :: rest => Owns sp running rest
  | running, .setStatus _ :: rest => Owns sp running rest
  | running, .countTotal :: rest => Owns sp running rest
  | running, .unblockVtAlarm :: rest => Owns sp running rest
  | _, .saveEnvironment origTid :: rest => origTid = sp ∧ Owns sp sp rest
  | _, .startRunning :: _ => True
  | running, .countQuantum tid :: rest => tid = running ∧ Owns sp running rest
  | running, .siglongjmp tid :: _ => tid = running
  | running, _ :: rest => running = sp ∧ Owns sp running rest

/-- Every context, executing or saved, is that of the thread it is filed under. -/
structure Owned (m : Machine) : Prop where
  current : Owns m.sp m.lib.runningTid m.code
  saved : ∀ tid env, m.lib.env tid = some env → env.sp = tid ∧ Owns tid tid env.pc

section code
variable {sp running : Int} {rest : Code}

private theorem follow_owns (same : running = sp) (owns : Owns sp running rest) (op : Op Unit) (next : Next) :
    Owns sp running (op.follow next ++ rest) := by
  cases next with
  | fails message => exact ⟨same, owns⟩
  | finishes result => cases masks : op.masks <;> simpa [Op.follow, masks, Owns, same] using same ▸ owns
  | switches target => cases op <;> simpa [Op.follow, switchThreadsCode, Owns, same] using same ▸ owns

private theorem leave_owns (same : running = sp) (owns : Owns sp running rest) (target : Status) :
    Owns sp running (leaveCode target running rest) := by
  subst same
  cases target <;> simp [leaveCode, Owns, owns]

private theorem handler_owns (same : running = sp) (owns : Owns sp running rest) (mask : Finset Signal) :
    Owns sp running (timerHandlerCode ++ .sigreturn mask :: rest) :=
  ⟨same, same, same, same, owns⟩

end code

section step
variable {m m' : Machine} {input : Input}

private theorem Executes.owns {rest : Code} {instr : Instr} (executed : Executes m rest instr m')
    (owned : Owned m) (code : m.code = instr :: rest) : Owns m'.sp m'.lib.runningTid m'.code := by
  have current := owned.current
  rw [code] at current
  cases executed with
  | body branch => exact branch.runningTid_eq.symm ▸ follow_owns current.1 current.2 _ _
  | leave => exact leave_owns current.1 current.2 _
  | insertEmpty | insertFront => exact current.2 _
  | saveEnvironment => trivial
  | startRunning => exact ⟨rfl, rfl⟩
  | siglongjmp saved =>
    obtain ⟨own, owns⟩ := owned.saved _ _ saved
    exact own.symm ▸ (show _ = m.lib.runningTid from current) ▸ owns
  | updateSleepers | sleeper | setStatus | popFront | countTotal | unblockVtAlarm => exact current
  | _ => exact current.2

/-- The ownership survives every step, provided that a handler starts while the
thread that executes is still the running one. -/
theorem Moves.owned (moves : Moves m input m') (settled : input = .deliver → m.lib.runningTid = m.sp)
    (owned : Owned m) : Owned m' := by
  refine ⟨?_, fun tid env found => ?_⟩
  · cases moves with
    | expire => exact owned.current
    | deliver deliverable => exact handler_owns (settled rfl) owned.current _
    | run code executed => exact executed.owns owned code
    | @call op user other =>
      have same := owned.current
      rw [user] at same
      change m.lib.runningTid = m.sp at same
      cases masks : op.masks <;> simp [Op.code, masks, Owns, same]
    | sigprocmask user => exact owned.current
  · rcases moves.saved_from found with kept | rfl | ⟨rest, code, rfl⟩
    · exact owned.saved tid env kept
    · exact ⟨rfl, rfl⟩
    · have current := owned.current
      rw [code] at current
      obtain ⟨rfl, owns⟩ := current
      exact ⟨rfl, owns⟩

theorem Machine.Starts.owned (starts : m.Starts) : Owned m := by
  refine ⟨?_, fun tid env found => ?_⟩
  · rw [starts.user, starts.stack]
    exact starts.running
  · obtain ⟨rfl, rfl⟩ := starts.env_main found
    exact ⟨rfl, rfl⟩

end step

section run
variable {start final : Machine} {timeline : Timeline}

/-- No handler starts between the choice of the next thread and the jump to it. -/
def Settled (timeline : Timeline) : Prop :=
  ∀ move ∈ timeline, move.label = .deliver → move.before.lib.runningTid = move.before.sp

instance (timeline : Timeline) : Decidable (Settled timeline) :=
  inferInstanceAs (Decidable (∀ move ∈ timeline, move.label = .deliver → move.before.lib.runningTid = move.before.sp))

theorem run_owned (starts : start.Starts) (run : Run Machine.Steps start timeline final) (settled : Settled timeline) :
    Owned final :=
  run.invariant (fun move => move.label = .deliver → move.before.lib.runningTid = move.before.sp) settled Owned
    starts.owned fun _ settled taken owned => (moves_of_step taken).owned settled owned

/-- The executing thread saves its context in the record of `tid`. -/
def Saving (tid : Int) (move : Move Machine Input) : Prop :=
  move.label = .run ∧ ∃ rest, move.before.code = .saveEnvironment tid :: rest

/-- The executing thread jumps to the context in the record of `tid`. -/
def Resuming (tid : Int) (move : Move Machine Input) : Prop :=
  move.label = .run ∧ ∃ rest, move.before.code = .siglongjmp tid :: rest

/-- If every handler of a run starts on the stack of the running thread, each
save is the executing thread's own, each resumption continues the thread it
names, and no record ever holds the context of another thread. -/
theorem contexts_owned (starts : start.Starts) (run : Run Machine.Steps start timeline final)
    (settled : Settled timeline) :
    (∀ move ∈ timeline, ∀ tid, Saving tid move → move.before.sp = tid) ∧
    (∀ move ∈ timeline, ∀ tid, Resuming tid move → move.after.sp = tid) ∧
    ∀ tid env, final.lib.env tid = some env → env.sp = tid := by
  refine ⟨fun move member tid saving => ?_, fun move member tid resuming => ?_, ?_⟩
  · obtain ⟨first, last, rfl, earlier, -, -⟩ := run.at_mem member
    obtain ⟨-, rest, code⟩ := saving
    have current := (run_owned starts earlier fun _ member => settled _ (by simp [member])).current
    rw [code] at current
    exact current.1.symm
  · obtain ⟨first, last, rfl, earlier, taken, -⟩ := run.at_mem member
    obtain ⟨label, rest, code⟩ := resuming
    have saved := (run_owned starts earlier fun _ member => settled _ (by simp [member])).saved
    have executed := executes_of_run (label ▸ taken) code
    generalize move.after = after at executed ⊢
    cases executed with
    | siglongjmp found => exact (saved _ _ found).1
  · exact fun tid env found => ((run_owned starts run settled).saved tid env found).1

end run

private def resumesAt (tid : Int) (move : Move Machine Input) : Bool :=
  move.label = .run ∧ move.before.code.head? = some (.siglongjmp tid)

private def savesAt (tid : Int) (move : Move Machine Input) : Bool :=
  move.label = .run ∧ move.before.code.head? = some (.saveEnvironment tid)

private theorem resuming_of_resumesAt {tid : Int} {move : Move Machine Input} (test : resumesAt tid move = true) :
    Resuming tid move := by
  obtain ⟨label, code⟩ := of_decide_eq_true test
  exact ⟨label, List.head?_eq_some_iff.mp code⟩

private theorem saving_of_savesAt {tid : Int} {move : Move Machine Input} (test : savesAt tid move = true) :
    Saving tid move := by
  obtain ⟨label, code⟩ := of_decide_eq_true test
  exact ⟨label, List.head?_eq_some_iff.mp code⟩

/-- Main is preempted in favour of thread 1 and gets the processor back when that
is preempted as well. -/
theorem contexts_owned_two_preemptions : ∃ timeline final, Run Machine.Steps Machine.booted timeline final ∧
    final.lib.runningTid = 0 ∧ ∃ move ∈ timeline, Resuming 0 move ∧ move.after.sp = 0 := by
  obtain ⟨timeline, final, run, tested⟩ := Machine.booted.perform_tested
    (spawnAndSwitch ++ [.expire, .deliver] ++ .replicate 15 .run)
    (fun timeline final => Settled timeline ∧ final.lib.runningTid = 0 ∧ timeline.any (resumesAt 0))
    (by decide +kernel)
  obtain ⟨settled, running, resumed⟩ := of_decide_eq_true tested
  obtain ⟨move, member, resumes⟩ := List.any_eq_true.mp resumed
  have resuming := resuming_of_resumesAt resumes
  exact ⟨timeline, final, run, running, move, member, resuming,
    (contexts_owned Machine.booted_starts run settled).2.1 move member 0 resuming⟩

/-- The signal arrives again after main has made thread 1 the running one and
unmasked the signal, but before it jumps. The handler takes the stack of main
for that of thread 1 and saves it there. -/
theorem handler_saves_main_as_thread : ∃ start timeline final, start.Starts ∧ Run Machine.Steps start timeline final ∧
    ∃ move ∈ timeline, Saving 1 move ∧ move.before.sp = 0 ∧
      (move.before.lib.env 1).map (fun env => env.sp) = some 1 ∧ (final.lib.env 1).map (fun env => env.sp) = some 0 := by
  obtain ⟨timeline, final, run, tested⟩ := Machine.booted.perform_tested
    ([.call (.spawn (some ()))] ++ .replicate 4 .run ++ [.expire, .deliver] ++ .replicate 12 .run ++
      [.expire, .deliver] ++ .replicate 11 .run)
    (fun timeline final => (final.lib.env 1).map (fun env => env.sp) = some 0 ∧ timeline.any fun move =>
      savesAt 1 move ∧ move.before.sp = 0 ∧ (move.before.lib.env 1).map (fun env => env.sp) = some 1)
    (by decide +kernel)
  obtain ⟨overwritten, saved⟩ := of_decide_eq_true tested
  obtain ⟨move, member, saves⟩ := List.any_eq_true.mp saved
  obtain ⟨saves, stack, before⟩ := of_decide_eq_true saves
  exact ⟨_, timeline, final, Machine.booted_starts, run, move, member, saving_of_savesAt saves, stack, before, overwritten⟩

end Uthreads
