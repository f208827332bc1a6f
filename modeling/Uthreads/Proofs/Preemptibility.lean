import Uthreads.Proofs.Statements

/-! Where SIGVTALRM is masked, statement by statement. A context carries its own
mask away and back, so whether a call ends unmasked is decided by the code that
the context has left. -/

namespace Uthreads
open Transition

/-- Code that is entered with the signal masked or not, unmasks it by the time a
call returns or a handler ends. The tail of `uthread_sleep` leaves it masked. -/
def Restores : Bool → Code → Prop
  | _, [] => True
  | _, .blockVtAlarm :: rest => Restores true rest
  | _, .unblockVtAlarm :: rest => Restores false rest
  | masked, .body op :: rest => rest = [] ∧ (op.masks = true → masked = true)
  | masked, .returns op _ :: rest => rest = [] ∧ (op.masks = true → (masked = true ↔ ∃ numQuantums, op = .sleep numQuantums))
  | _, .fails _ _ :: rest => rest = []
  | _, .sigreturn mask :: rest => sigvtalrm ∉ mask ∧ Restores false rest
  | _, .leave .terminated :: _ => True
  | masked, .leave _ :: rest => masked = true ∧ Restores masked rest
  | masked, .saveEnvironment _ :: rest => masked = true ∧ Restores masked rest
  | _, .startRunning :: _ => True
  | _, .siglongjmp _ :: _ => True
  | masked, _ :: rest => Restores masked rest

def Machine.masked (m : Machine) : Bool := decide (sigvtalrm ∈ m.lib.mask)

structure Restored (m : Machine) : Prop where
  current : Restores m.masked m.code
  saved : ∀ tid env, m.lib.env tid = some env → Restores (decide (sigvtalrm ∈ env.savedMask)) env.pc

section restored
variable {m : Machine}

theorem Machine.not_masked (deliverable : m.deliverable = true) : m.masked = false :=
  decide_eq_false (m.unmasked_of_deliverable deliverable)

theorem Restored.interrupted (restored : Restored m) (deliverable : m.deliverable = true) : Restores false m.code := by
  have current := restored.current
  rwa [Machine.not_masked deliverable] at current

/-- User code made the call, so nothing is left below its body. -/
theorem Restored.body {op : Op Unit} {rest : Code} (restored : Restored m) (code : m.code = .body op :: rest) : rest = [] := by
  have current := restored.current
  rw [code] at current
  exact current.1

end restored

section follow
variable {s s' : State Code} {op : Op Unit} {next : Next}

private theorem finishes_not_sleep {result : Returned} (branch : Branch s op.enter (.finishes result) s') (numQuantums : Int) :
    op ≠ .sleep numQuantums := by
  rintro rfl
  cases branch

private theorem switches_masked {target : Status} (branch : Branch s op.enter (.switches target) s')
    (other : target ≠ .terminated) : op.masks = true ∧ s'.mask = s.mask := by
  generalize same : op.enter = entered at branch
  cases branch with
  | terminateRunning => exact absurd rfl other
  | blockRunning => cases op <;> cases same; exact ⟨rfl, rfl⟩
  | sleep => cases op <;> cases same; exact ⟨rfl, rfl⟩
  | preempt => cases op <;> cases same; exact ⟨rfl, rfl⟩

private theorem follow_restores (branch : Branch s op.enter next s')
    (masked : op.masks = true → decide (sigvtalrm ∈ s.mask) = true) :
    Restores (decide (sigvtalrm ∈ s'.mask)) (op.follow next) := by
  cases next with
  | fails message => exact rfl
  | finishes result =>
    have awake := finishes_not_sleep branch
    cases masks : op.masks <;> simp [Op.follow, masks, Restores, awake]
  | switches target =>
    by_cases other : target = .terminated
    · subst other
      trivial
    · obtain ⟨masks, kept⟩ := switches_masked branch other
      have masked := masked masks
      rw [← kept] at masked
      cases op <;> cases target <;> simp_all [Op.follow, switchThreadsCode, Restores]

end follow

section step
variable {m m' : Machine} {input : Input}

private theorem Executes.restores {rest : Code} {instr : Instr} (executed : Executes m rest instr m')
    (restored : Restored m) (code : m.code = instr :: rest) : Restores m'.masked m'.code := by
  have current := restored.current
  rw [code] at current
  cases executed with
  | blockVtAlarm => simpa [Machine.masked, Restores] using current
  | unblockVtAlarm => simpa [Machine.masked, Restores] using current
  | body branch =>
    obtain ⟨rfl, masked⟩ := current
    exact (List.append_nil _).symm ▸ follow_restores branch masked
  | returns => exact current.1 ▸ trivial
  | fails => exact Eq.subst (motive := Restores _) (Eq.symm current) trivial
  | sigreturn => simpa [Machine.masked, current.1] using current.2
  | @leave target =>
    cases target with
    | terminated => trivial
    | _ => exact ⟨current.1, current.2⟩
  | saveEnvironment | startRunning => trivial
  | siglongjmp saved => exact restored.saved _ _ saved
  | _ => exact current

/-- No statement and no handler breaks the discipline. -/
theorem Moves.restored (moves : Moves m input m') (restored : Restored m) : Restored m' := by
  refine ⟨?_, fun tid env found => ?_⟩
  · cases moves with
    | expire => exact restored.current
    | deliver deliverable => exact ⟨rfl, m.unmasked_of_deliverable deliverable, restored.interrupted deliverable⟩
    | run code executed => exact executed.restores restored code
    | @call op user other => cases masks : op.masks <;> simp [Op.code, masks, Restores]
    | sigprocmask user => exact user ▸ trivial
  · rcases moves.saved_from found with kept | rfl | ⟨rest, code, rfl⟩
    · exact restored.saved tid env kept
    · trivial
    · have current := restored.current
      rw [code] at current
      exact current.2

theorem Machine.Starts.restored (starts : m.Starts) : Restored m := by
  refine ⟨?_, fun tid env found => ?_⟩
  · exact starts.user ▸ trivial
  · obtain ⟨-, rfl⟩ := starts.env_main found
    trivial

end step

section run
variable {start final : Machine} {timeline : Timeline}

theorem run_restored (starts : start.Starts) (run : Run Machine.Steps start timeline final) : Restored final :=
  run.invariant (fun _ => True) (fun _ _ => trivial) Restored starts.restored
    fun _ _ taken restored => (moves_of_step taken).restored restored

/-- A call that masks the signal returns to user code. -/
def Returning (op : Op Unit) (move : Move Machine Input) : Prop :=
  op.masks = true ∧ move.label = .run ∧ ∃ result rest, move.before.code = .returns op result :: rest

/-- The handler returns to the code that it interrupted. -/
def HandlerReturning (move : Move Machine Input) : Prop :=
  move.label = .run ∧ ∃ mask rest, move.before.code = .sigreturn mask :: rest

/-- In every run, every successful return leaves the signal unmasked except that
of `uthread_sleep`, which leaves it masked; the handler always gives it back. -/
theorem returns_preemptible_iff (starts : start.Starts) (run : Run Machine.Steps start timeline final) :
    ∀ move ∈ timeline,
      (∀ op, Returning op move → (sigvtalrm ∉ move.after.lib.mask ↔ ∀ numQuantums, op ≠ .sleep numQuantums)) ∧
      (HandlerReturning move → sigvtalrm ∉ move.after.lib.mask) := by
  intro move member
  obtain ⟨first, last, rfl, earlier, taken, -⟩ := run.at_mem member
  have current := (run_restored starts earlier).current
  refine ⟨fun op returning => ?_, fun returning => ?_⟩
  · obtain ⟨masks, label, result, rest, code⟩ := returning
    have executed := executes_of_run (label ▸ taken) code
    rw [code] at current
    have returned := current.2 masks
    generalize move.after = after at executed ⊢
    cases executed
    simpa [Machine.masked] using not_congr returned
  · obtain ⟨label, mask, rest, code⟩ := returning
    have executed := executes_of_run (label ▸ taken) code
    rw [code] at current
    generalize move.after = after at executed ⊢
    cases executed
    exact current.1

end run

/-- Thread 1 blocks itself, and returns after main has resumed it and is preempted. -/
theorem returns_preemptible_blocked_thread : ∃ timeline final, Run Machine.Steps Machine.booted timeline final ∧
    ∃ move ∈ timeline, Returning (.block 1) move ∧ move.after.sp = 1 ∧ sigvtalrm ∉ move.after.lib.mask := by
  obtain ⟨timeline, final, run, tested⟩ := Machine.booted.perform_tested
    (spawnAndSwitch ++ [.call (.block 1)] ++ .replicate 18 .run ++
      [.call (.resume 1)] ++ .replicate 4 .run ++ [.expire, .deliver] ++ .replicate 17 .run)
    (fun timeline _ => timeline.getLast?.any fun move =>
      move.label = .run ∧ move.before.code = [.returns (.block 1) (.value success)] ∧ move.after.sp = 1)
    (by decide +kernel)
  obtain ⟨move, last, tested⟩ := (Option.any_eq_true _ _).mp tested
  obtain ⟨label, code, stack⟩ := of_decide_eq_true tested
  have member := List.mem_of_getLast? last
  have returning : Returning (.block 1) move := ⟨rfl, label, _, _, code⟩
  have unmasked := ((returns_preemptible_iff Machine.booted_starts run move member).1 _ returning).mpr (by simp)
  exact ⟨timeline, final, run, move, member, returning, stack, unmasked⟩

/-- Thread 1 calls `uthread_sleep(0)` with the signal unmasked; when it is next
resumed the call returns with the signal masked. -/
theorem sleep_returns_masked : ∃ start timeline final, start.Starts ∧ Run Machine.Steps start timeline final ∧
    (∃ move ∈ timeline, move.label = .call (.sleep 0) ∧ move.before.sp = 1 ∧ sigvtalrm ∉ move.before.lib.mask) ∧
    ∃ move ∈ timeline, Returning (.sleep 0) move ∧ move.before.code = [.returns (.sleep 0) (.value success)] ∧
      move.after.sp = 1 ∧ ¬ sigvtalrm ∉ move.after.lib.mask := by
  obtain ⟨timeline, final, run, tested⟩ := Machine.booted.perform_tested
    (spawnAndSwitch ++ [.call (.sleep 0)] ++ .replicate 17 .run ++ [.expire, .deliver] ++ .replicate 16 .run)
    (fun timeline _ =>
      (timeline.any fun move =>
        move.label = .call (.sleep 0) ∧ move.before.sp = 1 ∧ sigvtalrm ∉ move.before.lib.mask) ∧
      timeline.getLast?.any fun move =>
        move.label = .run ∧ move.before.code = [.returns (.sleep 0) (.value success)] ∧ move.after.sp = 1 ∧
          sigvtalrm ∈ move.after.lib.mask)
    (by decide +kernel)
  obtain ⟨called, returned⟩ := of_decide_eq_true tested
  obtain ⟨call, earlier, calling⟩ := List.any_eq_true.mp called
  obtain ⟨move, last, returned⟩ := (Option.any_eq_true _ _).mp returned
  obtain ⟨label, code, stack, masked⟩ := of_decide_eq_true returned
  exact ⟨_, timeline, final, Machine.booted_starts, run, ⟨call, earlier, of_decide_eq_true calling⟩,
    move, List.mem_of_getLast? last, ⟨rfl, label, _, _, code⟩, code, stack, not_not_intro masked⟩

end Uthreads
