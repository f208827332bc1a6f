import Uthreads.Nim.Proofs.Preemptibility

/-! How long a thread of nim/uthreads.cpp lives in its own code. The value of
`saveEnv` is not looked at, so whoever was switched out dispatches the next thread
when it is jumped to: user code runs in the first quantum of its thread only. -/

namespace Uthreads.Nim
open Transition

/-- Outside of a dispatch, the running thread has been started once. -/
def InFirstQuantum (m : Machine) : Prop :=
  ¬ Dispatches m.code → (m.lib.heap m.lib.running).map Thread.quantums = some 1

section step
variable {m m' : Machine} {toDel : Option Pointer} {popped counted : Bool} {input : Input} {rest : Code} {instr : Instr}

theorem Jumps.dispatches (jumps : Jumps toDel popped counted rest) : Dispatches rest := by
  cases jumps <;> trivial

private theorem Phase.dispatching (phase : Phase m toDel popped counted) (code : m.code = instr :: rest)
    (dispatches : Dispatches [instr]) (jumpless : instr ≠ .startThread) : Dispatches rest := by
  cases phase with
  | user shape =>
    rw [code] at shape
    cases shape <;> exact dispatches.elim
  | leaving shape | saving shape =>
    obtain ⟨rfl, rfl⟩ := List.cons.inj (code.symm.trans shape)
    exact dispatches.elim
  | switching jumps =>
    rw [code] at jumps
    cases jumps with
    | startThread => exact absurd rfl jumpless
    | _ next => exact next.dispatches

private theorem Phase.saved (phase : Phase m toDel popped counted) {pointer : Pointer} (code : m.code = .saveEnv pointer :: rest) :
    Dispatches rest := by
  cases phase with
  | user shape =>
    rw [code] at shape
    cases shape
  | leaving shape => cases code.symm.trans shape
  | saving shape next =>
    obtain ⟨-, rfl⟩ := List.cons.inj (code.symm.trans shape)
    exact next.dispatches
  | switching jumps =>
    rw [code] at jumps
    cases jumps

private theorem Phase.away (phase : Phase m toDel popped counted) (code : m.code = .startThread :: rest) {thread : Thread Code}
    (found : m.lib.heap m.lib.running = some thread) : thread.Away := by
  cases phase with
  | user shape =>
    rw [code] at shape
    cases shape
  | leaving shape | saving shape => cases code.symm.trans shape
  | switching jumps _ away =>
    rw [code] at jumps
    cases jumps
    exact away _ thread found (Option.some_ne_none _)

private theorem Phase.onCpu (phase : Phase m toDel popped counted) (outside : ¬ Dispatches m.code) : OnCpu m := by
  cases phase with
  | user _ cpu | leaving _ _ _ _ cpu | saving _ _ _ _ cpu => exact cpu
  | switching jumps => exact absurd jumps.dispatches outside

private theorem Phase.not_dispatches (phase : Phase m toDel popped counted) (unmasked : sigvtalrm ∉ m.lib.mask) :
    ¬ Dispatches m.code := by
  cases phase with
  | user shape =>
    generalize m.code = code at shape
    cases shape <;> exact id
  | leaving _ _ masked | saving _ _ masked | switching _ masked => exact absurd masked unmasked

private theorem Effect.current {s s' : State Code} {op : Op Code} (effect : Effect s s' op) {thread : Thread Code}
    (present : s.heap s.running = some thread) (kept : s'.heap s'.running ≠ none) : s'.heap s'.running = s.heap s.running := by
  rw [effect.frame.1] at kept ⊢
  cases effect with
  | quiet quiet => rw [quiet.heap]
  | @spawn f address _ fresh _ _ _ _ heap =>
    have other : s.running ≠ address := by
      rintro rfl
      cases present.symm.trans fresh
    rw [heap, Function.update_of_ne other]
  | @terminate tid pointer _ _ _ _ _ _ heap =>
    rcases heap with heap | ⟨-, heap⟩
    · have other : s.running ≠ pointer := by
        rintro rfl
        rw [heap, Function.update_self] at kept
        exact kept rfl
      rw [heap, Function.update_of_ne other]
    · rw [heap]

theorem Executes.inFirstQuantum {choice : Choice} (executed : Executes .afterSaveEnv m choice rest instr m')
    (code : m.code = instr :: rest) (phase : Phase m toDel popped counted)
    {toDel' : Option Pointer} {popped' counted' : Bool} (phase' : Phase m' toDel' popped' counted')
    (first : InFirstQuantum m) : InFirstQuantum m' := by
  unfold InFirstQuantum at first
  rw [code] at first
  cases executed with
  | enters enters =>
    intro _
    rw [enters.entered.heap, enters.entered.running]
    exact first id
  | called _ effect =>
    intro _
    obtain ⟨thread, present, once⟩ := Option.map_eq_some_iff.mp (first id)
    obtain ⟨kept, found, -⟩ := (phase'.onCpu id).current
    rw [effect.current present (found ▸ Option.some_ne_none _), present, Option.map_some, once]
  | returns | unblock | sigreturn | moveOut => exact fun _ => first id
  | saveEnv => exact fun outside => absurd (phase.saved code) outside
  | takeFront | runTimer | countTotal | delete | deleteNull =>
    exact fun outside => absurd (phase.dispatching code trivial (by simp)) outside
  | @startThread thread found =>
    intro outside
    rcases phase.away code found with fresh | parked
    · simp [State.store, fresh.unrun]
    · exact absurd parked.tail.dispatches outside

private theorem Moves.inFirstQuantum (moves : Moves .afterSaveEnv m input m') (phase : Phase m toDel popped counted)
    {toDel' : Option Pointer} {popped' counted' : Bool} (phase' : Phase m' toDel' popped' counted')
    (first : InFirstQuantum m) : InFirstQuantum m' := by
  cases moves with
  | expire => exact first
  | deliver unmasked => exact fun _ => first (phase.not_dispatches (of_decide_eq_false unmasked))
  | run code executed => exact executed.inFirstQuantum code phase phase' first
  | call user | sigprocmask user => exact fun _ => first (user ▸ id)

end step

section run
variable {start final : Machine} {timeline : List (Move Machine Input)}

theorem Machine.Starts.inFirstQuantum (starts : start.Starts) : InFirstQuantum start := by
  obtain ⟨quantumUsecs, address, mask, -, done, -⟩ := starts
  obtain ⟨fresh, -⟩ := uthreadInit_fresh done
  intro _
  rw [fresh.heap, fresh.running, Function.update_self]
  rfl

/-- If a jump to a saved context makes the `sigsetjmp` of `Thread::saveEnv` return again
where it was called, a thread is in its first quantum whenever it executes anything but
a dispatch, in every run and wherever the signal arrives. -/
theorem user_code_in_first_quantum (starts : start.Starts) (run : Run Machine.Steps start timeline final)
    (outside : ¬ Dispatches final.code) : (final.lib.heap final.lib.running).map Thread.quantums = some 1 := by
  suffices kept : InFirstQuantum final from kept outside
  clear outside
  induction run with
  | start => exact starts.inFirstQuantum
  | next run taken ih =>
    obtain ⟨_, _, _, phase, -⟩ := run_phase starts run
    obtain ⟨_, _, _, phase', -⟩ := run_phase starts (run.next taken)
    exact (moves_of_step (steps_iff.mp taken)).inFirstQuantum phase phase' ih

/-- Thread 1 executes its own code after main was preempted. -/
theorem user_code_in_first_quantum_spawned : ∃ final : Machine, final.sp = 1 ∧ final.code = [] ∧
    (final.lib.heap final.lib.running).map Thread.quantums = some 1 := by
  obtain ⟨timeline, final, run, tested⟩ := compute_tested next_steps started
    ([.call (.spawn ()), .run ⟨2, []⟩, .run ⟨3, []⟩, .expire, .deliver] ++ List.replicate 6 (.run ⟨3, []⟩))
    (fun _ final => final.sp = 1 ∧ final.code = []) (by decide +kernel)
  obtain ⟨stack, user⟩ := of_decide_eq_true tested
  exact ⟨final, stack, user, user_code_in_first_quantum started_starts run (user ▸ id)⟩

end run
end Uthreads.Nim
