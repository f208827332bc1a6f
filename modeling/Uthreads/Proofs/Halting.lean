import Uthreads.Proofs.PendingReads
import Uthreads.Proofs.Refinement

/-! What stops uthreads.cpp. The statements look threads up without a test, and take
the head of the queue. Only two of them ever fail: the exit, and a read that comes
after the signal was unmasked. -/

namespace Uthreads
open Fallible Transition

section call
variable {ε : Type} {one two s : State ε} {op : Op ε} {halt : Halt}

theorem WellFormed.alike (valid : WellFormed one) (alike : Alike one two) : WellFormed two :=
  valid.frame (fun tid => (alike.status tid).symm) alike.ready.symm alike.sleepers.symm alike.blocked.symm alike.free.symm
    alike.running.symm

end call

section machine
variable {m m' : Machine} {input : Input} {rest : Code} {instr : Instr} {halt : Halt}

private theorem switch_halts (halted : m.execute rest instr = .error halt) (inside : inSwitch (instr :: rest) = true) :
    complete m.sp (instr :: rest) m.lib = .error halt := by
  have left : ∀ {x : Except Halt (State Code)} {f : State Code → Machine}, (do let lib ← x; .ok (f lib)) = .error halt →
      x = .error halt := by
    intro x f halted
    rcases bind_error.mp halted with lost | ⟨_, -, goes⟩
    · exact lost
    · cases goes
  cases instr with
  | blockVtAlarm | body | returns | fails | sigreturn => cases inside
  | unblockVtAlarm | updateSleepers | leave | emplaceRunning | insertRunning | popFront | countTotal => cases halted
  | forSleepers its =>
    cases its with
    | nil => cases halted
    | cons it next => simp [complete, updateSleepersFrom, left halted]
  | setStatus status => simp [complete, left halted]
  | insertReadyToRunning =>
    simp only [Machine.execute] at halted
    split at halted <;> cases halted
  | saveEnvironment origTid => simp [complete, left halted]
  | startRunning =>
    simp only [Machine.execute] at halted
    split at halted
    next missing => simpa [complete, startRunning, missing] using halted
    next => cases halted
  | countQuantum tid => simp [complete, left halted]
  | siglongjmp tid =>
    simp only [Machine.execute] at halted
    split at halted
    next missing => simpa [complete, missing] using halted
    next => cases halted

private theorem Moves.completes (moves : Moves m input m') (framed : AllFramed m) (valid : WellFormed m.lib)
    (seen : committing ⟨m, input, m'⟩ = true) : ∃ lib, m'.completed = .ok lib := by
  obtain ⟨running, some⟩ := of_decide_eq_true seen
  obtain rfl : input = .run := running
  cases moves with
  | @run instr rest _ code executed =>
    have framed := framed.code
    simp only [Machine.commits, code] at some
    rw [code] at framed
    cases executed with
    | @body op next lib branch =>
      cases next with
      | fails => exact ⟨lib, complete_outside (by simp [Op.follow, inSwitch])⟩
      | finishes => exact ⟨lib, complete_outside (by cases masks : op.masks <;> simp [Op.follow, masks, inSwitch])⟩
      | switches target =>
        obtain ⟨next, others, -, switched, -⟩ := (branch.switches_leaving valid).switches
        refine ⟨lib.handOver target ⟨m.sp, op.tail ++ rest⟩ next others, ?_⟩
        rw [Machine.completed, follow_switches, List.append_assoc, complete_switch]
        exact switched _
    | returns => exact ⟨m.lib, complete_outside framed.1⟩
    | blockVtAlarm =>
      have inside : inSwitch rest = true := by
        by_contra outside
        simp [outside] at some
      obtain ⟨later, rfl⟩ := framed.1 inside
      have preempts : Branch (blockVtAlarm m.lib) (.preempt : Op Code) (.switches .ready) (blockVtAlarm m.lib) := .preempt
      obtain ⟨next, others, -, switched, -⟩ := (preempts.switches_leaving valid.masked).switches
      exact ⟨(blockVtAlarm m.lib).handOver .ready ⟨m.sp, later⟩ next others, switched _⟩
    | _ => cases some

end machine

section run
variable {start final : Machine} {timeline : Timeline} {halt : Halt}

theorem run_valid (starts : start.Starts) (run : Run Machine.AtomicSteps start timeline final)
    (spared : ∀ move ∈ timeline, committing move = true → move.before.Spares) (outside : inSwitch final.code = false) :
    WellFormed final.lib := by
  obtain ⟨history, last, sequential, alike, paired⟩ := run_serialized starts run (complete_outside outside)
  have sparing := sparing_of_commits paired (spared_filter spared)
  exact (run_wellFormed starts.initialized.wellFormed sequential sparing).alike alike.symm

private theorem run_completes (starts : start.Starts) (run : Run Machine.AtomicSteps start timeline final)
    (spared : ∀ move ∈ timeline, committing move = true → move.before.Spares) : ∃ lib, final.completed = .ok lib := by
  induction run with
  | start => exact ⟨start.lib, complete_outside (by rw [starts.user]; rfl)⟩
  | @next trace state label final run taken ih =>
    obtain ⟨earlier, now⟩ := List.forall_mem_append.mp spared
    have framed := run.invariant (fun _ => True) (fun _ _ => trivial) AllFramed starts.allFramed serializes.preserved
    obtain ⟨moves, atomic⟩ := moves_of_atomicStep taken
    cases inside : inSwitch state.code with
    | true => exact moves.completed_inside framed inside atomic ▸ ih earlier
    | false =>
      cases seen : committing ⟨state, label, final⟩ with
      | false => exact ⟨final.lib, complete_outside (moves.silent framed inside seen).1⟩
      | true => exact moves.completes framed (run_valid starts run earlier inside) seen

end run
end Uthreads
