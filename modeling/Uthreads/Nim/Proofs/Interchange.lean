import Uthreads.Nim.Proofs.Agreement
import Uthreads.Nim.Proofs.Serialization
import Uthreads.Proofs.Refinement
import Uthreads.Proofs.Timing

/-! The two libraries under the timer signal, each in its own time. What their threads
are told and where they are depends on the calls and the preemptions alone, in the
order in which these take effect. -/

namespace Uthreads.Nim
open RoundRobin Transition Lockstep

def SameCall (one : Move Uthreads.Machine Uthreads.Input) (two : Move Machine Input) : Prop :=
  ∃ call : Call Unit, one.before.commits = some call.classic.enter ∧ ∃ rest, two.before.code = .call call.nim :: rest

/-- The same value for the caller is settled in both. -/
def SameReply (one : Move Uthreads.Machine Uthreads.Input) (two : Move Machine Input) : Prop :=
  ∃ reply, (∀ settled, Settles one settled ↔ settled = reply) ∧
    ∃ op rest, two.before.code = .call op :: rest ∧ Decides op rest two.after.code reply.value

structure Shares (s : Uthreads.State Uthreads.Code) (a : Guarded Int) : Prop where
  wellFormed : WellFormed s
  counting : Counting s
  awake : s.sleepers = ∅
  sane : Sane a
  same : a = unlocked (Uthreads.abstraction s)

section calls
variable {ε : Type} {s s' : Uthreads.State ε} {op : Uthreads.Op ε}

theorem step_awake {here : Context ε} {reply : Reply} (step : Step s here op reply s') (sound : Sound s)
    (other : ∀ numQuantums, op ≠ .sleep numQuantums) (awake : s.sleepers = ∅) : s'.sleepers = ∅ := by
  cases kind : op.switching s with
  | false => exact (step.stays sound kind).sleepers.trans awake
  | true =>
    obtain ⟨target, middle, next, rest, branch, -, -, -, rfl⟩ := step.leaves kind
    have same : middle.sleepers = s.sleepers := by
      cases branch with
      | sleep => exact absurd rfl (other _)
      | blockRunning | terminateRunning | preempt => rfl
    apply Std.ExtTreeMap.ext_getElem?
    intro tid
    rw [Uthreads.State.sleepers_handOver, Uthreads.State.getElem?_sleepers_tick, same, awake]
    simp

theorem spec_enter (op : Uthreads.Op Unit) (a : Scheduler Int) : op.enter.spec a = op.spec a := by
  cases op with
  | spawn entryPoint =>
    simp only [Uthreads.Op.enter, Uthreads.Op.spec]
    cases allIds.find? fun id => (a.tasks id).isNone <;> cases entryPoint <;> rfl
  | _ => rfl

theorem spec_enter_nim (op : Op Unit) (next : Option Int) (a : Guarded Int) : op.enter.spec next a = op.spec next a := by
  cases op <;> rfl

end calls

section run

variable {s : Uthreads.State Uthreads.Code} {a : Guarded Int}

theorem Shares.spares (shares : Shares s a) (op : Uthreads.Op Uthreads.Code) : op.Spares s := by
  rintro tid - asleep
  have sleeps := (shares.wellFormed.asleep tid).mpr asleep
  rw [shares.awake] at sleeps
  exact Std.ExtTreeMap.not_mem_empty sleeps

theorem Shares.nobody (shares : Shares s a) : Awake (Uthreads.abstraction s) := by
  intro tid task found
  obtain ⟨quantums, -, rfl⟩ := Option.map_eq_some_iff.mp found
  simp [shares.awake]

theorem Shares.call {one : Move Uthreads.Machine Uthreads.Input} {two : Move Machine Input}
    {call : Move (Uthreads.State Uthreads.Code) (Uthreads.Event Uthreads.Code)} {step : Move (Guarded Int) Label}
    (both : SameCall one two) (commits : Commits one call) (performs : Performs two step)
    (taken : Uthreads.Takes call.before call.label call.after) (taken' : SpecTakes step.before step.label step.after)
    (shares : Shares call.before step.before) : SameReply one two ∧ Shares call.after step.after := by
  obtain ⟨shared, effect, rest, code⟩ := both
  obtain ⟨op, rest', code', same', decides⟩ := performs.decides
  obtain ⟨here, rfl⟩ := List.cons_eq_cons.mp (code.symm.trans code')
  obtain rfl := Instr.call.inj here
  have same : shared.classic.enter = call.label.op := Option.some.inj (effect.symm.trans commits.op)
  have moved := step_of_call shares.wellFormed.sound taken
  have specified := moved.spec shares.wellFormed shares.counting (shares.spares _)
  rw [← same, spec_enter] at specified
  have specified' := taken'.2
  rw [same', spec_enter_nim, shares.same, spec_agrees (shares.same ▸ shares.sane) shares.nobody, specified] at specified'
  obtain ⟨value, after⟩ := Prod.mk.inj (Except.ok.inj specified')
  constructor
  · exact ⟨call.label.reply, fun _ => commits.reply.iff, _, _, code', value ▸ decides⟩
  · refine ⟨moved.wellFormed shares.wellFormed (shares.spares _), moved.counting shares.wellFormed.sound shares.counting, ?_,
      shares.sane.step taken'.1 (ruled_of_spec taken'.2), after.symm⟩
    refine step_awake moved shares.wellFormed.sound (fun numQuantums sleeps => ?_) shares.awake
    rw [← same] at sleeps
    cases shared <;> cases sleeps

variable {resumption : Resumption} {start final : Uthreads.Machine} {start' final' : Machine}
  {timeline : List (Move Uthreads.Machine Uthreads.Input)} {timeline' : List (Move Machine Input)}

end run
end Uthreads.Nim
