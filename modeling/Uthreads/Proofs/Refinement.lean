import Uthreads.Proofs.Phases
import Uthreads.Proofs.Serialization
import Uthreads.Proofs.Simulation

/-! The statements of uthreads.cpp under the timer signal against the abstract
scheduler. As long as nobody terminates a sleeper, a run with atomic switches is
a run of the scheduler, call by call and preemption by preemption. -/

namespace Uthreads
open RoundRobin Transition

def Machine.Spares (m : Machine) : Prop := ∀ tid ∈ m.terminates, m.lib.status tid ≠ some .asleep

instance (m : Machine) : Decidable m.Spares := inferInstanceAs (Decidable (∀ tid ∈ m.terminates, _))

/-- The statement with which a call takes effect, and the step of the scheduler:
the same operation in the abstraction of the same state, with the value that is
settled there. -/
structure Performs (move : Move Machine Input) (step : Move (Scheduler Int) (Op Code × Option Int)) : Prop where
  before : step.before = abstraction move.before.lib
  op : move.before.commits = some step.label.1
  value : ∃ reply, Settles move reply ∧ step.label.2 = reply.value

section alike
variable {ε : Type} {one two : State ε}

theorem Alike.quantums (alike : Alike one two) (tid : Int) : one.quantums tid = two.quantums tid := by
  rcases alike.found tid with ⟨first, second⟩ | ⟨a, b, first, second, twin⟩
  · simp [State.quantums, first, second]
  · simp [State.quantums, first, second, twin.2]

/-- The abstract scheduler is all that the library compares. -/
theorem Alike.abstraction (alike : Alike one two) : abstraction one = abstraction two := by
  simp only [Uthreads.abstraction, alike.quantums, alike.blocked, alike.sleepers, alike.running, alike.ready, alike.total]

end alike

section run
variable {start final : Machine} {timeline : Timeline} {history : History Code}

theorem Machine.Starts.initialized (starts : start.Starts) : Initialized start.lib := by
  obtain ⟨quantumUsecs, mask, done, -⟩ := starts
  exact ⟨quantumUsecs, _, mask, done⟩

private theorem Commits.spares {move : Move Machine Input} {call : Move (State Code) (Event Code)}
    (commits : Commits move call) (spared : move.before.Spares) : call.label.op.Spares call.before := by
  intro tid terminating
  rw [← commits.before.status]
  apply spared
  have effect := commits.op
  rw [terminating] at effect
  unfold Machine.commits at effect
  split at effect
  next => split at effect <;> cases effect
  next op _ _ code =>
    cases op <;> simp only [Op.enter, Option.some.injEq, reduceCtorEq, Op.terminate.injEq] at effect
    simp [Machine.terminates, code, effect]
  next => cases effect
  next => simp at effect
  next => cases effect

theorem sparing_of_commits {moves : List (Move Machine Input)} (paired : List.Forall₂ Commits moves history)
    (spared : ∀ move ∈ moves, move.before.Spares) : Sparing history := by
  induction paired with
  | nil => simp [Sparing]
  | cons commits _ ih =>
    obtain ⟨first, later⟩ := List.forall_mem_cons.mp spared
    exact List.forall_mem_cons.mpr ⟨commits.spares first, ih later⟩

theorem spared_filter (spared : ∀ move ∈ timeline, committing move = true → move.before.Spares) :
    ∀ move ∈ timeline.filter committing, move.before.Spares := by
  intro move member
  obtain ⟨member, seen⟩ := List.mem_filter.mp member
  exact spared move member seen

private theorem Commits.performs {move : Move Machine Input} {call : Move (State Code) (Event Code)}
    (commits : Commits move call) :
    Performs move ⟨abstraction call.before, (call.label.op, call.label.reply.value), abstraction call.after⟩ :=
  ⟨commits.before.abstraction.symm, commits.op, _, commits.reply, rfl⟩

end run
end Uthreads
