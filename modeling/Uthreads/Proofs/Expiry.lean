import Uthreads.Proofs.Statements

/-! Which expiry of the timer ends a quantum. `reset_timer` starts the timer again
but leaves a signal that is already pending, so the expiry may be older than the
quantum. -/

namespace Uthreads
open Fallible Transition

/-- What the next statement gives up the processor for, if it does. -/
def Machine.switchesTo (m : Machine) : Option Status :=
  match m.code with
  | .body op :: _ =>
    match op.enter.body m.lib with
    | .ok (.switches target, _) => some target
    | _ => none
  | _ => none

/-- A self-block, a sleep or a self-termination executes `reset_timer`. -/
def Resets (move : Move Machine Input) : Prop :=
  move.label = .run ∧ move.before.switchesTo.any (· ≠ .ready) = true

/-- A quantum is counted: it has been started by a switch. -/
def counts (move : Move Machine Input) : Bool := move.label = .run ∧ move.before.code.head? = some .countTotal

/-- The expiry for which the signal becomes pending. Another one before the
delivery makes no difference. -/
def Raises (move : Move Machine Input) : Prop := move.label = .expire ∧ move.before.pending = false

instance (move : Move Machine Input) : Decidable (Resets move) := inferInstanceAs (Decidable (_ ∧ _))
instance (move : Move Machine Input) : Decidable (Raises move) := inferInstanceAs (Decidable (_ ∧ _))

/-- The voluntary switch at `reset` starts a quantum, the only one from there to
`ending`, where the handler starts. -/
structure EndsQuantum (reset : Move Machine Input) (middle : Timeline) (ending : Move Machine Input) : Prop where
  resets : Resets reset
  counted : middle.countP counts = 1
  only : ∀ move ∈ middle, ¬ Resets move ∧ move.label ≠ .deliver
  delivered : ending.label = .deliver

section steps
variable {m m' start final : Machine} {timeline : Timeline} {input : Input} {move : Move Machine Input}

private theorem Executes.pending {rest : Code} {instr : Instr} (executed : Executes m rest instr m') : m'.pending = m.pending := by
  cases executed <;> rfl

theorem Moves.pending (moves : Moves m input m') (other : input ≠ .expire ∧ input ≠ .deliver) : m'.pending = m.pending := by
  cases moves with
  | expire => exact absurd rfl other.1
  | deliver => exact absurd rfl other.2
  | run code executed => exact executed.pending
  | call | sigprocmask => rfl

theorem Moves.stays_pending (moves : Moves m input m') (other : input ≠ .deliver) (pending : m.pending = true) :
    m'.pending = true := by
  by_cases expires : input = .expire
  · subst expires
    cases moves
    rfl
  · exact (moves.pending ⟨expires, other⟩).trans pending

private theorem pending_of_delivered (taken : m.Steps .deliver m') : m.pending = true := by
  cases moves_of_step taken with
  | deliver deliverable => exact (Bool.and_eq_true_iff.mp deliverable).1

theorem run_stays_pending (run : Run Machine.Steps start timeline final) (pending : start.pending = true)
    (undelivered : ∀ move ∈ timeline, move.label ≠ .deliver) :
    final.pending = true ∧ ∀ move ∈ timeline, ¬ Raises move := by
  induction run with
  | start => exact ⟨pending, by simp⟩
  | @next trace state label final run taken ih =>
    obtain ⟨kept, quiet⟩ := ih fun move member => undelivered move (List.mem_append_left _ member)
    refine ⟨(moves_of_step taken).stays_pending (undelivered ⟨state, label, final⟩ (by simp)) kept, fun move member => ?_⟩
    rcases List.mem_append.mp member with member | member
    · exact quiet move member
    · obtain rfl := List.mem_singleton.mp member
      rintro ⟨-, idle⟩
      exact nomatch kept.symm.trans idle

/-- A signal that can be delivered lets nothing happen but further expiries. -/
theorem Machine.Steps.expires (taken : m.Steps input m') (deliverable : m.deliverable = true) (other : input ≠ .deliver) :
    input = .expire := by
  cases input with
  | expire => rfl
  | deliver => exact absurd rfl other
  | run =>
    simp only [Machine.Steps, Machine.step, deliverable, if_true] at taken
    split at taken <;> cases taken
  | call | sigprocmask => simp [Machine.Steps, Machine.step, deliverable] at taken

theorem run_expires (run : Run Machine.Steps start timeline final) (deliverable : start.deliverable = true)
    (undelivered : ∀ move ∈ timeline, move.label ≠ .deliver) :
    final.deliverable = true ∧ ∀ move ∈ timeline, move.label = .expire := by
  induction run with
  | start => exact ⟨deliverable, by simp⟩
  | @next trace state label final run taken ih =>
    obtain ⟨kept, expiries⟩ := ih fun move member => undelivered move (List.mem_append_left _ member)
    obtain rfl := taken.expires kept (undelivered ⟨state, label, final⟩ (by simp))
    refine ⟨?_, fun move member => ?_⟩
    · have unmasked := state.unmasked_of_deliverable kept
      cases moves_of_step taken
      simpa [Machine.deliverable] using unmasked
    · rcases List.mem_append.mp member with member | member
      · exact expiries move member
      · obtain rfl := List.mem_singleton.mp member
        rfl

private theorem unmasked_of_terminated (taken : m.Steps .run m') (terminates : m.switchesTo = some .terminated) :
    sigvtalrm ∉ m'.lib.mask := by
  unfold Machine.switchesTo at terminates
  split at terminates
  next op rest code =>
    cases executes_of_run taken code with
    | @body _ next lib branch =>
      rw [body_of_branch branch] at terminates
      cases next with
      | fails | finishes => cases terminates
      | switches target =>
        obtain rfl : target = .terminated := Option.some.inj terminates
        generalize op.enter = entered at branch
        cases branch with
        | terminateRunning => exact State.unmasked_unblockVtAlarm _
  next => cases terminates

/-- A signal that is pending when a thread terminates itself is delivered before
a quantum is counted. -/
private theorem uncounted_of_terminated (taken : m.Steps .run m') (terminates : m.switchesTo = some .terminated)
    (pending : m'.pending = true) (run : Run Machine.Steps m' timeline final)
    (undelivered : ∀ move ∈ timeline, move.label ≠ .deliver) : timeline.countP counts = 0 := by
  have unmasked := unmasked_of_terminated taken terminates
  have deliverable : m'.deliverable = true := by simp [Machine.deliverable, unmasked, pending]
  apply List.countP_eq_zero.mpr
  intro move member
  simp [counts, (run_expires run deliverable undelivered).2 move member]

/-- The expiry that ends a quantum is one of the quantum, or of the switch after
its `reset_timer`, exactly if none was pending there. With one pending, a thread
that terminates itself never gets to start a quantum. -/
theorem quantum_ended_fresh_iff (run : Run Machine.Steps start timeline final) :
    ∀ first reset middle ending last, timeline = first ++ reset :: (middle ++ ending :: last) → EndsQuantum reset middle ending →
      ((∃ move ∈ middle, Raises move) ↔ reset.before.switchesTo = some .terminated ∨ reset.before.pending = false) := by
  rintro first reset middle ending last rfl ends
  obtain ⟨-, resetting, rest⟩ := run.at_move
  obtain ⟨through, delivering, -⟩ := rest.at_move
  have undelivered := fun move member => (ends.only move member).2
  have kept : reset.after.pending = reset.before.pending :=
    (moves_of_step resetting).pending (by simp [ends.resets.1])
  constructor
  · rintro ⟨move, member, raises⟩
    right
    by_contra pending
    rw [Bool.not_eq_false, ← kept] at pending
    exact (run_stays_pending through pending undelivered).2 move member raises
  · intro condition
    have idle : reset.after.pending = false := by
      rcases condition with terminates | idle
      · by_contra pending
        rw [Bool.not_eq_false] at pending
        have uncounted := uncounted_of_terminated (ends.resets.1 ▸ resetting) terminates pending through undelivered
        exact nomatch uncounted.symm.trans ends.counted
      · exact kept.trans idle
    have pending := pending_of_delivered (ends.delivered ▸ delivering)
    obtain ⟨move, member, quiet, raised⟩ :=
      through.crosses (fun m => m.pending = true) (by simp [idle]) pending
    refine ⟨move, member, ?_, Bool.not_eq_true _ ▸ quiet⟩
    by_contra other
    have taken := through.move_taken move member
    have same := (moves_of_step taken).pending ⟨other, undelivered move member⟩
    exact quiet (same ▸ raised)

end steps

section examples

instance (reset : Move Machine Input) (middle : Timeline) (ending : Move Machine Input) :
    Decidable (EndsQuantum reset middle ending) :=
  decidable_of_iff (Resets reset ∧ middle.countP counts = 1 ∧ (∀ move ∈ middle, ¬ Resets move ∧ move.label ≠ .deliver) ∧
      ending.label = .deliver)
    ⟨fun ⟨resets, counted, only, delivered⟩ => ⟨resets, counted, only, delivered⟩,
      fun ends => ⟨ends.resets, ends.counted, ends.only, ends.delivered⟩⟩

private def endsAt (place count : Nat) (test : Move Machine Input → Timeline → Bool) (timeline : Timeline) : Bool :=
  timeline[place]?.any fun reset => timeline[place + 1 + count]?.any fun ending =>
    decide (EndsQuantum reset ((timeline.drop (place + 1)).take count) ending) &&
      test reset ((timeline.drop (place + 1)).take count)

private theorem of_endsAt {place count : Nat} {test : Move Machine Input → Timeline → Bool} {timeline : Timeline}
    (tested : endsAt place count test timeline = true) :
    ∃ first reset middle ending last, timeline = first ++ reset :: (middle ++ ending :: last) ∧
      EndsQuantum reset middle ending ∧ test reset middle = true := by
  have cuts : cutAt place (fun reset later => cutAt count (fun ending _ =>
      decide (EndsQuantum reset (later.take count) ending) && test reset (later.take count)) later) timeline = true := by
    simpa only [endsAt, cutAt, List.getElem?_drop] using tested
  obtain ⟨reset, later, cut, tested⟩ := of_cutAt cuts
  obtain ⟨ending, last, cut', tested⟩ := of_cutAt tested
  obtain ⟨ends, tested⟩ := (Bool.and_eq_true ..).mp tested
  exact ⟨_, reset, _, ending, last, cut' ▸ cut, of_decide_eq_true ends, tested⟩

/-- Thread 1 blocks itself, and main is preempted in the quantum after that. -/
theorem quantum_ended_fresh_iff_block : ∃ reset middle ending, EndsQuantum reset middle ending ∧
    reset.before.sp = 1 ∧ ∃ move ∈ middle, Raises move := by
  obtain ⟨timeline, final, run, tested⟩ := Machine.booted.perform_tested
    (spawnAndSwitch ++ [.call (.block 1)] ++ .replicate 16 .run ++ [.expire, .run, .deliver])
    (fun timeline _ => endsAt 24 16 (fun reset _ => reset.before.sp = 1 ∧ reset.before.pending = false) timeline)
    (by decide +kernel)
  obtain ⟨first, reset, middle, ending, last, cut, ends, tested⟩ := of_endsAt tested
  obtain ⟨stack, idle⟩ := of_decide_eq_true tested
  have fresh := (quantum_ended_fresh_iff run first reset middle ending last cut ends).mpr (.inr idle)
  exact ⟨reset, middle, ending, ends, stack, fresh⟩

/-- The timer expires while thread 1 blocks itself, before `reset_timer`. The
signal is delivered when the quantum of main has just been counted. -/
theorem stale_expiry_ends_quantum : ∃ start timeline final first reset middle ending last, start.Starts ∧
    Run Machine.Steps start timeline final ∧ timeline = first ++ reset :: (middle ++ ending :: last) ∧
    EndsQuantum reset middle ending ∧ reset.before.pending = true ∧ ¬ ∃ move ∈ middle, Raises move := by
  obtain ⟨timeline, final, run, tested⟩ := Machine.booted.perform_tested
    (spawnAndSwitch ++ [.call (.block 1), .run, .expire] ++ .replicate 12 .run ++ [.deliver])
    (fun timeline _ => endsAt 25 11 (fun reset middle => reset.before.pending = true ∧ ∀ move ∈ middle, ¬ Raises move) timeline)
    (by decide +kernel)
  obtain ⟨first, reset, middle, ending, last, cut, ends, tested⟩ := of_endsAt tested
  obtain ⟨pending, quiet⟩ := of_decide_eq_true tested
  exact ⟨_, timeline, final, first, reset, middle, ending, last, Machine.booted_starts, run, cut, ends, pending,
    fun ⟨move, member, raises⟩ => quiet move member raises⟩

end examples
end Uthreads
