import Uthreads.Proofs.Accounting
import Uthreads.Proofs.Refinement
import Uthreads.Proofs.SleepLength

/-! How long a thread of uthreads.cpp sleeps when the signal may arrive anywhere. The
quanta that have started since its call say whether it is still asleep. -/

namespace Uthreads
open Transition

section calls
variable {ε : Type} {s s' start final : State ε} {later : History ε} {tid left : Int}

/-- The thread sleeps for `left` switches more, and has just woken up at -1. -/
structure Slept (s : State ε) (tid left : Int) : Prop where
  still : 0 ≤ left → Asleep s tid left
  ended : left = -1 → tid ∉ s.sleepers

theorem run_total (valid : WellFormed start) (run : Run Takes start later final) (spared : Sparing later) :
    final.totalQuantums = start.totalQuantums + switches later := by
  induction run with
  | start => rfl
  | @next history state event final run taken ih =>
    have sparing : Sparing history := fun move member => spared move (List.mem_append_left _ member)
    have step := step_of_call (run_wellFormed valid run sparing).sound taken
    rw [switches_concat, step.total (run_wellFormed valid run sparing).sound, ih sparing]
    omega

private theorem Step.slept {event : Event ε} (step : Step s event.here event.op event.reply s') (valid : WellFormed s)
    (spared : event.op.Spares s) (slept : Slept s tid left) (short : event.op.switching s = true → 0 ≤ left) :
    Slept s' tid (left - if event.op.switching s = true then 1 else 0) := by
  have sleeper := fun asleep : Asleep s tid left => step.sleeper valid (step.wellFormed valid spared) asleep
  cases kind : event.op.switching s with
  | false =>
    rw [if_neg Bool.false_ne_true, Int.sub_zero]
    refine ⟨fun going => (sleeper (slept.still going)).1 kind, fun gone => ?_⟩
    rw [(step.stays valid.sound kind).sleepers]
    exact slept.ended gone
  | true =>
    obtain ⟨going, ending⟩ := (sleeper (slept.still (short kind))).2 kind
    rw [if_pos rfl]
    exact ⟨fun more => going (by omega), fun last => (ending (by omega)).gone⟩

/-- Every switch brings the thread nearer to its end, up to the one that wakes it. -/
private theorem run_slept (valid : WellFormed start) (slept : Slept start tid left) (run : Run Takes start later final)
    (spared : Sparing later) (short : (switches later : Int) ≤ left + 1) : Slept final tid (left - switches later) := by
  induction run with
  | start => simpa using slept
  | @next history state event final run taken ih =>
    have sparing : Sparing history := fun move member => spared move (List.mem_append_left _ member)
    have valid := run_wellFormed valid run sparing
    rw [switches_concat] at short ⊢
    have slept := (step_of_call valid.sound taken).slept valid (spared ⟨state, event, final⟩ (by simp))
      (ih sparing (by split at short <;> omega)) fun kind => by rw [if_pos kind] at short; omega
    have sum : left - switches history - (if event.op.switching state = true then 1 else 0) =
        left - ↑(switches history + if event.op.switching state = true then 1 else 0) := by
      split <;> omega
    exact sum ▸ slept

end calls

section run
variable {start middle final : Machine} {earlier later : Timeline} {call : Move Machine Input} {rest : Code} {numQuantums : Int}

/-- In every run with atomic switches in which nobody terminates a sleeper, a thread
that calls `uthread_sleep(n)` is asleep exactly as long as at most `n` quanta have
started since, wherever the signal arrives. That is said up to the quantum in which it
wakes up; after that it may sleep again. -/
theorem asleep_iff_quanta (starts : start.Starts) (before : Run Machine.AtomicSteps start earlier middle)
    (run : Run Machine.AtomicSteps middle (call :: later) final)
    (spared : ∀ move ∈ earlier ++ call :: later, committing move = true → move.before.Spares)
    (code : middle.code = .body (.sleep numQuantums) :: rest) (executes : call.label = .run)
    (other : middle.lib.runningTid ≠ 0) (amount : 0 ≤ numQuantums) (outside : inSwitch final.code = false)
    (soon : (final.lib.totalQuantums : Int) ≤ middle.lib.totalQuantums + numQuantums + 1) :
    final.lib.status middle.lib.runningTid = some .asleep ↔
      (final.lib.totalQuantums : Int) ≤ middle.lib.totalQuantums + numQuantums := by
  obtain ⟨early, late⟩ := List.forall_mem_append.mp spared
  obtain ⟨history, last, history', last', sequential, alike, paired, sequential', alike', paired'⟩ :=
    continued_serialized starts before run ⟨by rw [code]; rfl, outside⟩
  obtain rfl := run.head.1
  have seen : committing call = true := by
    have commits : call.before.commits = some (.sleep numQuantums) := by rw [Machine.commits, code]; rfl
    simp [committing, executes, commits]
  have valid := run_wellFormed starts.initialized.wellFormed sequential (sparing_of_commits paired (spared_filter early))
  have sparing := sparing_of_commits paired' (spared_filter late)
  rw [List.filter_cons_of_pos seen] at paired'
  obtain _ | @⟨_, event, _, others, commits, paired'⟩ := paired'
  obtain ⟨rfl, taken, sequential'⟩ := sequential'.head
  have sleeps : event.label.op = .sleep numQuantums := by
    have effect := commits.op
    rw [Machine.commits, code] at effect
    exact (Option.some.inj effect).symm
  obtain ⟨leaves, valid', going, ending⟩ := sleep_call taken valid (alike.running ▸ other) amount sleeps
  have slept : Slept event.after event.before.runningTid (numQuantums - 1) :=
    ⟨fun _ => going (by omega), fun last => (ending (by omega)).gone⟩
  have sparing' : Sparing others := (List.forall_mem_cons.mp sparing).2
  have first : event.after.totalQuantums = event.before.totalQuantums + 1 := by
    rw [(step_of_call valid.sound taken).total valid.sound, if_pos leaves]
  have total := run_total valid' sequential' sparing'
  rw [alike.total, alike'.total] at soon ⊢
  have reached := run_slept valid' slept sequential' sparing' (by omega)
  rw [alike.running, alike'.status]
  constructor
  · intro asleep
    by_contra late
    exact reached.ended (by omega) (((run_wellFormed valid' sequential' sparing').asleep _).mpr asleep)
  · exact fun early => (reached.still (by omega)).status

/-- Thread 1 sleeps for a quantum, and the preemption of main is the second switch
since its call. -/
theorem asleep_iff_quanta_preempted : ∃ middle final : Machine, middle.code = [.body (.sleep 1)] ∧
    middle.lib.runningTid = 1 ∧ final.lib.totalQuantums = middle.lib.totalQuantums + 2 ∧ final.lib.status 1 ≠ some .asleep := by
  obtain ⟨timeline, final, run, tested⟩ := Machine.booted.perform_tested
    (spawnAndSwitch ++ [.call (.sleep 1)] ++ .replicate 17 .run ++ [.expire, .deliver] ++ .replicate 16 .run)
    (fun timeline final => (∀ move ∈ timeline, move.label = .deliver → inSwitch move.before.code = false) ∧
      (∀ move ∈ timeline, committing move = true → move.before.Spares) ∧ inSwitch final.code = false ∧
      cutAt 24 (fun move _ => move.label = .run ∧ move.before.code = [.body (.sleep 1)] ∧ move.before.lib.runningTid = 1 ∧
        final.lib.totalQuantums = move.before.lib.totalQuantums + 2) timeline) (by decide +kernel)
  obtain ⟨atomic, spared, outside, cut⟩ := of_decide_eq_true tested
  obtain ⟨call, later, cut, tested⟩ := of_cutAt cut
  obtain ⟨executes, code, running, total⟩ := of_decide_eq_true tested
  have run := cut ▸ run_atomic run atomic
  have before := run.at_move.1
  have asleep := asleep_iff_quanta Machine.booted_starts before (.cons run.at_move.2.1 run.at_move.2.2) (cut ▸ spared) code
    executes (by rw [running]; decide) (by decide) outside (by rw [total]; omega)
  refine ⟨call.before, final, code, running, total, fun still => ?_⟩
  rw [running] at asleep
  have := asleep.mp still
  omega

end run
end Uthreads
