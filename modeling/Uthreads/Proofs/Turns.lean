import Uthreads.Library.Service
import Uthreads.Proofs.Accounting
import Uthreads.Proofs.Refinement
import Uthreads.Proofs.Waiting

/-! How long a ready thread of uthreads.cpp waits for the processor, wherever the
signal arrives. -/

namespace Uthreads
open Fifo Transition

section calls
variable {ε : Type} {s s' start final : State ε} {tid : Int}

/-- The ready queue is served as a queue, and `total_quantums` counts who was served. -/
theorem Step.advances {op : Op ε} {here : Context ε} {reply : Reply} (step : Step s here op reply s') (valid : WellFormed s)
    (kept : op ≠ .block tid ∧ op ≠ .terminate tid) :
    Advances tid s.readyTids s.totalQuantums s'.readyTids s'.totalQuantums s'.runningTid := by
  rw [step.total valid.sound]
  cases kind : op.switching s with
  | false =>
    rcases step.queue_stays kind with ⟨new, grown⟩ | ⟨other, leaves, -, erased⟩
    · rw [grown]
      exact .come new
    · have different : other ≠ tid := by
        rintro rfl
        exact leaves.elim kept.1 kept.2
      rw [erased]
      exact .withdraw different
  | true =>
    obtain ⟨⟨new, queue⟩, -⟩ := step.queue_leaves valid kind
    exact .serve new queue

/-- A history of atomic calls that is long enough serves everybody who waits. -/
theorem history_serves {history : History ε} {ahead : List Int} (valid : WellFormed start) (run : Run Takes start history final)
    (spared : Sparing history) (waits : Waits start.readyTids ahead tid)
    (kept : ∀ call ∈ history, call.label.op ≠ .block tid ∧ call.label.op ≠ .terminate tid)
    (long : start.totalQuantums + ahead.length < final.totalQuantums) : ∃ call ∈ history, call.after.runningTid = tid := by
  refine served_within State.readyTids State.totalQuantums State.runningTid run (fun call member => ?_) waits long
  obtain ⟨first, last, rfl, before, taken, -⟩ := run.at_mem member
  have valid := run_wellFormed valid before fun other earlier => spared other (List.mem_append_left _ earlier)
  exact (step_of_call valid.sound taken).advances valid (kept call member)

end calls

section run
variable {start middle final : Machine} {earlier later : Timeline} {tid : Int}

theorem given_processor {history : History Code} {last last' : State Code} (run : Run Machine.AtomicSteps middle later final)
    (sequential : Run Takes last history last') (alike : Alike final.lib last')
    (paired : List.Forall₂ Commits (later.filter committing) history) (idle : middle.lib.runningTid ≠ tid)
    (served : ∃ call ∈ history, call.after.runningTid = tid) :
    ∃ move ∈ later, move.before.lib.runningTid ≠ tid ∧ move.after.lib.runningTid = tid := by
  obtain ⟨call, member, dispatched⟩ := served
  rcases sequential.after_mem call member with ends | ⟨next, member, reached⟩
  · rw [ends, ← alike.running] at dispatched
    exact run.crosses (fun m => m.lib.runningTid = tid) idle dispatched
  · obtain ⟨move, seen, commits⟩ := effect_of_paired paired next member
    rw [← reached, ← commits.before.running] at dispatched
    obtain ⟨first, last, rfl⟩ := List.append_of_mem (List.mem_filter.mp seen).1
    obtain ⟨crossing, member, crossed⟩ := run.at_move.1.crosses (fun m => m.lib.runningTid = tid) idle dispatched
    exact ⟨crossing, List.mem_append_left _ member, crossed⟩

theorem kept_of_commits {history : History Code} (paired : List.Forall₂ Commits (later.filter committing) history)
    (kept : ∀ move ∈ later, committing move = true →
      move.before.commits ≠ some (.block tid) ∧ move.before.commits ≠ some (.terminate tid)) :
    ∀ call ∈ history, call.label.op ≠ .block tid ∧ call.label.op ≠ .terminate tid := by
  intro call member
  obtain ⟨move, seen, commits⟩ := effect_of_paired paired call member
  obtain ⟨member, seen⟩ := List.mem_filter.mp seen
  have kept := kept move member seen
  rw [commits.op] at kept
  exact ⟨fun same => kept.1 (congrArg some same), fun same => kept.2 (congrArg some same)⟩

/-- In every run with atomic switches in which nobody terminates a sleeper, a thread at
position `i` of the ready queue that nobody blocks or terminates has been given the
processor by the time that `i + 1` more quantums have started, wherever the signal
arrives. -/
theorem ready_tid_runs_within {i : Nat} (starts : start.Starts) (before : Run Machine.AtomicSteps start earlier middle)
    (run : Run Machine.AtomicSteps middle later final)
    (spared : ∀ move ∈ earlier ++ later, committing move = true → move.before.Spares)
    (outside : inSwitch middle.code = false ∧ inSwitch final.code = false) (position : middle.lib.readyTids[i]? = some tid)
    (kept : ∀ move ∈ later, committing move = true →
      move.before.commits ≠ some (.block tid) ∧ move.before.commits ≠ some (.terminate tid))
    (long : middle.lib.totalQuantums + i < final.lib.totalQuantums) :
    ∃ move ∈ later, move.before.lib.runningTid ≠ tid ∧ move.after.lib.runningTid = tid := by
  obtain ⟨soon, late⟩ := List.forall_mem_append.mp spared
  obtain ⟨history, last, history', last', sequential, alike, paired, sequential', alike', paired'⟩ :=
    continued_serialized starts before run outside
  have valid := run_wellFormed starts.initialized.wellFormed sequential (sparing_of_commits paired (spared_filter soon))
  rw [alike.ready] at position
  obtain ⟨inside, same⟩ := List.getElem?_eq_some_iff.mp position
  have waits : Waits last.readyTids (last.readyTids.take i) tid := by
    refine ⟨last.readyTids.drop (i + 1), ?_⟩
    rw [← same, ← List.drop_eq_getElem_cons inside, List.take_append_drop]
  have length : (last.readyTids.take i).length = i := List.length_take_of_le (Nat.le_of_lt inside)
  have idle : middle.lib.runningTid ≠ tid := by
    rintro rfl
    rw [alike.running] at waits
    exact (valid.consistent.unqueued _ rfl).1 waits.mem
  refine given_processor run sequential' alike' paired' idle ?_
  refine history_serves valid sequential' (sparing_of_commits paired' (spared_filter late)) waits (kept_of_commits paired' kept) ?_
  rw [length, ← alike.total, ← alike'.total]
  exact long

/-- Main has spawned thread 1 and is preempted. -/
theorem ready_tid_runs_within_spawned : ∃ (later : Timeline) (final : Machine), final.lib.totalQuantums = 2 ∧
    ∃ move ∈ later, move.before.lib.runningTid ≠ 1 ∧ move.after.lib.runningTid = 1 := by
  obtain ⟨timeline, final, run, tested⟩ := Machine.booted.perform_tested
    ([.call (.spawn (some ()))] ++ .replicate 4 .run ++ [.expire, .deliver] ++ .replicate 15 .run)
    (fun timeline final => (∀ move ∈ timeline, move.label = .deliver → inSwitch move.before.code = false) ∧
      (∀ move ∈ timeline, committing move = true → move.before.Spares) ∧ inSwitch final.code = false ∧
      final.lib.totalQuantums = 2 ∧ cutAt 5 (fun move last => inSwitch move.before.code = false ∧
        move.before.lib.totalQuantums = 1 ∧ move.before.lib.readyTids[0]? = some 1 ∧ ∀ other ∈ move :: last,
          committing other = true → other.before.commits ≠ some (.block 1) ∧ other.before.commits ≠ some (.terminate 1))
        timeline) (by decide +kernel)
  obtain ⟨outside, spared, user, total', cut⟩ := of_decide_eq_true tested
  obtain ⟨move, last, cut, tested⟩ := of_cutAt cut
  obtain ⟨user', total, position, kept⟩ := of_decide_eq_true tested
  obtain ⟨before, taken, later⟩ := (cut ▸ run_atomic run outside).at_move
  exact ⟨move :: last, final, total', ready_tid_runs_within Machine.booted_starts before (.cons taken later)
    (cut ▸ spared) ⟨user', user⟩ position kept (by rw [total, total']; decide)⟩

end run
end Uthreads
