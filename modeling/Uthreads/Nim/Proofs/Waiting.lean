import Uthreads.Library.Service
import Uthreads.Nim.Proofs.Holding

/-! How long a thread of nim/uthreads.cpp waits for the processor once it is ready,
wherever the signal arrives. -/

namespace Uthreads.Nim
open Fifo RoundRobin Transition

section spec
variable {a b : Guarded Int} {op : Op Code} {next value : Option Int} {tid : Int}

private theorem grant_grows (a : Guarded Int) (next : Option Int) :
    (∃ new, (a.grant next).queue = a.queue ++ new) ∧ (a.grant next).total = a.total := by
  cases next with
  | none => exact ⟨⟨[], (List.append_nil _).symm⟩, rfl⟩
  | some heir =>
    unfold Guarded.grant
    dsimp only
    split
    · exact ⟨⟨[heir], rfl⟩, rfl⟩
    · exact ⟨⟨[], (List.append_nil _).symm⟩, rfl⟩

private theorem surrender_grows (a : Guarded Int) (id : Int) (next : Option Int) :
    (∃ new, (a.surrender id next).queue = a.queue ++ new) ∧ (a.surrender id next).total = a.total := by
  unfold Guarded.surrender
  split
  · exact grant_grows a next
  · exact ⟨⟨[], (List.append_nil _).symm⟩, rfl⟩

private theorem release_grows (a : Guarded Int) (id : Int) :
    (∃ new, (a.release id).queue = a.queue ++ new) ∧ (a.release id).total = a.total := by
  unfold Guarded.release
  split
  · exact ⟨⟨[], (List.append_nil _).symm⟩, rfl⟩
  · unfold Scheduler.release
    dsimp only
    split
    · exact ⟨⟨[id], rfl⟩, rfl⟩
    · exact ⟨⟨[], (List.append_nil _).symm⟩, rfl⟩

private theorem turn_unqueued (placed : Guarded.Placed (some tid) a) : tid ∉ a.queue :=
  fun member => ((placed.queued _).mp member).1 rfl

/-- The scheduler with its lock serves its queue as a queue. -/
theorem Ruled.advances (ruled : Ruled next a op value b) (placed : Guarded.Placed (some a.current) a)
    (eligible : a.Eligible next) (kept : op ≠ .block tid ∧ op ≠ .terminate tid) :
    Advances tid a.queue a.total b.queue b.total b.current := by
  have served : ∀ {between : Guarded Int} {front : Int} {rest : List Int}, Guarded.Dispatched between b front rest →
      between.total = a.total → (∃ new, between.queue = a.queue ++ new) →
      Advances tid a.queue a.total b.queue b.total b.current := by
    rintro between front rest turn total ⟨new, queue⟩
    rw [turn.queue, turn.total, turn.current, total]
    exact .serve new (queue.symm.trans turn.front)
  cases ruled with
  | quiet | lockFree | lockAgain | unlockOther => exact .still
  | spawn => exact .come _
  | @terminate other =>
    obtain ⟨⟨new, queue⟩, total⟩ := surrender_grows a other next
    have left : ((a.surrender other next).drop other).queue = (a.queue ++ new).erase other := by rw [← queue]; rfl
    have kept : other ≠ tid := fun same => kept.2 (congrArg Op.terminate same)
    rw [left]
    exact total ▸ .leave new kept
  | terminateSelf _ turn =>
    have unqueued := turn_unqueued (placed.surrender a.current eligible)
    refine served turn (surrender_grows a a.current next).2 ?_
    exact (surrender_grows a a.current next).1.imp fun new queue => (List.erase_of_not_mem unqueued).trans queue
  | @block other =>
    have kept : other ≠ tid := fun same => kept.1 (congrArg Op.block same)
    change Advances tid a.queue a.total (a.queue.erase other) a.total a.current
    exact .withdraw kept
  | blockSelf _ turn =>
    exact served turn rfl ⟨[], (List.erase_of_not_mem (turn_unqueued placed)).trans (List.append_nil _).symm⟩
  | @resume other =>
    obtain ⟨⟨new, queue⟩, total⟩ := release_grows a other
    rw [queue, total]
    exact .come new
  | lockWait _ _ turn => exact served turn rfl ⟨[], (List.append_nil _).symm⟩
  | unlock =>
    obtain ⟨⟨new, queue⟩, total⟩ := grant_grows a next
    rw [queue, total]
    exact .come new
  | preempt turn => exact served turn rfl ⟨_, rfl⟩

private theorem run_serves {trace : List (Move (Guarded Int) Label)} {ahead : List Int} (sane : Sane a)
    (run : Run SpecTakes a trace b) (waits : Waits a.queue ahead tid)
    (kept : ∀ step ∈ trace, step.label.op ≠ .block tid ∧ step.label.op ≠ .terminate tid)
    (long : a.total + ahead.length < b.total) : ∃ step ∈ trace, step.after.current = tid := by
  refine served_within (fun a => a.queue) (fun a => a.total) (fun a => a.current) run (fun step member => ?_) waits long
  obtain ⟨first, last, rfl, before, taken, -⟩ := run.at_mem member
  have sane : Sane step.before := before.invariant (fun _ => True) (fun _ _ => trivial) Sane sane
    fun _ _ taken sane => sane.step taken.1 (ruled_of_spec taken.2)
  exact (ruled_of_spec taken.2).advances sane.placed taken.1 (kept step member)

end spec

section run
variable {resumption : Resumption} {start middle final : Machine} {earlier later : List (Move Machine Input)} {tid : Int}

private theorem Performs.kept {move : Move Machine Input} {step : Move (Guarded Int) Label} (performs : Performs move step)
    (seen : committing move = true) (kept : ¬ Begins (.block tid) move ∧ ¬ Begins (.terminate tid) move) :
    step.label.op ≠ .block tid ∧ step.label.op ≠ .terminate tid := by
  obtain ⟨choice, op, rest, label, code⟩ := commits_of_committing seen
  obtain ⟨op', rest', code', same, -⟩ := performs.decides
  obtain rfl := Instr.call.inj (List.cons.inj (code.symm.trans code')).1
  rw [same]
  constructor
  · intro blocks
    cases op <;> simp only [Op.enter, reduceCtorEq, Op.block.injEq] at blocks
    exact kept.1 ⟨by simp, choice, rest, label, blocks ▸ code⟩
  · intro terminates
    cases op <;> simp only [Op.enter, reduceCtorEq, Op.terminate.injEq] at terminates
    exact kept.2 ⟨by simp, choice, rest, label, terminates ▸ code⟩

/-- In every run whose jumps go to threads that were never switched out, and in every
run at all if contexts are resumed after the switch, a thread at position `i` of the
ready queue that nobody blocks or terminates has been given the processor by the time
that `i + 1` more quantums have started, wherever the signal arrives. -/
theorem ready_thread_runs_within {i : Nat} (starts : start.Starts)
    (before : Run (Machine.StepsResuming resumption) start earlier middle)
    (run : Run (Machine.StepsResuming resumption) middle later final)
    (lands : ∀ move ∈ earlier ++ later, Lands resumption move)
    (outside : inSwitch middle.code = false ∧ inSwitch final.code = false)
    (position : (middle.lib.ready.map middle.lib.idOf)[i]? = some tid)
    (kept : ∀ move ∈ later, ¬ Begins (.block tid) move ∧ ¬ Begins (.terminate tid) move)
    (long : middle.lib.totalQuantum + i < final.lib.totalQuantum) :
    ∃ move ∈ later, move.before.lib.runningId ≠ tid ∧ move.after.lib.runningId = tid := by
  obtain ⟨soon, late⟩ := List.forall_mem_append.mp lands
  have between := run_between starts before soon outside.1
  obtain ⟨trace, refined, paired⟩ := between.segment run late outside.2
  have performed : ∀ step ∈ trace, ∃ move ∈ later, committing move = true ∧ Performs move step := by
    intro step member
    obtain ⟨move, seen, performs⟩ := effect_of_paired paired step member
    obtain ⟨member, seen⟩ := List.mem_filter.mp seen
    exact ⟨move, member, seen, performs⟩
  obtain ⟨inside, same⟩ := List.getElem?_eq_some_iff.mp position
  have waits : Waits (abstraction middle.lib).queue ((middle.lib.ready.map middle.lib.idOf).take i) tid := by
    refine ⟨(middle.lib.ready.map middle.lib.idOf).drop (i + 1), ?_⟩
    rw [← same, ← List.drop_eq_getElem_cons inside, List.take_append_drop]
    rfl
  have length : ((middle.lib.ready.map middle.lib.idOf).take i).length = i := List.length_take_of_le (Nat.le_of_lt inside)
  have idle : middle.lib.runningId ≠ tid := by
    rintro rfl
    exact turn_unqueued between.valid.sane.placed waits.mem
  obtain ⟨step, member, dispatched⟩ := run_serves between.valid.sane refined waits (fun step member => by
    obtain ⟨move, member, seen, performs⟩ := performed step member
    exact performs.kept seen (kept move member)) (by rw [length]; exact long)
  rcases refined.after_mem step member with last | ⟨next, member, reached⟩
  · rw [last] at dispatched
    exact run.crosses (fun m => m.lib.runningId = tid) idle dispatched
  · obtain ⟨move, member, -, performs⟩ := performed next member
    rw [← reached, performs.before] at dispatched
    obtain ⟨first, last, rfl⟩ := List.append_of_mem member
    obtain ⟨crossing, member, crossed⟩ := run.at_move.1.crosses (fun m => m.lib.runningId = tid) idle dispatched
    exact ⟨crossing, List.mem_append_left _ member, crossed⟩

private theorem not_begins {op : Op Unit} {move : Move Machine Input} (other : move.before.code.head? ≠ some (.call op)) :
    ¬ Begins op move := by
  rintro ⟨-, choice, rest, -, code⟩
  rw [code] at other
  exact other rfl

/-- Main has spawned thread 1 and is preempted. -/
theorem ready_thread_runs_within_spawned : ∃ (later : List (Move Machine Input)) (final : Machine),
    final.lib.totalQuantum = 2 ∧ ∃ move ∈ later, move.before.lib.runningId ≠ 1 ∧ move.after.lib.runningId = 1 := by
  obtain ⟨timeline, final, run, tested⟩ := compute_tested (next_sound .afterSwitch) started
    ([.call (.spawn ()), .run ⟨2, []⟩, .run ⟨3, []⟩, .expire, .deliver] ++ List.replicate 6 (.run ⟨3, []⟩))
    (fun timeline final => inSwitch final.code = false ∧ final.lib.totalQuantum = 2 ∧ cutAt 3 (fun move last =>
      inSwitch move.before.code = false ∧ move.before.lib.totalQuantum = 1 ∧
      (move.before.lib.ready.map move.before.lib.idOf)[0]? = some 1 ∧
      ∀ other ∈ move :: last, other.before.code.head? ≠ some (.call (.block 1)) ∧
        other.before.code.head? ≠ some (.call (.terminate 1))) timeline) (by decide +kernel)
  obtain ⟨outside', total', cut⟩ := of_decide_eq_true tested
  obtain ⟨move, last, cut, tested⟩ := of_cutAt cut
  obtain ⟨outside, total, position, kept⟩ := of_decide_eq_true tested
  obtain ⟨before, taken, later⟩ := (cut ▸ run).at_move
  refine ⟨move :: last, final, total', ready_thread_runs_within started_starts before (.cons taken later)
    (fun _ _ => .inl rfl) ⟨outside, outside'⟩ position (fun other member => ?_) (by rw [total, total']; decide)⟩
  exact ⟨not_begins (kept other member).1, not_begins (kept other member).2⟩

end run
end Uthreads.Nim
