import Uthreads.Proofs.SleepLength
import Uthreads.Proofs.Turns

/-! How long a sleeping thread of uthreads.cpp is kept from the processor, wherever the
signal arrives. When it wakes up it has at most the other threads ahead of it. -/

namespace Uthreads
open Fifo Transition

section calls
variable {ε : Type} {s s' start final : State ε} {tid : Int} {bound : Nat}

private theorem maxThreadNum_pos : 0 < maxThreadNum := by decide

/-- The thread sleeps or waits, and has the processor after so many switches at the latest. -/
inductive Due (s : State ε) (tid : Int) (bound : Nat) : Prop where
  | asleep {left : Nat} (counter : s.sleepers[tid]? = some (left : Int)) (free : tid ∉ s.blockedTids)
      (bounded : left + maxThreadNum ≤ bound)
  | ready {ahead : List Int} (waits : Waits s.readyTids ahead tid) (bounded : ahead.length < bound)

private theorem Due.positive (due : Due s tid bound) : 0 < bound := by
  cases due with
  | asleep _ _ bounded =>
    have positive := maxThreadNum_pos
    omega
  | ready _ bounded => omega

private theorem Branch.unblocked {op : Op ε} {next : Next} (branch : Branch s op next s') (kept : op ≠ .block tid)
    (free : tid ∉ s.blockedTids) : tid ∉ s'.blockedTids := by
  cases branch with
  | blockReady | blockAsleep =>
    have different : ∀ {other}, Op.block (ε := ε) other ≠ .block tid → tid ≠ other := fun kept same => kept (same ▸ rfl)
    exact fun member => (Finset.mem_insert.mp member).elim (different kept) free
  | terminateBlocked | resumeBlocked | resumeAsleep => exact fun member => free (Finset.mem_of_mem_erase member)
  | spawn => rwa [State.blockedTids_enroll]
  | _ => exact free

private theorem Step.unblocked {op : Op ε} {here : Context ε} {reply : Reply} (step : Step s here op reply s') (valid : WellFormed s)
    (kept : op ≠ .block tid) (free : tid ∉ s.blockedTids) : tid ∉ s'.blockedTids := by
  cases step with
  | fails | getTid | getTotalQuantums => exact free
  | finishes branch => exact branch.unblocked kept free
  | @switches _ target _ _ _ branch =>
    have free' := branch.unblocked kept free
    rw [State.blockedTids_handOver]
    split
    next blocks =>
      subst blocks
      cases branch with
      | blockRunning _ found =>
        have running := valid.only _ (.inl found)
        exact fun member => (Finset.mem_insert.mp member).elim (fun same => kept (by rw [running, same]; rfl)) free'
    next => exact free'

private theorem WellFormed.ahead_le (valid : WellFormed s) {ahead : List Int} (waits : Waits s.readyTids ahead tid) :
    (ahead.length : Int) + 2 ≤ maxThreadNum := by
  have away := (valid.consistent.unqueued _ rfl).1
  obtain ⟨behind, queue⟩ := waits
  have distinct := List.nodup_middle.mp (queue ▸ valid.nodup)
  have everybody : ∀ other ∈ s.runningTid :: s.readyTids, s.live other := by
    intro other member
    rcases List.mem_cons.mp member with rfl | queued
    · exact valid.running_live
    · exact State.live_iff_status.mpr ⟨_, (valid.ready other).mp queued⟩
  have inside : s.runningTid :: tid :: ahead ⊆ allIds := by
    intro other member
    refine mem_allIds.mpr ((valid.ids other).mp (.inl (everybody other ?_)))
    rw [queue]
    grind
  have once : (s.runningTid :: tid :: ahead).Nodup := by grind
  have short := (once.subperm inside).length_le
  have count := length_allIds
  simp only [List.length_cons] at short
  omega

private theorem Step.due {event : Event ε} (step : Step s event.here event.op event.reply s') (valid : WellFormed s)
    (valid' : WellFormed s') (kept : event.op ≠ .block tid ∧ event.op ≠ .terminate tid) (due : Due s tid bound) :
    s'.runningTid = tid ∨ ∃ less, Due s' tid less ∧ less + s'.totalQuantums ≤ bound + s.totalQuantums := by
  cases due with
  | ready waits bounded =>
    rcases (step.advances valid kept).waits waits with same | ⟨fewer, still, closer⟩
    · exact .inl same
    · exact .inr ⟨fewer.length + 1, .ready still (Nat.lt_succ_self _), by omega⟩
  | @asleep left counter free bounded =>
    have positive := maxThreadNum_pos
    have sleeps := step.sleeper valid valid' (valid.asleep_of_counter counter)
    have free' := step.unblocked valid kept.1 free
    rw [step.total valid.sound]
    cases kind : event.op.switching s with
    | false => exact .inr ⟨bound, .asleep (sleeps.1 kind).counter free' bounded, Nat.le_refl _⟩
    | true =>
      obtain ⟨going, ending⟩ := sleeps.2 kind
      cases left with
      | succ left =>
        have still := (going (by omega)).counter
        rw [Int.natCast_succ, Int.add_sub_cancel] at still
        refine .inr ⟨bound - 1, .asleep still free' (by omega), ?_⟩
        rw [if_pos rfl]
        omega
      | zero =>
        obtain ⟨⟨woken, preempted, wakes, -, -, queue⟩, -⟩ := (ending rfl).ready free
        have queued : tid ∈ s'.runningTid :: s'.readyTids := by
          rw [← queue]
          exact List.mem_append_left _ (List.mem_append_right _ wakes)
        rcases List.mem_cons.mp queued with same | member
        · exact .inl same.symm
        · obtain ⟨ahead, behind, split⟩ := List.append_of_mem member
          have waits : Waits s'.readyTids ahead tid := ⟨behind, split⟩
          have short := valid'.ahead_le waits
          refine .inr ⟨bound - 1, .ready waits (by omega), ?_⟩
          rw [if_pos rfl]
          omega

private theorem history_due {history : History ε} (valid : WellFormed start) (run : Run Takes start history final)
    (spared : Sparing history) (due : Due start tid bound)
    (kept : ∀ call ∈ history, call.label.op ≠ .block tid ∧ call.label.op ≠ .terminate tid)
    (long : start.totalQuantums + bound ≤ final.totalQuantums) : ∃ call ∈ history, call.after.runningTid = tid := by
  have progress := run_within (Due · tid) State.totalQuantums (·.runningTid = tid) run (fun call member bound due => by
    obtain ⟨first, last, rfl, before, taken, -⟩ := run.at_mem member
    have valid := run_wellFormed valid before fun other earlier => spared other (List.mem_append_left _ earlier)
    have step := step_of_call valid.sound taken
    exact step.due valid (step.wellFormed valid (spared call member)) (kept call member) due) due
  rcases progress with served | ⟨less, due, closer⟩
  · exact served
  · have positive := due.positive
    omega

end calls

section run
variable {start middle final : Machine} {earlier later : Timeline} {tid : Int}

/-- In every run with atomic switches in which nobody terminates a sleeper, a sleeping
thread whose counter is `left` and that nobody blocks or terminates has been given the
processor by the time that `left + MAX_THREAD_NUM` more quantums have started, wherever
the signal arrives. -/
theorem sleeping_tid_runs_within {left : Int} (starts : start.Starts) (before : Run Machine.AtomicSteps start earlier middle)
    (run : Run Machine.AtomicSteps middle later final)
    (spared : ∀ move ∈ earlier ++ later, committing move = true → move.before.Spares)
    (outside : inSwitch middle.code = false ∧ inSwitch final.code = false) (asleep : middle.lib.sleepers[tid]? = some left)
    (free : tid ∉ middle.lib.blockedTids)
    (kept : ∀ move ∈ later, committing move = true →
      move.before.commits ≠ some (.block tid) ∧ move.before.commits ≠ some (.terminate tid))
    (long : middle.lib.totalQuantums + left + maxThreadNum ≤ final.lib.totalQuantums) :
    ∃ move ∈ later, move.before.lib.runningTid ≠ tid ∧ move.after.lib.runningTid = tid := by
  obtain ⟨soon, late⟩ := List.forall_mem_append.mp spared
  obtain ⟨history, last, history', last', sequential, alike, paired, sequential', alike', paired'⟩ :=
    continued_serialized starts before run outside
  have valid := run_wellFormed starts.initialized.wellFormed sequential (sparing_of_commits paired (spared_filter soon))
  have counting := run_counting starts.initialized sequential
  rw [alike.sleepers] at asleep
  rw [alike.blocked] at free
  obtain ⟨left, rfl⟩ := Int.eq_ofNat_of_zero_le (counting tid left asleep)
  have due : Due last tid (left + maxThreadNum.toNat) := .asleep asleep free (by rfl)
  refine given_processor run sequential' alike' paired' ?_ ?_
  · rw [alike.running]
    exact (valid.asleep_of_counter asleep).away
  · refine history_due valid sequential' (sparing_of_commits paired' (spared_filter late)) due (kept_of_commits paired' kept) ?_
    rw [← alike.total, ← alike'.total]
    have positive := maxThreadNum_pos
    omega

/-- Thread 1 has called `uthread_sleep(1)`, and main and thread 1 are preempted in turn. -/
theorem sleeping_tid_runs_within_preempted : ∃ (middle final : Machine) (later : Timeline), middle.lib.sleepers[(1 : Int)]? = some 0 ∧
    Run Machine.AtomicSteps middle later final ∧ ∃ move ∈ later, move.before.lib.runningTid ≠ 1 ∧ move.after.lib.runningTid = 1 := by
  obtain ⟨timeline, final, run, tested⟩ := Machine.booted.perform_tested
    (spawnAndSwitch ++ [.call (.sleep 1)] ++ .replicate 17 .run ++ [.expire, .deliver] ++ .replicate 17 .run ++
      [.call (.resume 1)] ++ .replicate 4 .run ++ (List.replicate 99 ([.expire, .deliver] ++ List.replicate 17 .run)).flatten)
    (fun timeline final => (∀ move ∈ timeline, move.label = .deliver → inSwitch move.before.code = false) ∧
      (∀ move ∈ timeline, committing move = true → move.before.Spares) ∧ inSwitch final.code = false ∧
      final.lib.totalQuantums = 103 ∧ cutAt 40 (fun move last => inSwitch move.before.code = false ∧
        move.before.lib.totalQuantums = 3 ∧ move.before.lib.sleepers[(1 : Int)]? = some 0 ∧ 1 ∉ move.before.lib.blockedTids ∧
          ∀ other ∈ move :: last, committing other = true →
            other.before.commits ≠ some (.block 1) ∧ other.before.commits ≠ some (.terminate 1)) timeline) (by decide +kernel)
  obtain ⟨outside, spared, user, total', cut⟩ := of_decide_eq_true tested
  obtain ⟨move, last, cut, tested⟩ := of_cutAt cut
  obtain ⟨user', total, asleep, free, kept⟩ := of_decide_eq_true tested
  obtain ⟨before, taken, later⟩ := (cut ▸ run_atomic run outside).at_move
  have run : Run Machine.AtomicSteps move.before (move :: last) final := .cons taken later
  exact ⟨move.before, final, move :: last, asleep, run, sleeping_tid_runs_within Machine.booted_starts before run
    (cut ▸ spared) ⟨user', user⟩ asleep free kept (by rw [total, total']; decide)⟩

end run
end Uthreads
