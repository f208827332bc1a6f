import Mathlib.Data.List.Nodup
import Uthreads.Nim.Proofs.Runs

/-! The places in terms of the containers themselves. -/

namespace Uthreads.Nim
open RoundRobin Transition

variable {ε : Type} {s start final : State ε} {tid : Int} {pointer : Pointer}

/-- Every live thread is in exactly one place, and the containers hold nothing
but records of live threads, each under its own id. -/
structure InPlace (s : State ε) : Prop where
  place : ∀ tid, s.live tid → ∃ pointer, s.Files tid pointer ∧
    (s.running = pointer ∧ pointer ∉ s.ready ∧ tid ∉ s.blocked ∧ tid ∉ s.mutexBlocked ∨
      s.running ≠ pointer ∧ s.ready.count pointer = 1 ∧ tid ∉ s.blocked ∧ tid ∉ s.mutexBlocked ∨
      s.running ≠ pointer ∧ pointer ∉ s.ready ∧ (tid ∈ s.blocked ∨ tid ∈ s.mutexBlocked))
  running : ∃ tid, s.Files tid s.running
  ready : ∀ pointer ∈ s.ready, ∃ tid, s.Files tid pointer
  blocked : ∀ (tid : Int) (pointer : Pointer), s.blocked[tid]? = some pointer → s.Files tid pointer
  mutexBlocked : ∀ (tid : Int) (pointer : Pointer), s.mutexBlocked[tid]? = some pointer → s.Files tid pointer
  main : mainThread ∉ s.blocked
  holder : s.mutex.blocked = true → ∃ tid, s.Files tid s.mutex.threadBlock ∧ tid ∉ s.mutexBlocked

section valid

theorem State.Files.runnable_iff (files : s.Files tid pointer) :
    (abstraction s).Runnable tid ↔ tid ∉ s.blocked ∧ tid ∉ s.mutexBlocked := by
  rw [Guarded.Runnable, files.able, mem_waiting]
  simp

theorem Valid.live_iff (valid : Valid s) : s.live tid ↔ ((abstraction s).tasks tid).isSome := by
  rw [← valid.filed.thread_isSome, abstraction, Option.isSome_map]

theorem Valid.blocked_iff (valid : Valid s) : ((abstraction s).tasks tid).map Task.held = some true ↔ tid ∈ s.blocked := by
  have held : ∀ thread, s.thread tid = some thread →
      ((abstraction s).tasks tid).map Task.held = some (decide (tid ∈ s.blocked)) := by
    intro thread found
    simp [abstraction, found]
  constructor
  · intro marked
    cases found : s.thread tid with
    | none => simp [abstraction, found] at marked
    | some thread => exact of_decide_eq_true (Option.some.inj ((held thread found).symm.trans marked))
  · intro blocked
    obtain ⟨thread, found⟩ := Option.isSome_iff_exists.mp (valid.filed.thread_isSome.mpr (valid.filed.live_blocked blocked))
    rw [held thread found, decide_eq_true blocked]

theorem Valid.mem_queue (valid : Valid s) (files : s.Files tid pointer) :
    tid ∈ (abstraction s).queue ↔ pointer ∈ s.ready := by
  constructor
  · intro queued
    obtain ⟨other, member, same⟩ := List.mem_map.mp queued
    obtain ⟨tid', files'⟩ := valid.filed.ready other member
    obtain rfl : tid' = tid := files'.idOf.symm.trans same
    exact files'.inj files ▸ member
  · intro member
    exact List.mem_map.mpr ⟨pointer, member, files.idOf⟩

theorem Valid.current_iff (valid : Valid s) (files : s.Files tid pointer) :
    tid = (abstraction s).current ↔ s.running = pointer := by
  constructor
  · rintro rfl
    exact valid.current.inj files
  · rintro rfl
    exact files.id_inj valid.current

theorem Valid.nodup_ready (valid : Valid s) : s.ready.Nodup := valid.placed.nodup.of_map

theorem Valid.inPlace (valid : Valid s) : InPlace s := by
  have filed := valid.filed
  refine ⟨fun tid live => ?_, ⟨_, valid.current⟩, filed.ready,
    fun tid pointer found => filed.files (filed.blocked tid pointer found),
    fun tid pointer found => filed.files (filed.mutexBlocked tid pointer found), valid.main.2, fun held => ?_⟩
  · obtain ⟨pointer, files⟩ := filed.exists_files live
    refine ⟨pointer, files, ?_⟩
    have queued := valid.placed.queued tid
    rw [valid.mem_queue files, files.runnable_iff] at queued
    by_cases current : s.running = pointer
    · have same := (valid.current_iff files).mpr current
      have runnable := files.runnable_iff.mp (valid.placed.turn tid (congrArg some same.symm))
      exact .inl ⟨current, fun member => (queued.mp member).1 (congrArg some same.symm), runnable⟩
    · have other : some (abstraction s).current ≠ some tid := fun same =>
        current ((valid.current_iff files).mp (Option.some.inj same).symm)
      by_cases member : pointer ∈ s.ready
      · exact .inr (.inl ⟨current, List.count_eq_one_of_mem valid.nodup_ready member, (queued.mp member).2⟩)
      · refine .inr (.inr ⟨current, member, ?_⟩)
        by_contra parked
        exact member (queued.mpr ⟨other, not_or.mp parked⟩)
  · obtain ⟨tid, files, owns⟩ := filed.owner held
    exact ⟨tid, files, fun waits => (valid.placed.owner tid owns).2 (mem_waiting.mpr waits)⟩

end valid

/-- In every reachable state all threads are in place. So the last branch of
`uthread_block` is only taken for threads that are blocked or wait already. -/
theorem threads_in_place {history : History ε} (initialized : Initialized start) (run : Run Takes start history final) :
    InPlace final ∧ ∀ tid thread, final.allThreads[tid]? = some thread → tid ≠ mainThread →
      findIdeque tid (block final) = .ok none → (block final).running ≠ thread →
        tid ∈ final.blocked ∨ tid ∈ final.mutexBlocked := by
  have valid := run_valid initialized run
  refine ⟨valid.inPlace, fun tid thread found notMain absent other => ?_⟩
  have files := valid.filed.files found
  obtain ⟨pointer, files', place⟩ := valid.inPlace.place tid files.live
  obtain rfl := files.inj files'
  have missing : (final.ready.map final.idOf).idxOf? tid = none :=
    Except.ok.inj ((findIdeque_eq (s := block final) valid.filed.ready_allocated).symm.trans absent)
  have away : thread ∉ final.ready := fun member =>
    List.idxOf?_eq_none_iff.mp missing ((valid.mem_queue files).mpr member)
  rcases place with ⟨current, -⟩ | ⟨-, once, -⟩ | ⟨-, -, parked⟩
  · exact absurd current other
  · exact absurd (List.count_pos_iff.mp (once ▸ Nat.one_pos)) away
  · exact parked

/-- Thread 1 waits for the mutex, and main blocks it. -/
theorem threads_in_place_blocked_waiter : ∃ final : State Unit, 1 ∈ final.blocked ∧ 1 ∈ final.mutexBlocked ∧ InPlace final := by
  obtain ⟨history, final, run, tested⟩ := perform_tested booted
    [(.spawn (), ⟨0, ()⟩), (.mutexLock, ⟨0, ()⟩), (.preempt, ⟨0, ()⟩), (.mutexLock, ⟨1, ()⟩), (.block 1, ⟨0, ()⟩)]
    (fun _ final => 1 ∈ final.blocked ∧ 1 ∈ final.mutexBlocked) (by decide +kernel)
  obtain ⟨held, waits⟩ := of_decide_eq_true tested
  exact ⟨final, held, waits, (threads_in_place booted_initialized run).1⟩

end Uthreads.Nim
