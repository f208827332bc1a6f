import Uthreads.Proofs.Branches
import Uthreads.Proofs.WellFormed

/-! Every call keeps the containers in agreement, as long as it does not
terminate a sleeper. A switch is prepared by its caller and completed by the
common routine, so the two halves are proved apart. -/

namespace Uthreads

variable {ε : Type} {s s' : State ε}

/-- No call in a run terminates a thread whose status is ASLEEP. -/
def Op.Spares (op : Op ε) (s : State ε) : Prop := ∀ tid, op = .terminate tid → s.status tid ≠ some .asleep

instance (op : Op ε) (s : State ε) : Decidable (op.Spares s) :=
  match op with
  | .terminate tid => decidable_of_iff (s.status tid ≠ some .asleep)
      ⟨fun spared _ same => (Op.terminate.inj same) ▸ spared, fun spared => spared tid rfl⟩
  | .spawn _ | .block _ | .resume _ | .sleep _ | .getTid | .getTotalQuantums | .getQuantums _ | .preempt =>
      .isTrue fun _ same => by cases same

/-- What `switch_threads` may rely on when it is called with `target`. -/
structure Leaving (target : Status) (s : State ε) : Prop where
  consistent : Consistent (if target = .ready ∨ target = .blocked then some s.runningTid else none) s
  original : target ≠ .terminated → s.live s.runningTid
  main : target ≠ .ready → s.runningTid ≠ 0

theorem Branch.fails_same {op : Op ε} {message : String} (branch : Branch s op (.fails message) s') : s' = s := by
  cases branch <;> rfl

theorem least_free {free : Std.ExtTreeSet Int} {tid : Int} (least : free.toList.head? = some tid) :
    tid ∈ free := by
  rw [← Std.ExtTreeSet.min?_eq_head?_toList] at least
  exact Std.ExtTreeSet.min?_mem least

structure Placed (s : State ε) (tid : Int) : Prop where
  only : s.status tid = some .running ∨ s.status tid = some .main → tid = s.runningTid
  kept : s.status tid ≠ some .terminated
  ready : tid ∈ s.readyTids ↔ s.status tid = some .ready
  asleep : tid ∈ s.sleepers ↔ s.status tid = some .asleep
  blockedLive : tid ∈ s.blockedTids → s.live tid
  blocked : s.status tid = some .blocked ↔ tid ∈ s.blockedTids ∧ tid ∉ s.sleepers
  ids : s.live tid ∨ tid ∈ s.freeIds ↔ 0 ≤ tid ∧ tid < maxThreadNum
  disjoint : s.live tid → tid ∉ s.freeIds

structure SameAt (s' s : State ε) (tid : Int) : Prop where
  status : s'.status tid = s.status tid
  ready : tid ∈ s'.readyTids ↔ tid ∈ s.readyTids
  sleepers : tid ∈ s'.sleepers ↔ tid ∈ s.sleepers
  blocked : tid ∈ s'.blockedTids ↔ tid ∈ s.blockedTids
  free : tid ∈ s'.freeIds ↔ tid ∈ s.freeIds

theorem SameAt.placed {tid : Int} (same : SameAt s' s tid) (running : s'.runningTid = s.runningTid)
    (placed : Placed s tid) : Placed s' tid := by
  have live : s'.live tid ↔ s.live tid := by simp only [State.live_iff_status, same.status]
  constructor
  all_goals simp only [same.status, same.ready, same.sleepers, same.blocked, same.free, live, running]
  exacts [placed.only, placed.kept, placed.ready, placed.asleep, placed.blockedLive, placed.blocked,
    placed.ids, placed.disjoint]

namespace WellFormed

theorem placed (valid : WellFormed s) (tid : Int) : Placed s tid :=
  ⟨valid.only tid, valid.kept tid, valid.ready tid, valid.asleep tid, valid.blockedLive tid,
    valid.blocked tid, valid.ids tid, valid.disjoint tid⟩

/-- A change to one thread, neither running nor main, is judged at that thread. -/
theorem update (valid : WellFormed s) {tid : Int} (away : tid ≠ s.runningTid) (other : tid ≠ 0)
    (running : s'.runningTid = s.runningTid) (others : ∀ other, other ≠ tid → SameAt s' s other)
    (nodup : s'.readyTids.Nodup) (own : Placed s' tid) : WellFormed s' := by
  have placed : ∀ other, Placed s' other := by
    intro other
    by_cases same : other = tid
    · exact same ▸ own
    · exact (others other same).placed running (valid.placed other)
  refine ⟨?_, fun other => (placed other).only, fun other => (placed other).kept, nodup,
    fun other => (placed other).ready, fun other => (placed other).asleep, fun other => (placed other).blockedLive,
    fun other => (placed other).blocked, ?_, fun other => (placed other).ids, fun other => (placed other).disjoint⟩
  · rw [running, (others _ (Ne.symm away)).status, (others 0 (Ne.symm other)).status]
    exact valid.running
  · rw [running, (others 0 (Ne.symm other)).ready]
    exact valid.zero

theorem main_live (valid : WellFormed s) : s.live 0 := by
  rcases valid.zero with running | queued
  · exact running ▸ valid.running_live
  · exact State.live_iff_status.mpr ⟨_, (valid.ready 0).mp queued⟩

private theorem not_running (valid : WellFormed s) {tid : Int} {status : Status}
    (found : s.status tid = some status) (kind : status ≠ .running ∧ status ≠ .main) : tid ≠ s.runningTid := by
  rintro rfl
  exact (valid.running_status found).elim kind.1 kind.2

private theorem not_main (valid : WellFormed s) {tid : Int} {status : Status} (found : s.status tid = some status)
    (kind : status = .blocked ∨ status = .asleep) : tid ≠ 0 := by
  rintro rfl
  rcases valid.zero with running | queued
  · rcases kind with rfl | rfl
    all_goals exact valid.not_running found (by simp) running.symm
  · rw [valid.ready, found] at queued
    rcases kind with rfl | rfl
    all_goals cases queued

theorem enroll (valid : WellFormed s) {tid : Int} (least : s.freeIds.toList.head? = some tid) (entryPoint : ε) :
    WellFormed (s.enroll tid entryPoint) := by
  have free := least_free least
  have dead : ¬ s.live tid := fun present => valid.disjoint tid present free
  have none := State.status_eq_none.mpr dead
  have placed := valid.placed tid
  have away : tid ≠ s.runningTid := by
    rintro rfl
    exact dead valid.running_live
  have other : tid ≠ 0 := by
    rintro rfl
    exact dead valid.main_live
  refine valid.update away other (State.runningTid_enroll ..) (fun other different => ?_) ?_ ?_
  · constructor <;> simp [State.status_enroll, different, Ne.symm different]
  · rw [State.readyTids_enroll, ← List.concat_eq_append]
    exact valid.nodup.concat fun member => by simpa [none] using placed.ready.mp member
  · have status : (s.enroll tid entryPoint).status tid = some .ready := by simp [State.status_enroll, dead]
    have live := State.live_iff_status.mpr ⟨_, status⟩
    have queued : tid ∈ (s.enroll tid entryPoint).readyTids := by simp
    have taken : tid ∉ (s.enroll tid entryPoint).freeIds := by simp
    have := placed.asleep
    have := placed.blocked
    have := placed.blockedLive
    have := placed.ids
    constructor <;> grind [State.sleepers_enroll, State.blockedTids_enroll]

theorem remove_ready (valid : WellFormed s) {tid : Int} (other : tid ≠ 0) (found : s.status tid = some .ready) :
    WellFormed ((s.remove tid).dequeue tid) := by
  have placed := valid.placed tid
  refine valid.update (valid.not_running found (by simp)) other rfl (fun other different => ?_)
    (valid.nodup.erase tid) ?_
  · constructor
    · simp [State.status_remove, different]
    · exact List.mem_erase_of_ne different
    · exact Iff.rfl
    · exact Iff.rfl
    · simp [State.remove, State.dequeue, Ne.symm different]
  · have range := placed.ids.mp (.inl (State.live_iff_status.mpr ⟨_, found⟩))
    have gone : ((s.remove tid).dequeue tid).status tid = none := by simp [State.status_remove]
    have dead := State.status_eq_none.mp gone
    have unqueued : tid ∉ ((s.remove tid).dequeue tid).readyTids := valid.nodup.not_mem_erase
    have freed : tid ∈ ((s.remove tid).dequeue tid).freeIds := by simp [State.remove, State.dequeue]
    have asleep : tid ∉ ((s.remove tid).dequeue tid).sleepers := by
      intro member
      simpa [found] using placed.asleep.mp member
    have blocked : tid ∉ ((s.remove tid).dequeue tid).blockedTids := by
      intro member
      simpa [found] using placed.blocked.mpr ⟨member, asleep⟩
    constructor <;> grind

theorem remove_blocked (valid : WellFormed s) {tid : Int} (other : tid ≠ 0) (found : s.status tid = some .blocked) :
    WellFormed ((s.remove tid).release tid) := by
  have placed := valid.placed tid
  refine valid.update (valid.not_running found (by simp)) other rfl (fun other different => ?_) valid.nodup ?_
  · constructor
    · simp [State.status_remove, different]
    · exact Iff.rfl
    · exact Iff.rfl
    · simp [State.remove, State.release, different]
    · simp [State.remove, State.release, Ne.symm different]
  · have range := placed.ids.mp (.inl (State.live_iff_status.mpr ⟨_, found⟩))
    have gone : ((s.remove tid).release tid).status tid = none := by simp [State.status_remove]
    have dead := State.status_eq_none.mp gone
    have unqueued : tid ∉ ((s.remove tid).release tid).readyTids := by
      intro member
      simpa [found] using placed.ready.mp member
    have freed : tid ∈ ((s.remove tid).release tid).freeIds := by simp [State.remove, State.release]
    have asleep : tid ∉ ((s.remove tid).release tid).sleepers := (placed.blocked.mp found).2
    have blocked : tid ∉ ((s.remove tid).release tid).blockedTids := by simp [State.release]
    constructor <;> grind

theorem block_ready (valid : WellFormed s) {tid : Int} (other : tid ≠ 0) (found : s.status tid = some .ready) :
    WellFormed (((s.dequeue tid).hold tid).withStatus tid .blocked) := by
  have placed := valid.placed tid
  have status := State.status_withStatus ((s.dequeue tid).hold tid) tid
  refine valid.update (valid.not_running found (by simp)) other rfl (fun other different => ?_)
    (valid.nodup.erase tid) ?_
  · constructor
    · simp [status, different]
    · exact List.mem_erase_of_ne different
    · exact Iff.rfl
    · simp [State.dequeue, State.hold, different]
    · exact Iff.rfl
  · have own : (((s.dequeue tid).hold tid).withStatus tid .blocked).status tid = some .blocked := by
      simp [status, found]
    have live := State.live_iff_status.mpr ⟨_, own⟩
    have present := State.live_iff_status.mpr ⟨_, found⟩
    have range := placed.ids.mp (.inl present)
    have taken := placed.disjoint present
    have unqueued : tid ∉ (((s.dequeue tid).hold tid).withStatus tid .blocked).readyTids := valid.nodup.not_mem_erase
    have asleep : tid ∉ s.sleepers := fun member => by simpa [found] using placed.asleep.mp member
    have blocked : tid ∈ (((s.dequeue tid).hold tid).withStatus tid .blocked).blockedTids := by simp [State.hold]
    constructor <;> grind [State.sleepers_withStatus, State.freeIds_withStatus, State.dequeue, State.hold]

theorem resume_blocked (valid : WellFormed s) {tid : Int} (found : s.status tid = some .blocked) :
    WellFormed (((s.release tid).enqueue tid).withStatus tid .ready) := by
  have placed := valid.placed tid
  have other := valid.not_main found (.inl rfl)
  have status := State.status_withStatus ((s.release tid).enqueue tid) tid
  have away : tid ∉ s.readyTids := fun member => by simpa [found] using placed.ready.mp member
  refine valid.update (valid.not_running found (by simp)) other rfl (fun other different => ?_) ?_ ?_
  · constructor
    · simp [status, different]
    · simp [State.enqueue, State.release, different]
    · exact Iff.rfl
    · simp [State.enqueue, State.release, different]
    · exact Iff.rfl
  · change (s.readyTids ++ [tid]).Nodup
    rw [← List.concat_eq_append]
    exact valid.nodup.concat away
  · have own : (((s.release tid).enqueue tid).withStatus tid .ready).status tid = some .ready := by
      simp [status, found]
    have live := State.live_iff_status.mpr ⟨_, own⟩
    have present := State.live_iff_status.mpr ⟨_, found⟩
    have range := placed.ids.mp (.inl present)
    have taken := placed.disjoint present
    have queued : tid ∈ (((s.release tid).enqueue tid).withStatus tid .ready).readyTids := by simp [State.enqueue]
    have asleep := (placed.blocked.mp found).2
    have blocked : tid ∉ (((s.release tid).enqueue tid).withStatus tid .ready).blockedTids := by
      simp [State.enqueue, State.release]
    constructor <;> grind [State.sleepers_withStatus, State.freeIds_withStatus, State.release, State.enqueue]

theorem sleeper (valid : WellFormed s) {tid : Int} (found : s.status tid = some .asleep)
    (blocked : Finset Int) (others : ∀ other, other ≠ tid → (other ∈ blocked ↔ other ∈ s.blockedTids)) :
    WellFormed { s with blockedTids := blocked } := by
  have placed := valid.placed tid
  have asleep := placed.asleep.mpr found
  have live := State.live_iff_status.mpr ⟨_, found⟩
  have other := valid.not_main found (.inr rfl)
  refine valid.update (valid.not_running found (by simp)) other rfl (fun other different => ?_) valid.nodup ?_
  · exact ⟨rfl, Iff.rfl, Iff.rfl, others other different, Iff.rfl⟩
  · refine ⟨placed.only, placed.kept, placed.ready, placed.asleep, fun _ => live, ?_, placed.ids, placed.disjoint⟩
    exact iff_of_false (by change s.status tid ≠ _; simp [found]) fun held => held.2 asleep

theorem masked (valid : WellFormed s) : WellFormed (blockVtAlarm s) :=
  valid.frame (fun _ => rfl) rfl rfl rfl rfl rfl

theorem unmasked (valid : WellFormed s) : WellFormed (unblockVtAlarm s) :=
  valid.frame (fun _ => rfl) rfl rfl rfl rfl rfl

/-- A thread that terminates itself is on no list when the switch begins. -/
theorem remove_running (valid : WellFormed s) (other : s.runningTid ≠ 0) :
    Consistent none (s.remove s.runningTid) := by
  have inside := valid.consistent
  obtain ⟨queue, asleep, blocked⟩ := inside.unqueued _ rfl
  have status := State.status_remove s s.runningTid
  have live := State.live_remove s s.runningTid
  have free := fun tid => State.mem_freeIds_remove s s.runningTid tid
  have away : ∀ tid, tid ≠ s.runningTid → some s.runningTid ≠ some tid := fun tid different same =>
    different (Option.some.inj same).symm
  refine ⟨by simp, by simp, ?_, valid.nodup, ?_, ?_, ?_, ?_, ?_, ?_, ?_⟩
  · intro tid st _ found
    have := inside.parked tid st
    grind
  · intro tid _
    have := valid.ready tid
    change tid ∈ s.readyTids ↔ _
    grind
  · intro tid _
    have := valid.asleep tid
    change tid ∈ s.sleepers ↔ _
    grind
  · intro tid member
    exact (live tid).mpr ⟨fun same => blocked (same ▸ member), valid.blockedLive tid member⟩
  · intro tid _
    have := valid.blocked tid
    change _ ↔ tid ∈ s.blockedTids ∧ tid ∉ s.sleepers
    grind
  · exact .inr (valid.zero.resolve_left other)
  · intro tid
    have := valid.ids tid
    have := valid.running_live
    grind
  · intro tid
    have := valid.disjoint tid
    grind

/-- A thread that goes to sleep is already among the sleepers when the switch
begins, so this very switch counts against it. -/
theorem doze (valid : WellFormed s) (other : s.runningTid ≠ 0) (numQuantums : Int) :
    Consistent none (s.doze numQuantums) := by
  have inside := valid.consistent
  obtain ⟨queue, asleep, blocked⟩ := inside.unqueued _ rfl
  have status := fun tid => State.status_doze s tid numQuantums
  have live : ∀ tid, (s.doze numQuantums).live tid ↔ s.live tid := fun tid => State.live_withStatus ..
  have own : (s.doze numQuantums).status s.runningTid = some .asleep := by
    obtain ⟨old, found⟩ := State.live_iff_status.mp valid.running_live
    rw [status, if_pos rfl, found]
    rfl
  have sleepers := fun tid => State.mem_sleepers_doze s tid numQuantums
  have away : ∀ tid, tid ≠ s.runningTid →
      some s.runningTid ≠ some tid ∧ (s.doze numQuantums).status tid = s.status tid := by
    intro tid different
    exact ⟨fun same => different (Option.some.inj same).symm, by rw [status, if_neg different]⟩
  refine ⟨by simp, by simp, ?_, valid.nodup, ?_, ?_, ?_, ?_, ?_, ?_, ?_⟩
  · intro tid st _ found
    have := inside.parked tid st
    grind
  · intro tid _
    have := valid.ready tid
    change tid ∈ s.readyTids ↔ _
    grind
  · intro tid _
    have := valid.asleep tid
    grind
  · exact fun tid member => (live tid).mpr (valid.blockedLive tid member)
  · intro tid _
    have := valid.blocked tid
    change _ ↔ tid ∈ s.blockedTids ∧ _
    grind
  · exact .inr (valid.zero.resolve_left other)
  · exact fun tid => (or_congr_left (live tid)).trans (valid.ids tid)
  · exact fun tid present => valid.disjoint tid ((live tid).mp present)

end WellFormed

theorem Branch.finishes_wellFormed {op : Op ε} {result : Returned} (valid : WellFormed s) (spared : op.Spares s)
    (branch : Branch s op (.finishes result) s') : WellFormed s' ∧ s'.runningTid = s.runningTid := by
  cases branch with
  | spawn least => exact ⟨valid.enroll least _, State.runningTid_enroll ..⟩
  | terminateReady other found queued => exact ⟨valid.remove_ready other found, rfl⟩
  | terminateBlocked other found => exact ⟨valid.remove_blocked other found, rfl⟩
  | terminateRest other found kind =>
    rcases kind with rfl | rfl | rfl
    · have running := valid.only _ (.inr found)
      rcases valid.running with status | ⟨zero, _⟩
      · rw [← running, found] at status; cases status
      · exact absurd (running.trans zero) other
    · exact absurd found (spared _ rfl)
    · exact absurd found (valid.kept _)
  | blockReady other found queued => exact ⟨valid.block_ready other found, rfl⟩
  | blockAsleep other found =>
    exact ⟨valid.sleeper found _ fun tid different => by simp [different], rfl⟩
  | resumeBlocked found => exact ⟨valid.resume_blocked found, rfl⟩
  | resumeAsleep found =>
    exact ⟨valid.sleeper found _ fun tid different => by simp [different], rfl⟩
  | blockRest | resumeRest | getTid | getTotalQuantums | getQuantums => exact ⟨valid, rfl⟩

/-- The calls that switch hand a prepared state to the switch. -/
theorem Branch.switches_leaving {op : Op ε} {target : Status} (valid : WellFormed s)
    (branch : Branch s op (.switches target) s') : Leaving target s' := by
  cases branch with
  | preempt => exact ⟨by simpa using valid.consistent, fun _ => valid.running_live, fun other => absurd rfl other⟩
  | @blockRunning tid other found =>
    have running := valid.only _ (.inl found)
    refine ⟨?_, fun _ => valid.running_live, fun _ => fun zero => other (running.trans zero)⟩
    have kept : Consistent (some s.runningTid) (resetTimer s) := valid.consistent.frame (fun _ => rfl) rfl rfl rfl rfl
    rw [if_pos (.inr rfl)]
    exact kept
  | @terminateRunning tid other found =>
    obtain rfl := valid.only _ (.inl found)
    refine ⟨?_, fun kept => absurd rfl kept, fun _ => other⟩
    have kept : Consistent none (unblockVtAlarm (resetTimer (s.remove s.runningTid))) :=
      (valid.remove_running other).frame (fun _ => rfl) rfl rfl rfl rfl
    simpa using kept
  | @sleep numQuantums other amount live =>
    refine ⟨?_, fun _ => (State.live_withStatus ..).mpr live, fun _ => other⟩
    have kept : Consistent none (resetTimer (s.doze numQuantums)) :=
      (valid.doze other numQuantums).frame (fun _ => rfl) rfl rfl rfl rfl
    simpa using kept

namespace Leaving
variable {target : Status}

theorem tick (leaving : Leaving target s) : Leaving target s.tick :=
  ⟨leaving.consistent.tick, fun kept => (State.live_tick ..).mpr (leaving.original kept), leaving.main⟩

theorem parked (leaving : Leaving target s) : Consistent none (s.leave target) := by
  have consistent := leaving.consistent
  by_cases kind : target = .ready ∨ target = .blocked
  · rw [if_pos kind] at consistent
    apply Consistent.leave consistent
    rcases kind with rfl | rfl
    · exact .inl rfl
    · exact .inr ⟨rfl, leaving.main (by simp)⟩
  · rw [if_neg kind] at consistent
    cases target
    case ready | blocked => simp at kind
    all_goals exact consistent

/-- A prepared switch always finds someone to run, faults nowhere and leaves
the containers in agreement. -/
theorem switches (leaving : Leaving target s) :
    ∃ next rest, (s.tick.leave target).readyTids = next :: rest ∧
      (∀ here, switchThreads target here s = .ok (s.handOver target here next rest)) ∧
      ∀ here, WellFormed (s.handOver target here next rest) := by
  have parked := leaving.tick.parked
  cases queue : (s.tick.leave target).readyTids with
  | nil =>
    have zero := parked.zero.resolve_left (by simp)
    rw [queue] at zero
    cases zero
  | cons next rest =>
    have chosen : s.live next := by
      have found := (parked.ready next (by simp)).mp (by simp [queue])
      exact (State.live_tick ..).mp ((State.live_leave ..).mp (State.live_iff_status.mpr ⟨_, found⟩))
    refine ⟨next, rest, rfl, fun here => ?_, fun here => ?_⟩
    · exact (switchThreads_ok queue).mpr ⟨leaving.consistent.sleepersLive, leaving.original, chosen, rfl⟩
    · refine (parked.dispatch queue).frame (fun tid => State.status_handOver_dispatch ..) ?_ ?_ ?_ ?_ ?_
      · rw [State.readyTids_handOver]; rfl
      · rw [State.sleepers_handOver]; simp [State.dispatch]
      · rw [State.blockedTids_handOver]; simp [State.dispatch, State.blockedTids_leave]
      · rw [State.freeIds_handOver]; simp [State.dispatch]
      · rw [State.runningTid_handOver]; rfl

end Leaving
end Uthreads
