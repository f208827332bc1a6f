import Uthreads.Model.Specification
import Uthreads.Proofs.Invariant

/-! The containers implement the abstract scheduler. Each call commutes with the
abstraction, so a run of calls is a run of the specification. -/

namespace Uthreads
open Transition RoundRobin

variable {ε : Type} {s s' start final : State ε}

section tasks

theorem tasks_isNone {tid : Int} : ((abstraction s).tasks tid).isNone = true ↔ ¬ s.live tid := by
  simp [abstraction, State.quantums_eq_none]

theorem task_live {tid : Int} (present : s.live tid) : ∃ quantums, s.quantums tid = some quantums ∧
    (abstraction s).tasks tid = some ⟨decide (tid ∈ s.blockedTids), s.sleepers[tid]?.map Int.toNat, quantums⟩ := by
  obtain ⟨quantums, found⟩ := Option.ne_none_iff_exists'.mp fun none => State.quantums_eq_none.mp none present
  exact ⟨quantums, found, by simp [abstraction, found]⟩

theorem allIds_sorted : allIds.Pairwise (· < ·) := by
  rw [allIds, List.pairwise_map]
  exact List.pairwise_lt_range.imp fun less => by omega

end tasks

section switching

theorem abstraction_tick (live : s.SleepersLive) (counting : Counting s)
    (range : ∀ tid, s.live tid → 0 ≤ tid ∧ tid < maxThreadNum) :
    abstraction s.tick = (abstraction s).countDown allIds := by
  ext1
  · funext tid
    simp only [abstraction, Scheduler.countDown, State.quantums_tick, State.getElem?_sleepers_tick,
      State.blockedTids_tick, Option.map_map]
    congr 1
    funext quantums
    simp only [Function.comp_apply, Task.countDown]
    congr 1
    cases found : s.sleepers[tid]? with
    | none => rfl
    | some counter =>
      have positive := counting tid counter found
      by_cases ended : counter = 0
      · simp [countDown, ended]
      · have going : counter.toNat ≠ 0 := by omega
        have less : (counter - 1).toNat = counter.toNat - 1 := by omega
        simp [countDown, ended, going, less]
  · rfl
  · change s.readyTids ++ s.woken = s.readyTids ++ _
    congr 1
    apply s.woken_sorted.eq_of_mem_iff (allIds_sorted.filter _)
    intro tid
    rw [State.mem_woken, List.mem_filter, mem_allIds]
    constructor
    · rintro ⟨ended, free⟩
      have present := live tid ended
      obtain ⟨quantums, -, task⟩ := task_live present
      exact ⟨range tid present, by simp [task, Task.wakes, ended, free]⟩
    · rintro ⟨-, wakes⟩
      obtain ⟨task, found, wakes⟩ := Option.any_eq_true _ _ |>.mp wakes
      obtain ⟨quantums, -, rfl⟩ := Option.map_eq_some_iff.mp found
      simp only [Task.wakes, Bool.and_eq_true, Bool.not_eq_true', decide_eq_false_iff_not, beq_iff_eq,
        Option.map_eq_some_iff] at wakes
      obtain ⟨free, counter, entry, zero⟩ := wakes
      have positive := counting tid counter entry
      have ended : counter = 0 := by omega
      exact ⟨ended ▸ entry, free⟩
  · rfl

/-- The rest of the switch, once the departing thread is put away. -/
theorem abstraction_handOver {target : Status} {here : Context ε} {next : Int} {rest : List Int}
    (queue : (s.tick.leave target).readyTids = next :: rest) :
    abstraction (s.handOver target here next rest) = (abstraction (s.tick.leave target)).dispatch := by
  have head : (abstraction (s.tick.leave target)).queue = next :: rest := queue
  unfold Scheduler.dispatch
  rw [head]
  ext1
  · funext tid
    rw [Scheduler.tasks_modify]
    simp only [abstraction, State.quantums_handOver, State.blockedTids_handOver, State.sleepers_handOver,
      State.quantums_leave, State.quantums_tick, State.blockedTids_leave, State.blockedTids_tick,
      State.runningTid_tick, State.sleepers_leave]
    by_cases same : tid = next
    · subst same; simp [Function.comp_def]
    · simp [same]
  · exact State.runningTid_handOver ..
  · exact State.readyTids_handOver ..
  · simp [abstraction, State.totalQuantums_handOver]

theorem abstraction_leave_ready : abstraction (s.leave .ready) = (abstraction s).requeue := by
  ext1
  · funext tid
    simp [abstraction, State.quantums_leave, State.blockedTids_leave, Scheduler.requeue]
  · rfl
  · exact State.readyTids_leave ..
  · rfl

theorem abstraction_leave_blocked : abstraction (s.leave .blocked) =
    (abstraction s).modify s.runningTid fun task => { task with held := true } := by
  ext1
  · funext tid
    rw [Scheduler.tasks_modify]
    simp only [abstraction, State.quantums_leave, State.blockedTids_leave, State.sleepers_leave, if_true,
      Finset.mem_insert, Option.map_map]
    by_cases same : tid = s.runningTid
    · subst same; simp [Function.comp_def]
    · simp [same]
  · rfl
  · simp [abstraction, State.readyTids_leave, Scheduler.modify]
  · rfl

end switching

section calls

private theorem find_free (sound : Sound s) :
    (allIds.find? fun id => ((abstraction s).tasks id).isNone) = s.freeIds.toList.head? := by
  rw [← List.head?_filter]
  congr 1
  apply (allIds_sorted.filter _).eq_of_mem_iff (s.freeIds.ordered_toList.imp compare_lt_iff_lt.mp)
  intro tid
  rw [List.mem_filter, mem_allIds, tasks_isNone, Std.ExtTreeSet.mem_toList, sound.mem_freeIds]

private theorem Branch.fails_spec {op : Op ε} {message : String} (sound : Sound s)
    (branch : Branch s op (.fails message) s') : op.spec (abstraction s) = some (some failure, abstraction s) := by
  have missing : ∀ tid, s.status tid = none → (abstraction s).tasks tid = none := fun tid none =>
    Option.isNone_iff_eq_none.mp (tasks_isNone.mpr (State.status_eq_none.mp none))
  cases branch with
  | spawnFull full => simp only [Op.spec, find_free sound, full]
  | spawnNull least => simp only [Op.spec, find_free sound, least]
  | terminateMissing other none => simp [Op.spec, other, missing _ none]
  | blockZero => simp [Op.spec]
  | blockMissing other none => simp [Op.spec, missing _ none]
  | resumeMissing none => simp [Op.spec, missing _ none]
  | getQuantumsMissing none => simp only [Op.spec, missing _ none]
  | sleepZero zero => simp [Op.spec, abstraction, zero]
  | sleepNegative other negative => simp [Op.spec, negative]

private theorem task_of_status (valid : WellFormed s) {tid : Int} {status : Status}
    (found : s.status tid = some status) : ∃ task, (abstraction s).tasks tid = some task ∧
      task.held = decide (tid ∈ s.blockedTids) ∧ task.sleep.isSome = decide (status = .asleep) ∧
      (status = .blocked → task.held = true) ∧ (status ≠ .blocked → status ≠ .asleep → task.held = false) := by
  obtain ⟨quantums, -, task⟩ := task_live (State.live_iff_status.mpr ⟨_, found⟩)
  have asleep := valid.asleep tid
  have blocked := valid.blocked tid
  rw [found] at asleep blocked
  refine ⟨_, task, rfl, ?_, ?_, ?_⟩
  · rw [Option.isSome_map, Bool.eq_iff_iff, ← Std.ExtTreeMap.mem_iff_isSome_getElem?, asleep]
    simp
  · rintro rfl
    simp [blocked.mp rfl]
  · intro notBlocked notAsleep
    have away : tid ∉ s.sleepers := fun member => notAsleep (Option.some.inj (asleep.mp member))
    have free : tid ∉ s.blockedTids := fun member => notBlocked (Option.some.inj (blocked.mpr ⟨member, away⟩))
    simp [free]

private theorem abstraction_enroll (valid : WellFormed s) {tid : Int} (dead : ¬ s.live tid) (entryPoint : ε) :
    abstraction (s.enroll tid entryPoint) = (abstraction s).accept tid := by
  have none := State.status_eq_none.mpr dead
  have asleep : tid ∉ s.sleepers := fun member => by simpa [none] using (valid.asleep tid).mp member
  have blocked : tid ∉ s.blockedTids := fun member => dead (valid.blockedLive tid member)
  ext1
  · funext other
    rw [Scheduler.tasks_accept]
    simp only [abstraction, State.quantums_enroll, State.blockedTids_enroll, State.sleepers_enroll]
    by_cases same : other = tid
    · subst same; simp [dead, blocked, asleep]
    · simp [same]
  · exact State.runningTid_enroll ..
  · exact State.readyTids_enroll ..
  · exact State.totalQuantums_enroll ..

private theorem abstraction_drop {tid : Int} (gone : s'.quantums = (s.remove tid).quantums)
    (ready : s'.readyTids = s.readyTids.erase tid) (sleepers : s'.sleepers = s.sleepers)
    (blocked : ∀ other, other ≠ tid → (other ∈ s'.blockedTids ↔ other ∈ s.blockedTids))
    (running : s'.runningTid = s.runningTid) (total : s'.totalQuantums = s.totalQuantums) :
    abstraction s' = (abstraction s).drop tid := by
  ext1
  · funext other
    rw [Scheduler.tasks_drop]
    simp only [abstraction, gone, State.quantums_remove, sleepers]
    by_cases same : other = tid
    · simp [same]
    · simp [same, blocked other same]
  · exact running
  · exact ready
  · exact total

private theorem abstraction_hold {tid : Int} (quantums : ∀ other, s'.quantums other = s.quantums other)
    (ready : s'.readyTids = s.readyTids.erase tid) (sleepers : s'.sleepers = s.sleepers)
    (blocked : ∀ other, other ∈ s'.blockedTids ↔ other = tid ∨ other ∈ s.blockedTids)
    (running : s'.runningTid = s.runningTid) (total : s'.totalQuantums = s.totalQuantums) :
    abstraction s' = (abstraction s).hold tid := by
  ext1
  · funext other
    rw [Scheduler.tasks_hold]
    simp only [abstraction, quantums, sleepers, blocked, Option.map_map]
    by_cases same : other = tid
    · subst same; simp [Function.comp_def]
    · simp [same]
  · exact running
  · exact ready
  · exact total

private theorem abstraction_release {tid : Int} (quantums : ∀ other, s'.quantums other = s.quantums other)
    (ready : s'.readyTids = if ((abstraction s).tasks tid).any (fun task => task.held && task.sleep.isNone) = true
      then s.readyTids ++ [tid] else s.readyTids) (sleepers : s'.sleepers = s.sleepers)
    (blocked : ∀ other, other ∈ s'.blockedTids ↔ other ≠ tid ∧ other ∈ s.blockedTids)
    (running : s'.runningTid = s.runningTid) (total : s'.totalQuantums = s.totalQuantums) :
    abstraction s' = (abstraction s).release tid := by
  ext1
  · funext other
    rw [Scheduler.tasks_release]
    simp only [abstraction, quantums, sleepers, blocked, Option.map_map]
    by_cases same : other = tid
    · subst same; simp [Function.comp_def]
    · simp [same]
  · exact running
  · exact ready
  · exact total

private theorem abstraction_doze (awake : s.runningTid ∉ s.sleepers) (numQuantums : Int) :
    abstraction (s.doze numQuantums) = (abstraction s).doze numQuantums.toNat := by
  ext1
  · funext tid
    rw [Scheduler.tasks_doze]
    simp only [abstraction, State.quantums_doze, State.getElem?_doze]
    by_cases same : tid = s.runningTid
    · subst same
      simp [awake, Function.comp_def]
      rfl
    · simp [same]
      rfl
  · rfl
  · rfl
  · rfl

private theorem Branch.finishes_spec {op : Op ε} {result : Returned} {value : Int} (valid : WellFormed s)
    (spared : op.Spares s) (branch : Branch s op (.finishes result) s')
    (read : result.eval (unblockVtAlarm s') = .ok value) :
    op.spec (abstraction s) = some (some value, abstraction s') := by
  have sound := valid.sound
  have present : ∀ {tid status}, s.status tid = some status → ((abstraction s).tasks tid).isNone = false := by
    intro tid status found
    rw [Bool.eq_false_iff, ne_eq, tasks_isNone, not_not]
    exact State.live_iff_status.mpr ⟨_, found⟩
  have unqueued : ∀ {tid status}, s.status tid = some status → status ≠ .ready → s.readyTids.erase tid = s.readyTids := by
    intro tid status found kind
    apply List.erase_of_not_mem
    intro member
    apply kind
    exact Option.some.inj (found.symm.trans ((valid.ready tid).mp member))
  have done : ∀ {a : Scheduler Int} {value : Int}, abstraction s' = a →
      some (some value, a) = some (some value, abstraction s') := by
    rintro a value rfl
    rfl
  cases branch with
  | @spawn tid entryPoint least =>
    have dead := (sound.mem_freeIds.mp (least_free least)).2
    obtain rfl := newThread_value read
    simp only [Op.spec, find_free sound, least]
    exact done (abstraction_enroll valid dead entryPoint)
  | @terminateReady tid other found queued =>
    cases read
    have away : tid ≠ (abstraction s).current := sound.not_running found (by simp)
    simp only [Op.spec, other, present found, away, if_false, Bool.false_eq_true]
    exact done (abstraction_drop rfl rfl rfl (fun _ _ => Iff.rfl) rfl rfl)
  | @terminateBlocked tid other found =>
    cases read
    have away : tid ≠ (abstraction s).current := sound.not_running found (by simp)
    simp only [Op.spec, other, present found, away, if_false, Bool.false_eq_true]
    refine done (abstraction_drop rfl (unqueued found (by simp)).symm rfl (fun other different => ?_) rfl rfl)
    simp [State.release, State.remove, different]
  | @terminateRest tid status other found kind =>
    rcases kind with rfl | rfl | rfl
    · exact absurd (valid.only _ (.inr found)) (sound.not_running found ⟨by simp, .inr other⟩)
    · exact absurd found (spared _ rfl)
    · exact absurd found (valid.kept _)
  | @blockReady tid other found queued =>
    cases read
    have away : tid ≠ (abstraction s).current := sound.not_running found (by simp)
    simp only [Op.spec, other, present found, away, if_false, Bool.false_eq_true, or_self]
    refine done (abstraction_hold (fun _ => State.quantums_withStatus ..) rfl rfl (fun other => ?_) rfl rfl)
    simp [State.hold, State.dequeue]
  | @blockAsleep tid other found =>
    cases read
    have away : tid ≠ (abstraction s).current := sound.not_running found (by simp)
    simp only [Op.spec, other, present found, away, if_false, Bool.false_eq_true, or_self]
    refine done (abstraction_hold (fun _ => rfl) (unqueued found (by simp)).symm rfl (fun other => ?_) rfl rfl)
    simp [State.hold]
  | @blockRest tid status other found kind =>
    cases read
    have blocked : s.status tid = some .blocked := by
      rcases kind with rfl | rfl | rfl
      · exact found
      · exact absurd (valid.only _ (.inr found)) (sound.not_running found ⟨by simp, .inr other⟩)
      · exact absurd found (valid.kept _)
    have away : tid ≠ (abstraction s).current := sound.not_running blocked (by simp)
    have held := ((valid.blocked tid).mp blocked).1
    simp only [Op.spec, other, present found, away, if_false, Bool.false_eq_true, or_self]
    refine done (abstraction_hold (fun _ => rfl) (unqueued blocked (by simp)).symm rfl (fun other => ?_) rfl rfl)
    exact ⟨.inr, fun either => either.elim (fun same => same ▸ held) id⟩
  | @resumeBlocked tid found =>
    cases read
    obtain ⟨task, here, -, asleep, held, -⟩ := task_of_status valid found
    have awake : task.sleep.isNone = true := by simpa using asleep
    simp only [Op.spec, present found, if_false, Bool.false_eq_true]
    refine done (abstraction_release (fun _ => State.quantums_withStatus ..) ?_ rfl (fun other => ?_) rfl rfl)
    · simp [here, held, awake, State.enqueue, State.release]
    · simp [State.release, State.enqueue]
  | @resumeAsleep tid found =>
    cases read
    obtain ⟨task, here, -, asleep, -, -⟩ := task_of_status valid found
    have sleeping : task.sleep.isNone = false := by simpa using asleep
    simp only [Op.spec, present found, if_false, Bool.false_eq_true]
    refine done (abstraction_release (fun _ => rfl) ?_ rfl (fun other => ?_) rfl rfl)
    · simp [here, sleeping, State.release]
    · simp [State.release]
  | @resumeRest tid status found kind =>
    cases read
    obtain ⟨task, here, member, asleep, -, free⟩ := task_of_status valid found
    have notHeld := free kind.1 kind.2
    have unblocked : tid ∉ s.blockedTids := by simpa [notHeld] using member
    simp only [Op.spec, present found, if_false, Bool.false_eq_true]
    refine done (abstraction_release (fun _ => rfl) ?_ rfl (fun other => ?_) rfl rfl)
    · simp [here, notHeld]
    · exact ⟨fun held => ⟨fun same => unblocked (same ▸ held), held⟩, And.right⟩
  | getTid => cases read; rfl
  | getTotalQuantums => cases read; rfl
  | @getQuantums tid live =>
    obtain ⟨thread, found⟩ := Option.isSome_iff_exists.mp live
    simp only [Returned.eval, unblockVtAlarm, found] at read
    cases read
    simp [Op.spec, abstraction, State.quantums, found]

private theorem Branch.switches_spec {op : Op ε} {target : Status} {here : Context ε} {next : Int} {rest : List Int}
    (valid : WellFormed s) (counting : Counting s) (branch : Branch s op (.switches target) s')
    (queue : (s'.tick.leave target).readyTids = next :: rest) :
    op.spec (abstraction s) =
      some ((if target = .terminated ∨ target = .ready then Reply.nothing else .returns success).value,
        abstraction (s'.handOver target here next rest)) := by
  have leaving := branch.switches_leaving valid
  have ticked := abstraction_tick leaving.consistent.sleepersLive (branch.switches_counting counting)
    fun tid present => (leaving.consistent.ids tid).mp (.inl present)
  rw [abstraction_handOver queue]
  have away : s.runningTid ∉ s.readyTids := (valid.consistent.unqueued _ rfl).1
  have asleep : s.runningTid ∉ s.sleepers := (valid.consistent.unqueued _ rfl).2.1
  cases branch with
  | preempt =>
    rw [abstraction_leave_ready, ticked]
    simp [Op.spec, Scheduler.switch, Reply.value]
  | @blockRunning tid other found =>
    obtain rfl := valid.only _ (.inl found)
    have current : s.runningTid = (abstraction s).current := rfl
    obtain ⟨quantums, -, task⟩ := task_live valid.running_live
    have held := Scheduler.countDown_hold _ allIds s.runningTid task (by simp [asleep]) away
    rw [abstraction_leave_blocked, ticked]
    change _ = some (_, Scheduler.dispatch (((abstraction s).countDown allIds).modify s.runningTid _))
    rw [← held]
    simp [Op.spec, other, task, ← current, Scheduler.switch, Reply.value]
  | @terminateRunning tid other found =>
    obtain rfl := valid.only _ (.inl found)
    have current : s.runningTid = (abstraction s).current := rfl
    obtain ⟨quantums, -, task⟩ := task_live valid.running_live
    have dropped : abstraction (unblockVtAlarm (resetTimer (s.remove s.runningTid))) =
        (abstraction s).drop s.runningTid :=
      abstraction_drop rfl (List.erase_of_not_mem away).symm rfl (fun _ _ => Iff.rfl) rfl rfl
    change _ = some (_, Scheduler.dispatch (abstraction (State.tick _)))
    rw [ticked, dropped]
    simp [Op.spec, other, task, ← current, Scheduler.switch, Reply.value]
  | @sleep numQuantums other amount live =>
    have dozed : abstraction (resetTimer (s.doze numQuantums)) = (abstraction s).doze numQuantums.toNat :=
      abstraction_doze asleep numQuantums
    change _ = some (_, Scheduler.dispatch (abstraction (State.tick _)))
    rw [ticked, dozed]
    have current : s.runningTid = (abstraction s).current := rfl
    simp [Op.spec, ← current, other, Int.not_lt.mpr amount, Scheduler.switch, Reply.value]

/-- A step of the code is a step of the specification. -/
theorem Step.spec {op : Op ε} {here : Context ε} {reply : Reply} (step : Step s here op reply s')
    (valid : WellFormed s) (counting : Counting s) (spared : op.Spares s) :
    op.spec (abstraction s) = some (reply.value, abstraction s') := by
  change op.spec (abstraction (blockVtAlarm s)) = _
  cases step with
  | fails branch => exact branch.fails_spec valid.masked.sound
  | @finishes _ _ _ middle branch stays read =>
    change _ = some (_, abstraction middle)
    exact branch.finishes_spec valid.masked spared read
  | switches branch leaves queue => exact branch.switches_spec valid.masked counting queue
  | getTid => rfl
  | getTotalQuantums => rfl

/-- The two facts about a thread determine its status. -/
theorem status_spec (valid : WellFormed s) {status : Status} (running : s.status s.runningTid = some status)
    (tid : Int) : s.status tid = specStatus status (abstraction s) tid := by
  unfold specStatus
  cases found : s.status tid with
  | none =>
    have dead := tasks_isNone.mpr (State.status_eq_none.mp found)
    rw [Option.isNone_iff_eq_none.mp dead]
    rfl
  | some own =>
    obtain ⟨task, here, -, asleep, held, free⟩ := task_of_status valid found
    rw [here, Option.map_some]
    by_cases current : tid = s.runningTid
    · subst current
      rw [running] at found
      cases found
      simp [abstraction]
    · have away : own ≠ .running ∧ own ≠ .main := by
        constructor <;> rintro rfl
        · exact current (valid.only _ (.inl found))
        · exact current (valid.only _ (.inr found))
      have kept : own ≠ .terminated := fun same => valid.kept tid (same ▸ found)
      cases own with
      | running | main | terminated => simp at away kept
      | ready => simp [abstraction, current, asleep, free]
      | blocked => simp [abstraction, current, asleep, held]
      | asleep => simp [abstraction, current, asleep]

/-- The queue holds exactly the runnable threads that wait. -/
theorem abstraction_valid (valid : WellFormed s) : (abstraction s).Valid := by
  have runnable : ∀ tid, ((abstraction s).tasks tid).any Task.runnable = true ↔
      ∃ status, s.status tid = some status ∧ status ≠ .asleep ∧ status ≠ .blocked := by
    intro tid
    cases found : s.status tid with
    | none =>
      have dead := tasks_isNone.mpr (State.status_eq_none.mp found)
      simp [Option.isNone_iff_eq_none.mp dead]
    | some status =>
      obtain ⟨task, here, -, asleep, held, free⟩ := task_of_status valid found
      rw [here]
      cases status <;> simp_all [Task.runnable, Option.isSome_iff_ne_none]
  refine ⟨valid.nodup, fun tid => ?_, ?_⟩
  · rw [runnable]
    change tid ∈ s.readyTids ↔ tid ≠ s.runningTid ∧ _
    rw [valid.ready]
    constructor
    · intro ready
      refine ⟨valid.sound.not_running ready (by simp), .ready, ready, by simp, by simp⟩
    · rintro ⟨away, status, found, awake, free⟩
      cases status with
      | ready => exact found
      | asleep | blocked => simp at awake free
      | running => exact absurd (valid.only _ (.inl found)) away
      | main => exact absurd (valid.only _ (.inr found)) away
      | terminated => exact absurd found (valid.kept _)
  · obtain ⟨status, found⟩ := State.live_iff_status.mp valid.running_live
    have kind := valid.running_status found
    have runs := (runnable s.runningTid).mpr ⟨status, found, by rcases kind with rfl | rfl <;> simp,
      by rcases kind with rfl | rfl <;> simp⟩
    exact Option.any_eq_true _ _ |>.mp runs

end calls

def Follows (op : Op ε) (here : Context ε) (s : State ε) : Prop :=
  match op.spec (abstraction s) with
  | none => op.call here s = .error (.exit success)
  | some (value, a) => ∃ reply s', op.call here s = .ok (reply, s') ∧ reply.value = value ∧ abstraction s' = a

theorem WellFormed.follows (valid : WellFormed s) (counting : Counting s) {op : Op ε} (spared : op.Spares s)
    (here : Context ε) : Follows op here s := by
  unfold Follows
  by_cases ends : op = .terminate 0
  · subst ends; rfl
  · obtain ⟨reply, s', taken⟩ := valid.call_ok op here ends
    rw [(step_of_call valid.sound taken).spec valid counting spared]
    exact ⟨reply, s', taken, rfl, rfl⟩

theorem Initialized.abstraction_eq (initialized : Initialized s) : abstraction s = specInit := by
  have fresh := initialized.fresh
  ext1
  · funext tid
    simp only [abstraction, specInit, fresh.quantums, fresh.blocked, fresh.sleepers]
    split <;> simp
  · exact fresh.running
  · exact fresh.ready
  · exact fresh.total

/-- From the initialisation on, the code is simulated by the abstract scheduler,
call by call and value by value, and whatever call comes next will be. -/
theorem calls_simulated {history : History ε} (initialized : Initialized start)
    (run : Run Takes start history final) (spared : Sparing history) :
    abstraction start = specInit ∧
      Run SpecTakes (abstraction start)
        (history.map fun move =>
          ⟨abstraction move.before, (move.label.op, move.label.reply.value), abstraction move.after⟩)
        (abstraction final) ∧
      (abstraction final).Valid ∧
      (∀ tid, final.status tid =
        specStatus (if switches history = 0 then .main else .running) (abstraction final) tid) ∧
      ∀ op here, op.Spares final → Follows op here final := by
  have started : Counting start := initialized.fresh.counting
  have valid := run_wellFormed initialized.wellFormed run spared
  have counting := run_counting initialized run
  refine ⟨initialized.abstraction_eq, ?_, abstraction_valid valid,
    fun tid => status_spec valid (run_status initialized run) tid, fun op here spared => valid.follows counting spared here⟩
  · refine run.simulate abstraction (fun event : Event ε => (event.op, event.reply.value))
      (fun move => move.label.op.Spares move.before) spared (fun s => WellFormed s ∧ Counting s)
      ⟨initialized.wellFormed, started⟩ ?_ ?_
    · rintro move spared taken ⟨valid, counting⟩
      have step := step_of_call valid.sound taken
      exact ⟨step.wellFormed valid spared, step.counting valid.sound counting⟩
    · rintro move spared taken ⟨valid, counting⟩
      exact (step_of_call valid.sound taken).spec valid counting spared

/-- Thread 1 is blocked while it sleeps and resumed before it wakes: the
specification goes along, and lets main sleep as little as the code does. -/
theorem calls_simulated_resumed_sleeper : ∃ (history : History Unit) (final : State Unit),
    final.readyTids = [1] ∧
      Run SpecTakes specInit
        (history.map fun move =>
          ⟨abstraction move.before, (move.label.op, move.label.reply.value), abstraction move.after⟩)
        (abstraction final) ∧
      (Op.sleep 3).call ⟨0, ()⟩ final = .ok (.fails (libraryErr ++ sleepThreadZero), blockVtAlarm final) ∧
      Follows (.sleep 3) ⟨0, ()⟩ final := by
  obtain ⟨history, final, run, tested⟩ := perform_tested booted
    [(.spawn (some ()), ⟨0, ()⟩), (.preempt, ⟨0, ()⟩), (.sleep 1, ⟨1, ()⟩), (.block 1, ⟨0, ()⟩),
      (.resume 1, ⟨0, ()⟩), (.preempt, ⟨0, ()⟩), (.preempt, ⟨1, ()⟩)]
    (fun history final => Sparing history ∧ final.readyTids = [1] ∧ final.runningTid = 0) (by decide +kernel)
  obtain ⟨spared, queue, running⟩ := of_decide_eq_true tested
  obtain ⟨begins, simulated, -, -, follows⟩ := calls_simulated booted_initialized run spared
  refine ⟨history, final, queue, begins ▸ simulated, ?_, follows _ _ fun _ same => by cases same⟩
  have masked : (blockVtAlarm final).runningTid = 0 := running
  simp [Op.call, maskedCall, Op.body, uthreadSleep, masked]

end Uthreads
