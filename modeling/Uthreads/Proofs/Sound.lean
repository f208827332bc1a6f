import Uthreads.Proofs.Preservation

/-! What survives every call that returns, also the termination of a sleeper:
one thread runs, the main thread is always available, and the ids are shared
out. It is enough for a switch to find somebody in the queue. -/

namespace Uthreads

variable {ε : Type} {s s' : State ε}

/-- The part of `WellFormed` that no call can break. -/
structure Sound (s : State ε) : Prop where
  running : s.status s.runningTid = some .running ∨ s.runningTid = 0 ∧ s.status 0 = some .main
  only : ∀ tid, s.status tid = some .running ∨ s.status tid = some .main → tid = s.runningTid
  main : s.live 0
  zero : s.runningTid = 0 ∨ 0 ∈ s.readyTids
  ids : ∀ tid, s.live tid ∨ tid ∈ s.freeIds ↔ 0 ≤ tid ∧ tid < maxThreadNum
  disjoint : ∀ tid, s.live tid → tid ∉ s.freeIds

theorem WellFormed.sound (valid : WellFormed s) : Sound s :=
  ⟨valid.running, valid.only, valid.main_live, valid.zero, valid.ids, valid.disjoint⟩

/-- A state in which a call has prepared its switch: nobody but a thread that
the switch itself puts away counts as running. -/
structure Departing (target : Status) (s : State ε) : Prop where
  only : ∀ tid, s.status tid = some .running ∨ s.status tid = some .main →
    tid = s.runningTid ∧ (target = .ready ∨ target = .blocked)
  main : s.live 0
  zero : target = .ready ∧ s.runningTid = 0 ∨ 0 ∈ s.readyTids
  ids : ∀ tid, s.live tid ∨ tid ∈ s.freeIds ↔ 0 ≤ tid ∧ tid < maxThreadNum
  disjoint : ∀ tid, s.live tid → tid ∉ s.freeIds

namespace Sound

theorem frame (sound : Sound s) (status : ∀ tid, s'.status tid = s.status tid)
    (ready : s'.readyTids = s.readyTids) (free : s'.freeIds = s.freeIds)
    (running : s'.runningTid = s.runningTid) : Sound s' := by
  have live : ∀ tid, s'.live tid ↔ s.live tid := by
    intro tid
    simp only [State.live_iff_status, status]
  constructor
  all_goals simp only [status, ready, free, live, running]
  exacts [sound.running, sound.only, sound.main, sound.zero, sound.ids, sound.disjoint]

theorem running_live (sound : Sound s) : s.live s.runningTid := by
  rcases sound.running with running | ⟨zero, main⟩
  · exact State.live_iff_status.mpr ⟨_, running⟩
  · exact State.live_iff_status.mpr ⟨_, zero ▸ main⟩

theorem mem_freeIds (sound : Sound s) {tid : Int} :
    tid ∈ s.freeIds ↔ (0 ≤ tid ∧ tid < maxThreadNum) ∧ ¬ s.live tid := by
  constructor
  · intro free
    exact ⟨(sound.ids tid).mp (.inr free), fun present => sound.disjoint tid present free⟩
  · rintro ⟨range, dead⟩
    exact ((sound.ids tid).mpr range).resolve_left dead

theorem not_running (sound : Sound s) {tid : Int} {status : Status} (found : s.status tid = some status)
    (kind : status ≠ .running ∧ (status ≠ .main ∨ tid ≠ 0)) : tid ≠ s.runningTid := by
  rintro rfl
  rcases sound.running with running | ⟨zero, main⟩
  · exact kind.1 (Option.some.inj (found.symm.trans running))
  · exact kind.2.elim (fun other => other (Option.some.inj (found.symm.trans (zero ▸ main)))) (absurd zero)

private theorem update (sound : Sound s) (tid : Int) (away : tid ≠ s.runningTid) (main : s'.live 0)
    (running : s'.runningTid = s.runningTid) (others : ∀ other, other ≠ tid → s'.status other = s.status other)
    (ready : 0 ∈ s.readyTids → 0 ∈ s'.readyTids)
    (free : ∀ other, other ≠ tid → (other ∈ s'.freeIds ↔ other ∈ s.freeIds))
    (parked : s'.status tid ≠ some .running ∧ s'.status tid ≠ some .main)
    (ids : s'.live tid ∨ tid ∈ s'.freeIds ↔ 0 ≤ tid ∧ tid < maxThreadNum)
    (disjoint : s'.live tid → tid ∉ s'.freeIds) : Sound s' := by
  have live : ∀ other, other ≠ tid → (s'.live other ↔ s.live other) := by
    intro other different
    simp only [State.live_iff_status, others other different]
  constructor
  · rw [running, others _ (Ne.symm away)]
    refine sound.running.imp_right fun ⟨zero, status⟩ => ⟨zero, ?_⟩
    rw [others 0 (zero ▸ Ne.symm away)]
    exact status
  · intro other found
    by_cases same : other = tid
    · subst same
      exact absurd found (not_or.mpr parked)
    · rw [others other same] at found
      exact running ▸ sound.only other found
  · exact main
  · rw [running]
    exact sound.zero.imp_right ready
  · intro other
    by_cases same : other = tid
    · exact same ▸ ids
    · rw [live other same, free other same]
      exact sound.ids other
  · intro other
    by_cases same : other = tid
    · exact same ▸ disjoint
    · rw [live other same, free other same]
      exact sound.disjoint other

theorem enroll (sound : Sound s) {tid : Int} (least : s.freeIds.toList.head? = some tid) (entryPoint : ε) :
    Sound (s.enroll tid entryPoint) := by
  have free := least_free least
  have dead : ¬ s.live tid := fun present => sound.disjoint tid present free
  have status : (s.enroll tid entryPoint).status tid = some .ready := by simp [State.status_enroll, dead]
  have live := State.live_iff_status.mpr ⟨_, status⟩
  have range := (sound.ids tid).mp (.inr free)
  have others : ∀ other, s.live other → (s.enroll tid entryPoint).live other := by
    intro other present
    obtain ⟨old, found⟩ := State.live_iff_status.mp present
    have different : other ≠ tid := fun same => dead (same ▸ present)
    exact State.live_iff_status.mpr ⟨old, by simp [State.status_enroll, different, found]⟩
  refine sound.update tid ?_ (others 0 sound.main) (State.runningTid_enroll ..) (fun other different => ?_) ?_
    (fun other different => ?_) ?_ ?_ ?_
  · rintro rfl
    exact dead sound.running_live
  · simp [State.status_enroll, different]
  · simp only [State.readyTids_enroll]
    exact List.mem_append_left _
  · simp [Ne.symm different]
  · simp [status]
  · exact iff_of_true (.inl live) range
  · simp

theorem remove (sound : Sound s) {tid : Int} {status : Status} (other : tid ≠ 0)
    (found : s.status tid = some status) (kind : status ≠ .running) : Sound (s.remove tid) := by
  have main := (State.live_remove s tid 0).mpr ⟨Ne.symm other, sound.main⟩
  have gone : (s.remove tid).status tid = none := by simp [State.status_remove]
  have dead := State.status_eq_none.mp gone
  have freed : tid ∈ (s.remove tid).freeIds := (State.mem_freeIds_remove ..).mpr (.inl rfl)
  have range := (sound.ids tid).mp (.inl (State.live_iff_status.mpr ⟨_, found⟩))
  refine sound.update tid (sound.not_running found ⟨kind, .inr other⟩) main rfl (fun other different => ?_) id
    (fun other different => ?_) ?_ ?_ ?_
  · simp [State.status_remove, different]
  · simp [State.mem_freeIds_remove, different]
  · simp [gone]
  · exact iff_of_true (.inr freed) range
  · exact fun present => absurd present dead

theorem withStatus (sound : Sound s) {tid : Int} {old new : Status} (found : s.status tid = some old)
    (kind : old ≠ .running ∧ old ≠ .main) (parked : new ≠ .running ∧ new ≠ .main) :
    Sound (s.withStatus tid new) := by
  have status := State.status_withStatus s tid
  have own : (s.withStatus tid new).status tid = some new := by simp [status, found]
  have present := State.live_iff_status.mpr ⟨_, found⟩
  have main := (State.live_withStatus s tid 0 new).mpr sound.main
  refine sound.update tid (sound.not_running found ⟨kind.1, .inl kind.2⟩) main rfl (fun other different => ?_) id
    (fun _ _ => Iff.rfl) ?_ ?_ ?_
  · simp [status, different]
  · simpa [own] using parked
  · exact (or_congr_left (State.live_withStatus ..)).trans (sound.ids tid)
  · exact fun live => sound.disjoint tid ((State.live_withStatus ..).mp live)

theorem dequeue (sound : Sound s) {tid : Int} (other : tid ≠ 0) : Sound (s.dequeue tid) :=
  ⟨sound.running, sound.only, sound.main,
    sound.zero.imp_right fun queued => (List.mem_erase_of_ne (Ne.symm other)).mpr queued, sound.ids, sound.disjoint⟩

theorem enqueue (sound : Sound s) (tid : Int) : Sound (s.enqueue tid) :=
  ⟨sound.running, sound.only, sound.main, sound.zero.imp_right (List.mem_append_left _), sound.ids, sound.disjoint⟩

theorem release (sound : Sound s) (tid : Int) : Sound (s.release tid) :=
  sound.frame (fun _ => rfl) rfl rfl rfl

theorem hold (sound : Sound s) (tid : Int) : Sound (s.hold tid) :=
  sound.frame (fun _ => rfl) rfl rfl rfl

end Sound

theorem Branch.finishes_sound {op : Op ε} {result : Returned} (sound : Sound s)
    (branch : Branch s op (.finishes result) s') : Sound s' := by
  cases branch with
  | spawn least => exact sound.enroll least _
  | terminateReady other found queued => exact (sound.remove other found (by simp)).dequeue other
  | terminateBlocked other found => exact (sound.remove other found (by simp)).release _
  | terminateRest other found kind => exact sound.remove other found (by rcases kind with rfl | rfl | rfl <;> simp)
  | @blockReady tid other found queued =>
    have held := (sound.dequeue other).hold tid
    exact held.withStatus (show State.status _ _ = some .ready from found) (by simp) (by simp)
  | blockAsleep other found => exact sound.hold _
  | @resumeBlocked tid found =>
    have queued := (sound.release tid).enqueue tid
    exact queued.withStatus (show State.status _ _ = some .blocked from found) (by simp) (by simp)
  | resumeAsleep found => exact sound.release _
  | blockRest | resumeRest | getTid | getTotalQuantums | getQuantums => exact sound

/-- The calls that switch never put the main thread anywhere but in the queue. -/
theorem Branch.switches_departing {op : Op ε} {target : Status} (sound : Sound s)
    (branch : Branch s op (.switches target) s') : Departing target s' := by
  cases branch with
  | preempt =>
    exact ⟨fun tid found => ⟨sound.only tid found, .inl rfl⟩, sound.main,
      sound.zero.imp_left fun zero => ⟨rfl, zero⟩, sound.ids, sound.disjoint⟩
  | blockRunning other found =>
    have running := sound.only _ (.inl found)
    exact ⟨fun tid found => ⟨sound.only tid found, .inr rfl⟩, sound.main,
      .inr (sound.zero.resolve_left fun zero => other (running.trans zero)), sound.ids, sound.disjoint⟩
  | @terminateRunning tid other found =>
    obtain rfl := sound.only _ (.inl found)
    have status := State.status_remove s s.runningTid
    have live := State.live_remove s s.runningTid
    refine ⟨fun tid kind => ?_, (live 0).mpr ⟨Ne.symm other, sound.main⟩, .inr (sound.zero.resolve_left other), ?_, ?_⟩
    · change (s.remove s.runningTid).status tid = _ ∨ (s.remove s.runningTid).status tid = _ at kind
      have := sound.only tid
      grind
    · intro tid
      change (s.remove s.runningTid).live tid ∨ tid ∈ (s.remove s.runningTid).freeIds ↔ _
      have := sound.ids tid
      have := sound.running_live
      grind [State.mem_freeIds_remove]
    · intro tid present
      change tid ∉ (s.remove s.runningTid).freeIds
      have := (live tid).mp present
      have := sound.disjoint tid
      grind [State.mem_freeIds_remove]
  | @sleep numQuantums other amount present =>
    have status := fun tid => State.status_doze s tid numQuantums
    have live : ∀ tid, (s.doze numQuantums).live tid ↔ s.live tid := fun tid => State.live_withStatus ..
    refine ⟨fun tid kind => ?_, (live 0).mpr sound.main, .inr (sound.zero.resolve_left other), ?_, ?_⟩
    · change (s.doze numQuantums).status tid = _ ∨ (s.doze numQuantums).status tid = _ at kind
      have := sound.only tid
      cases found : s.status tid <;> grind
    · exact fun tid => (or_congr_left (live tid)).trans (sound.ids tid)
    · exact fun tid found => sound.disjoint tid ((live tid).mp found)

namespace Departing
variable {target : Status}

private theorem zero_queued (departing : Departing target s) : 0 ∈ (s.tick.leave target).readyTids := by
  rw [State.readyTids_leave, State.readyTids_tick]
  rcases departing.zero with ⟨rfl, zero⟩ | queued
  · simp [zero]
  · exact List.mem_append_left _ (List.mem_append_left _ queued)

theorem queue (departing : Departing target s) : ∃ next rest, (s.tick.leave target).readyTids = next :: rest :=
  List.exists_cons_of_ne_nil (List.ne_nil_of_mem departing.zero_queued)

theorem sound (departing : Departing target s) {here : Context ε} {next : Int} {rest : List Int}
    (queue : (s.tick.leave target).readyTids = next :: rest) (chosen : s.live next) :
    Sound (s.handOver target here next rest) := by
  have status := fun tid => State.status_handOver s target here next tid rest
  have live := fun tid => State.live_handOver s target here next tid rest
  have running := State.runningTid_handOver s target here next rest
  have ready := State.readyTids_handOver s target here next rest
  have free := State.freeIds_handOver s target here next rest
  obtain ⟨old, found⟩ := State.live_iff_status.mp chosen
  constructor
  · rw [running, status, if_pos rfl, found]
    exact .inl rfl
  · intro tid kind
    rw [running]
    by_contra different
    rw [status, if_neg different, State.status_leave, State.status_tick] at kind
    have := departing.only tid
    cases found : s.status tid <;> grind [State.wokenStatus, State.runningTid_tick]
  · exact (live 0).mpr departing.main
  · rw [running, ready]
    have queued := departing.zero_queued
    rw [queue, List.mem_cons] at queued
    exact queued.imp_left Eq.symm
  · simpa only [live, free] using departing.ids
  · simpa only [live, free] using departing.disjoint

end Departing
end Uthreads
