import Uthreads.Proofs.Switching

/-! The containers of uthreads.cpp agree with each other. One predicate serves
every moment of a call: it is told which thread, if any, is on the processor,
and asks of all others that their status and their containers agree. -/

namespace Uthreads

variable {ε : Type}

/-- The well-formed states: the ids are shared out between the live threads and
`free_ids_`, and each status says where its thread is. -/
structure WellFormed (s : State ε) : Prop where
  running : s.status s.runningTid = some .running ∨ s.runningTid = 0 ∧ s.status 0 = some .main
  only : ∀ tid, s.status tid = some .running ∨ s.status tid = some .main → tid = s.runningTid
  kept : ∀ tid, s.status tid ≠ some .terminated
  nodup : s.readyTids.Nodup
  ready : ∀ tid, tid ∈ s.readyTids ↔ s.status tid = some .ready
  asleep : ∀ tid, tid ∈ s.sleepers ↔ s.status tid = some .asleep
  blockedLive : ∀ tid ∈ s.blockedTids, s.live tid
  blocked : ∀ tid, s.status tid = some .blocked ↔ tid ∈ s.blockedTids ∧ tid ∉ s.sleepers
  zero : s.runningTid = 0 ∨ 0 ∈ s.readyTids
  ids : ∀ tid, s.live tid ∨ tid ∈ s.freeIds ↔ 0 ≤ tid ∧ tid < maxThreadNum
  disjoint : ∀ tid, s.live tid → tid ∉ s.freeIds

/-- The same agreement in the middle of a call, with `cpu` on the processor. Its
own status is left open, but it is in no container. -/
structure Consistent (cpu : Option Int) (s : State ε) : Prop where
  present : ∀ tid, cpu = some tid → s.live tid
  unqueued : ∀ tid, cpu = some tid → tid ∉ s.readyTids ∧ tid ∉ s.sleepers ∧ tid ∉ s.blockedTids
  parked : ∀ tid status, cpu ≠ some tid → s.status tid = some status →
    status = .ready ∨ status = .blocked ∨ status = .asleep
  nodup : s.readyTids.Nodup
  ready : ∀ tid, cpu ≠ some tid → (tid ∈ s.readyTids ↔ s.status tid = some .ready)
  asleep : ∀ tid, cpu ≠ some tid → (tid ∈ s.sleepers ↔ s.status tid = some .asleep)
  blockedLive : ∀ tid ∈ s.blockedTids, s.live tid
  blocked : ∀ tid, cpu ≠ some tid → (s.status tid = some .blocked ↔ tid ∈ s.blockedTids ∧ tid ∉ s.sleepers)
  zero : cpu = some 0 ∨ 0 ∈ s.readyTids
  ids : ∀ tid, s.live tid ∨ tid ∈ s.freeIds ↔ 0 ≤ tid ∧ tid < maxThreadNum
  disjoint : ∀ tid, s.live tid → tid ∉ s.freeIds

namespace WellFormed
variable {s : State ε}

theorem running_status (valid : WellFormed s) {status : Status} (found : s.status s.runningTid = some status) :
    status = .running ∨ status = .main := by
  rcases valid.running with running | ⟨zero, main⟩
  · exact .inl (Option.some.inj (found.symm.trans running))
  · exact .inr (Option.some.inj (found.symm.trans (zero ▸ main)))

theorem running_live (valid : WellFormed s) : s.live s.runningTid := by
  rcases valid.running with running | ⟨zero, main⟩
  · exact State.live_iff_status.mpr ⟨_, running⟩
  · exact State.live_iff_status.mpr ⟨_, zero ▸ main⟩

theorem consistent (valid : WellFormed s) : Consistent (some s.runningTid) s := by
  obtain ⟨status, found⟩ := State.live_iff_status.mp valid.running_live
  have onProcessor := valid.running_status found
  have asleep : s.runningTid ∉ s.sleepers := by
    rw [valid.asleep, found]
    rcases onProcessor with rfl | rfl <;> simp
  refine ⟨?_, ?_, ?_, valid.nodup, fun tid _ => valid.ready tid, fun tid _ => valid.asleep tid,
    valid.blockedLive, fun tid _ => valid.blocked tid, ?_, valid.ids, valid.disjoint⟩
  · rintro _ ⟨⟩
    exact valid.running_live
  · rintro _ ⟨⟩
    refine ⟨?_, asleep, fun member => ?_⟩
    · rw [valid.ready, found]
      rcases onProcessor with rfl | rfl <;> simp
    · have := (valid.blocked _).mpr ⟨member, asleep⟩
      rw [found] at this
      rcases onProcessor with rfl | rfl <;> simp at this
  · intro tid other away same
    have different : tid ≠ s.runningTid := fun equal => away (congrArg some equal.symm)
    cases other with
    | ready | blocked | asleep => simp
    | main => exact absurd (valid.only tid (.inr same)) different
    | running => exact absurd (valid.only tid (.inl same)) different
    | terminated => exact absurd same (valid.kept tid)
  · exact valid.zero.imp_left (congrArg some)

end WellFormed

namespace Consistent
variable {cpu : Option Int} {s s' : State ε}

theorem wellFormed (valid : Consistent (some s.runningTid) s)
    (running : s.status s.runningTid = some .running ∨ s.runningTid = 0 ∧ s.status 0 = some .main) :
    WellFormed s := by
  have onProcessor : ∀ status, s.status s.runningTid = some status → status = .running ∨ status = .main := by
    intro status found
    rcases running with running | ⟨zero, main⟩
    · exact .inl (Option.some.inj (found.symm.trans running))
    · exact .inr (Option.some.inj (found.symm.trans (zero ▸ main)))
  obtain ⟨queue, asleep, blocked⟩ := valid.unqueued _ rfl
  have away : ∀ tid, tid ≠ s.runningTid → some s.runningTid ≠ some tid := fun tid different same =>
    different (Option.some.inj same).symm
  have elsewhere : ∀ status, status ≠ .running → status ≠ .main → s.status s.runningTid ≠ some status :=
    fun status one two found => (onProcessor status found).elim one two
  refine ⟨running, ?_, ?_, valid.nodup, ?_, ?_, valid.blockedLive, ?_,
    valid.zero.imp_left Option.some.inj, valid.ids, valid.disjoint⟩
  · intro tid found
    by_contra different
    rcases found with found | found <;>
      rcases valid.parked tid _ (away tid different) found with impossible | impossible | impossible <;>
      cases impossible
  · intro tid found
    by_cases same : tid = s.runningTid
    · subst same; exact elsewhere .terminated (by simp) (by simp) found
    · rcases valid.parked tid _ (away tid same) found with impossible | impossible | impossible <;> cases impossible
  · intro tid
    by_cases same : tid = s.runningTid
    · subst same; exact iff_of_false queue (elsewhere .ready (by simp) (by simp))
    · exact valid.ready tid (away tid same)
  · intro tid
    by_cases same : tid = s.runningTid
    · subst same; exact iff_of_false asleep (elsewhere .asleep (by simp) (by simp))
    · exact valid.asleep tid (away tid same)
  · intro tid
    by_cases same : tid = s.runningTid
    · subst same; exact iff_of_false (elsewhere .blocked (by simp) (by simp)) fun held => blocked held.1
    · exact valid.blocked tid (away tid same)

theorem frame (valid : Consistent cpu s) (status : ∀ tid, s'.status tid = s.status tid)
    (ready : s'.readyTids = s.readyTids) (sleepers : s'.sleepers = s.sleepers)
    (blocked : s'.blockedTids = s.blockedTids) (free : s'.freeIds = s.freeIds) : Consistent cpu s' := by
  have live : ∀ tid, s'.live tid ↔ s.live tid := by
    intro tid
    simp only [State.live_iff_status, status]
  constructor
  all_goals simp only [status, ready, sleepers, blocked, free, live]
  exacts [valid.present, valid.unqueued, valid.parked, valid.nodup, valid.ready, valid.asleep,
    valid.blockedLive, valid.blocked, valid.zero, valid.ids, valid.disjoint]

theorem queue_live (valid : Consistent cpu s) {tid : Int} (queued : tid ∈ s.readyTids) : s.live tid := by
  by_cases on : cpu = some tid
  · exact absurd queued (valid.unqueued tid on).1
  · exact State.live_iff_status.mpr ⟨_, (valid.ready tid on).mp queued⟩

theorem sleepersLive (valid : Consistent cpu s) : s.SleepersLive := by
  intro tid found
  have member : tid ∈ s.sleepers := OrderedMap.mem_iff_exists.mpr ⟨_, found⟩
  by_cases on : cpu = some tid
  · exact absurd member (valid.unqueued tid on).2.1
  · exact State.live_iff_status.mpr ⟨_, (valid.asleep tid on).mp member⟩

/-- What a quantum does to one thread: a sleep that ends leaves the status that
`blocked_tids_` calls for, and nothing else changes. -/
theorem status_tick (valid : Consistent cpu s) {tid : Int} (away : cpu ≠ some tid) :
    s.sleepers[tid]? = some 0 ∧ s.status tid = some .asleep ∧ s.tick.status tid = some (s.wokenStatus tid) ∨
      s.sleepers[tid]? ≠ some 0 ∧ s.tick.status tid = s.status tid := by
  by_cases ended : s.sleepers[tid]? = some 0
  · have asleep := (valid.asleep tid away).mp (OrderedMap.mem_iff_exists.mpr ⟨0, ended⟩)
    exact .inl ⟨ended, asleep, by rw [State.status_tick, if_pos ended, asleep]; rfl⟩
  · exact .inr ⟨ended, by rw [State.status_tick, if_neg ended]⟩

theorem tick (valid : Consistent cpu s) : Consistent cpu s.tick := by
  have live := State.live_tick s
  have sleepers := State.mem_sleepers_tick s
  have woken := State.mem_woken s
  refine ⟨?_, ?_, ?_, ?_, ?_, ?_, ?_, ?_, ?_, ?_, ?_⟩
  · exact fun tid on => (live tid).mpr (valid.present tid on)
  · intro tid on
    have := valid.unqueued tid on
    simp only [State.readyTids_tick, State.blockedTids_tick, List.mem_append]
    grind
  · intro tid status away found
    have := valid.status_tick away
    have := valid.parked tid
    grind [State.wokenStatus]
  · simp only [State.readyTids_tick]
    refine List.nodup_append.mpr ⟨valid.nodup, s.woken_nodup, ?_⟩
    have := valid.ready
    have := valid.asleep
    have := valid.unqueued
    grind
  · intro tid away
    have := valid.status_tick away
    have := valid.ready tid away
    have := valid.asleep tid away
    simp only [State.readyTids_tick, List.mem_append]
    grind [State.wokenStatus]
  · intro tid away
    have := valid.status_tick away
    have := valid.asleep tid away
    have : tid ∈ s.sleepers ↔ ∃ counter, s.sleepers[tid]? = some counter := OrderedMap.mem_iff_exists
    grind [State.wokenStatus]
  · intro tid blocked
    exact (live tid).mpr (valid.blockedLive tid blocked)
  · intro tid away
    have := valid.status_tick away
    have := valid.blocked tid away
    have := valid.asleep tid away
    have : tid ∈ s.sleepers ↔ ∃ counter, s.sleepers[tid]? = some counter := OrderedMap.mem_iff_exists
    simp only [State.blockedTids_tick]
    grind [State.wokenStatus]
  · exact valid.zero.imp_right fun queued => List.mem_append_left _ queued
  · simpa only [live, State.freeIds_tick] using valid.ids
  · simpa only [live, State.freeIds_tick] using valid.disjoint

theorem leave {target : Status} (valid : Consistent (some s.runningTid) s)
    (kind : target = .ready ∨ target = .blocked ∧ s.runningTid ≠ 0) : Consistent none (s.leave target) := by
  obtain ⟨queue, asleep, blocked⟩ := valid.unqueued _ rfl
  obtain ⟨old, found⟩ := State.live_iff_status.mp (valid.present _ rfl)
  have live := State.live_leave s target
  have ready := State.readyTids_leave s target
  have held := State.blockedTids_leave s target
  have own : (s.leave target).status s.runningTid = some target := by
    rcases kind with rfl | ⟨rfl, -⟩ <;> simp [State.status_leave, found]
  have away : ∀ tid, tid ≠ s.runningTid →
      some s.runningTid ≠ some tid ∧ (s.leave target).status tid = s.status tid := by
    intro tid different
    exact ⟨fun same => different (Option.some.inj same).symm, by simp [State.status_leave, different]⟩
  refine ⟨by simp, by simp, ?_, ?_, ?_, ?_, ?_, ?_, ?_, ?_, ?_⟩
  · intro tid status _ found
    have := valid.parked tid status
    grind
  · have := valid.nodup
    rcases kind with rfl | ⟨rfl, -⟩ <;> simp only [ready] <;> grind
  · intro tid _
    have := valid.ready tid
    rcases kind with rfl | ⟨rfl, -⟩ <;> simp only [ready] <;> grind
  · intro tid _
    have := valid.asleep tid
    rw [State.sleepers_leave]
    grind
  · intro tid member
    have := valid.blockedLive tid
    have := valid.present _ rfl
    rcases kind with rfl | ⟨rfl, -⟩ <;> simp only [held] at member <;> grind
  · intro tid _
    have := valid.blocked tid
    rw [State.sleepers_leave]
    rcases kind with rfl | ⟨rfl, -⟩ <;> simp only [held] <;> grind
  · have := valid.zero
    rcases kind with rfl | ⟨rfl, other⟩ <;> simp only [ready] <;> grind
  · simpa only [live, State.freeIds_leave] using valid.ids
  · simpa only [live, State.freeIds_leave] using valid.disjoint

theorem withStatus (valid : Consistent (some s.runningTid) s) (status : Status) :
    Consistent (some s.runningTid) (s.withStatus s.runningTid status) := by
  have live : ∀ tid, (s.withStatus s.runningTid status).live tid ↔ s.live tid := fun tid => State.live_withStatus ..
  have kept : ∀ tid, some s.runningTid ≠ some tid → (s.withStatus s.runningTid status).status tid = s.status tid := by
    intro tid away
    exact (State.status_withStatus ..).trans (if_neg fun same => away (congrArg some same.symm))
  refine ⟨fun tid on => (live tid).mpr (valid.present tid on), valid.unqueued, ?_, valid.nodup, ?_, ?_,
    fun tid member => (live tid).mpr (valid.blockedLive tid member), ?_, valid.zero, ?_, ?_⟩
  · exact fun tid found away => kept tid away ▸ valid.parked tid found away
  · exact fun tid away => kept tid away ▸ valid.ready tid away
  · exact fun tid away => kept tid away ▸ valid.asleep tid away
  · exact fun tid away => kept tid away ▸ valid.blocked tid away
  · exact fun tid => (or_congr_left (live tid)).trans (valid.ids tid)
  · exact fun tid present => valid.disjoint tid ((live tid).mp present)

theorem start (valid : Consistent (some s.runningTid) s) : WellFormed (s.withStatus s.runningTid .running) := by
  obtain ⟨status, found⟩ := State.live_iff_status.mp (valid.present _ rfl)
  refine (valid.withStatus .running).wellFormed (.inl ?_)
  rw [State.runningTid_withStatus, State.status_withStatus, if_pos rfl, found]
  rfl

theorem choose {next : Int} {rest : List Int} (valid : Consistent none s) (queue : s.readyTids = next :: rest) :
    Consistent (some next) { s with runningTid := next, readyTids := rest } := by
  have distinct := valid.nodup
  rw [queue, List.nodup_cons] at distinct
  have ready := valid.ready
  rw [queue] at ready
  have chosen : s.status next = some .ready := (ready next (by simp)).mp (by simp)
  have asleep := valid.asleep next (by simp)
  have blocked := valid.blocked next (by simp)
  refine ⟨?_, ?_, fun tid status _ => valid.parked tid status (by simp), distinct.2, ?_,
    fun tid _ => valid.asleep tid (by simp), valid.blockedLive, fun tid _ => valid.blocked tid (by simp), ?_,
    valid.ids, valid.disjoint⟩
  · rintro _ ⟨⟩
    exact State.live_iff_status.mpr ⟨_, chosen⟩
  · rintro _ ⟨⟩
    have awake : next ∉ s.sleepers := fun member => by simpa [chosen] using asleep.mp member
    exact ⟨distinct.1, awake, fun member => by simpa [chosen] using blocked.mpr ⟨member, awake⟩⟩
  · intro tid away
    have different : tid ≠ next := fun same => away (congrArg some same.symm)
    exact Iff.trans (by simp [different]) (ready tid (by simp))
  · have queued := valid.zero.resolve_left (by simp)
    rw [queue, List.mem_cons] at queued
    exact queued.imp_left fun same => congrArg some same.symm

theorem dispatch {next : Int} {rest : List Int} (valid : Consistent none s) (queue : s.readyTids = next :: rest) :
    WellFormed (s.dispatch next rest) :=
  (valid.choose queue).start

end Consistent

theorem WellFormed.frame {s s' : State ε} (valid : WellFormed s) (status : ∀ tid, s'.status tid = s.status tid)
    (ready : s'.readyTids = s.readyTids) (sleepers : s'.sleepers = s.sleepers)
    (blocked : s'.blockedTids = s.blockedTids) (free : s'.freeIds = s.freeIds)
    (running : s'.runningTid = s.runningTid) : WellFormed s' := by
  refine Consistent.wellFormed ?_ (by simpa only [status, running] using valid.running)
  rw [running]
  exact valid.consistent.frame status ready sleepers blocked free

end Uthreads
