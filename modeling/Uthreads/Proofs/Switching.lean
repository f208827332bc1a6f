import Uthreads.Proofs.Sleepers

/-! The whole of `switch_threads` as one state transformation, for a queue that
is not empty when its head is taken. -/

namespace Uthreads
open Fallible

variable {ε : Type}

namespace State

def withStatus (s : State ε) (tid : Int) (status : Status) : State ε :=
  s.modifyThread tid fun thread => { thread with status }

theorem setStatus_ok {s s' : State ε} {tid : Int} {status : Status} :
    s.setStatus tid status = .ok s' ↔ s.live tid ∧ s' = s.withStatus tid status := updateThread_ok

section withStatus
variable (s : State ε) (tid other : Int) (status : Status)

@[simp] theorem sleepers_withStatus : (s.withStatus tid status).sleepers = s.sleepers := rfl
@[simp] theorem blockedTids_withStatus : (s.withStatus tid status).blockedTids = s.blockedTids := rfl
@[simp] theorem readyTids_withStatus : (s.withStatus tid status).readyTids = s.readyTids := rfl
@[simp] theorem freeIds_withStatus : (s.withStatus tid status).freeIds = s.freeIds := rfl
@[simp] theorem totalQuantums_withStatus : (s.withStatus tid status).totalQuantums = s.totalQuantums := rfl
@[simp] theorem runningTid_withStatus : (s.withStatus tid status).runningTid = s.runningTid := rfl
@[simp] theorem live_withStatus : (s.withStatus tid status).live other ↔ s.live other := live_modifyThread ..

theorem status_withStatus : (s.withStatus tid status).status other =
    if other = tid then (s.status tid).map fun _ => status else s.status other := by
  simp only [withStatus, State.status, allThreads_modifyThread]
  split
  · simp [Function.comp_def]
  · rfl

@[simp] theorem quantums_withStatus : (s.withStatus tid status).quantums other = s.quantums other := by
  exact map_modifyThread _ _ _ _ UThread.numOfQuantumsRunning fun _ => rfl

end withStatus

def leave (s : State ε) (target : Status) : State ε :=
  match target with
  | .ready => { s with readyTids := s.readyTids ++ [s.runningTid] }.withStatus s.runningTid .ready
  | .blocked => { s with blockedTids := insert s.runningTid s.blockedTids }.withStatus s.runningTid .blocked
  | _ => s

def dispatch (s : State ε) (next : Int) (rest : List Int) : State ε :=
  { s with runningTid := next, readyTids := rest }.withStatus next .running

def counted (s : State ε) : State ε := { s with totalQuantums := s.totalQuantums + 1 }

def saved (s : State ε) (tid : Int) (here : Context ε) : State ε :=
  s.modifyThread tid fun thread => { thread with env := { here with savedMask := s.mask } }

def started (s : State ε) : State ε :=
  { s.modifyThread s.runningTid fun thread =>
      { thread with numOfQuantumsRunning := thread.numOfQuantumsRunning + 1 } with
    mask := ((s.allThreads s.runningTid).map fun thread => thread.env.savedMask).getD s.mask }

/-- A switch that takes `next` from the head of the queue and leaves `rest`. -/
def handOver (s : State ε) (target : Status) (here : Context ε) (next : Int) (rest : List Int) : State ε :=
  let chosen := ((s.tick.leave target).dispatch next rest).counted
  (unblockVtAlarm (if target = .terminated then chosen else chosen.saved s.runningTid here)).started

section frames
variable (s : State ε) (tid other : Int) (here : Context ε)

theorem status_saved : (s.saved tid here).status other = s.status other :=
  map_modifyThread _ _ _ _ UThread.status fun _ => rfl

theorem quantums_saved : (s.saved tid here).quantums other = s.quantums other :=
  map_modifyThread _ _ _ _ UThread.numOfQuantumsRunning fun _ => rfl

theorem status_started : s.started.status other = s.status other :=
  map_modifyThread _ _ _ _ UThread.status fun _ => rfl

theorem quantums_started : s.started.quantums other =
    if other = s.runningTid then (s.quantums other).map (· + 1) else s.quantums other := by
  simp only [quantums, started, allThreads_modifyThread]
  split
  · rename_i same; subst same; simp [Function.comp_def]
  · rfl

end frames

theorem leaveRunning_ok {s s' : State ε} {target : Status} :
    leaveRunning target s = .ok s' ↔
      (target = .ready ∨ target = .blocked → s.live s.runningTid) ∧ s' = s.leave target := by
  cases target
  case ready | blocked =>
    simp only [leaveRunning, setStatus_ok, leave, true_or, or_true, forall_const]
    exact Iff.rfl
  all_goals simp [leaveRunning, leave, eq_comm]

theorem startRunning_ok {s s' : State ε} : startRunning s = .ok s' ↔ s.live s.runningTid ∧ s' = s.started := by
  unfold startRunning live started modifyThread
  cases s.allThreads s.runningTid with
  | none => simp
  | some thread => simp [eq_comm]

theorem insertReadyToRunning_ok {s s' : State ε} {next : Int} {rest : List Int}
    (queue : s.readyTids = next :: rest) :
    insertReadyToRunning s = .ok s' ↔ s.live next ∧ s' = s.dispatch next rest := by
  unfold insertReadyToRunning
  rw [queue]
  exact setStatus_ok

section leave
variable (s : State ε) (target : Status) (tid : Int)

@[simp] theorem sleepers_leave : (s.leave target).sleepers = s.sleepers := by cases target <;> rfl
@[simp] theorem freeIds_leave : (s.leave target).freeIds = s.freeIds := by cases target <;> rfl
@[simp] theorem totalQuantums_leave : (s.leave target).totalQuantums = s.totalQuantums := by cases target <;> rfl
@[simp] theorem runningTid_leave : (s.leave target).runningTid = s.runningTid := by cases target <;> rfl
@[simp] theorem live_leave : (s.leave target).live tid ↔ s.live tid := by
  cases target
  case ready | blocked => simp only [leave, live_withStatus]; exact Iff.rfl
  all_goals exact Iff.rfl

theorem readyTids_leave : (s.leave target).readyTids =
    s.readyTids ++ if target = .ready then [s.runningTid] else [] := by
  cases target <;> simp [leave]

theorem blockedTids_leave : (s.leave target).blockedTids =
    if target = .blocked then insert s.runningTid s.blockedTids else s.blockedTids := by
  cases target <;> simp [leave]

theorem status_leave : (s.leave target).status tid =
    if tid = s.runningTid ∧ (target = .ready ∨ target = .blocked) then (s.status tid).map fun _ => target
    else s.status tid := by
  cases target
  case ready | blocked =>
    simp only [leave, status_withStatus]
    by_cases same : tid = s.runningTid
    · subst same; simp [status]
    · simp [same, status]
  all_goals simp [leave]

@[simp] theorem quantums_leave : (s.leave target).quantums tid = s.quantums tid := by
  cases target
  case ready | blocked => simp only [leave, quantums_withStatus]; rfl
  all_goals rfl

end leave

section handOver
variable (s : State ε) (target : Status) (here : Context ε) (next tid : Int) (rest : List Int)

theorem sleepers_handOver : (s.handOver target here next rest).sleepers = s.tick.sleepers := by
  simp only [handOver, started, sleepers_modifyThread, unblockVtAlarm]
  split <;> simp [saved, counted, dispatch]

theorem blockedTids_handOver : (s.handOver target here next rest).blockedTids =
    if target = .blocked then insert s.runningTid s.blockedTids else s.blockedTids := by
  simp only [handOver, started, blockedTids_modifyThread, unblockVtAlarm]
  split <;> simp [saved, counted, dispatch, blockedTids_leave]

theorem readyTids_handOver : (s.handOver target here next rest).readyTids = rest := by
  simp only [handOver, started, readyTids_modifyThread, unblockVtAlarm]
  split <;> simp [saved, counted, dispatch]

theorem freeIds_handOver : (s.handOver target here next rest).freeIds = s.freeIds := by
  simp only [handOver, started, freeIds_modifyThread, unblockVtAlarm]
  split <;> simp [saved, counted, dispatch]

theorem totalQuantums_handOver : (s.handOver target here next rest).totalQuantums = s.totalQuantums + 1 := by
  simp only [handOver, started, totalQuantums_modifyThread, unblockVtAlarm]
  split <;> simp [saved, counted, dispatch]

theorem runningTid_handOver : (s.handOver target here next rest).runningTid = next := by
  simp only [handOver, started, runningTid_modifyThread, unblockVtAlarm]
  split <;> simp [saved, counted, dispatch]

theorem live_handOver : (s.handOver target here next rest).live tid ↔ s.live tid := by
  have chosen : ((s.tick.leave target).dispatch next rest).live tid ↔ s.live tid := by
    rw [dispatch, live_withStatus]
    exact (live_leave ..).trans (live_tick ..)
  simp only [handOver]
  split
  · exact (live_modifyThread ..).trans chosen
  · exact (live_modifyThread ..).trans ((live_modifyThread ..).trans chosen)

theorem status_handOver_dispatch : (s.handOver target here next rest).status tid =
    ((s.tick.leave target).dispatch next rest).status tid := by
  simp only [handOver]
  split
  · exact status_started ..
  · exact (status_started ..).trans (status_saved ..)

theorem status_handOver : (s.handOver target here next rest).status tid =
    if tid = next then (s.status tid).map fun _ => .running else (s.tick.leave target).status tid := by
  rw [status_handOver_dispatch, dispatch, status_withStatus]
  split
  next same =>
    subst same
    change ((s.tick.leave target).status tid).map _ = _
    rw [status_leave, status_tick]
    split <;> split <;> simp [Function.comp_def]
  next => rfl

/-- One quantum is charged, to the thread that is dispatched. -/
theorem quantums_handOver : (s.handOver target here next rest).quantums tid =
    if tid = next then (s.quantums tid).map (· + 1) else s.quantums tid := by
  have chosen : ((s.tick.leave target).dispatch next rest).quantums tid = s.quantums tid := by
    rw [dispatch, quantums_withStatus]
    exact (quantums_leave ..).trans (quantums_tick ..)
  rw [← chosen]
  simp only [handOver]
  split
  · exact quantums_started ..
  · apply (quantums_started ..).trans
    have kept := quantums_saved
      ((s.tick.leave target).dispatch next rest).counted s.runningTid tid here
    exact congrArg (fun count => if tid = next then count.map (· + 1) else count) kept

end handOver
end State

/-- Whatever the cause, a switch that finds someone to run either completes as
`handOver` or dereferences a record that is gone. -/
theorem switchThreads_ok {s s' : State ε} {target : Status} {here : Context ε} {next : Int} {rest : List Int}
    (queue : (s.tick.leave target).readyTids = next :: rest) :
    switchThreads target here s = .ok s' ↔
      s.SleepersLive ∧ (target ≠ .terminated → s.live s.runningTid) ∧ s.live next ∧
        s' = s.handOver target here next rest := by
  have nextLive : (s.tick.leave target).live next ↔ s.live next :=
    (State.live_leave ..).trans (State.live_tick ..)
  have runningLive : s.tick.live s.tick.runningTid ↔ s.live s.runningTid := State.live_tick ..
  have kept (tid : Int) : ((s.tick.leave target).dispatch next rest).live tid ↔ s.live tid := by
    rw [State.dispatch, State.live_withStatus]
    exact (State.live_leave ..).trans (State.live_tick ..)
  by_cases terminated : target = .terminated
  · subst terminated
    simp only [switchThreads, if_true, bind_ok, State.updateSleepers_ok, State.leaveRunning_ok,
      State.startRunning_ok]
    constructor
    · rintro ⟨_, ⟨sleepers, rfl⟩, _, ⟨_, rfl⟩, _, inserted, _, same, _, rfl⟩
      obtain ⟨present, rfl⟩ := (State.insertReadyToRunning_ok queue).mp inserted
      cases same
      exact ⟨sleepers, fun kept => absurd rfl kept, nextLive.mp present, rfl⟩
    · rintro ⟨sleepers, _, present, rfl⟩
      exact ⟨_, ⟨sleepers, rfl⟩, _, ⟨by simp, rfl⟩, _,
        (State.insertReadyToRunning_ok queue).mpr ⟨nextLive.mpr present, rfl⟩, _, rfl,
        (kept next).mpr present, rfl⟩
  · simp only [switchThreads, terminated, if_false, bind_ok, State.updateSleepers_ok, State.leaveRunning_ok]
    constructor
    · rintro ⟨_, ⟨sleepers, rfl⟩, _, ⟨_, rfl⟩, _, inserted, _, saving, starting⟩
      obtain ⟨present, rfl⟩ := (State.insertReadyToRunning_ok queue).mp inserted
      obtain ⟨original, rfl⟩ := State.updateThread_ok.mp saving
      obtain ⟨_, rfl⟩ := State.startRunning_ok.mp starting
      refine ⟨sleepers, fun _ => (kept _).mp original, nextLive.mp present, ?_⟩
      simp only [State.handOver, terminated, if_false]
      rfl
    · rintro ⟨sleepers, original, present, rfl⟩
      refine ⟨_, ⟨sleepers, rfl⟩, _, ⟨fun _ => runningLive.mpr (original terminated), rfl⟩, _,
        (State.insertReadyToRunning_ok queue).mpr ⟨nextLive.mpr present, rfl⟩, _,
        State.updateThread_ok.mpr ⟨(kept _).mpr (original terminated), rfl⟩,
        State.startRunning_ok.mpr ⟨(State.live_modifyThread ..).mpr ((kept next).mpr present), ?_⟩⟩
      simp only [State.handOver, terminated, if_false]
      rfl

end Uthreads
