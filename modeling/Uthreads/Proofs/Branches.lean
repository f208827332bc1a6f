import Uthreads.Proofs.Switching

/-! Every way through the body of a call, one rule for each branch of the
source. Later arguments split on these rules and never on the code. -/

namespace Uthreads
open Fallible

variable {ε : Type}

namespace State

/-- A new record, at the back of the queue. -/
def enroll (s : State ε) (tid : Int) (entryPoint : ε) : State ε :=
  let s := { s with freeIds := s.freeIds.erase tid }.emplaceThread tid (.spawned tid entryPoint)
  { s with readyTids := s.readyTids ++ [tid] }

def remove (s : State ε) (tid : Int) : State ε :=
  { s with freeIds := s.freeIds.insert tid, allThreads := Function.update s.allThreads tid none }

def dequeue (s : State ε) (tid : Int) : State ε := { s with readyTids := s.readyTids.erase tid }

/-- Into the blocked set, whatever the status. -/
def hold (s : State ε) (tid : Int) : State ε := { s with blockedTids := insert tid s.blockedTids }

/-- Out of the blocked set, whatever the status. -/
def release (s : State ε) (tid : Int) : State ε := { s with blockedTids := s.blockedTids.erase tid }

def enqueue (s : State ε) (tid : Int) : State ε := { s with readyTids := s.readyTids ++ [tid] }

/-- The running thread falls asleep; an entry it already has is kept. -/
def doze (s : State ε) (numQuantums : Int) : State ε :=
  { s.withStatus s.runningTid .asleep with sleepers := s.sleepers.insertIfNew s.runningTid numQuantums }

section lemmas
variable (s : State ε) (tid other : Int) (entryPoint : ε) (numQuantums : Int)

theorem status_enroll : (s.enroll tid entryPoint).status other =
    if other = tid ∧ ¬ s.live tid then some .ready else s.status other := by
  simp only [enroll, emplaceThread, status, live]
  obtain found | ⟨thread, found⟩ := Option.eq_none_or_eq_some (s.allThreads tid)
  · by_cases same : other = tid <;> simp [found, same, UThread.spawned]
  · simp [found]

@[simp] theorem live_enroll_self : (s.enroll tid entryPoint).live tid := by
  rw [live_iff_status, status_enroll]
  by_cases live : s.live tid
  · simpa [live] using live_iff_status.mp live
  · simp [live]

theorem quantums_enroll : (s.enroll tid entryPoint).quantums other =
    if other = tid ∧ ¬ s.live tid then some 0 else s.quantums other := by
  simp only [enroll, emplaceThread, quantums, live]
  obtain found | ⟨thread, found⟩ := Option.eq_none_or_eq_some (s.allThreads tid)
  · by_cases same : other = tid <;> simp [found, same, UThread.spawned]
  · simp [found]

@[simp] theorem readyTids_enroll : (s.enroll tid entryPoint).readyTids = s.readyTids ++ [tid] := by
  simp only [enroll, emplaceThread]
  split <;> rfl

@[simp] theorem sleepers_enroll : (s.enroll tid entryPoint).sleepers = s.sleepers := by
  simp only [enroll, emplaceThread]
  split <;> rfl

@[simp] theorem blockedTids_enroll : (s.enroll tid entryPoint).blockedTids = s.blockedTids := by
  simp only [enroll, emplaceThread]
  split <;> rfl

@[simp] theorem freeIds_enroll : (s.enroll tid entryPoint).freeIds = s.freeIds.erase tid := by
  simp only [enroll, emplaceThread]
  split <;> rfl

@[simp] theorem runningTid_enroll : (s.enroll tid entryPoint).runningTid = s.runningTid := by
  simp only [enroll, emplaceThread]
  split <;> rfl

@[simp] theorem totalQuantums_enroll : (s.enroll tid entryPoint).totalQuantums = s.totalQuantums := by
  simp only [enroll, emplaceThread]
  split <;> rfl

theorem status_remove : (s.remove tid).status other = if other = tid then none else s.status other := by
  by_cases same : other = tid <;> simp [remove, status, same]

theorem quantums_remove : (s.remove tid).quantums other = if other = tid then none else s.quantums other := by
  by_cases same : other = tid <;> simp [remove, quantums, same]

theorem live_remove : (s.remove tid).live other ↔ other ≠ tid ∧ s.live other := by
  by_cases same : other = tid <;> simp [remove, live, same]

theorem mem_freeIds_remove : other ∈ (s.remove tid).freeIds ↔ other = tid ∨ other ∈ s.freeIds := by
  simp only [remove, Std.ExtTreeSet.mem_insert, Std.compare_eq_iff_eq]
  exact or_congr_left eq_comm

@[simp] theorem status_dequeue : (s.dequeue tid).status other = s.status other := rfl
@[simp] theorem status_hold : (s.hold tid).status other = s.status other := rfl
@[simp] theorem status_release : (s.release tid).status other = s.status other := rfl
@[simp] theorem status_enqueue : (s.enqueue tid).status other = s.status other := rfl
@[simp] theorem quantums_dequeue : (s.dequeue tid).quantums other = s.quantums other := rfl
@[simp] theorem quantums_hold : (s.hold tid).quantums other = s.quantums other := rfl
@[simp] theorem quantums_release : (s.release tid).quantums other = s.quantums other := rfl
@[simp] theorem quantums_enqueue : (s.enqueue tid).quantums other = s.quantums other := rfl

theorem status_doze : (s.doze numQuantums).status other =
    if other = s.runningTid then (s.status other).map fun _ => .asleep else s.status other := by
  have := s.status_withStatus s.runningTid other .asleep
  by_cases same : other = s.runningTid
  · subst same; exact this
  · exact this.trans (by simp [same])

theorem mem_sleepers_doze : other ∈ (s.doze numQuantums).sleepers ↔ other = s.runningTid ∨ other ∈ s.sleepers := by
  simp only [doze, Std.ExtTreeMap.mem_insertIfNew, Std.compare_eq_iff_eq]
  exact or_congr_left eq_comm

theorem getElem?_doze : (s.doze numQuantums).sleepers[other]? =
    if other = s.runningTid then some (s.sleepers[s.runningTid]?.getD numQuantums) else s.sleepers[other]? := by
  simp only [doze, Std.ExtTreeMap.getElem?_insertIfNew, Std.compare_eq_iff_eq, Std.ExtTreeMap.mem_iff_isSome_getElem?]
  by_cases same : other = s.runningTid
  · subst same
    cases s.sleepers[s.runningTid]? <;> simp
  · simp [same, Ne.symm same]

theorem quantums_doze : (s.doze numQuantums).quantums other = s.quantums other :=
  quantums_withStatus ..

end lemmas

theorem eraseReady_ok {s s' : State ε} {tid : Int} :
    s.eraseReady tid = .ok s' ↔ tid ∈ s.readyTids ∧ s' = s.dequeue tid := by
  unfold eraseReady dequeue
  split <;> rename_i queued <;> simp [queued, eq_comm]

end State

/-- The rules. A rule's last two arguments are how the call goes on, and with
what state. -/
inductive Branch (s : State ε) : Op ε → Next → State ε → Prop where
  | spawnFull {entryPoint} (full : s.freeIds.toList.head? = none) :
      Branch s (.spawn entryPoint) (.fails (libraryErr ++ maxThreadsErr)) s
  | spawnNull {tid} (least : s.freeIds.toList.head? = some tid) :
      Branch s (.spawn none) (.fails (libraryErr ++ spawnNull)) s
  | spawn {tid entryPoint} (least : s.freeIds.toList.head? = some tid) :
      Branch s (.spawn (some entryPoint)) (.finishes (.newThread tid)) (s.enroll tid entryPoint)
  | terminateMissing {tid} (other : tid ≠ 0) (missing : s.status tid = none) :
      Branch s (.terminate tid) (.fails (libraryErr ++ tidNotExist)) s
  | terminateRunning {tid} (other : tid ≠ 0) (found : s.status tid = some .running) :
      Branch s (.terminate tid) (.switches .terminated) (unblockVtAlarm (resetTimer (s.remove tid)))
  | terminateReady {tid} (other : tid ≠ 0) (found : s.status tid = some .ready) (queued : tid ∈ s.readyTids) :
      Branch s (.terminate tid) (.finishes (.value success)) ((s.remove tid).dequeue tid)
  | terminateBlocked {tid} (other : tid ≠ 0) (found : s.status tid = some .blocked) :
      Branch s (.terminate tid) (.finishes (.value success)) ((s.remove tid).release tid)
  | terminateRest {tid status} (other : tid ≠ 0) (found : s.status tid = some status)
      (kind : status = .main ∨ status = .asleep ∨ status = .terminated) :
      Branch s (.terminate tid) (.finishes (.value success)) (s.remove tid)
  | blockZero : Branch s (.block 0) (.fails (libraryErr ++ blockThreatZero)) s
  | blockMissing {tid} (other : tid ≠ 0) (missing : s.status tid = none) :
      Branch s (.block tid) (.fails (libraryErr ++ tidNotExist)) s
  | blockRunning {tid} (other : tid ≠ 0) (found : s.status tid = some .running) :
      Branch s (.block tid) (.switches .blocked) (resetTimer s)
  | blockReady {tid} (other : tid ≠ 0) (found : s.status tid = some .ready) (queued : tid ∈ s.readyTids) :
      Branch s (.block tid) (.finishes (.value success)) (((s.dequeue tid).hold tid).withStatus tid .blocked)
  | blockAsleep {tid} (other : tid ≠ 0) (found : s.status tid = some .asleep) :
      Branch s (.block tid) (.finishes (.value success)) (s.hold tid)
  | blockRest {tid status} (other : tid ≠ 0) (found : s.status tid = some status)
      (kind : status = .blocked ∨ status = .main ∨ status = .terminated) :
      Branch s (.block tid) (.finishes (.value success)) s
  | resumeMissing {tid} (missing : s.status tid = none) :
      Branch s (.resume tid) (.fails (libraryErr ++ tidNotExist)) s
  | resumeBlocked {tid} (found : s.status tid = some .blocked) :
      Branch s (.resume tid) (.finishes (.value success)) (((s.release tid).enqueue tid).withStatus tid .ready)
  | resumeAsleep {tid} (found : s.status tid = some .asleep) :
      Branch s (.resume tid) (.finishes (.value success)) (s.release tid)
  | resumeRest {tid status} (found : s.status tid = some status) (kind : status ≠ .blocked ∧ status ≠ .asleep) :
      Branch s (.resume tid) (.finishes (.value success)) s
  | sleepZero {numQuantums} (zero : s.runningTid = 0) :
      Branch s (.sleep numQuantums) (.fails (libraryErr ++ sleepThreadZero)) s
  | sleepNegative {numQuantums} (other : s.runningTid ≠ 0) (negative : numQuantums < 0) :
      Branch s (.sleep numQuantums) (.fails (libraryErr ++ inputErr)) s
  | sleep {numQuantums} (other : s.runningTid ≠ 0) (amount : 0 ≤ numQuantums) (live : s.live s.runningTid) :
      Branch s (.sleep numQuantums) (.switches .asleep) (resetTimer (s.doze numQuantums))
  | getTid : Branch s .getTid (.finishes (.value s.runningTid)) s
  | getTotalQuantums : Branch s .getTotalQuantums (.finishes (.value s.totalQuantums)) s
  | getQuantumsMissing {tid} (missing : s.status tid = none) :
      Branch s (.getQuantums tid) (.fails (libraryErr ++ tidNotExist)) s
  | getQuantums {tid} (live : s.live tid) : Branch s (.getQuantums tid) (.finishes (.quantumsOf tid)) s
  | preempt : Branch s .preempt (.switches .ready) s

/-- No body chooses another thread; that is left to the switch. -/
theorem Branch.runningTid_eq {s s' : State ε} {op : Op ε} {next : Next} (branch : Branch s op next s') :
    s'.runningTid = s.runningTid := by
  cases branch with
  | spawn => exact s.runningTid_enroll ..
  | _ => rfl

section bodies
variable {s s' : State ε} {next : Next}

private theorem spawn_branch {entryPoint : Option ε} (taken : uthreadSpawn entryPoint s = .ok (next, s')) :
    Branch s (.spawn entryPoint) next s' := by
  unfold uthreadSpawn at taken
  split at taken
  next full => cases taken; exact .spawnFull full
  next least => cases taken; exact .spawnNull least
  next tid entryPoint least => cases taken; exact .spawn least

private theorem terminate_branch {tid : Int} (taken : uthreadTerminate tid s = .ok (next, s')) :
    Branch s (.terminate tid) next s' := by
  unfold uthreadTerminate at taken
  split at taken
  next => cases taken
  next other =>
    split at taken
    next missing =>
      cases taken
      exact .terminateMissing other (by simp [State.status, missing])
    next thread found =>
      have status := State.status_of_thread found
      split at taken
      next kind => cases taken; exact .terminateRunning other (kind ▸ status)
      next kind =>
        obtain ⟨_, erased, same⟩ := bind_ok.mp taken
        obtain ⟨queued, rfl⟩ := State.eraseReady_ok.mp erased
        cases same
        exact .terminateReady other (kind ▸ status) queued
      next kind => cases taken; exact .terminateBlocked other (kind ▸ status)
      all_goals
        rename_i kind
        cases taken
        exact .terminateRest other status (by simp [kind])

private theorem block_branch {tid : Int} (taken : uthreadBlock tid s = .ok (next, s')) :
    Branch s (.block tid) next s' := by
  unfold uthreadBlock at taken
  split at taken
  next zero => subst zero; cases taken; exact .blockZero
  next other =>
    split at taken
    next missing =>
      cases taken
      exact .blockMissing other (by simp [State.status, missing])
    next thread found =>
      have status := State.status_of_thread found
      split at taken
      next kind => cases taken; exact .blockRunning other (kind ▸ status)
      next kind =>
        obtain ⟨_, erased, taken⟩ := bind_ok.mp taken
        obtain ⟨queued, rfl⟩ := State.eraseReady_ok.mp erased
        obtain ⟨_, updated, same⟩ := bind_ok.mp taken
        obtain ⟨_, rfl⟩ := State.setStatus_ok.mp updated
        cases same
        exact .blockReady other (kind ▸ status) queued
      next kind => cases taken; exact .blockAsleep other (kind ▸ status)
      all_goals
        rename_i kind
        cases taken
        exact .blockRest other status (by simp [kind])

private theorem resume_branch {tid : Int} (taken : uthreadResume tid s = .ok (next, s')) :
    Branch s (.resume tid) next s' := by
  unfold uthreadResume at taken
  split at taken
  next missing => cases taken; exact .resumeMissing (by simp [State.status, missing])
  next thread found =>
    have status := State.status_of_thread found
    by_cases blocked : thread.status = .blocked
    · simp only [blocked, if_true] at taken
      obtain ⟨_, updated, same⟩ := bind_ok.mp taken
      obtain ⟨_, rfl⟩ := State.setStatus_ok.mp updated
      have ready : (((s.release tid).enqueue tid).withStatus tid .ready).status tid = some .ready := by
        rw [State.status_withStatus, if_pos rfl]
        change (s.status tid).map _ = _
        rw [status]
        rfl
      have notAsleep : ¬ (((s.release tid).enqueue tid).withStatus tid .ready).status tid = some .asleep := by
        simp [ready]
      cases same
      exact (if_neg notAsleep).symm ▸ .resumeBlocked (blocked ▸ status)
    · simp only [blocked, if_false, pure_ok, bind_ok_left] at taken
      by_cases asleep : thread.status = .asleep
      · rw [if_pos (by rw [status, asleep])] at taken
        cases taken
        exact .resumeAsleep (asleep ▸ status)
      · rw [if_neg (by rw [status]; simpa using asleep)] at taken
        cases taken
        exact .resumeRest status ⟨blocked, asleep⟩

private theorem sleep_branch {numQuantums : Int} (taken : uthreadSleep numQuantums s = .ok (next, s')) :
    Branch s (.sleep numQuantums) next s' := by
  unfold uthreadSleep at taken
  split at taken
  next zero => cases taken; exact .sleepZero zero
  next other =>
    split at taken
    next negative => cases taken; exact .sleepNegative other negative
    next amount =>
      obtain ⟨_, updated, same⟩ := bind_ok.mp taken
      obtain ⟨live, rfl⟩ := State.setStatus_ok.mp updated
      cases same
      exact .sleep other (Int.not_lt.mp amount) live

/-- A body that does not halt took one of the branches. -/
theorem branch_of_body {op : Op ε} (taken : op.body s = .ok (next, s')) : Branch s op next s' := by
  cases op with
  | spawn entryPoint => exact spawn_branch taken
  | terminate tid => exact terminate_branch taken
  | block tid => exact block_branch taken
  | resume tid => exact resume_branch taken
  | sleep numQuantums => exact sleep_branch taken
  | getTid => cases taken; exact .getTid
  | getTotalQuantums => cases taken; exact .getTotalQuantums
  | getQuantums tid =>
    change uthreadGetQuantums tid s = _ at taken
    unfold uthreadGetQuantums at taken
    split at taken
    next missing => cases taken; exact .getQuantumsMissing (by simp [State.status, missing])
    next thread found => cases taken; exact .getQuantums (State.live_of_thread found)
  | preempt => cases taken; exact .preempt

private theorem thread_of_status {tid : Int} {status : Status} (found : s.status tid = some status) :
    ∃ thread, s.allThreads tid = some thread ∧ thread.status = status := by
  simpa [State.status] using found

private theorem missing_of_status {tid : Int} (missing : s.status tid = none) : s.allThreads tid = none := by
  simpa [State.status] using missing

private theorem withStatus_live {tid : Int} {status : Status} (live : s.live tid) :
    s.setStatus tid status = .ok (s.withStatus tid status) :=
  State.setStatus_ok.mpr ⟨live, rfl⟩

theorem body_of_branch {op : Op ε} (branch : Branch s op next s') : op.body s = .ok (next, s') := by
  cases branch with
  | spawnFull full => simp [Op.body, uthreadSpawn, full]
  | spawnNull least => simp [Op.body, uthreadSpawn, least]
  | spawn least => simp [Op.body, uthreadSpawn, least, State.enroll]
  | terminateMissing other missing => simp [Op.body, uthreadTerminate, other, missing_of_status missing]
  | terminateRunning other found | terminateBlocked other found =>
    obtain ⟨thread, present, kind⟩ := thread_of_status found
    simp [Op.body, uthreadTerminate, other, present, kind, State.remove, State.release]
  | @terminateReady tid other found queued =>
    obtain ⟨thread, present, kind⟩ := thread_of_status found
    have erased : (s.remove tid).eraseReady tid = .ok ((s.remove tid).dequeue tid) :=
      State.eraseReady_ok.mpr ⟨queued, rfl⟩
    simp only [State.remove] at erased
    simp [Op.body, uthreadTerminate, other, present, kind, erased, State.remove]
  | terminateRest other found kind =>
    obtain ⟨thread, present, rfl⟩ := thread_of_status found
    rcases kind with kind | kind | kind <;> simp [Op.body, uthreadTerminate, other, present, kind, State.remove]
  | blockZero => simp [Op.body, uthreadBlock]
  | blockMissing other missing => simp [Op.body, uthreadBlock, other, missing_of_status missing]
  | blockRunning other found | blockAsleep other found =>
    obtain ⟨thread, present, kind⟩ := thread_of_status found
    simp [Op.body, uthreadBlock, other, present, kind, State.hold]
  | @blockReady tid other found queued =>
    obtain ⟨thread, present, kind⟩ := thread_of_status found
    have erased : s.eraseReady tid = .ok (s.dequeue tid) := State.eraseReady_ok.mpr ⟨queued, rfl⟩
    have live : ((s.dequeue tid).hold tid).live tid := State.live_of_thread present
    have updated : _ = Except.ok (State.withStatus _ tid .blocked) := withStatus_live live
    simp only [State.hold] at updated
    simp [Op.body, uthreadBlock, other, present, kind, erased, updated, State.hold]
  | blockRest other found kind =>
    obtain ⟨thread, present, rfl⟩ := thread_of_status found
    rcases kind with kind | kind | kind <;> simp [Op.body, uthreadBlock, other, present, kind]
  | resumeMissing missing => simp [Op.body, uthreadResume, missing_of_status missing]
  | @resumeBlocked tid found =>
    obtain ⟨thread, present, kind⟩ := thread_of_status found
    have live : ((s.release tid).enqueue tid).live tid := State.live_of_thread present
    have updated : _ = Except.ok (State.withStatus _ tid .ready) := withStatus_live live
    have ready : (((s.release tid).enqueue tid).withStatus tid .ready).status tid ≠ some .asleep := by
      simp [State.status_withStatus, found]
    simp only [State.release, State.enqueue] at updated ready
    simp [Op.body, uthreadResume, present, kind, updated, ready, State.release, State.enqueue]
  | resumeAsleep found =>
    obtain ⟨thread, present, kind⟩ := thread_of_status found
    simp [Op.body, uthreadResume, present, kind, found, State.release]
  | resumeRest found kind =>
    obtain ⟨thread, present, rfl⟩ := thread_of_status found
    simp [Op.body, uthreadResume, present, kind, found]
  | sleepZero zero => simp [Op.body, uthreadSleep, zero]
  | sleepNegative other negative => simp [Op.body, uthreadSleep, other, negative]
  | sleep other amount live =>
    simp [Op.body, uthreadSleep, other, Int.not_lt.mpr amount, withStatus_live live, State.doze]
  | getTid | getTotalQuantums | preempt => rfl
  | getQuantumsMissing missing => simp [Op.body, uthreadGetQuantums, missing_of_status missing]
  | getQuantums live =>
    obtain ⟨thread, present⟩ := Option.isSome_iff_exists.mp live
    simp [Op.body, uthreadGetQuantums, present]

end bodies
end Uthreads
