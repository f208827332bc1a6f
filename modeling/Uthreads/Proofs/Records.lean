import Uthreads.Library.Fallible
import Uthreads.Model.Operations

/-! Reading the thread table after an update. Later proofs speak of statuses and
counts, and never unfold the table itself. -/

namespace Uthreads

variable {ε : Type}

def haltsWith (halt : Halt) {α : Type} : Except Halt α → Bool
  | .error other => other = halt
  | .ok _ => false

theorem of_haltsWith {α : Type} {x : Except Halt α} {halt : Halt} (halts : haltsWith halt x = true) : x = .error halt := by
  cases x with
  | error other => exact congrArg _ (of_decide_eq_true halts)
  | ok value => cases halts

theorem of_any_haltsWith {α : Type} {x : Option (Except Halt α)} {halt : Halt} (halts : x.any (haltsWith halt) = true) :
    x = some (.error halt) := by
  obtain ⟨outcome, rfl, halts⟩ := (Option.any_eq_true _ _).mp halts
  rw [of_haltsWith halts]

namespace State

def live (s : State ε) (tid : Int) : Prop := (s.allThreads tid).isSome

instance (s : State ε) (tid : Int) : Decidable (s.live tid) := inferInstanceAs (Decidable (_ = true))

def env (s : State ε) (tid : Int) : Option (SigjmpBuf ε) := (s.allThreads tid).map UThread.env

def modifyThread (s : State ε) (tid : Int) (f : UThread ε → UThread ε) : State ε :=
  { s with allThreads := Function.update s.allThreads tid ((s.allThreads tid).map f) }

theorem updateThread_ok {s s' : State ε} {tid : Int} {f : UThread ε → UThread ε} :
    s.updateThread tid f = .ok s' ↔ s.live tid ∧ s' = s.modifyThread tid f := by
  unfold updateThread live modifyThread
  cases s.allThreads tid with
  | none => simp
  | some thread => simp [eq_comm]

theorem updateThread_live {s : State ε} {tid : Int} (present : s.live tid) (f : UThread ε → UThread ε) :
    s.updateThread tid f = .ok (s.modifyThread tid f) :=
  updateThread_ok.mpr ⟨present, rfl⟩

section modifyThread
variable (s : State ε) (tid other : Int) (f : UThread ε → UThread ε)

theorem allThreads_modifyThread : (s.modifyThread tid f).allThreads other =
    if other = tid then (s.allThreads tid).map f else s.allThreads other := by
  simp only [modifyThread, Function.update_apply]

@[simp] theorem sleepers_modifyThread : (s.modifyThread tid f).sleepers = s.sleepers := rfl
@[simp] theorem blockedTids_modifyThread : (s.modifyThread tid f).blockedTids = s.blockedTids := rfl
@[simp] theorem readyTids_modifyThread : (s.modifyThread tid f).readyTids = s.readyTids := rfl
@[simp] theorem freeIds_modifyThread : (s.modifyThread tid f).freeIds = s.freeIds := rfl
@[simp] theorem totalQuantums_modifyThread : (s.modifyThread tid f).totalQuantums = s.totalQuantums := rfl
@[simp] theorem runningTid_modifyThread : (s.modifyThread tid f).runningTid = s.runningTid := rfl
@[simp] theorem mask_modifyThread : (s.modifyThread tid f).mask = s.mask := rfl

@[simp] theorem live_modifyThread : (s.modifyThread tid f).live other ↔ s.live other := by
  simp only [live, allThreads_modifyThread]
  split
  · rename_i same; subst same; simp
  · exact Iff.rfl

theorem map_modifyThread {β : Type} (field : UThread ε → β) (kept : ∀ thread, field (f thread) = field thread) :
    ((s.modifyThread tid f).allThreads other).map field = (s.allThreads other).map field := by
  rw [allThreads_modifyThread]
  split
  · rename_i same; subst same; simp [Function.comp_def, kept]
  · rfl

end modifyThread

theorem live_iff_status {s : State ε} {tid : Int} : s.live tid ↔ ∃ status, s.status tid = some status := by
  simp [live, status, Option.isSome_iff_exists]

theorem status_of_thread {s : State ε} {tid : Int} {thread : UThread ε}
    (found : s.allThreads tid = some thread) : s.status tid = some thread.status := by
  simp [status, found]

theorem live_of_thread {s : State ε} {tid : Int} {thread : UThread ε}
    (found : s.allThreads tid = some thread) : s.live tid := by
  simp [live, found]

theorem status_eq_none {s : State ε} {tid : Int} : s.status tid = none ↔ ¬ s.live tid := by
  simp [live, status]

theorem quantums_eq_none {s : State ε} {tid : Int} : s.quantums tid = none ↔ ¬ s.live tid := by
  simp [live, quantums]

end State

/-- The record that a return reads. -/
def Returned.record : Returned → Option Int
  | .value _ => none
  | .newThread tid | .quantumsOf tid => some tid

theorem eval_newThread {s : State ε} {tid : Int} : (Returned.newThread tid).eval s = .ok tid ↔ s.live tid := by
  simp only [Returned.eval, State.live]
  split <;> simp [*]

theorem newThread_value {s : State ε} {tid value : Int} (read : (Returned.newThread tid).eval s = .ok value) : value = tid := by
  simp only [Returned.eval] at read
  split at read
  next => exact (Except.ok.inj read).symm
  next => cases read

theorem uthreadInit_main {quantumUsecs : Int} {here : Context ε} {mask : Finset Signal} {s : State ε}
    (done : uthreadInit quantumUsecs here (.blank mask) = (.returns success, s)) :
    s.allThreads = Function.update (fun _ => none) 0 (some (.main here)) ∧ s.runningTid = 0 := by
  unfold uthreadInit at done
  split at done
  next => cases done
  next =>
    cases done
    exact ⟨rfl, rfl⟩

end Uthreads
