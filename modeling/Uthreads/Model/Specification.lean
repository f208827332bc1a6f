import Uthreads.Library.RoundRobin
import Uthreads.Model.Operations

/-! What the library is for, without its containers: the same calls on the
abstract scheduler. Nothing here is translated from the source. -/

namespace Uthreads
open RoundRobin

variable {ε : Type}

def allIds : List Int := (List.range maxThreadNum.toNat).map fun i : Nat => (i : Int)

theorem mem_allIds {tid : Int} : tid ∈ allIds ↔ 0 ≤ tid ∧ tid < maxThreadNum := by
  simp only [allIds, maxThreadNum, List.mem_map, List.mem_range]
  constructor
  · rintro ⟨i, inside, rfl⟩
    omega
  · rintro ⟨low, high⟩
    exact ⟨tid.toNat, by omega, by omega⟩

theorem length_allIds : (allIds.length : Int) = maxThreadNum := by decide

/-- The effect of a call and the value it returns to its caller, if any. No
effect at all means that the process ends. -/
def Op.spec (op : Op ε) (a : Scheduler Int) : Option (Option Int × Scheduler Int) :=
  match op with
  | .spawn entryPoint =>
    match allIds.find? fun id => (a.tasks id).isNone, entryPoint with
    | some id, some _ => some (some id, a.accept id)
    | _, _ => some (some failure, a)
  | .terminate tid =>
    if tid = 0 then none
    else if (a.tasks tid).isNone then some (some failure, a)
    else if tid = a.current then some (none, (a.drop tid).switch allIds false)
    else some (some success, a.drop tid)
  | .block tid =>
    if tid = 0 ∨ (a.tasks tid).isNone then some (some failure, a)
    else if tid = a.current then some (some success, (a.hold tid).switch allIds false)
    else some (some success, a.hold tid)
  | .resume tid => if (a.tasks tid).isNone then some (some failure, a) else some (some success, a.release tid)
  | .sleep numQuantums =>
    if a.current = 0 ∨ numQuantums < 0 then some (some failure, a)
    else some (some success, (a.doze numQuantums.toNat).switch allIds false)
  | .getTid => some (some a.current, a)
  | .getTotalQuantums => some (some a.total, a)
  | .getQuantums tid =>
    match a.tasks tid with
    | none => some (some failure, a)
    | some task => some (some task.quantums, a)
  | .preempt => some (none, a.switch allIds true)

/-- The scheduler that a state implements. -/
def abstraction (s : State ε) : Scheduler Int where
  tasks tid := (s.quantums tid).map fun quantums =>
    ⟨decide (tid ∈ s.blockedTids), s.sleepers[tid]?.map Int.toNat, quantums⟩
  current := s.runningTid
  queue := s.readyTids
  total := s.totalQuantums

/-- A step of the abstract scheduler, with the call and its value as the label. -/
def SpecTakes (a : Scheduler Int) (label : Op ε × Option Int) (a' : Scheduler Int) : Prop :=
  label.1.spec a = some (label.2, a')

def specInit : Scheduler Int where
  tasks tid := if tid = 0 then some ⟨false, none, 1⟩ else none
  current := 0
  queue := []
  total := 1

/-- The status that the two facts call for; `onProcessor` is that of the
current task. -/
def specStatus (onProcessor : Status) (a : Scheduler Int) (tid : Int) : Option Status :=
  (a.tasks tid).map fun task =>
    if tid = a.current then onProcessor
    else if task.sleep.isSome then .asleep
    else if task.held then .blocked
    else .ready

end Uthreads
