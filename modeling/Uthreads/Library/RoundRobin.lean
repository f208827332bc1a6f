import Mathlib.Logic.Function.Basic
import Mathlib.Data.List.Basic

/-! A round-robin scheduler in the abstract. A task carries two independent
facts, whether it is held and how long it still sleeps. Who is neither held nor
asleep waits in one queue for the processor. -/

namespace RoundRobin

structure Task where
  held : Bool
  sleep : Option Nat
  quantums : Nat
  deriving DecidableEq, Repr

namespace Task

def runnable (task : Task) : Bool := !task.held && task.sleep.isNone

/-- One switch less to sleep; a sleep that stood at zero is over. -/
def countDown (task : Task) : Task :=
  { task with sleep := task.sleep.bind fun left => if left = 0 then none else some (left - 1) }

def wakes (task : Task) : Bool := !task.held && task.sleep == some 0

end Task

@[ext] structure Scheduler (ι : Type) where
  tasks : ι → Option Task
  current : ι
  queue : List ι
  total : Nat

namespace Scheduler

variable {ι : Type} [DecidableEq ι]

def modify (a : Scheduler ι) (id : ι) (f : Task → Task) : Scheduler ι :=
  { a with tasks := Function.update a.tasks id ((a.tasks id).map f) }

/-- Every sleep is counted down, and those who wake up queue in the order of `ids`. -/
def countDown (ids : List ι) (a : Scheduler ι) : Scheduler ι :=
  { a with
    tasks := fun id => (a.tasks id).map Task.countDown
    queue := a.queue ++ ids.filter fun id => (a.tasks id).any Task.wakes }

def requeue (a : Scheduler ι) : Scheduler ι := { a with queue := a.queue ++ [a.current] }

def dispatch (a : Scheduler ι) : Scheduler ι :=
  match a.queue with
  | [] => a
  | next :: rest =>
    { a.modify next fun task => { task with quantums := task.quantums + 1 } with
      current := next
      queue := rest
      total := a.total + 1 }

/-- A change of the running task, which keeps its turn only if it was preempted. -/
def switch (ids : List ι) (preempted : Bool) (a : Scheduler ι) : Scheduler ι :=
  let a := a.countDown ids
  (if preempted then a.requeue else a).dispatch

def accept (a : Scheduler ι) (id : ι) : Scheduler ι :=
  { a with tasks := Function.update a.tasks id (some ⟨false, none, 0⟩), queue := a.queue ++ [id] }

def drop (a : Scheduler ι) (id : ι) : Scheduler ι :=
  { a with tasks := Function.update a.tasks id none, queue := a.queue.erase id }

def hold (a : Scheduler ι) (id : ι) : Scheduler ι :=
  { a.modify id fun task => { task with held := true } with queue := a.queue.erase id }

def release (a : Scheduler ι) (id : ι) : Scheduler ι :=
  { a.modify id fun task => { task with held := false } with
    queue := if (a.tasks id).any fun task => task.held && task.sleep.isNone then a.queue ++ [id] else a.queue }

def doze (a : Scheduler ι) (count : Nat) : Scheduler ι := a.modify a.current fun task => { task with sleep := some count }

/-- The queue holds exactly the runnable tasks that wait, each once. -/
structure Valid (a : Scheduler ι) : Prop where
  nodup : a.queue.Nodup
  waiting : ∀ id, id ∈ a.queue ↔ id ≠ a.current ∧ (a.tasks id).any Task.runnable = true
  current : ∃ task, a.tasks a.current = some task ∧ task.runnable = true

section lemmas
variable (a : Scheduler ι) (ids : List ι) (id other : ι) (f : Task → Task)

theorem tasks_modify : (a.modify id f).tasks other = if other = id then (a.tasks id).map f else a.tasks other := by
  simp only [modify, Function.update_apply]

theorem tasks_hold : (a.hold id).tasks other =
    if other = id then (a.tasks id).map fun task => { task with held := true } else a.tasks other :=
  tasks_modify ..

theorem tasks_release : (a.release id).tasks other =
    if other = id then (a.tasks id).map fun task => { task with held := false } else a.tasks other :=
  tasks_modify ..

theorem tasks_doze (count : Nat) : (a.doze count).tasks other =
    if other = a.current then (a.tasks a.current).map fun task => { task with sleep := some count } else a.tasks other :=
  tasks_modify ..

theorem tasks_drop : (a.drop id).tasks other = if other = id then none else a.tasks other := by
  simp only [drop, Function.update_apply]

theorem tasks_accept : (a.accept id).tasks other = if other = id then some ⟨false, none, 0⟩ else a.tasks other := by
  simp only [accept, Function.update_apply]

omit [DecidableEq ι] in
theorem countDown_awake (awake : ∀ id task, a.tasks id = some task → task.sleep = none) : a.countDown ids = a := by
  have same : ∀ id, (a.tasks id).map Task.countDown = a.tasks id := by
    intro id
    cases found : a.tasks id with
    | none => rfl
    | some task =>
      obtain ⟨held, sleep, quantums⟩ := task
      obtain rfl : sleep = none := awake id _ found
      rfl
  have nobody : ∀ id, (a.tasks id).any Task.wakes = false := by
    intro id
    cases found : a.tasks id with
    | none => rfl
    | some task => simp [Task.wakes, awake id task found]
  ext1
  · funext id
    exact same id
  · rfl
  · simp [countDown, nobody]
  · rfl

/-- Holding a task that does not sleep may be done before the countdown as well
as after. -/
theorem countDown_hold {task : Task} (found : a.tasks id = some task) (awake : task.sleep = none)
    (away : id ∉ a.queue) :
    (a.hold id).countDown ids = (a.countDown ids).modify id fun task => { task with held := true } := by
  ext1
  · funext other
    rw [tasks_modify]
    change ((a.hold id).tasks other).map Task.countDown = _
    rw [tasks_hold]
    by_cases same : other = id
    · simp [same, countDown, Task.countDown, Function.comp_def]
    · simp [same, countDown]
  · rfl
  · have woken : ∀ other, ((a.hold id).tasks other).any Task.wakes = (a.tasks other).any Task.wakes := by
      intro other
      rw [tasks_hold]
      by_cases same : other = id
      · simp [same, found, Task.wakes, awake]
      · simp [same]
    change (a.queue.erase id) ++ ids.filter (fun other => ((a.hold id).tasks other).any Task.wakes) = _
    simp only [woken, List.erase_of_not_mem away]
    rfl
  · rfl

end lemmas
end Scheduler
end RoundRobin
