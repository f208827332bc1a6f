import Mathlib.Data.Finset.Basic
import Uthreads.Library.RoundRobin

/-! A round-robin scheduler whose tasks share one lock. Who finds the lock taken
waits for it off the queue, and whoever gives it up chooses the next owner. To be
held and to wait are independent: a task may be both. -/

namespace RoundRobin

@[ext] structure Guarded (ι : Type) extends Scheduler ι where
  owner : Option ι
  waiting : Finset ι

namespace Guarded

variable {ι : Type} [DecidableEq ι]

/-- Nothing but the lock may keep the task from the queue. -/
def able (a : Guarded ι) (id : ι) : Bool := (a.tasks id).any Task.runnable

def Runnable (a : Guarded ι) (id : ι) : Prop := a.able id = true ∧ id ∉ a.waiting

def accept (a : Guarded ι) (id : ι) : Guarded ι := { a with toScheduler := a.toScheduler.accept id }

def hold (a : Guarded ι) (id : ι) : Guarded ι := { a with toScheduler := a.toScheduler.hold id }

def requeue (a : Guarded ι) : Guarded ι := { a with toScheduler := a.toScheduler.requeue }

def release (a : Guarded ι) (id : ι) : Guarded ι :=
  { a with toScheduler := if id ∈ a.waiting then a.modify id fun task => { task with held := false } else a.toScheduler.release id }

def drop (a : Guarded ι) (id : ι) : Guarded ι :=
  { a with toScheduler := a.toScheduler.drop id, waiting := a.waiting.erase id }

def wait (a : Guarded ι) : Guarded ι := { a with waiting := insert a.current a.waiting }

def grant (a : Guarded ι) (next : Option ι) : Guarded ι :=
  match next with
  | none => { a with owner := none }
  | some id => { a with
      owner := some id
      waiting := a.waiting.erase id
      queue := if a.able id then a.queue ++ [id] else a.queue }

/-- Before a task goes for good, it gives up the lock if it owns it. -/
def surrender (a : Guarded ι) (id : ι) (next : Option ι) : Guarded ι := if a.owner = some id then a.grant next else a

def dispatch (a : Guarded ι) : Option (Guarded ι) :=
  match a.queue with
  | [] => none
  | _ :: _ => some { a with toScheduler := a.toScheduler.dispatch }

/-- The lock may pass to anybody who waits, but to a task that is not able to
run only if none of them is. Without anybody it becomes free. -/
def Eligible (a : Guarded ι) (next : Option ι) : Prop :=
  match next with
  | none => a.waiting = ∅
  | some id => id ∈ a.waiting ∧ (a.able id = false → ∀ other ∈ a.waiting, a.able other = false)

/-- Everybody is in one place. `turn` is the task on the processor; between two
turns there is none. -/
structure Placed (turn : Option ι) (a : Guarded ι) : Prop where
  nodup : a.queue.Nodup
  queued : ∀ id, id ∈ a.queue ↔ turn ≠ some id ∧ a.Runnable id
  turn : ∀ id, turn = some id → a.Runnable id
  waiting : ∀ id ∈ a.waiting, (a.tasks id).isSome
  owner : ∀ id, a.owner = some id → (a.tasks id).isSome ∧ id ∉ a.waiting
  unowned : a.owner = none → a.waiting = ∅

section lemmas
omit [DecidableEq ι]
variable {a b : Guarded ι} {id : ι} {turn : Option ι}

theorem Runnable.live (runnable : a.Runnable id) : (a.tasks id).isSome :=
  Option.isSome_of_any runnable.1

theorem Placed.queue_live (placed : Placed turn a) (member : id ∈ a.queue) : (a.tasks id).isSome :=
  ((placed.queued id).mp member).2.live

theorem runnable_congr (same : a.tasks id = b.tasks id) (waits : id ∈ a.waiting ↔ id ∈ b.waiting) :
    a.Runnable id ↔ b.Runnable id := by
  simp only [Runnable, able, same, waits]

end lemmas

section rules
variable {a b : Guarded ι} {id : ι} {turn : Option ι}

theorem Placed.withdraw (placed : Placed turn a) (id : ι) (queue : b.queue = a.queue.erase id)
    (runnable : ∀ other, b.Runnable other ↔ other ≠ id ∧ a.Runnable other)
    (waiting : ∀ id ∈ b.waiting, (b.tasks id).isSome)
    (owner : ∀ id, b.owner = some id → (b.tasks id).isSome ∧ id ∉ b.waiting)
    (unowned : b.owner = none → b.waiting = ∅) : Placed (turn.filter (· ≠ id)) b := by
  refine ⟨queue ▸ placed.nodup.erase id, fun other => ?_, fun other => ?_, waiting, owner, unowned⟩
  · rw [queue, placed.nodup.mem_erase_iff, placed.queued, runnable]
    simp only [ne_eq, Option.filter_eq_some_iff, decide_eq_true_eq]
    tauto
  · rw [Option.filter_eq_some_iff, runnable]
    rintro ⟨same, different⟩
    exact ⟨of_decide_eq_true different, placed.turn other same⟩

theorem Placed.enqueue (placed : Placed turn a) (id : ι) (queue : b.queue = a.queue ++ [id]) (idle : ¬ a.Runnable id)
    (runnable : ∀ other, b.Runnable other ↔ other = id ∨ a.Runnable other)
    (waiting : ∀ id ∈ b.waiting, (b.tasks id).isSome)
    (owner : ∀ id, b.owner = some id → (b.tasks id).isSome ∧ id ∉ b.waiting)
    (unowned : b.owner = none → b.waiting = ∅) : Placed turn b := by
  have absent : id ∉ a.queue := fun member => idle ((placed.queued id).mp member).2
  have elsewhere : turn ≠ some id := fun same => idle (placed.turn id same)
  refine ⟨?_, fun other => ?_, fun other same => ?_, waiting, owner, unowned⟩
  · rw [queue]
    exact placed.nodup.append (List.nodup_singleton id) (by simpa using absent)
  · rw [queue, List.mem_append, List.mem_singleton, placed.queued, runnable]
    by_cases same : other = id
    · simp [same, elsewhere]
    · simp [same]
  · exact (runnable other).mpr (.inr (placed.turn other same))

omit [DecidableEq ι] in
theorem Placed.rest (placed : Placed turn a) (queue : b.queue = a.queue)
    (runnable : ∀ other, b.Runnable other ↔ a.Runnable other)
    (waiting : ∀ id ∈ b.waiting, (b.tasks id).isSome)
    (owner : ∀ id, b.owner = some id → (b.tasks id).isSome ∧ id ∉ b.waiting)
    (unowned : b.owner = none → b.waiting = ∅) : Placed turn b := by
  refine ⟨queue ▸ placed.nodup, fun other => ?_, fun other same => ?_, waiting, owner, unowned⟩
  · rw [queue, runnable, placed.queued]
  · exact (runnable other).mpr (placed.turn other same)

end rules

section operations
variable {a b : Guarded ι} {id : ι} {turn : Option ι}

theorem Placed.accept (placed : Placed turn a) (new : a.tasks id = none) : Placed turn (a.accept id) := by
  have tasks : ∀ other, (a.accept id).tasks other = if other = id then some ⟨false, none, 0⟩ else a.tasks other :=
    a.toScheduler.tasks_accept id
  have lives : ∀ other, (a.tasks other).isSome → ((a.accept id).tasks other).isSome := fun other live => by
    rw [tasks]
    split
    · rfl
    · exact live
  have dead : ∀ other, (a.tasks other).isSome → other ≠ id := by
    rintro other live rfl
    simp [new] at live
  have unwaiting : id ∉ a.waiting := fun member => dead id (placed.waiting id member) rfl
  apply placed.enqueue id rfl
  · exact fun runnable => dead id runnable.live rfl
  · intro other
    by_cases same : other = id
    · subst same
      simp only [Runnable, able, tasks, if_true, true_or, iff_true]
      exact ⟨rfl, unwaiting⟩
    · have kept : (a.accept id).Runnable other ↔ a.Runnable other :=
        runnable_congr (by rw [tasks, if_neg same]) Iff.rfl
      simp [kept, same]
  · exact fun other member => lives other (placed.waiting other member)
  · exact fun other owns => (placed.owner other owns).imp_left (lives other)
  · exact placed.unowned

theorem tasks_hold (other : ι) : (a.hold id).tasks other =
    if other = id then (a.tasks id).map fun task => { task with held := true } else a.tasks other :=
  a.toScheduler.tasks_hold id other

theorem Placed.hold (placed : Placed turn a) (id : ι) : Placed (turn.filter (· ≠ id)) (a.hold id) := by
  have lives : ∀ other, (a.tasks other).isSome → ((a.hold id).tasks other).isSome := fun other live => by
    rw [tasks_hold]
    split
    · rename_i same
      simpa [← same] using live
    · exact live
  apply placed.withdraw id rfl
  · intro other
    by_cases same : other = id
    · simp only [same, Runnable, able, tasks_hold, if_true, ne_eq, not_true, false_and, iff_false, not_and]
      cases a.tasks id <;> simp [Task.runnable]
    · have kept : (a.hold id).Runnable other ↔ a.Runnable other :=
        runnable_congr (by rw [tasks_hold, if_neg same]) Iff.rfl
      simp [kept, same]
  · exact fun other member => lives other (placed.waiting other member)
  · exact fun other owns => (placed.owner other owns).imp_left (lives other)
  · exact placed.unowned

theorem Placed.wait (placed : Placed (some a.current) a) {owner : ι} (owned : a.owner = some owner)
    (other : owner ≠ a.current) : Placed none a.wait := by
  have absent : a.current ∉ a.queue := fun member => ((placed.queued _).mp member).1 rfl
  have left := placed.withdraw (b := a.wait) a.current
  simp only [Option.filter_some, ne_eq, not_true, decide_false] at left
  apply left
  · exact (List.erase_of_not_mem absent).symm
  · intro other
    simp only [Runnable, Guarded.wait, Finset.mem_insert, not_or]
    tauto
  · intro other member
    rcases Finset.mem_insert.mp member with rfl | member
    · exact (placed.turn _ rfl).live
    · exact placed.waiting other member
  · intro holder owns
    obtain ⟨live, away⟩ := placed.owner holder owns
    refine ⟨live, fun member => ?_⟩
    rcases Finset.mem_insert.mp member with rfl | member
    · exact other (Option.some.inj (owned.symm.trans owns))
    · exact away member
  · exact fun free => nomatch owned.symm.trans free

theorem Placed.drop (placed : Placed turn a) (unowned : a.owner ≠ some id) :
    Placed (turn.filter (· ≠ id)) (a.drop id) := by
  have tasks : ∀ other, (a.drop id).tasks other = if other = id then none else a.tasks other :=
    a.toScheduler.tasks_drop id
  apply placed.withdraw id rfl
  · intro other
    by_cases same : other = id
    · simp [same, Runnable, able, tasks]
    · have kept : (a.drop id).Runnable other ↔ a.Runnable other := by
        apply runnable_congr
        · rw [tasks, if_neg same]
        · exact ⟨Finset.mem_of_mem_erase, Finset.mem_erase_of_ne_of_mem same⟩
      simp [kept, same]
  · intro other member
    obtain ⟨different, member⟩ := Finset.mem_erase.mp member
    rw [tasks, if_neg different]
    exact placed.waiting other member
  · intro other owns
    have different : other ≠ id := fun same => unowned (same ▸ owns)
    obtain ⟨live, away⟩ := placed.owner other owns
    rw [tasks, if_neg different]
    exact ⟨live, fun member => away (Finset.mem_of_mem_erase member)⟩
  · intro free
    have nobody := placed.unowned free
    exact (congrArg (Finset.erase · id) nobody).trans (Finset.erase_empty id)

theorem Placed.requeue (placed : Placed (some a.current) a) : Placed none a.requeue := by
  have absent : a.current ∉ a.queue := fun member => ((placed.queued _).mp member).1 rfl
  refine ⟨?_, fun other => ?_, nofun, placed.waiting, placed.owner, placed.unowned⟩
  · exact placed.nodup.append (List.nodup_singleton _) (by simpa using absent)
  · have member : other ∈ a.requeue.queue ↔ other ∈ a.queue ∨ other = a.current := by
      simp [Guarded.requeue, Scheduler.requeue]
    have kept : a.requeue.Runnable other ↔ a.Runnable other := runnable_congr rfl Iff.rfl
    rw [member, placed.queued, kept]
    by_cases same : other = a.current
    · simpa [same] using placed.turn _ rfl
    · simp [same, Ne.symm same]

/-- What was held is not, and may run unless it waits for the lock. -/
theorem tasks_release (other : ι) : (a.release id).tasks other =
    if other = id then (a.tasks id).map fun task => { task with held := false } else a.tasks other := by
  unfold Guarded.release
  split
  · exact a.toScheduler.tasks_modify ..
  · exact a.toScheduler.tasks_release ..

theorem current_release : (a.release id).current = a.current := by
  unfold Guarded.release
  split <;> rfl

theorem release_eq_self (free : ∀ task, a.tasks id = some task → task.held = false) : a.release id = a := by
  have idle : (a.tasks id).any (fun task => task.held && task.sleep.isNone) = false := by
    cases found : a.tasks id with
    | none => rfl
    | some task => simp [free task found]
  ext1
  · funext other
    rw [tasks_release]
    split
    · rename_i same
      subst same
      cases found : a.tasks other with
      | none => rfl
      | some task => rw [Option.map_some, ← free task found]
    · rfl
  all_goals
    unfold Guarded.release
    split
    · rfl
    · simp [Scheduler.release, idle, Scheduler.modify]

theorem Placed.release (placed : Placed turn a) : Placed turn (a.release id) := by
  have lives : ∀ other, (a.tasks other).isSome → ((a.release id).tasks other).isSome := fun other live => by
    rw [tasks_release]
    split
    · rename_i same
      simpa [← same] using live
    · exact live
  have others : ∀ other, other ≠ id → ((a.release id).Runnable other ↔ a.Runnable other) := fun other different =>
    runnable_congr (by rw [tasks_release, if_neg different]) Iff.rfl
  have waiting := fun other member => lives other (placed.waiting other member)
  have owner := fun other owns => (placed.owner other owns).imp_left (lives other)
  by_cases waits : id ∈ a.waiting
  · apply placed.rest
    · simp [Guarded.release, waits, Scheduler.modify]
    · intro other
      by_cases same : other = id
      · subst same
        exact iff_of_false (fun runnable => runnable.2 waits) fun runnable => runnable.2 waits
      · exact others other same
    · exact waiting
    · exact owner
    · exact placed.unowned
  · by_cases wakes : (a.tasks id).any (fun task => task.held && task.sleep.isNone) = true
    · obtain ⟨task, found, kind⟩ := (Option.any_eq_true _ _).mp wakes
      obtain ⟨held, awake⟩ := (Bool.and_eq_true ..).mp kind
      apply placed.enqueue id
      · simp [Guarded.release, waits, Scheduler.release, wakes]
      · intro runnable
        simpa [able, found, Task.runnable, held] using runnable.1
      · intro other
        by_cases same : other = id
        · subst same
          simp only [true_or, iff_true]
          refine ⟨?_, waits⟩
          rw [able, tasks_release, if_pos rfl, found]
          simpa [Task.runnable] using awake
        · simp [others other same, same]
      · exact waiting
      · exact owner
      · exact placed.unowned
    · apply placed.rest
      · simp [Guarded.release, waits, Scheduler.release, wakes]
      · intro other
        by_cases same : other = id
        · subst same
          simp only [Runnable, able, tasks_release, if_true]
          apply and_congr _ Iff.rfl
          cases found : a.tasks other with
          | none => simp
          | some task =>
            simp only [found, Option.any_some, Bool.and_eq_true, not_and] at wakes
            cases held : task.held
            · simp [Task.runnable, held]
            · simp [Task.runnable, held, wakes held]
        · exact others other same
      · exact waiting
      · exact owner
      · exact placed.unowned

omit [DecidableEq ι] in
theorem Placed.take (placed : Placed turn a) (free : a.owner = none) (live : (a.tasks id).isSome) :
    Placed turn { a with owner := some id } := by
  have nobody := placed.unowned free
  refine placed.rest (b := { a with owner := some id }) rfl (fun _ => Iff.rfl) placed.waiting (fun other owns => ?_) nofun
  obtain rfl := Option.some.inj owns
  exact ⟨live, by simp [nobody]⟩

/-- Whoever is granted the lock waits no longer, and is in the queue from then
on if it is not held. -/
theorem Placed.grant (placed : Placed turn a) {next : Option ι} (eligible : a.Eligible next) :
    Placed turn (a.grant next) := by
  cases next with
  | none => exact placed.rest rfl (fun _ => Iff.rfl) placed.waiting nofun fun _ => eligible
  | some id =>
    obtain ⟨waits, -⟩ := eligible
    have others : ∀ other, other ≠ id → ((a.grant (some id)).Runnable other ↔ a.Runnable other) :=
      fun other different =>
        runnable_congr rfl ⟨Finset.mem_of_mem_erase, Finset.mem_erase_of_ne_of_mem different⟩
    have idle : ¬ a.Runnable id := fun runnable => runnable.2 waits
    have waiting : ∀ other ∈ (a.grant (some id)).waiting, (a.tasks other).isSome :=
      fun other member => placed.waiting other (Finset.mem_of_mem_erase member)
    have owner : ∀ other, (a.grant (some id)).owner = some other →
        (a.tasks other).isSome ∧ other ∉ (a.grant (some id)).waiting := by
      intro other owns
      obtain rfl := Option.some.inj owns
      exact ⟨placed.waiting id waits, Finset.notMem_erase id _⟩
    cases able : a.able id with
    | true =>
      apply placed.enqueue id (by simp [Guarded.grant, able]) idle _ waiting owner nofun
      intro other
      by_cases same : other = id
      · subst same
        simpa using ⟨able, Finset.notMem_erase other _⟩
      · simp [others other same, same]
    | false =>
      apply placed.rest (by simp [Guarded.grant, able]) _ waiting owner nofun
      intro other
      by_cases same : other = id
      · subst same
        exact iff_of_false (fun runnable => nomatch able.symm.trans runnable.1) idle
      · exact others other same

theorem current_grant {next : Option ι} : (a.grant next).current = a.current := by
  cases next <;> rfl

theorem current_surrender {next : Option ι} : (a.surrender id next).current = a.current := by
  unfold surrender
  split
  · exact current_grant
  · rfl

theorem tasks_surrender {next : Option ι} : (a.surrender id next).tasks = a.tasks := by
  unfold surrender
  split
  · cases next <;> rfl
  · rfl

theorem Placed.surrender (placed : Placed turn a) {next : Option ι} (id : ι) (eligible : a.Eligible next) :
    Placed turn (a.surrender id next) := by
  unfold Guarded.surrender
  split
  · exact placed.grant eligible
  · exact placed

theorem Placed.surrender_owner (placed : Placed turn a) {next : Option ι} (id : ι) (eligible : a.Eligible next) :
    (a.surrender id next).owner ≠ some id := by
  unfold Guarded.surrender
  split
  next owns =>
    cases next with
    | none => exact nofun
    | some next =>
      intro again
      obtain rfl := Option.some.inj again
      exact (placed.owner _ owns).2 eligible.1
  next other => exact other

theorem dispatch_eq_some {next : ι} {rest : List ι} (queue : a.queue = next :: rest) :
    a.dispatch = some { a with toScheduler := a.toScheduler.dispatch } := by
  rw [Guarded.dispatch, queue]

theorem dispatch_eq_none : a.dispatch = none ↔ a.queue = [] := by
  rw [Guarded.dispatch]
  split <;> rename_i queue <;> simp [queue]

structure Dispatched (a b : Guarded ι) (next : ι) (rest : List ι) : Prop where
  front : a.queue = next :: rest
  current : b.current = next
  queue : b.queue = rest
  total : b.total = a.total + 1
  owner : b.owner = a.owner
  waiting : b.waiting = a.waiting
  tasks : ∀ id, b.tasks id = if id = next then (a.tasks next).map fun task => { task with quantums := task.quantums + 1 } else a.tasks id

theorem dispatched_of_dispatch (turn : a.dispatch = some b) : ∃ next rest, Dispatched a b next rest := by
  cases queue : a.queue with
  | nil => exact nomatch (dispatch_eq_none.mpr queue).symm.trans turn
  | cons next rest =>
    rw [dispatch_eq_some queue, Option.some.injEq] at turn
    subst turn
    refine ⟨next, rest, queue, ?_, ?_, ?_, rfl, rfl, fun id => ?_⟩ <;> rw [Scheduler.dispatch, queue]
    exact a.toScheduler.tasks_modify ..

theorem Dispatched.held {next : ι} {rest : List ι} (dispatched : Dispatched a b next rest) (id : ι) :
    (b.tasks id).map Task.held = (a.tasks id).map Task.held := by
  rw [dispatched.tasks]
  split
  · rename_i same
    simp [same, Function.comp_def]
  · rfl

theorem Dispatched.live {next : ι} {rest : List ι} (dispatched : Dispatched a b next rest) (id : ι) :
    (b.tasks id).isSome = (a.tasks id).isSome := by
  have held := congrArg Option.isSome (dispatched.held id)
  simpa using held

theorem Dispatched.runnable {next : ι} {rest : List ι} (dispatched : Dispatched a b next rest) (id : ι) :
    b.Runnable id ↔ a.Runnable id := by
  simp only [Runnable, able, dispatched.tasks, dispatched.waiting]
  split
  · rename_i same
    subst same
    cases a.tasks id <;> rfl
  · rfl

theorem Placed.dispatch (placed : Placed none a) {next : ι} {rest : List ι} (dispatched : Dispatched a b next rest) :
    Placed (some b.current) b := by
  have queued := placed.queued
  have distinct := placed.nodup
  rw [dispatched.front] at queued distinct
  rw [List.nodup_cons] at distinct
  rw [dispatched.current]
  refine ⟨?_, fun other => ?_, fun other same => ?_, fun other member => ?_, fun other owns => ?_, fun free => ?_⟩
  · exact dispatched.queue ▸ distinct.2
  · have queued := queued other
    rw [List.mem_cons] at queued
    rw [dispatched.queue, dispatched.runnable]
    by_cases same : other = next
    · simp [same, distinct.1]
    · simpa [same, Ne.symm same] using queued
  · obtain rfl := Option.some.inj same
    exact (dispatched.runnable next).mpr ((queued next).mp List.mem_cons_self).2
  · rw [dispatched.live]
    exact placed.waiting other (dispatched.waiting ▸ member)
  · rw [dispatched.live, dispatched.waiting]
    exact placed.owner other (dispatched.owner ▸ owns)
  · exact dispatched.waiting ▸ placed.unowned (dispatched.owner ▸ free)

/-- With nobody in the queue between two turns, whoever is able to run waits for the lock. -/
theorem Placed.stalled (placed : Placed none a) (queue : a.queue = []) (id : ι) : a.able id = false ∨ id ∈ a.waiting := by
  have queued := placed.queued id
  rw [queue] at queued
  by_contra free
  obtain ⟨able, idle⟩ := not_or.mp free
  exact List.not_mem_nil (queued.mpr ⟨nofun, Bool.not_eq_false _ ▸ able, idle⟩)

/-- Then whoever has the lock that somebody waits for is held. -/
theorem Placed.stalled_owner (placed : Placed none a) (queue : a.queue = []) (waits : id ∈ a.waiting) :
    ∃ owner, a.owner = some owner ∧ a.able owner = false := by
  cases owns : a.owner with
  | none => exact absurd (placed.unowned owns ▸ waits) (Finset.notMem_empty id)
  | some owner =>
    exact ⟨owner, rfl, (placed.stalled queue owner).resolve_right (placed.owner owner owns).2⟩

end operations

section unheld
variable {a b : Guarded ι} {id : ι} {turn : Option ι} {next : Option ι}

def Involved (a : Guarded ι) (id : ι) : Prop := a.owner = some id ∨ id ∈ a.waiting

def Unheld (a : Guarded ι) : Prop := ∀ id, a.Involved id → a.able id = true

omit [DecidableEq ι] in
theorem Unheld.frame (unheld : a.Unheld) (involved : ∀ id, b.Involved id → a.Involved id)
    (able : ∀ id, a.Involved id → a.able id = true → b.able id = true) : b.Unheld :=
  fun id concerned => able id (involved id concerned) (unheld id (involved id concerned))

omit [DecidableEq ι] in
theorem Placed.involved_live (placed : Placed turn a) (involved : a.Involved id) : (a.tasks id).isSome :=
  involved.elim (fun owns => (placed.owner id owns).1) (placed.waiting id)

theorem Unheld.accept (unheld : a.Unheld) (placed : Placed turn a) (new : a.tasks id = none) : (a.accept id).Unheld := by
  refine unheld.frame (fun _ involved => involved) fun other involved able => ?_
  have different : other ≠ id := by
    rintro rfl
    simpa [new] using placed.involved_live involved
  have kept : (a.accept id).tasks other = a.tasks other := (a.toScheduler.tasks_accept id other).trans (if_neg different)
  rwa [Guarded.able, kept]

theorem Unheld.hold (unheld : a.Unheld) (apart : ¬ a.Involved id) : (a.hold id).Unheld := by
  refine unheld.frame (fun _ involved => involved) fun other involved able => ?_
  have different : other ≠ id := fun same => apart (same ▸ involved)
  rwa [Guarded.able, tasks_hold, if_neg different]

theorem Unheld.drop (unheld : a.Unheld) (unowned : a.owner ≠ some id) : (a.drop id).Unheld := by
  intro other involved
  have kept : other ≠ id ∧ a.Involved other := by
    rcases involved with owns | waits
    · exact ⟨fun same => unowned (same ▸ owns), .inl owns⟩
    · exact (Finset.mem_erase.mp waits).imp_right .inr
  have tasks : (a.drop id).tasks other = a.tasks other := (a.toScheduler.tasks_drop id other).trans (if_neg kept.1)
  rw [Guarded.able, tasks]
  exact unheld other kept.2

theorem Unheld.release (unheld : a.Unheld) : (a.release id).Unheld := by
  have owner : (a.release id).owner = a.owner := by unfold Guarded.release; split <;> rfl
  have waiting : (a.release id).waiting = a.waiting := by unfold Guarded.release; split <;> rfl
  refine unheld.frame (fun other involved => ?_) fun other _ able => ?_
  · rwa [Involved, owner, waiting] at involved
  · rw [Guarded.able, tasks_release]
    split
    next same =>
      subst same
      rw [Guarded.able] at able
      cases found : a.tasks other with
      | none => simp [found] at able
      | some task =>
        rw [found] at able
        simpa [Task.runnable] using ((Bool.and_eq_true ..).mp able).2
    next => exact able

omit [DecidableEq ι] in
theorem Unheld.take (unheld : a.Unheld) (able : a.able id = true) : Unheld { a with owner := some id } := by
  rintro other (owns | waits)
  · exact Option.some.inj owns ▸ able
  · exact unheld other (.inr waits)

theorem Unheld.wait (unheld : a.Unheld) (able : a.able a.current = true) : a.wait.Unheld := by
  rintro other (owns | waits)
  · exact unheld other (.inl owns)
  · rcases Finset.mem_insert.mp waits with rfl | waits
    · exact able
    · exact unheld other (.inr waits)

theorem Unheld.grant (unheld : a.Unheld) (eligible : a.Eligible next) : (a.grant next).Unheld := by
  cases next with
  | none => exact unheld.frame (fun _ involved => .inr (involved.resolve_left nofun)) fun _ _ able => able
  | some heir =>
    refine unheld.frame (fun other involved => ?_) fun _ _ able => able
    rcases involved with owns | waits
    · exact .inr (Option.some.inj owns ▸ eligible.1)
    · exact .inr (Finset.mem_of_mem_erase waits)

theorem Unheld.surrender (unheld : a.Unheld) (eligible : a.Eligible next) : (a.surrender id next).Unheld := by
  unfold Guarded.surrender
  split
  · exact unheld.grant eligible
  · exact unheld

theorem Unheld.dispatch (unheld : a.Unheld) {front : ι} {rest : List ι} (dispatched : Dispatched a b front rest) :
    b.Unheld := by
  refine unheld.frame (fun other involved => ?_) fun other _ able => ?_
  · rwa [Involved, dispatched.owner, dispatched.waiting] at involved
  · rw [Guarded.able, dispatched.tasks]
    split
    next same =>
      subst same
      rw [Guarded.able] at able
      cases found : a.tasks other with
      | none => simp [found] at able
      | some task => rwa [found] at able
    next => exact able

/-- With nobody in the queue, the lock can only be with the task that runs. -/
theorem Unheld.owner_current (unheld : a.Unheld) (placed : Placed (some a.current) a) (queue : a.queue = [])
    (owns : a.owner = some id) : id = a.current := by
  by_contra other
  have queued := placed.queued id
  rw [queue] at queued
  refine List.not_mem_nil (queued.mpr ⟨fun same => other (Option.some.inj same).symm, ?_⟩)
  exact ⟨unheld id (.inl owns), (placed.owner id owns).2⟩

end unheld
end Guarded
end RoundRobin
