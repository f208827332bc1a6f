import Uthreads.Nim.Proofs.Records

/-! The effects that the calls of nim/uthreads.cpp are made of. Each keeps every
pointer filed and is an operation of the abstract scheduler. -/

namespace Uthreads.Nim
open Fallible OrderedMap RoundRobin

variable {ε : Type}

namespace State

/-- What `findIdeque` and `ready.erase` leave of the queue. -/
def readyWithout (s : State ε) (tid : Int) : List Pointer :=
  (((s.ready.map s.idOf).idxOf? tid).map s.ready.eraseIdx).getD s.ready

def enlist (s : State ε) (id : Int) (address : Pointer) (f : ε) : State ε :=
  { s.store address (some (.spawned id f)) with
    allThreads := s.allThreads.insert id address
    ready := s.ready ++ [address] }

def withdraw (s : State ε) (tid : Int) : State ε :=
  { s with
    ready := s.readyWithout tid
    allThreads := s.allThreads.erase tid
    blocked := s.blocked.erase tid
    mutexBlocked := s.mutexBlocked.erase tid }

def park (s : State ε) (tid : Int) (pointer : Pointer) : State ε :=
  { s with ready := s.readyWithout tid, blocked := s.blocked.insert tid pointer }

def wake (s : State ε) (tid : Int) (pointer : Pointer) : State ε :=
  { s with
    ready := if tid ∈ s.mutexBlocked then s.ready else s.ready ++ [pointer]
    blocked := s.blocked.erase tid }

def handTo (s : State ε) (tid : Int) (pointer : Pointer) : State ε :=
  { s with
    mutex := ⟨true, pointer⟩
    mutexBlocked := s.mutexBlocked.erase tid
    ready := if tid ∈ s.blocked then s.ready else s.ready ++ [pointer] }

def advance (s : State ε) (initAlarm : Bool) (front : Pointer) (rest : List Pointer) : State ε :=
  let s := { s with running := front, ready := rest }
  let s := if initAlarm then runTimer s else s
  { s with totalQuantum := s.totalQuantum + 1 }

section queue
variable {s : State ε} {tid : Int}

theorem mem_readyWithout {pointer : Pointer} (member : pointer ∈ s.readyWithout tid) : pointer ∈ s.ready := by
  unfold readyWithout at member
  cases found : (s.ready.map s.idOf).idxOf? tid with
  | none => simpa [found] using member
  | some it =>
    simp only [found, Option.map_some, Option.getD_some] at member
    exact List.mem_of_mem_eraseIdx member

theorem map_readyWithout (s : State ε) (tid : Int) : (s.readyWithout tid).map s.idOf = (s.ready.map s.idOf).erase tid := by
  rw [List.erase_eq_eraseIdx, readyWithout]
  cases (s.ready.map s.idOf).idxOf? tid with
  | none => rfl
  | some it => exact (List.eraseIdx_map ..).symm

theorem readyWithout_of_none (absent : (s.ready.map s.idOf).idxOf? tid = none) : s.readyWithout tid = s.ready := by
  rw [readyWithout, absent]
  rfl

theorem readyWithout_of_some {it : Nat} (found : (s.ready.map s.idOf).idxOf? tid = some it) :
    s.readyWithout tid = s.ready.eraseIdx it := by
  rw [readyWithout, found]
  rfl

end queue
end State

theorem State.getId_eq {s : State ε} {pointer : Pointer} (allocated : (s.heap pointer).isSome) :
    s.getId pointer = .ok (s.idOf pointer) := by
  obtain ⟨thread, found⟩ := Option.isSome_iff_exists.mp allocated
  simp [State.getId, State.deref, State.idOf, found]

private theorem findIdequeFrom_eq {s : State ε} {id : Int} {pointers : List Pointer}
    (allocated : ∀ pointer ∈ pointers, (s.heap pointer).isSome) (start : Nat) :
    findIdequeFrom s id pointers start = .ok (((pointers.map s.idOf).idxOf? id).map (· + start)) := by
  induction pointers generalizing start with
  | nil => rfl
  | cons pointer next ih =>
    rw [findIdequeFrom, State.getId_eq (allocated pointer List.mem_cons_self), bind_ok_left, List.map_cons,
      List.idxOf?_cons, ih fun other member => allocated other (List.mem_cons_of_mem _ member)]
    by_cases same : s.idOf pointer = id
    · simp [same]
    · simp [same, Option.map_map, Function.comp_def, Nat.add_assoc, Nat.add_comm 1]

theorem findIdeque_eq {s : State ε} {id : Int} (allocated : ∀ pointer ∈ s.ready, (s.heap pointer).isSome) :
    findIdeque id s = .ok ((s.ready.map s.idOf).idxOf? id) := by
  rw [findIdeque, findIdequeFrom_eq allocated]
  simp

/-- All pointers are filed, and the containers are those of the scheduler. -/
structure Implements (s : State ε) (a : Guarded Int) : Prop where
  filed : Filed s
  same : abstraction s = a

section views
variable {s : State ε} {tid : Int}

theorem mem_waiting : tid ∈ (abstraction s).waiting ↔ tid ∈ s.mutexBlocked := by
  simp [abstraction]

theorem Filed.enqueued (filed : Filed s) {pointer : Pointer} (files : s.Files tid pointer) :
    ∀ other ∈ s.ready ++ [pointer], ∃ tid, s.Files tid other := by
  intro other member
  rcases List.mem_append.mp member with member | member
  · exact filed.ready other member
  · exact List.mem_singleton.mp member ▸ ⟨tid, files⟩

theorem abstraction_modify {pointer : Pointer} {update : Thread ε → Thread ε} {tasks : Int → Option Task}
    (kept : ∀ thread, (update thread).id = thread.id) (same : (abstraction (s.modify pointer update)).tasks = tasks) :
    abstraction (s.modify pointer update) = { abstraction s with tasks } := by
  have ids : ∀ other, (s.modify pointer update).idOf other = s.idOf other := fun other => State.idOf_modify kept
  ext1
  · exact same
  · exact ids _
  · exact List.map_congr_left fun other _ => ids other
  · rfl
  · change (if s.mutex.blocked then some (State.idOf _ s.mutex.threadBlock) else none) = _
    rw [ids]
    rfl
  · rfl

end views

namespace Implements
variable {s : State ε} {a : Guarded Int} {tid : Int} {pointer : Pointer}

theorem hold (implements : Implements s a) (files : s.Files tid pointer) :
    Implements (s.park tid pointer) (a.hold tid) := by
  obtain ⟨filed, rfl⟩ := implements
  refine ⟨{ filed with ready := ?_, blocked := ?_ }, ?_⟩
  · exact fun other member => filed.ready other (State.mem_readyWithout member)
  · intro other pointer' found
    rcases of_getElem?_insert found with ⟨rfl, rfl⟩ | found
    · exact files.1
    · exact filed.blocked other pointer' found
  · ext1
    · funext other
      rw [Guarded.tasks_hold]
      by_cases same : other = tid
      · subst same
        simp [abstraction, State.park, State.thread, Function.comp_def]
      · simp [abstraction, State.park, State.thread, same, Ne.symm same]
    · rfl
    · exact s.map_readyWithout tid
    · rfl
    · rfl
    · rfl

theorem drop (implements : Implements s a) (nodup : a.queue.Nodup) (unowned : a.owner ≠ some tid) :
    Implements (s.withdraw tid) (a.drop tid) := by
  obtain ⟨filed, rfl⟩ := implements
  have away : ∀ {other pointer'}, s.Files other pointer' → other ≠ tid → (s.withdraw tid).Files other pointer' :=
    fun files different => ⟨by rw [State.withdraw, getElem?_erase, if_neg different]; exact files.1, files.2⟩
  refine ⟨⟨filed.null, fun other pointer' found => ?_, fun pointer' member => ?_, fun other pointer' found => ?_,
    fun other pointer' found => ?_, fun held => ?_, filed.unheld⟩, ?_⟩
  · exact filed.record other pointer' (of_getElem?_erase found).2
  · obtain ⟨other, files⟩ := filed.ready pointer' (State.mem_readyWithout member)
    refine ⟨other, away files ?_⟩
    rintro rfl
    have queued := List.mem_map_of_mem (f := s.idOf) member
    rw [files.idOf] at queued
    have gone := s.map_readyWithout other ▸ queued
    exact nodup.not_mem_erase gone
  · obtain ⟨different, found⟩ := of_getElem?_erase found
    exact (away (filed.files (filed.blocked other pointer' found)) different).1
  · obtain ⟨different, found⟩ := of_getElem?_erase found
    exact (away (filed.files (filed.mutexBlocked other pointer' found)) different).1
  · obtain ⟨other, files, owns⟩ := filed.owner held
    exact ⟨other, away files fun same => unowned (same ▸ owns)⟩
  · ext1
    · funext other
      refine Eq.trans ?_ ((abstraction s).toScheduler.tasks_drop tid other).symm
      by_cases same : other = tid
      · simp [abstraction, State.withdraw, State.thread, same]
      · simp [abstraction, State.withdraw, State.thread, getElem?_erase, same, Ne.symm same]
    · rfl
    · exact s.map_readyWithout tid
    · rfl
    · rfl
    · ext other
      simp only [mem_waiting, Guarded.drop, Finset.mem_erase, State.withdraw, Std.ExtTreeMap.mem_erase, ne_eq,
        Std.compare_eq_iff_eq]
      exact and_congr_left fun _ => not_congr eq_comm

theorem release (implements : Implements s a) (found : s.blocked[tid]? = some pointer) :
    Implements (s.wake tid pointer) (a.release tid) := by
  obtain ⟨filed, rfl⟩ := implements
  have files := filed.files (filed.blocked tid pointer found)
  have blocked : tid ∈ s.blocked := Std.ExtTreeMap.mem_iff_isSome_getElem?.mpr (by simp [found])
  obtain ⟨thread, record, -⟩ := files.found
  have task : (abstraction s).tasks tid = some ⟨true, none, thread.quantums⟩ := by
    simp [abstraction, State.thread, files.1, record, blocked]
  refine ⟨{ filed with ready := ?_, blocked := ?_ }, ?_⟩
  · intro other member
    change ∃ tid, s.Files tid other
    rw [State.wake] at member
    split at member
    · exact filed.ready other member
    · exact filed.enqueued files other member
  · intro other pointer' found
    exact filed.blocked other pointer' (of_getElem?_erase found).2
  · ext1
    case tasks =>
      funext other
      rw [Guarded.tasks_release]
      by_cases same : other = tid
      · subst same
        simp [abstraction, State.wake, State.thread, Function.comp_def]
      · simp [abstraction, State.wake, State.thread, same, Ne.symm same]
    case queue =>
      change (if tid ∈ s.mutexBlocked then s.ready else s.ready ++ [pointer]).map s.idOf = _
      unfold Guarded.release
      simp only [mem_waiting]
      split
      · rfl
      · simp only [Scheduler.release, task, Option.any_some, List.map_append, List.map_singleton, files.idOf]
        rfl
    all_goals
      unfold Guarded.release
      split <;> rfl

theorem current (implements : Implements s a) (files : s.Files tid s.running) : a.current = tid := by
  rw [← implements.same]
  exact files.idOf

theorem requeue (implements : Implements s a) (files : s.Files tid s.running) :
    Implements { s with ready := s.ready ++ [s.running] } a.requeue := by
  obtain ⟨filed, rfl⟩ := implements
  refine ⟨{ filed with ready := filed.enqueued files }, ?_⟩
  ext1
  case queue =>
    change (s.ready ++ [s.running]).map s.idOf = _
    rw [List.map_append]
    rfl
  all_goals rfl

theorem wait (implements : Implements s a) (files : s.Files tid s.running) :
    Implements { s with mutexBlocked := s.mutexBlocked.insert tid s.running } a.wait := by
  obtain ⟨filed, rfl⟩ := implements
  refine ⟨{ filed with mutexBlocked := fun other pointer' found => ?_ }, ?_⟩
  · change s.allThreads[other]? = some pointer'
    rcases of_getElem?_insert found with ⟨rfl, rfl⟩ | found
    · exact files.1
    · exact filed.mutexBlocked other pointer' found
  · ext1
    case waiting =>
      ext other
      have current : (abstraction s).current = tid := files.idOf
      simp only [Guarded.wait, Finset.mem_insert, current]
      rw [mem_waiting, mem_waiting, mem_insert]
    all_goals rfl

theorem take (implements : Implements s a) (files : s.Files tid s.running) :
    Implements { s with mutex := ⟨true, s.running⟩ } { a with owner := some a.current } := by
  obtain ⟨filed, rfl⟩ := implements
  exact ⟨{ filed with holder := fun _ => ⟨tid, files⟩, unheld := nofun }, rfl⟩

theorem giveUp (implements : Implements s a) : Implements { s with mutex := ⟨false, nullptr⟩ } (a.grant none) := by
  obtain ⟨filed, rfl⟩ := implements
  exact ⟨{ filed with holder := nofun, unheld := fun _ => rfl }, rfl⟩

theorem grant (implements : Implements s a) (found : s.mutexBlocked[tid]? = some pointer) :
    Implements (s.handTo tid pointer) (a.grant (some tid)) := by
  obtain ⟨filed, rfl⟩ := implements
  have files := filed.files (filed.mutexBlocked tid pointer found)
  obtain ⟨thread, record, -⟩ := files.found
  have able : (abstraction s).able tid = !decide (tid ∈ s.blocked) := by
    simp [Guarded.able, abstraction, State.thread, files.1, record, Task.runnable]
  refine ⟨{ filed with ready := ?_, mutexBlocked := ?_, holder := fun _ => ⟨tid, files⟩, unheld := ?_ }, ?_⟩
  · intro other member
    change ∃ tid, s.Files tid other
    rw [State.handTo] at member
    split at member
    · exact filed.ready other member
    · exact filed.enqueued files other member
  · intro other pointer' found
    exact filed.mutexBlocked other pointer' (of_getElem?_erase found).2
  · intro free
    cases free
  · ext1
    case queue =>
      change (if tid ∈ s.blocked then s.ready else s.ready ++ [pointer]).map s.idOf = _
      rw [Guarded.grant, able]
      split
      next blocked => simp [blocked, abstraction]
      next free => simp [free, abstraction, files.idOf]
    case owner =>
      change some (s.idOf pointer) = _
      rw [files.idOf]
      rfl
    case waiting =>
      ext other
      rw [mem_waiting, State.handTo, mem_erase, Guarded.grant, Finset.mem_erase, mem_waiting]
    all_goals rfl

theorem masked (implements : Implements s a) {mask : Finset Signal} : Implements { s with mask } a := by
  obtain ⟨filed, rfl⟩ := implements
  exact ⟨{ filed with }, rfl⟩

theorem save (implements : Implements s a) (pointer : Pointer) (env : SigjmpBuf ε) :
    Implements (s.modify pointer fun thread => { thread with env }) a := by
  obtain ⟨filed, rfl⟩ := implements
  refine ⟨filed.modify fun _ => rfl, abstraction_modify (fun _ => rfl) ?_⟩
  funext tid
  exact State.map_thread_modify _ fun _ => rfl

theorem store (implements : Implements s a) (record : Option (Thread ε)) (notNull : pointer ≠ nullptr)
    (apart : ∀ tid, ¬ s.Files tid pointer) (current : s.Files tid s.running) :
    Implements (s.store pointer record) a := by
  obtain ⟨filed, rfl⟩ := implements
  have heap : ∀ {tid other}, s.Files tid other → (s.store pointer record).heap other = s.heap other := by
    intro tid other files
    have different : other ≠ pointer := fun same => apart tid (same ▸ files)
    exact Function.update_of_ne different ..
  have files : ∀ {tid other}, s.Files tid other → (s.store pointer record).Files tid other :=
    fun files => ⟨files.1, heap files ▸ files.2⟩
  have ids : ∀ {tid other}, s.Files tid other → (s.store pointer record).idOf other = s.idOf other :=
    fun files => by simp only [State.idOf, heap files]
  refine ⟨⟨?_, fun tid other found => (files (filed.files found)).2,
    fun other member => (filed.ready other member).imp fun _ => files, filed.blocked, filed.mutexBlocked,
    fun held => (filed.holder held).imp fun _ => files, filed.unheld⟩, ?_⟩
  · exact (Function.update_of_ne (Ne.symm notNull) ..).trans filed.null
  · ext1
    · funext tid
      change ((s.allThreads[tid]?).bind (s.store pointer record).heap).map _ = (s.allThreads[tid]?.bind s.heap).map _
      cases found : s.allThreads[tid]? with
      | none => rfl
      | some other => rw [Option.bind_some, Option.bind_some, heap (filed.files found)]; rfl
    · exact ids current
    · exact List.map_congr_left fun other member => ids (filed.ready other member).choose_spec
    · rfl
    · change (if s.mutex.blocked then some (State.idOf _ s.mutex.threadBlock) else none) = _
      cases held : s.mutex.blocked with
      | false => simp [abstraction, held]
      | true => simp [abstraction, held, ids (filed.holder held).choose_spec]
    · rfl

private theorem file (implements : Implements s a) {f : ε} (record : s.heap pointer = some (.spawned tid f))
    (new : ¬ s.live tid) :
    Implements { s with allThreads := s.allThreads.insert tid pointer, ready := s.ready ++ [pointer] } (a.accept tid) := by
  obtain ⟨filed, rfl⟩ := implements
  have absent : s.allThreads[tid]? = none := Std.ExtTreeMap.getElem?_eq_none new
  have unblocked : tid ∉ s.blocked := fun member => new (filed.live_blocked member)
  have kept : ∀ {other : Int} {pointer' : Pointer}, s.allThreads[other]? = some pointer' →
      (s.allThreads.insert tid pointer)[other]? = some pointer' := by
    intro other pointer' found
    have different : other ≠ tid := by
      rintro rfl
      exact nomatch absent.symm.trans found
    rw [getElem?_insert, if_neg different, found]
  refine ⟨⟨filed.null, fun other pointer' found => ?_, fun pointer' member => ?_,
    fun other pointer' found => kept (filed.blocked other pointer' found),
    fun other pointer' found => kept (filed.mutexBlocked other pointer' found),
    fun held => (filed.holder held).imp fun _ files => ⟨kept files.1, files.2⟩, filed.unheld⟩, ?_⟩
  · rcases of_getElem?_insert found with ⟨rfl, rfl⟩ | found
    · exact congrArg (Option.map Thread.id) record
    · exact filed.record other pointer' found
  · rcases List.mem_append.mp member with member | member
    · exact (filed.ready pointer' member).imp fun _ files => ⟨kept files.1, files.2⟩
    · obtain rfl := List.mem_singleton.mp member
      exact ⟨tid, by simp, congrArg (Option.map Thread.id) record⟩
  · ext1
    · funext other
      refine Eq.trans ?_ ((abstraction s).toScheduler.tasks_accept tid other).symm
      by_cases same : other = tid
      · subst same
        simp [abstraction, State.thread, record, Thread.spawned, unblocked]
      · simp [abstraction, State.thread, getElem?_insert, same]
    · rfl
    · change (s.ready ++ [pointer]).map s.idOf = _
      rw [List.map_append, List.map_singleton, State.idOf, record]
      rfl
    · rfl
    · rfl
    · rfl

theorem accept (implements : Implements s a) {f : ε} (notNull : pointer ≠ nullptr) (fresh : s.heap pointer = none)
    {running : Int} (current : s.Files running s.running) (new : ¬ s.live tid) :
    Implements (s.enlist tid pointer f) (a.accept tid) := by
  have apart : ∀ tid, ¬ s.Files tid pointer := by
    intro tid files
    obtain ⟨thread, found, -⟩ := files.found
    exact nomatch fresh.symm.trans found
  have stored := implements.store (some (.spawned tid f)) notNull apart current
  exact stored.file (Function.update_self ..) new

theorem current_enlist {running : Int} {f : ε} (fresh : s.heap pointer = none) (current : s.Files running s.running)
    (new : ¬ s.live tid) : (s.enlist tid pointer f).Files running s.running := by
  have different : running ≠ tid := fun same => new (same ▸ current.live)
  have apart : s.running ≠ pointer := by
    intro same
    obtain ⟨thread, found, -⟩ := current.found
    exact nomatch (same ▸ fresh).symm.trans found
  refine ⟨?_, ?_⟩
  · rw [State.enlist, getElem?_insert, if_neg different]
    exact current.1
  · exact (congrArg (Option.map Thread.id) (Function.update_of_ne apart ..)).trans current.2

theorem advance (implements : Implements s a) (initAlarm : Bool) {front : Pointer} {rest : List Pointer}
    (queue : s.ready = front :: rest) (files : s.Files tid front) :
    Implements (s.advance initAlarm front rest)
      { a with current := tid, queue := rest.map s.idOf, total := a.total + 1 } := by
  obtain ⟨filed, rfl⟩ := implements
  have ready : ∀ pointer ∈ rest, ∃ tid, s.Files tid pointer := fun other member =>
    filed.ready other (queue ▸ List.mem_cons_of_mem _ member)
  cases initAlarm
  all_goals
    refine ⟨{ filed with ready }, ?_⟩
    ext1
    case current => exact files.idOf
    all_goals rfl

theorem start (implements : Implements s a) (files : s.Files tid s.running) {mask : Finset Signal} :
    Implements { s.modify s.running fun thread => { thread with quantums := thread.quantums + 1 } with mask }
      { a with toScheduler := a.modify tid fun task => { task with quantums := task.quantums + 1 } } := by
  obtain ⟨filed, rfl⟩ := implements
  apply Implements.masked
  refine ⟨filed.modify fun _ => rfl, abstraction_modify (fun _ => rfl) ?_⟩
  funext other
  refine Eq.trans ?_ ((abstraction s).toScheduler.tasks_modify tid other _).symm
  by_cases same : other = tid
  · subst same
    obtain ⟨thread, found, -⟩ := files.found
    simp [abstraction, State.thread, State.modify, State.store, files.1, found]
  · have apart : ∀ pointer', s.allThreads[other]? = some pointer' → pointer' ≠ s.running := by
      intro pointer' found running
      exact same ((filed.files (running ▸ found)).id_inj files)
    rw [if_neg same]
    change ((s.allThreads[other]?).bind (State.modify s _ _).heap).map _ = (s.allThreads[other]?.bind s.heap).map _
    cases found : s.allThreads[other]? with
    | none => rfl
    | some pointer' =>
      rw [Option.bind_some, Option.bind_some]
      exact congrArg _ (Function.update_of_ne (apart pointer' found) ..)

end Implements
end Uthreads.Nim
