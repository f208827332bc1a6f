import Mathlib.Data.Finset.Card
import Uthreads.Library.Fallible
import Uthreads.Library.OrderedMap
import Uthreads.Nim.Model.Specification

/-! Which pointers the containers of nim/uthreads.cpp hold, and what becomes of
a pointer when the heap or a container is updated. -/

namespace Uthreads.Nim
open OrderedMap

variable {ε : Type}

theorem of_update {heap : Pointer → Option (Thread ε)} {pointer other : Pointer} {value : Option (Thread ε)}
    {thread : Thread ε} (found : Function.update heap other value pointer = some thread) :
    pointer = other ∧ value = some thread ∨ pointer ≠ other ∧ heap pointer = some thread := by
  by_cases same : pointer = other
  · subst same
    rw [Function.update_self] at found
    exact .inl ⟨rfl, found⟩
  · rw [Function.update_of_ne same] at found
    exact .inr ⟨same, found⟩

namespace State

def Files (s : State ε) (tid : Int) (pointer : Pointer) : Prop :=
  s.allThreads[tid]? = some pointer ∧ (s.heap pointer).map Thread.id = some tid

def live (s : State ε) (tid : Int) : Prop := tid ∈ s.allThreads

instance (s : State ε) (tid : Int) : Decidable (s.live tid) := inferInstanceAs (Decidable (tid ∈ s.allThreads))

variable {s : State ε} {tid other : Int} {pointer pointer' : Pointer}

theorem Files.found (files : s.Files tid pointer) : ∃ thread, s.heap pointer = some thread ∧ thread.id = tid :=
  Option.map_eq_some_iff.mp files.2

theorem Files.allocated (files : s.Files tid pointer) : (s.heap pointer).isSome := by
  obtain ⟨thread, found, -⟩ := files.found
  simp [found]

theorem Files.idOf (files : s.Files tid pointer) : s.idOf pointer = tid := by
  simp [State.idOf, files.2]

theorem Files.getId (files : s.Files tid pointer) : s.getId pointer = .ok tid := by
  obtain ⟨thread, found, rfl⟩ := files.found
  simp [State.getId, deref, found]

theorem Files.deref (files : s.Files tid pointer) : ∃ thread, s.deref pointer = .ok thread ∧ thread.id = tid := by
  obtain ⟨thread, found, same⟩ := files.found
  exact ⟨thread, by simp [State.deref, found], same⟩

theorem Files.inj (files : s.Files tid pointer) (files' : s.Files tid pointer') : pointer = pointer' :=
  Option.some.inj (files.1.symm.trans files'.1)

theorem Files.id_inj (files : s.Files tid pointer) (files' : s.Files other pointer) : tid = other :=
  files.idOf.symm.trans files'.idOf

theorem Files.store (files : s.Files tid pointer) (different : pointer ≠ pointer') {record : Option (Thread ε)} :
    (s.store pointer' record).Files tid pointer :=
  ⟨files.1, (congrArg (Option.map Thread.id) (Function.update_of_ne different ..)).trans files.2⟩

theorem Files.live (files : s.Files tid pointer) : s.live tid :=
  mem_iff_exists.mpr ⟨pointer, files.1⟩

end State

/-- Every pointer that is stored is to a thread that is alive, and stands under
its id. -/
structure Filed (s : State ε) : Prop where
  null : s.heap nullptr = none
  record : ∀ (tid : Int) (pointer : Pointer), s.allThreads[tid]? = some pointer →
    (s.heap pointer).map Thread.id = some tid
  ready : ∀ pointer ∈ s.ready, ∃ tid, s.Files tid pointer
  blocked : ∀ (tid : Int) (pointer : Pointer), s.blocked[tid]? = some pointer → s.allThreads[tid]? = some pointer
  mutexBlocked : ∀ (tid : Int) (pointer : Pointer), s.mutexBlocked[tid]? = some pointer →
    s.allThreads[tid]? = some pointer
  holder : s.mutex.blocked = true → ∃ tid, s.Files tid s.mutex.threadBlock
  unheld : s.mutex.blocked = false → s.mutex.threadBlock = nullptr

namespace Filed
variable {s s' : State ε} {tid : Int} {pointer : Pointer}

theorem files (filed : Filed s) (found : s.allThreads[tid]? = some pointer) : s.Files tid pointer :=
  ⟨found, filed.record tid pointer found⟩

theorem exists_files (filed : Filed s) (live : s.live tid) : ∃ pointer, s.Files tid pointer := by
  obtain ⟨pointer, found⟩ := mem_iff_exists.mp live
  exact ⟨pointer, filed.files found⟩

theorem thread_isSome (filed : Filed s) : (s.thread tid).isSome ↔ s.live tid := by
  constructor
  · intro found
    obtain ⟨thread, found⟩ := Option.isSome_iff_exists.mp found
    obtain ⟨pointer, found, -⟩ := Option.bind_eq_some_iff.mp found
    exact mem_iff_exists.mpr ⟨pointer, found⟩
  · intro live
    obtain ⟨pointer, files⟩ := filed.exists_files live
    obtain ⟨thread, found, -⟩ := files.found
    simp [State.thread, files.1, found]

theorem notNull (filed : Filed s) (files : s.Files tid pointer) : pointer ≠ nullptr := by
  rintro rfl
  obtain ⟨thread, found, -⟩ := files.found
  exact nomatch filed.null.symm.trans found

theorem live_blocked (filed : Filed s) (member : tid ∈ s.blocked) : s.live tid := by
  obtain ⟨pointer, found⟩ := mem_iff_exists.mp member
  exact (filed.files (filed.blocked tid pointer found)).live

theorem live_mutexBlocked (filed : Filed s) (member : tid ∈ s.mutexBlocked) : s.live tid := by
  obtain ⟨pointer, found⟩ := mem_iff_exists.mp member
  exact (filed.files (filed.mutexBlocked tid pointer found)).live

theorem owner (filed : Filed s) (taken : s.mutex.blocked = true) :
    ∃ holder, s.Files holder s.mutex.threadBlock ∧ (abstraction s).owner = some holder := by
  obtain ⟨holder, files⟩ := filed.holder taken
  exact ⟨holder, files, by simp [abstraction, taken, files.idOf]⟩

end Filed

theorem owner_none {s : State ε} (free : s.mutex.blocked = false) : (abstraction s).owner = none := by
  simp [abstraction, free]

structure Numbered (s : State ε) : Prop where
  main : s.live 0
  ids : ∀ tid, s.live tid → 0 ≤ tid ∧ tid < maxThreadNum

namespace Numbered
variable {s : State ε}

private theorem allIds_eq : allIds = 0 :: spawnIds := by decide +kernel

theorem full_iff (numbered : Numbered s) :
    (s.allThreads.size : Int) + 1 > maxThreadNum ↔ ∀ id ∈ allIds, s.live id := by
  have keys : s.allThreads.keys.toFinset ⊆ allIds.toFinset := by
    intro id member
    rw [List.mem_toFinset, Std.ExtTreeMap.mem_keys] at member
    exact List.mem_toFinset.mpr (mem_allIds.mpr (numbered.ids id member))
  have size : s.allThreads.keys.toFinset.card = s.allThreads.size := by
    rw [List.toFinset_card_of_nodup Std.ExtTreeMap.nodup_keys, Std.ExtTreeMap.length_keys]
  have count : allIds.toFinset.card = 100 := by decide +kernel
  have live : ∀ id, id ∈ s.allThreads.keys.toFinset ↔ s.live id := fun id => by
    rw [List.mem_toFinset, Std.ExtTreeMap.mem_keys]
    rfl
  constructor
  · intro full id member
    have enough : allIds.toFinset.card ≤ s.allThreads.keys.toFinset.card := by
      rw [size, count]
      simp only [maxThreadNum] at full
      omega
    have same := Finset.eq_of_subset_of_card_le keys enough
    rw [← live, same]
    exact List.mem_toFinset.mpr member
  · intro taken
    have covered : allIds.toFinset ⊆ s.allThreads.keys.toFinset := fun id member =>
      (live id).mpr (taken id (List.mem_toFinset.mp member))
    have enough := Finset.card_le_card covered
    rw [size, count] at enough
    simp only [maxThreadNum]
    omega

/-- `getId` finds the least id that is free, if the table is not full. -/
theorem find_free (numbered : Numbered s) : (allIds.find? fun id => decide (id ∉ s.allThreads)) =
    if (s.allThreads.size : Int) + 1 > maxThreadNum then none else some (getId s) := by
  have main : (0 : Int) ∈ s.allThreads := numbered.main
  have scan : allIds.find? (fun id => decide (id ∉ s.allThreads)) = spawnIds.find? fun id => decide (id ∉ s.allThreads) := by
    rw [allIds_eq, List.find?_cons_of_neg (by simpa using main)]
  split
  next full =>
    apply List.find?_eq_none.mpr
    intro id member
    have live : id ∈ s.allThreads := numbered.full_iff.mp full id member
    simpa using live
  next room =>
    rw [scan, getId]
    cases found : spawnIds.find? fun id => decide (id ∉ s.allThreads) with
    | some id => rfl
    | none =>
      refine absurd (numbered.full_iff.mpr fun id member => ?_) room
      have kept := List.find?_eq_none.mp (scan.trans found) id member
      change id ∈ s.allThreads
      simpa using kept

theorem getId_new (numbered : Numbered s) (room : ¬ (s.allThreads.size : Int) + 1 > maxThreadNum) :
    ¬ s.live (getId s) ∧ getId s ∈ allIds := by
  have found := numbered.find_free
  rw [if_neg room] at found
  refine ⟨fun taken => ?_, List.mem_of_find?_eq_some found⟩
  have free : getId s ∉ s.allThreads := by simpa using List.find?_some found
  exact free taken

end Numbered

section heap
variable {s : State ε} {pointer other : Pointer} {f : Thread ε → Thread ε}

def State.modify (s : State ε) (pointer : Pointer) (f : Thread ε → Thread ε) : State ε :=
  s.store pointer ((s.heap pointer).map f)

theorem State.map_modify {β : Type} (field : Thread ε → β) (kept : ∀ thread, field (f thread) = field thread) :
    ((s.modify pointer f).heap other).map field = (s.heap other).map field := by
  simp only [State.modify, State.store, Function.update_apply]
  split
  · rename_i same; subst same; simp [Function.comp_def, kept]
  · rfl

theorem State.map_thread_modify {β : Type} {tid : Int} (field : Thread ε → β)
    (kept : ∀ thread, field (f thread) = field thread) :
    ((s.modify pointer f).thread tid).map field = (s.thread tid).map field := by
  change ((s.allThreads[tid]?).bind (s.modify pointer f).heap).map field = (s.allThreads[tid]?.bind s.heap).map field
  cases s.allThreads[tid]? with
  | none => rfl
  | some other => exact State.map_modify field kept

theorem State.idOf_modify (kept : ∀ thread, (f thread).id = thread.id) : (s.modify pointer f).idOf other = s.idOf other := by
  simp only [State.idOf, State.map_modify Thread.id kept]

theorem State.Files.modify {tid : Int} (files : s.Files tid other) (kept : ∀ thread, (f thread).id = thread.id) :
    (s.modify pointer f).Files tid other :=
  ⟨files.1, (State.map_modify Thread.id kept).trans files.2⟩

theorem Filed.modify (filed : Filed s) (kept : ∀ thread, (f thread).id = thread.id) : Filed (s.modify pointer f) := by
  have ids : ∀ other, ((s.modify pointer f).heap other).map Thread.id = (s.heap other).map Thread.id :=
    fun other => State.map_modify Thread.id kept
  refine ⟨?_, fun tid other found => ?_, fun other member => ?_, filed.blocked, filed.mutexBlocked, fun held => ?_, filed.unheld⟩
  · have null := ids nullptr
    simpa [filed.null] using null
  · exact (ids other).trans (filed.record tid other found)
  · exact (filed.ready other member).imp fun _ files => files.modify kept
  · exact (filed.holder held).imp fun _ files => files.modify kept

theorem saveEnv_eq {here : Context ε} {thread : Thread ε} (found : s.heap pointer = some thread) :
    saveEnv pointer here s = .ok (s.modify pointer fun thread => { thread with env := { here with savedMask := s.mask } }) := by
  simp [saveEnv, State.deref, State.modify, found]

theorem startThread_eq {thread : Thread ε} (found : s.heap pointer = some thread) :
    startThread pointer s = .ok { s.modify pointer fun thread => { thread with quantums := thread.quantums + 1 } with
      mask := thread.env.savedMask } := by
  simp [startThread, State.deref, State.modify, found]

theorem delete_eq {thread : Thread ε} (found : s.heap pointer = some thread) (null : s.heap nullptr = none) :
    delete pointer s = .ok (s.store pointer none) := by
  have notNull : pointer ≠ nullptr := by
    rintro rfl
    exact nomatch found.symm.trans null
  simp [delete, State.deref, found, notNull]

private theorem free_ids (ids : List Nat) (unique : ids.Nodup) (null : s.heap nullptr = none)
    (filed : ∀ i ∈ ids, ∀ pointer, s.allThreads[(i : Int)]? = some pointer → (s.heap pointer).map Thread.id = some (i : Int)) :
    ∃ last, ids.foldlM freeEntry s = .ok last ∧
      (∀ pointer, s.heap pointer = none → last.heap pointer = none) ∧
      ∀ i ∈ ids, ∀ pointer, s.allThreads[(i : Int)]? = some pointer → last.heap pointer = none := by
  induction ids generalizing s with
  | nil => exact ⟨s, rfl, fun _ gone => gone, by simp⟩
  | cons i ids ih =>
    obtain ⟨new, unique⟩ := List.nodup_cons.mp unique
    obtain ⟨here, filed⟩ := List.forall_mem_cons.mp filed
    simp only [List.foldlM_cons, freeEntry]
    cases entry : s.allThreads[(i : Int)]? with
    | none =>
      obtain ⟨last, freed, kept, gone⟩ := ih unique null filed
      refine ⟨last, freed, kept, List.forall_mem_cons.mpr ⟨fun pointer found => ?_, gone⟩⟩
      cases entry.symm.trans found
    | some pointer =>
      have id := here pointer entry
      obtain ⟨thread, found, -⟩ := Option.map_eq_some_iff.mp id
      have clear : ∀ other, s.heap other = none → (s.store pointer none).heap other = none := by
        intro other empty
        by_cases same : other = pointer
        · exact same ▸ Function.update_self ..
        · exact (Function.update_of_ne same ..).trans empty
      have others : ∀ j ∈ ids, ∀ other, (s.store pointer none).allThreads[(j : Int)]? = some other →
          ((s.store pointer none).heap other).map Thread.id = some (j : Int) := by
        intro j member other entry'
        have different : other ≠ pointer := by
          rintro rfl
          have same := id.symm.trans (filed j member other entry')
          exact new (Int.ofNat.inj (Option.some.inj same) ▸ member)
        rw [← filed j member other entry']
        exact congrArg (Option.map Thread.id) (Function.update_of_ne different ..)
      obtain ⟨last, freed, kept, gone⟩ := ih unique (clear nullptr null) others
      refine ⟨last, ?_, fun other empty => kept other (clear other empty), List.forall_mem_cons.mpr ⟨?_, gone⟩⟩
      · simp only [delete_eq found null, Fallible.bind_ok_left, freed]
      · rintro other found'
        obtain rfl := Option.some.inj (entry.symm.trans found')
        exact kept _ (Function.update_self ..)

/-- No thread of the table is deleted twice, and none is left. -/
theorem freeAllThread_ok (null : s.heap nullptr = none)
    (filed : ∀ (tid : Int) (pointer : Pointer), s.allThreads[tid]? = some pointer → (s.heap pointer).map Thread.id = some tid) :
    ∃ last, freeAllThread s = .ok last ∧ (∀ pointer, s.heap pointer = none → last.heap pointer = none) ∧
      ∀ (tid : Int) (pointer : Pointer), 0 ≤ tid ∧ tid < maxThreadNum → s.allThreads[tid]? = some pointer →
        last.heap pointer = none := by
  obtain ⟨last, freed, kept, gone⟩ := free_ids (List.range maxThreadNum.toNat) List.nodup_range null
    fun i _ pointer found => filed i pointer found
  refine ⟨last, freed, kept, fun tid pointer ⟨low, high⟩ found => ?_⟩
  have same : ((tid.toNat : Nat) : Int) = tid := Int.toNat_of_nonneg low
  refine gone tid.toNat (List.mem_range.mpr ?_) pointer (by rw [same]; exact found)
  omega

end heap
end Uthreads.Nim
