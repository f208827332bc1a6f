import Uthreads.Library.OrderedMap
import Uthreads.Proofs.Records

/-! What one `update_sleepers` does to the whole state. The loop erases from the
map it walks over; the closed form has no loop. -/

namespace Uthreads
open Fallible

variable {ε : Type}

def countDown (_ : Int) (counter : Int) : Option Int :=
  if counter = 0 then none else some (counter - 1)

namespace State

def wokenStatus (s : State ε) (tid : Int) : Status := if tid ∈ s.blockedTids then .blocked else .ready

def woken (s : State ε) : List Int :=
  (s.sleepers.toList.filter fun it => it.2 = 0 ∧ it.1 ∉ s.blockedTids).map Prod.fst

def tick (s : State ε) : State ε :=
  { s with
    sleepers := s.sleepers.filterMap countDown
    readyTids := s.readyTids ++ s.woken
    allThreads := fun tid =>
      if s.sleepers[tid]? = some 0 then
        (s.allThreads tid).map fun thread => { thread with status := s.wokenStatus tid }
      else s.allThreads tid }

/-- A sleeper whose record is missing faults only when its sleep ends. -/
def SleepersLive (s : State ε) : Prop := ∀ tid, s.sleepers[tid]? = some 0 → s.live tid

def wake (s : State ε) (it : Int × Int) : State ε :=
  { s with
    sleepers := OrderedMap.visit countDown s.sleepers it
    readyTids := s.readyTids ++ if it.2 = 0 ∧ it.1 ∉ s.blockedTids then [it.1] else []
    allThreads :=
      if it.2 = 0 then
        Function.update s.allThreads it.1
          ((s.allThreads it.1).map fun thread => { thread with status := s.wokenStatus it.1 })
      else s.allThreads }

private theorem insert_erase (map : Std.ExtTreeMap Int Int) (key value : Int) :
    (map.insert key value).erase key = map.erase key := by
  apply Std.ExtTreeMap.ext_getElem?
  intro other
  simp only [Std.ExtTreeMap.getElem?_erase, Std.ExtTreeMap.getElem?_insert]
  split <;> rfl

private theorem updateSleeper_ended {s : State ε} {it : Int × Int} (ended : it.2 = 0) :
    updateSleeper s it =
      (setStatus { s with sleepers := s.sleepers.insert it.1 (it.2 - 1) } it.1 (s.wokenStatus it.1) >>=
        fun s' => .ok { s' with
          readyTids := s'.readyTids ++ if it.1 ∉ s.blockedTids then [it.1] else []
          sleepers := s'.sleepers.erase it.1 }) := by
  unfold updateSleeper
  by_cases blocked : it.1 ∈ s.blockedTids
  · simp [ended, blocked, wokenStatus]
  · simp only [ended, blocked, wokenStatus, Int.zero_sub, not_false_eq_true, if_true, if_false]
    cases setStatus _ it.1 .ready <;> simp

theorem updateSleeper_ok {s s' : State ε} {it : Int × Int} :
    updateSleeper s it = .ok s' ↔ (it.2 = 0 → s.live it.1) ∧ s' = s.wake it := by
  by_cases ended : it.2 = 0
  · rw [updateSleeper_ended ended]
    simp only [bind_ok, setStatus, updateThread_ok, ended, forall_const, Except.ok.injEq]
    constructor
    · rintro ⟨_, ⟨present, rfl⟩, rfl⟩
      exact ⟨present, by simp [wake, ended, modifyThread, OrderedMap.visit, countDown, insert_erase]⟩
    · rintro ⟨present, rfl⟩
      exact ⟨_, ⟨present, rfl⟩, by simp [wake, ended, modifyThread, OrderedMap.visit, countDown, insert_erase]⟩
  · have going : it.2 - 1 ≠ -1 := by omega
    simp [updateSleeper, ended, going, wake, OrderedMap.visit, countDown, eq_comm]

@[simp] theorem live_wake (s : State ε) (it : Int × Int) (tid : Int) : (s.wake it).live tid ↔ s.live tid := by
  unfold wake live
  split
  · by_cases same : tid = it.1
    · subst same; simp
    · simp [same]
  · exact Iff.rfl

private theorem updateSleepersFrom_ok {entries : List (Int × Int)} {s s' : State ε} :
    updateSleepersFrom entries s = .ok s' ↔
      (∀ it ∈ entries, it.2 = 0 → s.live it.1) ∧ s' = entries.foldl wake s := by
  induction entries generalizing s with
  | nil => simp [updateSleepersFrom, eq_comm]
  | cons it rest ih =>
    simp only [updateSleepersFrom, bind_ok, updateSleeper_ok, ih, List.forall_mem_cons, List.foldl_cons]
    constructor
    · rintro ⟨_, ⟨first, rfl⟩, others, rfl⟩
      exact ⟨⟨first, fun other member ended => (live_wake ..).mp (others other member ended)⟩, rfl⟩
    · rintro ⟨⟨first, others⟩, rfl⟩
      exact ⟨_, ⟨first, rfl⟩, fun other member ended => (live_wake ..).mpr (others other member ended), rfl⟩

section walk
variable (entries : List (Int × Int)) (s : State ε)

private theorem foldl_wake_sleepers :
    (entries.foldl wake s).sleepers = entries.foldl (OrderedMap.visit countDown) s.sleepers := by
  induction entries generalizing s with
  | nil => rfl
  | cons it rest ih => rw [List.foldl_cons, ih]; rfl

private theorem foldl_wake_blockedTids : (entries.foldl wake s).blockedTids = s.blockedTids := by
  induction entries generalizing s with
  | nil => rfl
  | cons it rest ih => rw [List.foldl_cons, ih]; rfl

theorem foldl_wake_readyTids : (entries.foldl wake s).readyTids =
    s.readyTids ++ (entries.filter fun it => it.2 = 0 ∧ it.1 ∉ s.blockedTids).map Prod.fst := by
  induction entries generalizing s with
  | nil => simp
  | cons it rest ih =>
    have same : (s.wake it).blockedTids = s.blockedTids := rfl
    rw [List.foldl_cons, ih, same]
    by_cases ready : it.2 = 0 ∧ it.1 ∉ s.blockedTids
    · simp [wake, ready]
    · simp [wake, ready]

private theorem foldl_wake_allThreads (tid : Int) : (entries.foldl wake s).allThreads tid =
    if (tid, 0) ∈ entries then
      (s.allThreads tid).map fun thread => { thread with status := s.wokenStatus tid }
    else s.allThreads tid := by
  induction entries generalizing s with
  | nil => simp
  | cons it rest ih =>
    have same : (s.wake it).wokenStatus tid = s.wokenStatus tid := rfl
    obtain ⟨key, counter⟩ := it
    rw [List.foldl_cons, ih, same]
    simp only [wake, List.mem_cons, Prod.mk.injEq]
    by_cases ended : counter = 0
    · by_cases here : tid = key
      · subst here
        simp only [ended, Function.update_self, if_true, true_or, and_self, Option.map_map]
        split <;> rfl
      · simp [ended, here]
    · simp [ended, Ne.symm ended]

end walk

theorem live_foldl_wake (entries : List (Int × Int)) (s : State ε) (tid : Int) :
    (entries.foldl wake s).live tid ↔ s.live tid := by
  induction entries generalizing s with
  | nil => exact Iff.rfl
  | cons it rest ih => exact (ih (s.wake it)).trans (live_wake ..)

theorem foldl_wake_toList (s : State ε) : s.sleepers.toList.foldl wake s = s.tick := by
  have other : ∀ entries : List (Int × Int), ∀ s : State ε,
      let s' := entries.foldl wake s
      s'.freeIds = s.freeIds ∧ s'.totalQuantums = s.totalQuantums ∧ s'.runningTid = s.runningTid ∧
        s'.quantum = s.quantum ∧ s'.timer = s.timer ∧ s'.mask = s.mask := by
    intro entries
    induction entries with
    | nil => intro s; exact ⟨rfl, rfl, rfl, rfl, rfl, rfl⟩
    | cons it rest ih => intro s; exact ih (s.wake it)
  obtain ⟨free, total, running, quantum, timer, mask⟩ := other s.sleepers.toList s
  apply State.ext
  · funext tid
    rw [foldl_wake_allThreads]
    simp only [tick, Std.ExtTreeMap.mem_toList_iff_getElem?_eq_some]
  · rw [foldl_wake_sleepers, OrderedMap.foldl_visit_toList]; rfl
  · exact foldl_wake_blockedTids _ s
  · exact foldl_wake_readyTids _ s
  · exact free
  · exact total
  · exact running
  · exact quantum
  · exact timer
  · exact mask

/-- The whole loop is `tick`, and it faults exactly when a sleep that ends has
no record. -/
theorem updateSleepers_ok {s s' : State ε} :
    updateSleepers s = .ok s' ↔ s.SleepersLive ∧ s' = s.tick := by
  unfold updateSleepers SleepersLive
  rw [updateSleepersFrom_ok, foldl_wake_toList]
  apply and_congr_left
  rintro -
  constructor
  · intro present tid found
    exact present (tid, 0) (Std.ExtTreeMap.mem_toList_iff_getElem?_eq_some.mpr found) rfl
  · rintro present ⟨tid, counter⟩ member rfl
    exact present tid (Std.ExtTreeMap.mem_toList_iff_getElem?_eq_some.mp member)

section tick
variable (s : State ε) (tid : Int)

theorem getElem?_sleepers_tick : s.tick.sleepers[tid]? = s.sleepers[tid]?.bind (countDown tid) := by
  simp [tick]

@[simp] theorem readyTids_tick : s.tick.readyTids = s.readyTids ++ s.woken := rfl
@[simp] theorem blockedTids_tick : s.tick.blockedTids = s.blockedTids := rfl
@[simp] theorem freeIds_tick : s.tick.freeIds = s.freeIds := rfl
@[simp] theorem totalQuantums_tick : s.tick.totalQuantums = s.totalQuantums := rfl
@[simp] theorem runningTid_tick : s.tick.runningTid = s.runningTid := rfl
@[simp] theorem mask_tick : s.tick.mask = s.mask := rfl

theorem mem_sleepers_tick : tid ∈ s.tick.sleepers ↔ ∃ counter, s.sleepers[tid]? = some counter ∧ counter ≠ 0 := by
  rw [Std.ExtTreeMap.mem_iff_isSome_getElem?, getElem?_sleepers_tick]
  cases s.sleepers[tid]? with
  | none => simp
  | some counter => by_cases ended : counter = 0 <;> simp [countDown, ended]

theorem status_tick : s.tick.status tid =
    if s.sleepers[tid]? = some 0 then (s.status tid).map fun _ => s.wokenStatus tid else s.status tid := by
  simp only [tick, status]
  split
  · simp [Function.comp_def]
  · rfl

theorem quantums_tick : s.tick.quantums tid = s.quantums tid := by
  simp only [tick, quantums]
  split
  · simp [Function.comp_def]
  · rfl

theorem live_tick : s.tick.live tid ↔ s.live tid := by
  simp only [tick, live]
  split
  · simp
  · exact Iff.rfl

theorem mem_woken : tid ∈ s.woken ↔ s.sleepers[tid]? = some 0 ∧ tid ∉ s.blockedTids := by
  simp [woken]

theorem woken_sorted : s.woken.Pairwise (· < ·) := OrderedMap.sorted_filter_keys _ _

theorem woken_nodup : s.woken.Nodup := s.woken_sorted.imp fun less => ne_of_lt less

end tick

end State
end Uthreads
