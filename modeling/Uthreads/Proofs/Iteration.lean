import Uthreads.Library.Iterator
import Uthreads.Proofs.Sleepers

/-! `update_sleepers` by its iterators. It erases from the map that it walks
over, and still visits every sleeper once. -/

namespace Uthreads
open Fallible

variable {ε : Type} {s s' : State ε}

private theorem updateSleepersFrom_eq_foldlM (entries : List (Int × Int)) (s : State ε) :
    updateSleepersFrom entries s = entries.foldlM updateSleeper s := by
  induction entries generalizing s with
  | nil => rfl
  | cons it rest ih =>
    rw [updateSleepersFrom, List.foldlM_cons]
    exact congrArg _ (funext ih)

private theorem updateSleeper_elsewhere (it : Int × Int) (s s' : State ε) (done : updateSleeper s it = .ok s') (tid : Int)
    (other : tid ≠ it.1) : s'.sleepers[tid]? = s.sleepers[tid]? := by
  obtain ⟨-, rfl⟩ := State.updateSleeper_ok.mp done
  exact OrderedMap.getElem?_visit_other _ _ (Ne.symm other)

/-- The iterators never lose their place, so the loop is the one over the entries
that the map has at first. -/
theorem iterateSleepers_eq {fuel : Nat} (enough : s.sleepers.size ≤ fuel) :
    iterateSleepers fuel s = (updateSleepers s).map fun s' => some (s.sleepers.keys, s') := by
  rw [iterateSleepers, OrderedMap.walk_eq updateSleeper_elsewhere enough, updateSleepers, updateSleepersFrom_eq_foldlM]

structure Counted (s s' : State ε) : Prop where
  sleepers : ∀ tid counter : Int, s'.sleepers[tid]? = some counter ↔
    ∃ old, s.sleepers[tid]? = some old ∧ 0 < old ∧ counter = old - 1
  held : ∀ tid, s.sleepers[tid]? = some 0 → tid ∈ s.blockedTids → s'.status tid = some .blocked
  freed : ∀ tid, s.sleepers[tid]? = some 0 → tid ∉ s.blockedTids → s'.status tid = some .ready
  ready : ∃ woken : List Int, s'.readyTids = s.readyTids ++ woken ∧ woken.Pairwise (· < ·) ∧
    ∀ tid, tid ∈ woken ↔ s.sleepers[tid]? = some 0 ∧ tid ∉ s.blockedTids
  others : ∀ tid, s.sleepers[tid]? ≠ some 0 → s'.allThreads tid = s.allThreads tid
  rest : s' = { s with allThreads := s'.allThreads, sleepers := s'.sleepers, readyTids := s'.readyTids }

theorem State.counted_tick (live : ∀ tid ∈ s.sleepers, s.live tid)
    (counts : ∀ (tid counter : Int), s.sleepers[tid]? = some counter → 0 ≤ counter) : Counted s s.tick := by
  have ended : ∀ tid, s.sleepers[tid]? = some 0 → s.tick.status tid = some (s.wokenStatus tid) := by
    intro tid found
    obtain ⟨status, present⟩ := State.live_iff_status.mp (live tid (OrderedMap.mem_iff_exists.mpr ⟨0, found⟩))
    rw [State.status_tick, if_pos found, present]
    rfl
  refine ⟨fun tid counter => ?_, fun tid found blocked => ?_, fun tid found free => ?_, ?_, fun tid sleeps => ?_, rfl⟩
  · rw [State.getElem?_sleepers_tick, Option.bind_eq_some_iff]
    apply exists_congr
    intro old
    apply and_congr_right
    intro found
    have := counts tid old found
    unfold countDown
    split
    · constructor <;> intro impossible <;> grind
    · rw [Option.some.injEq]
      omega
  · rw [ended tid found, State.wokenStatus, if_pos blocked]
  · rw [ended tid found, State.wokenStatus, if_neg free]
  · exact ⟨s.woken, State.readyTids_tick s, s.woken_sorted, s.mem_woken⟩
  · exact if_neg sleeps

/-- One call, from any map of live sleepers: every sleeper is visited once, in
increasing order, and counted down. -/
theorem sleepers_visited_once (s : State ε) (live : ∀ tid ∈ s.sleepers, s.live tid)
    (counts : ∀ (tid counter : Int), s.sleepers[tid]? = some counter → 0 ≤ counter) :
    ∃ visited s', (∀ fuel, s.sleepers.size ≤ fuel → iterateSleepers fuel s = .ok (some (visited, s'))) ∧
      visited.Pairwise (· < ·) ∧ (∀ tid, tid ∈ visited ↔ tid ∈ s.sleepers) ∧
      updateSleepers s = .ok s' ∧ Counted s s' := by
  have all : s.SleepersLive := fun tid found => live tid (OrderedMap.mem_iff_exists.mpr ⟨0, found⟩)
  have done : updateSleepers s = .ok s.tick := State.updateSleepers_ok.mpr ⟨all, rfl⟩
  refine ⟨s.sleepers.keys, s.tick, fun fuel enough => ?_, ?_, fun tid => Std.ExtTreeMap.mem_keys, done, ?_⟩
  · rw [iterateSleepers_eq enough, done]
    rfl
  · exact s.sleepers.ordered_keys.imp compare_lt_iff_lt.mp
  · exact State.counted_tick live counts

def threeSleepers : State Unit :=
  { (State.blank ∅ : State Unit) with
    allThreads := fun tid => if 1 ≤ tid ∧ tid ≤ 3 then some (.spawned tid ()) else none
    sleepers := (((∅ : Std.ExtTreeMap Int Int).insert 1 0).insert 2 0).insert 3 2
    blockedTids := {2} }

theorem sleepers_visited_once_three : ∃ visited s', iterateSleepers 3 threeSleepers = .ok (some (visited, s')) ∧
    (∀ tid, tid ∈ visited ↔ tid = 3 ∨ tid = 2 ∨ tid = 1) ∧ Counted threeSleepers s' := by
  have members : ∀ tid, tid ∈ threeSleepers.sleepers ↔ tid = 3 ∨ tid = 2 ∨ tid = 1 := by
    intro tid
    rw [threeSleepers, OrderedMap.mem_insert, OrderedMap.mem_insert, OrderedMap.mem_insert]
    simp
  have live : ∀ tid ∈ threeSleepers.sleepers, threeSleepers.live tid := by
    intro tid member
    rcases (members tid).mp member with rfl | rfl | rfl <;> decide
  have counts : ∀ (tid counter : Int), threeSleepers.sleepers[tid]? = some counter → 0 ≤ counter := by
    intro tid counter found
    obtain ⟨rfl, rfl⟩ | found := OrderedMap.of_getElem?_insert found
    · decide
    obtain ⟨rfl, rfl⟩ | found := OrderedMap.of_getElem?_insert found
    · decide
    obtain ⟨rfl, rfl⟩ | found := OrderedMap.of_getElem?_insert found
    · decide
    · simp at found
  obtain ⟨visited, s', walked, sorted, exact', done, counted⟩ := sleepers_visited_once threeSleepers live counts
  exact ⟨visited, s', walked 3 (by decide), fun tid => (exact' tid).trans (members tid), counted⟩

end Uthreads
