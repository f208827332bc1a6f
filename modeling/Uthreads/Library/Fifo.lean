import Mathlib.Data.List.Basic

/-! A queue that is served at the front, joined at the back and left in the
middle. Whoever waits keeps everybody behind it who was behind it. -/

namespace Fifo

variable {α : Type}

/-- The queue has `ahead` in front of the item. -/
def Waits (queue ahead : List α) (item : α) : Prop := ∃ behind, queue = ahead ++ item :: behind

variable {queue ahead : List α} {item : α}

theorem Waits.mem (waits : Waits queue ahead item) : item ∈ queue := by
  obtain ⟨behind, rfl⟩ := waits
  simp

theorem Waits.arrive (waits : Waits queue ahead item) (new : List α) : Waits (queue ++ new) ahead item := by
  obtain ⟨behind, rfl⟩ := waits
  exact ⟨behind ++ new, by simp⟩

/-- Somebody else leaves: either from the front part or from behind. -/
theorem Waits.withdraw [DecidableEq α] (waits : Waits queue ahead item) {gone : α} (other : gone ≠ item) :
    Waits (queue.erase gone) (ahead.erase gone) item := by
  obtain ⟨behind, rfl⟩ := waits
  by_cases front : gone ∈ ahead
  · exact ⟨behind, List.erase_append_left _ front⟩
  · refine ⟨behind.erase gone, ?_⟩
    rw [List.erase_append_right _ front, List.erase_cons_tail (by simpa using Ne.symm other),
      List.erase_of_not_mem front]

/-- The front is served: the item itself, if nobody is ahead of it. -/
theorem Waits.serve (waits : Waits queue ahead item) {next : α} {rest : List α} (served : queue = next :: rest) :
    ahead = [] ∧ next = item ∨ ∃ fewer, ahead = next :: fewer ∧ Waits rest fewer item := by
  obtain ⟨behind, rfl⟩ := waits
  cases ahead with
  | nil =>
    obtain ⟨rfl, -⟩ := List.cons.inj served
    exact .inl ⟨rfl, rfl⟩
  | cons first fewer =>
    obtain ⟨rfl, rfl⟩ := List.cons.inj served
    exact .inr ⟨fewer, rfl, behind, rfl⟩

theorem Waits.unique (waits : Waits queue ahead item) (fresh : item ∉ ahead) [DecidableEq α] :
    queue.takeWhile (· ≠ item) = ahead := by
  obtain ⟨behind, rfl⟩ := waits
  have front : ∀ other ∈ ahead, decide (other ≠ item) = true := fun other member =>
    decide_eq_true fun same => fresh (same ▸ member)
  rw [List.takeWhile_append_of_pos front, List.takeWhile_cons_of_neg (by simp), List.append_nil]

section order
variable {first second : α}

/-- The order of two items survives every departure of others. -/
theorem pair_withdraw [DecidableEq α] {gone : α} (ordered : [first, second].Sublist queue)
    (one : gone ≠ first) (two : gone ≠ second) : [first, second].Sublist (queue.erase gone) := by
  have kept := ordered.erase gone
  rwa [List.erase_of_not_mem (by simp [one, two])] at kept

theorem pair_serve {next : α} {rest : List α} (ordered : [first, second].Sublist (next :: rest))
    (other : next ≠ first) : [first, second].Sublist rest :=
  ordered.of_cons_of_ne (Ne.symm other)

end order
end Fifo
