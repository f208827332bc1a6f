import Mathlib.Data.Finset.Basic
import Mathlib.Data.List.Basic

/-! What an operation on one item does to the places of a queue and of a set.
Edits for different items commute, unless both join the same queue. -/

namespace Roster

inductive Edit where
  | keep
  | leave
  | join
  deriving DecidableEq, Repr

namespace Edit
variable {α : Type} [DecidableEq α]

/-- A queue is joined at its back. -/
def inQueue (edit : Edit) (item : α) (queue : List α) : List α :=
  match edit with
  | .keep => queue
  | .leave => queue.erase item
  | .join => queue ++ [item]

def inSet (edit : Edit) (item : α) (set : Finset α) : Finset α :=
  match edit with
  | .keep => set
  | .leave => set.erase item
  | .join => insert item set

variable {one two : Edit} {a b other : α} {queue : List α} {set : Finset α}

theorem mem_inQueue (different : other ≠ a) : other ∈ one.inQueue a queue ↔ other ∈ queue := by
  cases one with
  | keep => exact Iff.rfl
  | leave => exact List.mem_erase_of_ne different
  | join => simp [inQueue, different]

private theorem erase_join (distinct : a ≠ b) : (queue ++ [b]).erase a = queue.erase a ++ [b] := by
  by_cases queued : a ∈ queue
  · exact List.erase_append_left _ queued
  · rw [List.erase_append_right _ queued, List.erase_of_not_mem queued, List.erase_of_not_mem]
    simpa using distinct

theorem inQueue_comm (distinct : a ≠ b) (apart : ¬ (one = .join ∧ two = .join)) :
    two.inQueue b (one.inQueue a queue) = one.inQueue a (two.inQueue b queue) := by
  cases one with
  | keep => rfl
  | leave =>
    cases two with
    | keep => rfl
    | leave => exact List.erase_comm ..
    | join => exact (erase_join distinct).symm
  | join =>
    cases two with
    | keep => rfl
    | leave => exact erase_join distinct.symm
    | join => exact absurd ⟨rfl, rfl⟩ apart

theorem inSet_comm (distinct : a ≠ b) : two.inSet b (one.inSet a set) = one.inSet a (two.inSet b set) := by
  cases one with
  | keep => rfl
  | leave =>
    cases two with
    | keep => rfl
    | leave => exact Finset.erase_right_comm
    | join => exact (Finset.erase_insert_of_ne distinct.symm).symm
  | join =>
    cases two with
    | keep => rfl
    | leave => exact Finset.erase_insert_of_ne distinct
    | join => exact Finset.insert_comm ..

end Edit
end Roster
