import Mathlib.Order.Basic
import Mathlib.Data.List.Sort
import Std.Data.ExtTreeMap

/-! An ordered map whose keys are compared by equality, changed at one key, and
walking over it while changing it. A loop that replaces or erases only the entry
it stands at meets every entry once, in key order. -/

namespace OrderedMap
open Std

variable {κ ν : Type} {cmp : κ → κ → Ordering} [TransCmp cmp]

theorem mem_iff_exists {map : ExtTreeMap κ ν cmp} {key : κ} : key ∈ map ↔ ∃ value, map[key]? = some value := by
  rw [ExtTreeMap.mem_iff_isSome_getElem?, Option.isSome_iff_exists]

variable [LawfulEqCmp cmp]

section entries
variable {map : ExtTreeMap κ ν cmp} {key other : κ} {value found : ν}

theorem mem_insert : other ∈ map.insert key value ↔ other = key ∨ other ∈ map := by
  rw [ExtTreeMap.mem_insert, LawfulEqCmp.compare_eq_iff_eq, eq_comm]

theorem mem_erase : other ∈ map.erase key ↔ other ≠ key ∧ other ∈ map := by
  rw [ExtTreeMap.mem_erase, LawfulEqCmp.compare_eq_iff_eq.ne]
  exact and_congr_left fun _ => ne_comm

theorem getElem?_insert [DecidableEq κ] :
    (map.insert key value)[other]? = if other = key then some value else map[other]? := by
  simp only [ExtTreeMap.getElem?_insert, LawfulEqCmp.compare_eq_iff_eq]
  exact if_congr eq_comm rfl rfl

theorem getElem?_erase [DecidableEq κ] : (map.erase key)[other]? = if other = key then none else map[other]? := by
  simp only [ExtTreeMap.getElem?_erase, LawfulEqCmp.compare_eq_iff_eq]
  exact if_congr eq_comm rfl rfl

theorem of_getElem?_insert (present : (map.insert key value)[other]? = some found) :
    other = key ∧ value = found ∨ map[other]? = some found := by
  classical
  rw [getElem?_insert] at present
  split at present
  next same => exact .inl ⟨same, Option.some.inj present⟩
  next => exact .inr present

theorem of_getElem?_erase (present : (map.erase key)[other]? = some found) : other ≠ key ∧ map[other]? = some found := by
  classical
  rw [getElem?_erase] at present
  split at present
  next => cases present
  next different => exact ⟨different, present⟩

theorem erase_of_not_mem (absent : key ∉ map) : map.erase key = map := by
  classical
  apply ExtTreeMap.ext_getElem?
  intro other
  rw [getElem?_erase]
  split
  next same => exact (ExtTreeMap.getElem?_eq_none (same ▸ absent)).symm
  next => rfl

theorem insert_of_getElem? (present : map[key]? = some value) : map.insert key value = map := by
  classical
  apply ExtTreeMap.ext_getElem?
  intro other
  rw [getElem?_insert]
  split
  next same => rw [same, present]
  next => rfl

end entries

section walk

def visit (f : κ → ν → Option ν) (map : ExtTreeMap κ ν cmp) (entry : κ × ν) : ExtTreeMap κ ν cmp :=
  match f entry.1 entry.2 with
  | none => map.erase entry.1
  | some value => map.insert entry.1 value

theorem getElem?_visit_self (f : κ → ν → Option ν) (map : ExtTreeMap κ ν cmp) (entry : κ × ν) :
    (visit f map entry)[entry.1]? = f entry.1 entry.2 := by
  unfold visit
  split <;> rename_i found <;> simp [found]

theorem getElem?_visit_other (f : κ → ν → Option ν) (map : ExtTreeMap κ ν cmp) {entry : κ × ν} {key : κ}
    (different : entry.1 ≠ key) : (visit f map entry)[key]? = map[key]? := by
  have unequal : cmp entry.1 key ≠ .eq := fun same => different (LawfulEqCmp.eq_of_compare same)
  unfold visit
  split
  · simp [ExtTreeMap.getElem?_erase, unequal]
  · simp [ExtTreeMap.getElem?_insert, unequal]

theorem getElem?_foldl_visit_of_not_mem (f : κ → ν → Option ν) (entries : List (κ × ν))
    (map : ExtTreeMap κ ν cmp) {key : κ} (absent : key ∉ entries.map Prod.fst) :
    (entries.foldl (visit f) map)[key]? = map[key]? := by
  induction entries generalizing map with
  | nil => rfl
  | cons entry rest ih =>
    simp only [List.map_cons, List.mem_cons, not_or] at absent
    rw [List.foldl_cons, ih _ absent.2, getElem?_visit_other f map (Ne.symm absent.1)]

theorem getElem?_foldl_visit_of_mem (f : κ → ν → Option ν) (entries : List (κ × ν))
    (map : ExtTreeMap κ ν cmp) (distinct : (entries.map Prod.fst).Nodup) {entry : κ × ν}
    (member : entry ∈ entries) :
    (entries.foldl (visit f) map)[entry.1]? = f entry.1 entry.2 := by
  induction entries generalizing map with
  | nil => cases member
  | cons first rest ih =>
    simp only [List.map_cons, List.nodup_cons] at distinct
    rw [List.foldl_cons]
    rcases List.mem_cons.mp member with rfl | later
    · rw [getElem?_foldl_visit_of_not_mem f rest _ distinct.1, getElem?_visit_self]
    · exact ih _ distinct.2 later

theorem nodup_keys (map : ExtTreeMap κ ν cmp) : (map.toList.map Prod.fst).Nodup := by
  rw [List.Nodup, List.pairwise_map]
  apply map.distinct_keys_toList.imp
  intro first second unequal same
  exact unequal (by simp [same])

theorem mem_keys {map : ExtTreeMap κ ν cmp} {key : κ} : key ∈ map.toList.map Prod.fst ↔ key ∈ map := by
  rw [ExtTreeMap.map_fst_toList_eq_keys, ExtTreeMap.mem_keys]

/-- The whole walk is a pointwise `filterMap`. -/
theorem foldl_visit_toList (f : κ → ν → Option ν) (map : ExtTreeMap κ ν cmp) :
    map.toList.foldl (visit f) map = map.filterMap f := by
  apply ExtTreeMap.ext_getElem?
  intro key
  rw [ExtTreeMap.getElem?_filterMap']
  cases found : map[key]? with
  | none =>
    have absent : key ∉ map.toList.map Prod.fst := by
      rw [mem_keys, ExtTreeMap.mem_iff_isSome_getElem?, found]
      simp
    rw [getElem?_foldl_visit_of_not_mem f _ map absent, found]
    rfl
  | some value =>
    have member : (key, value) ∈ map.toList := ExtTreeMap.mem_toList_iff_getElem?_eq_some.mpr found
    exact getElem?_foldl_visit_of_mem f _ map (nodup_keys map) member

/-- Keys come out in increasing order, also after a selection. -/
theorem sorted_filter_keys {α : Type} [LinearOrder α] (map : ExtTreeMap α ν) (p : α × ν → Bool) :
    ((map.toList.filter p).map Prod.fst).Pairwise (· < ·) := by
  rw [List.pairwise_map]
  apply (map.ordered_keys_toList.filter p).imp
  intro first second less
  exact compare_lt_iff_lt.mp less

end walk
end OrderedMap
