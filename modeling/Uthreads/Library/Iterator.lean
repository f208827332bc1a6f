import Uthreads.Library.Fallible
import Uthreads.Library.OrderedMap

/-! A loop over an ordered map by iterators, the next one being saved before the
body runs. A body that touches no entry but the one at hand, were it to erase it,
is run for every entry that the map had at first, and for no other. -/

namespace OrderedMap
open Std Fallible

variable {κ ν : Type} {cmp : κ → κ → Ordering}

/-- The entries behind `key`, whether or not there is one at it. -/
def behind (map : ExtTreeMap κ ν cmp) [TransCmp cmp] (key : κ) : List (κ × ν) :=
  map.toList.filter fun entry => (cmp key entry.1).isLT

section walk
variable {σ η : Type} [TransCmp cmp]

def first (map : ExtTreeMap κ ν cmp) : Option κ := map.toList.head?.map Prod.fst

def next (map : ExtTreeMap κ ν cmp) (key : κ) : Option κ := (behind map key).head?.map Prod.fst

/-- The loop from the iterator `it` on, with the keys that it has stood at. It
gives nothing if it stands at no entry, or is not at its end when the fuel is. -/
def walk (entries : σ → ExtTreeMap κ ν cmp) (body : σ → κ × ν → Except η σ) :
    Nat → Option κ → σ → Except η (Option (List κ × σ))
  | _, none, s => .ok (some ([], s))
  | 0, some _, _ => .ok none
  | fuel + 1, some it, s =>
    match (entries s)[it]? with
    | none => .ok none
    | some value => do
      let nextIt := next (entries s) it
      let s ← body s (it, value)
      let walked ← walk entries body fuel nextIt s
      pure (walked.map fun done => (it :: done.1, done.2))

end walk

section behind
variable [TransCmp cmp] {map map' : ExtTreeMap κ ν cmp} {key : κ} {entry : κ × ν} {rest : List (κ × ν)}

private theorem filter_rest (ordered : (entry :: rest).Pairwise fun one two => cmp one.1 two.1 = .lt) :
    (entry :: rest).filter (fun other => (cmp entry.1 other.1).isLT) = rest := by
  rw [List.filter_cons_of_neg (by simp [ReflCmp.compare_self])]
  apply List.filter_eq_self.mpr
  intro other member
  simp [List.rel_of_pairwise_cons ordered member]

theorem behind_first (entries : map.toList = entry :: rest) : behind map entry.1 = rest := by
  have ordered := map.ordered_keys_toList
  rw [entries] at ordered
  rw [behind, entries, filter_rest ordered]

private theorem behind_ordered (map : ExtTreeMap κ ν cmp) (key : κ) :
    (behind map key).Pairwise fun one two => cmp one.1 two.1 = .lt :=
  map.ordered_keys_toList.filter _

/-- The next iterator leaves behind it what was behind the last one, without its
own entry. -/
theorem behind_next (entries : behind map key = entry :: rest) : behind map entry.1 = rest := by
  have ordered := behind_ordered map key
  have later : cmp key entry.1 = .lt := by
    have member : entry ∈ behind map key := entries ▸ List.mem_cons_self
    exact Ordering.isLT_iff_eq_lt.mp (List.mem_filter.mp member).2
  have again : behind map entry.1 = (behind map key).filter fun other => (cmp entry.1 other.1).isLT := by
    rw [behind, behind, List.filter_filter]
    apply List.filter_congr
    intro other member
    cases passed : cmp entry.1 other.1 with
    | lt => simp [TransCmp.lt_trans later passed]
    | eq | gt => rfl
  rw [again, entries]
  rw [entries] at ordered
  exact filter_rest ordered

theorem mem_behind [LawfulEqCmp cmp] : entry ∈ behind map key ↔ map[entry.1]? = some entry.2 ∧ cmp key entry.1 = .lt := by
  obtain ⟨other, value⟩ := entry
  rw [behind, List.mem_filter, ExtTreeMap.mem_toList_iff_getElem?_eq_some, Ordering.isLT_iff_eq_lt]

theorem behind_congr [LawfulEqCmp cmp] (kept : ∀ other, other ≠ key → map'[other]? = map[other]?) :
    behind map' key = behind map key := by
  have distinct : ∀ map : ExtTreeMap κ ν cmp, (behind map key).Nodup := fun map =>
    (behind_ordered map key).imp fun less same => by simp [same, ReflCmp.compare_self] at less
  have same : (behind map' key).Perm (behind map key) := by
    apply (List.perm_ext_iff_of_nodup (distinct map') (distinct map)).mpr
    intro entry
    rw [mem_behind, mem_behind]
    apply and_congr_left
    intro later
    rw [kept]
    rintro rfl
    simp [ReflCmp.compare_self] at later
  apply same.eq_of_pairwise _ (behind_ordered map' key) (behind_ordered map key)
  intro one two _ _ less more
  have impossible := TransCmp.lt_trans less more
  simp [ReflCmp.compare_self] at impossible

end behind

section loop
variable {σ η : Type} [TransCmp cmp] [LawfulEqCmp cmp] {entries : σ → ExtTreeMap κ ν cmp} {body : σ → κ × ν → Except η σ}

/-- The iterator meets the entries it had before it, as they were. -/
private theorem walk_behind
    (elsewhere : ∀ entry s s', body s entry = .ok s' → ∀ key, key ≠ entry.1 → (entries s')[key]? = (entries s)[key]?)
    (rest : List (κ × ν)) (fuel : Nat) (enough : rest.length ≤ fuel) (s : σ)
    (current : ∀ entry more, rest = entry :: more →
      (entries s)[entry.1]? = some entry.2 ∧ behind (entries s) entry.1 = more) :
    walk entries body fuel (rest.head?.map Prod.fst) s =
      (rest.foldlM body s).map fun s' => some (rest.map Prod.fst, s') := by
  induction rest generalizing fuel s with
  | nil => cases fuel <;> rfl
  | cons entry more ih =>
    obtain ⟨found, later⟩ := current entry more rfl
    have successor : next (entries s) entry.1 = more.head?.map Prod.fst := by rw [next, later]
    cases fuel with
    | zero => simp at enough
    | succ fuel =>
      rw [List.head?_cons, Option.map_some, walk, found, successor, List.foldlM_cons]
      dsimp only
      cases done : body s entry with
      | error halt => rfl
      | ok s' =>
        have kept := elsewhere entry s s' done
        rw [bind_ok_left, bind_ok_left, ih fuel (by simpa using enough) s']
        · cases more.foldlM body s' <;> rfl
        · rintro entry' rest rfl
          have later' : behind (entries s') entry.1 = entry' :: rest := (behind_congr kept).trans later
          have member : entry' ∈ behind (entries s') entry.1 := later' ▸ List.mem_cons_self
          exact ⟨(mem_behind.mp member).1, behind_next later'⟩

/-- The loop by iterators is the loop over the entries that the map has at first. -/
theorem walk_eq
    (elsewhere : ∀ entry s s', body s entry = .ok s' → ∀ key, key ≠ entry.1 → (entries s')[key]? = (entries s)[key]?)
    {fuel : Nat} {s : σ} (enough : (entries s).size ≤ fuel) :
    walk entries body fuel (first (entries s)) s =
      ((entries s).toList.foldlM body s).map fun s' => some ((entries s).keys, s') := by
  rw [first, walk_behind elsewhere _ fuel, ExtTreeMap.map_fst_toList_eq_keys]
  · rwa [ExtTreeMap.length_toList]
  · intro entry more same
    refine ⟨?_, behind_first same⟩
    exact ExtTreeMap.mem_toList_iff_getElem?_eq_some.mp (same ▸ List.mem_cons_self)

end loop
end OrderedMap
