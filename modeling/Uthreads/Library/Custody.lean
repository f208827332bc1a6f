import Uthreads.Library.Guarded

/-! The lock of a guarded scheduler as its users see it: who has asked for it and
has had no answer yet, and whom it was granted by the return of a call. -/

namespace RoundRobin

structure Custody (ι : Type) where
  calling : Finset ι
  holders : Finset ι
  deriving DecidableEq

namespace Custody

variable {ι : Type} [DecidableEq ι]

def ask (custody : Custody ι) (id : ι) : Custody ι := { custody with calling := insert id custody.calling }

def giveUp (custody : Custody ι) (id : ι) : Custody ι := { custody with holders := custody.holders.erase id }

/-- The end of a step: whoever is dead is forgotten, and a task that runs has
had its answer. -/
def settle (custody : Custody ι) (running : ι) (live : ι → Prop) [DecidablePred live] : Custody ι :=
  let calling := custody.calling.filter live
  let holders := custody.holders.filter live
  if running ∈ calling then ⟨calling.erase running, insert running holders⟩ else ⟨calling, holders⟩

/-- The users' view agrees with the lock, up to what the end of the step changes. -/
structure Covers (custody : Custody ι) (a : Guarded ι) : Prop where
  waiting : ∀ id ∈ a.waiting, id ∈ custody.calling
  owner : ∀ id, a.owner = some id → id ∈ custody.calling ∨ id ∈ custody.holders
  calling : ∀ id ∈ custody.calling, (a.tasks id).isSome → id ∈ a.waiting ∨ a.owner = some id
  holders : ∀ id ∈ custody.holders, (a.tasks id).isSome → a.owner = some id

/-- Who asks either waits or has been made the owner in the meantime, and is
not running. Nobody but the owner holds the lock. -/
structure Tracks (custody : Custody ι) (a : Guarded ι) : Prop where
  waiting : ∀ id ∈ a.waiting, id ∈ custody.calling
  owner : ∀ id, a.owner = some id → id ∈ custody.calling ∨ id ∈ custody.holders
  calling : ∀ id ∈ custody.calling, id ∈ a.waiting ∨ a.owner = some id
  holders : ∀ id ∈ custody.holders, a.owner = some id
  running : a.current ∉ custody.calling

section settle
variable {custody : Custody ι} {a : Guarded ι} {running id : ι} {live : ι → Prop} [DecidablePred live]

theorem mem_calling_settle : id ∈ (custody.settle running live).calling ↔
    id ∈ custody.calling ∧ live id ∧ id ≠ running := by
  unfold settle
  dsimp only
  split
  · rw [Finset.mem_erase, Finset.mem_filter]
    tauto
  · rename_i absent
    rw [Finset.mem_filter]
    constructor
    · rintro ⟨calls, lives⟩
      exact ⟨calls, lives, fun same => absent (Finset.mem_filter.mpr ⟨same ▸ calls, same ▸ lives⟩)⟩
    · exact fun ⟨calls, lives, _⟩ => ⟨calls, lives⟩

theorem mem_holders_settle : id ∈ (custody.settle running live).holders ↔
    live id ∧ (id ∈ custody.holders ∨ id ∈ custody.calling ∧ id = running) := by
  unfold settle
  dsimp only
  split
  · rename_i present
    obtain ⟨calls, lives⟩ := Finset.mem_filter.mp present
    rw [Finset.mem_insert, Finset.mem_filter]
    constructor
    · rintro (rfl | ⟨holds, alive⟩)
      · exact ⟨lives, .inr ⟨calls, rfl⟩⟩
      · exact ⟨alive, .inl holds⟩
    · rintro ⟨alive, holds | ⟨-, same⟩⟩
      · exact .inr ⟨holds, alive⟩
      · exact .inl same
  · rename_i absent
    rw [Finset.mem_filter]
    constructor
    · exact fun ⟨holds, alive⟩ => ⟨alive, .inl holds⟩
    · rintro ⟨alive, holds | ⟨calls, rfl⟩⟩
      · exact ⟨holds, alive⟩
      · exact absurd (Finset.mem_filter.mpr ⟨calls, alive⟩) absent

/-- The running task does not wait, so if it has asked it is the owner by now. -/
theorem Covers.settle (covers : Covers custody a) (placed : Guarded.Placed (some a.current) a)
    (lives : ∀ id, live id ↔ (a.tasks id).isSome) : Tracks (custody.settle a.current live) a := by
  have away : a.current ∉ a.waiting := (placed.turn _ rfl).2
  refine ⟨fun id waits => ?_, fun id owns => ?_, fun id calls => ?_, fun id holds => ?_, fun calls => ?_⟩
  · apply mem_calling_settle.mpr
    exact ⟨covers.waiting id waits, (lives id).mpr (placed.waiting id waits), fun same => away (same ▸ waits)⟩
  · have alive := (lives id).mpr (placed.owner id owns).1
    rcases covers.owner id owns with calls | holds
    · by_cases same : id = a.current
      · exact .inr (mem_holders_settle.mpr ⟨alive, .inr ⟨calls, same⟩⟩)
      · exact .inl (mem_calling_settle.mpr ⟨calls, alive, same⟩)
    · exact .inr (mem_holders_settle.mpr ⟨alive, .inl holds⟩)
  · obtain ⟨calls, alive, -⟩ := mem_calling_settle.mp calls
    exact covers.calling id calls ((lives id).mp alive)
  · obtain ⟨alive, holds | ⟨calls, rfl⟩⟩ := mem_holders_settle.mp holds
    · exact covers.holders id holds ((lives id).mp alive)
    · exact (covers.calling _ calls ((lives _).mp alive)).resolve_left away
  · exact (mem_calling_settle.mp calls).2.2 rfl

end settle

section rules
variable {custody : Custody ι} {a b : Guarded ι} {id : ι} {next : Option ι}

omit [DecidableEq ι] in
theorem Tracks.rest (tracks : Tracks custody a) (owner : b.owner = a.owner) (waiting : b.waiting = a.waiting) :
    Covers custody b := by
  refine ⟨?_, ?_, fun id calls _ => ?_, fun id holds _ => ?_⟩
  · exact waiting ▸ tracks.waiting
  · exact owner ▸ tracks.owner
  · rw [waiting, owner]
    exact tracks.calling id calls
  · rw [owner]
    exact tracks.holders id holds

theorem Covers.dispatch (covers : Covers custody a) {front : ι} {rest : List ι} (turn : Guarded.Dispatched a b front rest) :
    Covers custody b := by
  refine ⟨?_, ?_, fun id calls alive => ?_, fun id holds alive => ?_⟩
  · exact turn.waiting ▸ covers.waiting
  · exact turn.owner ▸ covers.owner
  · rw [turn.waiting, turn.owner]
    exact covers.calling id calls (turn.live id ▸ alive)
  · rw [turn.owner]
    exact covers.holders id holds (turn.live id ▸ alive)

/-- Whoever takes the free lock has it when its call returns. -/
theorem Tracks.take (tracks : Tracks custody a) (free : a.owner = none) :
    Covers (custody.ask id) { a with owner := some id } := by
  refine ⟨fun other waits => ?_, fun other owns => ?_, fun other calls _ => ?_, fun other holds _ => ?_⟩
  · exact Finset.mem_insert_of_mem (tracks.waiting other waits)
  · obtain rfl := Option.some.inj owns
    exact .inl (Finset.mem_insert_self ..)
  · rcases Finset.mem_insert.mp calls with rfl | calls
    · exact .inr rfl
    · rcases tracks.calling other calls with waits | owns
      · exact .inl waits
      · exact nomatch free.symm.trans owns
  · exact nomatch free.symm.trans (tracks.holders other holds)

theorem Tracks.wait (tracks : Tracks custody a) : Covers (custody.ask a.current) a.wait := by
  refine ⟨fun other waits => ?_, fun other owns => ?_, fun other calls _ => ?_, fun other holds _ => ?_⟩
  · rcases Finset.mem_insert.mp waits with rfl | waits
    · exact Finset.mem_insert_self ..
    · exact Finset.mem_insert_of_mem (tracks.waiting other waits)
  · exact (tracks.owner other owns).imp_left Finset.mem_insert_of_mem
  · rcases Finset.mem_insert.mp calls with rfl | calls
    · exact .inl (Finset.mem_insert_self ..)
    · exact (tracks.calling other calls).imp_left Finset.mem_insert_of_mem
  · exact tracks.holders other holds

private theorem Tracks.calling_grant (tracks : Tracks custody a) {other : ι} (calls : other ∈ custody.calling)
    (different : a.owner ≠ some other) : other ∈ (a.grant next).waiting ∨ (a.grant next).owner = some other := by
  have waits := (tracks.calling other calls).resolve_right different
  cases next with
  | none => exact .inl waits
  | some next =>
    by_cases same : other = next
    · exact .inr (congrArg some same.symm)
    · exact .inl (Finset.mem_erase_of_ne_of_mem same waits)

private theorem waiting_grant {other : ι} (waits : other ∈ (a.grant next).waiting) : other ∈ a.waiting := by
  cases next with
  | none => exact waits
  | some next => exact Finset.mem_of_mem_erase waits

private theorem owner_grant (eligible : a.Eligible next) {other : ι} (owns : (a.grant next).owner = some other) :
    other ∈ a.waiting := by
  cases next with
  | none => cases owns
  | some next => exact Option.some.inj owns ▸ eligible.1

theorem Tracks.grant (tracks : Tracks custody a) (owns : a.owner = some a.current) (eligible : a.Eligible next) :
    Covers (custody.giveUp a.current) (a.grant next) := by
  refine ⟨fun other waits => ?_, fun other owned => ?_, fun other calls _ => ?_, fun other holds _ => ?_⟩
  · exact tracks.waiting other (waiting_grant waits)
  · exact .inl (tracks.waiting other (owner_grant eligible owned))
  · apply tracks.calling_grant calls
    intro owned
    exact tracks.running (Option.some.inj (owns.symm.trans owned) ▸ calls)
  · obtain ⟨different, holds⟩ := Finset.mem_erase.mp holds
    exact absurd (Option.some.inj (owns.symm.trans (tracks.holders other holds))).symm different

theorem Tracks.leave (tracks : Tracks custody a) (eligible : a.Eligible next) :
    Covers custody ((a.surrender id next).drop id) := by
  have others : ∀ other, (((a.surrender id next).drop id).tasks other).isSome → other ≠ id := by
    rintro other alive rfl
    simp [Guarded.drop, Scheduler.tasks_drop] at alive
  by_cases owns : a.owner = some id
  · have passes : a.surrender id next = a.grant next := if_pos owns
    rw [passes] at others ⊢
    refine ⟨fun other waits => ?_, fun other owned => ?_, fun other calls alive => ?_, fun other holds alive => ?_⟩
    · exact tracks.waiting other (waiting_grant (Finset.mem_of_mem_erase waits))
    · exact .inl (tracks.waiting other (owner_grant eligible owned))
    · have different := others other alive
      have away : a.owner ≠ some other := fun owned => different (Option.some.inj (owned.symm.trans owns))
      exact (tracks.calling_grant calls away).imp_left (Finset.mem_erase_of_ne_of_mem different)
    · exact absurd (Option.some.inj ((tracks.holders other holds).symm.trans owns)) (others other alive)
  · have keeps : a.surrender id next = a := if_neg owns
    rw [keeps] at others ⊢
    refine ⟨fun other waits => ?_, tracks.owner, fun other calls alive => ?_, fun other holds _ => ?_⟩
    · exact tracks.waiting other (Finset.mem_of_mem_erase waits)
    · exact (tracks.calling other calls).imp_left (Finset.mem_erase_of_ne_of_mem (others other alive))
    · exact tracks.holders other holds

end rules
end Custody
end RoundRobin
