import Mathlib.Data.List.Count
import Uthreads.Library.Transition
import Uthreads.Proofs.Calls

/-! Runs of library calls and preemptions from a successful `uthread_init`, and
the two invariants that hold along them. -/

namespace Uthreads
open Fallible Transition

variable {ε : Type} {s s' start final : State ε}

abbrev History (ε : Type) := List (Move (State ε) (Event ε))

def switched (move : Move (State ε) (Event ε)) : Bool := move.label.op.switching move.before

def switches (history : History ε) : Nat := history.countP switched

/-- No move terminates a thread that is ASLEEP. -/
def Sparing (history : History ε) : Prop := ∀ move ∈ history, move.label.op.Spares move.before

@[simp] theorem switches_nil : switches ([] : History ε) = 0 := rfl

theorem switches_append (first last : History ε) : switches (first ++ last) = switches first + switches last :=
  List.countP_append

theorem switches_concat (history : History ε) (event : Event ε) :
    switches (history ++ [⟨s, event, s'⟩]) = switches history + if event.op.switching s = true then 1 else 0 := by
  rw [switches_append]
  exact congrArg (switches history + ·) List.countP_singleton

section init

private theorem mem_foldl_insert (ids : List Int) (free : Std.ExtTreeSet Int) (tid : Int) :
    tid ∈ ids.foldl (fun free id => free.insert id) free ↔ tid ∈ ids ∨ tid ∈ free := by
  induction ids generalizing free with
  | nil => simp
  | cons id rest ih =>
    rw [List.foldl_cons, ih, Std.ExtTreeSet.mem_insert, Std.compare_eq_iff_eq, List.mem_cons]
    grind

structure Fresh (s : State ε) : Prop where
  status : ∀ tid, s.status tid = if tid = 0 then some .main else none
  quantums : ∀ tid, s.quantums tid = if tid = 0 then some 1 else none
  sleepers : s.sleepers = ∅
  blocked : s.blockedTids = ∅
  ready : s.readyTids = []
  free : ∀ tid, tid ∈ s.freeIds ↔ 1 ≤ tid ∧ tid < maxThreadNum
  total : s.totalQuantums = 1
  running : s.runningTid = 0

theorem Initialized.fresh (initialized : Initialized s) : Fresh s := by
  obtain ⟨quantumUsecs, here, mask, done⟩ := initialized
  unfold uthreadInit at done
  split at done
  next => cases done
  next =>
    cases done
    refine ⟨fun tid => ?_, fun tid => ?_, rfl, rfl, rfl, fun tid => ?_, rfl, rfl⟩
    · by_cases zero : tid = 0 <;> simp [State.status, startTimer, State.blank, UThread.main, zero]
    · by_cases zero : tid = 0 <;> simp [State.quantums, startTimer, State.blank, UThread.main, zero]
    · simp only [startTimer, State.blank, mem_foldl_insert, List.mem_map, List.mem_range]
      constructor
      · rintro (⟨i, inside, rfl⟩ | member)
        · simp only [maxThreadNum] at inside ⊢
          omega
        · simp at member
      · rintro ⟨low, high⟩
        exact .inl ⟨(tid - 1).toNat, by simp only [maxThreadNum] at high ⊢; omega, by simp only [maxThreadNum] at high; omega⟩

theorem Fresh.wellFormed (fresh : Fresh s) : WellFormed s := by
  have live : ∀ tid, s.live tid ↔ tid = 0 := by
    intro tid
    rw [State.live_iff_status, fresh.status]
    split <;> simp [*]
  have status := fresh.status
  constructor
  all_goals simp only [fresh.running, fresh.ready, fresh.sleepers, fresh.blocked, fresh.free, live, status]
  · simp
  · grind
  · grind
  · simp
  · grind
  · grind
  · simp
  · grind
  · simp
  · simp only [maxThreadNum]; omega
  · omega

end init

/-- The containers stay in agreement along every run that spares sleepers. -/
theorem run_wellFormed {history : History ε} (valid : WellFormed start) (run : Run Takes start history final)
    (spared : Sparing history) : WellFormed final :=
  run.invariant (fun move => move.label.op.Spares move.before) spared WellFormed valid
    fun _ spared taken valid => (step_of_call valid.sound taken).wellFormed valid spared

/-- Every run is sound, whomever it terminates. -/
theorem run_sound {history : History ε} (sound : Sound start) (run : Run Takes start history final) : Sound final :=
  run.invariant (fun _ => True) (fun _ _ => trivial) Sound sound
    fun _ _ taken sound => (step_of_call sound taken).sound sound

theorem Initialized.wellFormed (initialized : Initialized s) : WellFormed s := initialized.fresh.wellFormed

theorem Initialized.sound (initialized : Initialized s) : Sound s := initialized.wellFormed.sound

private def nextCall (s : State ε) (call : Op ε × Context ε) : Option (Event ε × State ε) :=
  (call.1.call call.2 s).toOption.map fun done => (⟨call.1, call.2, done.1⟩, done.2)

private theorem nextCall_takes (s : State ε) (call : Op ε × Context ε) (event : Event ε) (s' : State ε)
    (taken : nextCall s call = some (event, s')) : Takes s event s' := by
  obtain ⟨⟨reply, after⟩, done, same⟩ := Option.map_eq_some_iff.mp taken
  cases same
  exact toOption_ok.mp done

def perform (s : State ε) (calls : List (Op ε × Context ε)) : Option (History ε × State ε) := compute nextCall s calls

theorem perform_run {calls : List (Op ε × Context ε)} {history : History ε}
    (performed : perform s calls = some (history, final)) : Run Takes s history final :=
  compute_run nextCall_takes performed

theorem perform_tested (s : State ε) (calls : List (Op ε × Context ε)) (test : History ε → State ε → Bool)
    (passed : (perform s calls).any (fun done => test done.1 done.2) = true) :
    ∃ history final, Run Takes s history final ∧ test history final = true :=
  compute_tested nextCall_takes s calls test passed

instance (history : History ε) : Decidable (Sparing history) :=
  inferInstanceAs (Decidable (∀ move ∈ history, move.label.op.Spares move.before))

def booted : State Unit := (uthreadInit 1000000 ⟨0, ()⟩ (.blank ∅)).2

theorem booted_initialized : Initialized booted := ⟨1000000, ⟨0, ()⟩, ∅, rfl⟩

end Uthreads
