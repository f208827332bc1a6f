import Uthreads.Nim.Proofs.Placement

/-! Runs of nim/uthreads.cpp: every state that is reached implements a scheduler
in which everybody is in one place. -/

namespace Uthreads.Nim
open OrderedMap RoundRobin Relational Transition

variable {ε : Type} {s s' start final : State ε}

abbrev History (ε : Type) := List (Move (State ε) (Event ε))

theorem Valid.sane (valid : Valid s) : Sane (abstraction s) := by
  refine ⟨valid.placed, ?_, fun tid live => ?_⟩
  · obtain ⟨pointer, files⟩ := valid.filed.exists_files valid.main.1
    obtain ⟨thread, found, -⟩ := files.found
    simp [abstraction, State.thread, files.1, found, valid.main.2]
  · rw [abstraction, Option.isSome_map] at live
    exact mem_allIds.mpr (valid.ids tid (valid.filed.thread_isSome.mp live))

theorem Implements.valid (implements : Implements s (abstraction s)) (current : s.Files (abstraction s).current s.running)
    (sane : Sane (abstraction s)) : Valid s := by
  have lives : ∀ tid, s.live tid ↔ ((abstraction s).tasks tid).isSome := fun tid => by
    rw [← implements.filed.thread_isSome, abstraction, Option.isSome_map]
  have main := sane.main
  rw [abstraction, Option.map_map, Option.map_eq_some_iff] at main
  obtain ⟨thread, -, free⟩ := main
  refine ⟨implements.filed, current, sane.placed, ⟨(lives 0).mpr sane.main_live, of_decide_eq_false free⟩, ?_⟩
  exact fun tid live => mem_allIds.mp (sane.ids tid ((lives tid).mp live))

/-- A call that does not halt is a move of the scheduler. -/
theorem Valid.step (valid : Valid s) {event : Event ε} (taken : Takes s event s') :
    Valid s' ∧ event.op.spec (event.choice.next s) (abstraction s) = .ok (event.reply.value, abstraction s') := by
  obtain ⟨fits, called⟩ := taken
  rcases (call_related valid fits event.op event.here).outcome with
    ⟨halt, halted, -⟩ | ⟨⟨reply, state⟩, ⟨value, a⟩, done, specified, same, implements, current⟩
  · exact nomatch halted.symm.trans called
  · obtain ⟨rfl, rfl⟩ := Prod.mk.inj (Except.ok.inj (done.symm.trans called))
    obtain ⟨filed, rfl⟩ := implements
    have sane := valid.sane.step (eligible valid.filed fits) (ruled_of_spec specified)
    exact ⟨Implements.valid ⟨filed, rfl⟩ current sane, same ▸ specified⟩

theorem Valid.ruled (valid : Valid s) {event : Event ε} (taken : Takes s event s') :
    Ruled (event.choice.next s) (abstraction s) event.op event.reply.value (abstraction s') :=
  ruled_of_spec (valid.step taken).2

section init

structure Fresh (s : State ε) (address : Pointer) (main : Thread ε) : Prop where
  heap : s.heap = Function.update (fun _ => none) address (some main)
  allThreads : s.allThreads = (∅ : Std.ExtTreeMap Int Pointer).insert 0 address
  running : s.running = address
  ready : s.ready = []
  blocked : s.blocked = ∅
  mutexBlocked : s.mutexBlocked = ∅
  mutex : s.mutex = ⟨false, nullptr⟩
  total : s.totalQuantum = 1

theorem uthreadInit_fresh {quantumUsecs : Int} {address : Pointer} {here : Context ε} {mask : Finset Signal}
    (done : uthreadInit quantumUsecs address here (.blank mask) = (.returns success, s)) :
    Fresh s address (.main here) ∧ s.set = {sigvtalrm} := by
  unfold uthreadInit at done
  split at done
  next => cases done
  next =>
    cases done
    exact ⟨⟨rfl, rfl, rfl, rfl, rfl, rfl, rfl, rfl⟩, rfl⟩

theorem Initialized.fresh (initialized : Initialized s) :
    ∃ address here, address ≠ nullptr ∧ Fresh s address (.main here) := by
  obtain ⟨quantumUsecs, address, here, mask, notNull, done⟩ := initialized
  exact ⟨address, here, notNull, (uthreadInit_fresh done).1⟩

theorem Initialized.implements (initialized : Initialized s) : Implements s specInit ∧ s.Files 0 s.running := by
  obtain ⟨address, here, notNull, fresh⟩ := initialized.fresh
  have table : ∀ tid : Int, s.allThreads[tid]? = if tid = 0 then some address else none := fun tid => by
    rw [fresh.allThreads, getElem?_insert]
    simp
  have main : s.heap address = some (.main here) := by rw [fresh.heap, Function.update_self]
  have files : s.Files 0 address := ⟨table 0, congrArg (Option.map Thread.id) main⟩
  refine ⟨⟨⟨?_, fun tid pointer found => ?_, ?_, ?_, ?_, ?_, fun _ => congrArg _ fresh.mutex⟩, ?_⟩, fresh.running ▸ files⟩
  · rw [fresh.heap, Function.update_of_ne (Ne.symm notNull)]
  · rw [table] at found
    split at found
    · rename_i zero
      obtain rfl := Option.some.inj found
      exact zero ▸ files.2
    · cases found
  · simp [fresh.ready]
  · simp [fresh.blocked]
  · simp [fresh.mutexBlocked]
  · simp [fresh.mutex]
  · ext1
    · funext tid
      by_cases zero : tid = 0
      · simp [abstraction, State.thread, table, zero, main, fresh.blocked, specInit, Uthreads.specInit, Thread.main]
      · simp [abstraction, State.thread, table, zero, specInit, Uthreads.specInit]
    · exact (congrArg s.idOf fresh.running).trans files.idOf
    · exact congrArg (List.map s.idOf) fresh.ready
    · exact fresh.total
    · simp [abstraction, fresh.mutex, specInit]
    · simp [abstraction, fresh.mutexBlocked, specInit]

theorem specInit_sane : Sane specInit := by
  have tasks : ∀ tid, specInit.tasks tid = if tid = 0 then some ⟨false, none, 1⟩ else none := fun _ => rfl
  have current : specInit.current = 0 := rfl
  refine ⟨⟨List.nodup_nil, fun tid => ?_, ?_, nofun, nofun, fun _ => rfl⟩, by rw [tasks]; rfl, fun tid live => ?_⟩
  · have alone : tid ≠ 0 → ¬ specInit.Runnable tid := fun other runnable => by
      simpa [tasks, other] using runnable.live
    simp only [specInit, Uthreads.specInit, List.not_mem_nil, false_iff, not_and]
    exact fun other => alone fun zero => other (congrArg some zero.symm)
  · rintro tid same
    obtain rfl := Option.some.inj same
    exact ⟨rfl, Finset.notMem_empty _⟩
  · rw [tasks] at live
    split at live
    · rename_i zero
      exact zero ▸ by decide
    · cases live

theorem Initialized.valid (initialized : Initialized s) : Valid s := by
  obtain ⟨⟨filed, same⟩, current⟩ := initialized.implements
  exact Implements.valid ⟨filed, rfl⟩ (same ▸ current) (same ▸ specInit_sane)

end init

theorem run_valid {history : History ε} (initialized : Initialized start) (run : Run Takes start history final) :
    Valid final :=
  run.invariant (fun _ => True) (fun _ _ => trivial) Valid initialized.valid fun _ _ taken valid => (valid.step taken).1

section perform

instance (choice : Choice) (s : State ε) : Decidable (choice.Fits s) :=
  decidable_of_iff (choice.address ≠ nullptr ∧ (s.heap choice.address).isNone ∧ choice.order.Perm s.mutexBlocked.toList)
    ⟨fun ⟨notNull, fresh, order⟩ => ⟨notNull, Option.isNone_iff_eq_none.mp fresh, order⟩,
      fun fits => ⟨fits.notNull, Option.isNone_iff_eq_none.mpr fits.fresh, fits.order⟩⟩

def Choice.plain (s : State ε) : Choice := ⟨s.allThreads.size + 1, s.mutexBlocked.toList⟩

private def nextCall (s : State ε) (call : Op ε × Context ε) : Option (Event ε × State ε) :=
  if (Choice.plain s).Fits s then
    (call.1.call (.plain s) call.2 s).toOption.map fun done => (⟨call.1, .plain s, call.2, done.1⟩, done.2)
  else none

private theorem nextCall_takes (s : State ε) (call : Op ε × Context ε) (event : Event ε) (s' : State ε)
    (taken : nextCall s call = some (event, s')) : Takes s event s' := by
  unfold nextCall at taken
  split at taken
  next fits =>
    obtain ⟨⟨reply, after⟩, done, same⟩ := Option.map_eq_some_iff.mp taken
    cases same
    exact ⟨fits, Fallible.toOption_ok.mp done⟩
  next => cases taken

def perform (s : State ε) (calls : List (Op ε × Context ε)) : Option (History ε × State ε) := compute nextCall s calls

theorem perform_tested (s : State ε) (calls : List (Op ε × Context ε)) (test : History ε → State ε → Bool)
    (passed : (perform s calls).any (fun done => test done.1 done.2) = true) :
    ∃ history final, Run Takes s history final ∧ test history final = true :=
  compute_tested nextCall_takes s calls test passed

def tries (s : State ε) (op : Op ε) (here : Context ε) (test : Reply → State ε → Bool) : Bool :=
  decide ((Choice.plain s).Fits s) && match op.call (.plain s) here s with
    | .error _ => false
    | .ok (reply, after) => test reply after

theorem takes_of_tries {op : Op ε} {here : Context ε} {test : Reply → State ε → Bool} (passed : tries s op here test = true) :
    ∃ reply after, Takes s ⟨op, .plain s, here, reply⟩ after ∧ test reply after = true := by
  obtain ⟨fits, passed⟩ := (Bool.and_eq_true ..).mp passed
  split at passed
  next => cases passed
  next reply after called => exact ⟨reply, after, ⟨of_decide_eq_true fits, called⟩, passed⟩

def booted : State Unit := (uthreadInit 1000000 1 ⟨0, ()⟩ (.blank ∅)).2

theorem booted_initialized : Initialized booted := ⟨1000000, 1, ⟨0, ()⟩, ∅, by decide, rfl⟩

end perform
end Uthreads.Nim
