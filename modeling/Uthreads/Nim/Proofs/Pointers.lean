import Uthreads.Nim.Proofs.Memory

/-! Which pointers the statements of nim/uthreads.cpp follow. A statement that does not
go on ends the process, or asks an empty queue for its front. -/

namespace Uthreads.Nim
open Fallible Relational RoundRobin Transition

section call
variable {ε : Type} {s : State ε} {op : Op ε} {choice : Choice} {here : Context ε} {halt : Halt}

/-- The scheduler gets stuck in a dispatch only, and is ended by the termination of main. -/
theorem spec_halts {next : Option Int} {a : Guarded Int} (halted : op.spec next a = .error halt) :
    halt = .emptyReady ∨ halt = .exit success ∧ op = .terminate mainThread := by
  have turned : ∀ {value : Option Int} {a : Guarded Int}, turn value a = .error halt → halt = .emptyReady := by
    intro value a stuck
    unfold turn at stuck
    split at stuck <;> cases stuck
    rfl
  cases op with simp only [Op.spec] at halted
  | spawn | getQuantums => split at halted <;> cases halted
  | resume | mutexUnlock => split at halted <;> cases halted
  | getTid | getTotalQuantums => cases halted
  | preempt => exact .inl (turned halted)
  | terminate tid =>
    split at halted
    next => cases halted
    next =>
      split at halted
      next main =>
        cases halted
        exact .inr ⟨rfl, congrArg Op.terminate main⟩
      next =>
        split at halted
        next => exact .inl (turned halted)
        next => cases halted
  | block tid =>
    split at halted
    next => cases halted
    next =>
      split at halted
      next => exact .inl (turned halted)
      next => cases halted
  | mutexLock =>
    split at halted
    next => cases halted
    next =>
      split at halted
      next => cases halted
      next => exact .inl (turned halted)

private theorem Valid.until_terminate {tid : Int} (valid : Valid s) (fits : choice.Fits s) :
    ∃ switch, (if tid ∉ s.allThreads ∨ tid = mainThread then .ok none
      else do
        let s ← leaveMutex tid choice.order s
        let (toDel, s) ← freeThread tid s
        let current ← s.getId s.running
        pure (if tid = current then some (⟨.none, true, some toDel⟩, s) else none) : Except Halt (Option (Exit × State ε))) =
        .ok switch ∧
      (switch = none → (Op.terminate tid : Op ε).spec (choice.next s) (abstraction s) ≠ .error .emptyReady) := by
  have missing : ((abstraction s).tasks tid).isNone = true ↔ tid ∉ s.allThreads := valid.filed.isNone_tasks
  simp only [Op.spec, missing]
  by_cases absent : tid ∉ s.allThreads
  · exact ⟨none, if_pos (.inl absent), fun _ => by simp [absent]⟩
  by_cases main : tid = mainThread
  · rw [if_neg absent, if_pos main]
    exact ⟨none, if_pos (.inr main), by simp⟩
  obtain ⟨pointer, files⟩ := valid.filed.exists_files (not_not.mp absent)
  obtain ⟨granted, handed, implements, table, heap, running⟩ := leaveMutex_eq valid fits tid
  have files : granted.Files tid pointer := ⟨table ▸ files.1, heap ▸ files.2⟩
  have current : granted.Files (abstraction s).current granted.running :=
    ⟨table ▸ running ▸ valid.current.1, heap ▸ running ▸ valid.current.2⟩
  have id : (granted.withdraw tid).getId (granted.withdraw tid).running = .ok (abstraction s).current := current.getId
  rw [if_neg (not_or.mpr ⟨absent, main⟩), if_neg absent, if_neg main, handed, bind_ok_left,
    freeThread_eq implements.filed files, bind_ok_left]
  simp only [id, bind_ok_left]
  by_cases self : tid = (abstraction s).current
  · exact ⟨_, rfl, by simp [self]⟩
  · exact ⟨_, rfl, fun _ => by simp [self]⟩

private theorem Valid.until_block {tid : Int} (valid : Valid s) {next : Option Int} :
    ∃ switch, (match s.allThreads[tid]? with
      | none => .ok none
      | some thread =>
        if tid = mainThread then .ok none
        else do
          let found ← findIdeque tid s
          pure (if found = none ∧ s.running = thread then some (⟨.blocked, true, none⟩, s) else none) :
            Except Halt (Option (Exit × State ε))) = .ok switch ∧
      (switch = none → (Op.block tid : Op ε).spec next (abstraction s) ≠ .error .emptyReady) := by
  have missing : ((abstraction s).tasks tid).isNone = true ↔ tid ∉ s.allThreads := valid.filed.isNone_tasks
  simp only [Op.spec, missing]
  cases found : s.allThreads[tid]? with
  | none =>
    have absent : tid ∉ s.allThreads := Std.ExtTreeMap.mem_iff_isSome_getElem?.not.mpr (by simp [found])
    exact ⟨none, rfl, fun _ => by simp [absent]⟩
  | some thread =>
    have files := valid.filed.files found
    have present : ¬ tid ∉ s.allThreads := not_not.mpr files.live
    by_cases main : tid = mainThread
    · exact ⟨none, if_pos main, fun _ => by simp [main]⟩
    simp only [if_neg main, findIdeque_eq valid.filed.ready_allocated, bind_ok_left, or_iff_left main, if_neg present]
    refine ⟨_, rfl, fun stays stuck => ?_⟩
    split at stuck
    next self =>
      have running : s.running = thread := valid.current.inj (self ▸ files)
      have unqueued : (s.ready.map s.idOf).idxOf? tid = none := by
        rw [List.idxOf?_eq_none_iff]
        exact fun queued => ((valid.placed.queued tid).mp queued).1 (congrArg some self.symm)
      rw [if_pos ⟨unqueued, running⟩] at stays
      cases stays
    next => cases stuck

private theorem Valid.until_mutexLock (valid : Valid s) {next : Option Int} :
    ∃ switch, (if s.mutex.blocked then do
        let holder ← s.getId s.mutex.threadBlock
        let id ← s.getId s.running
        pure (if holder = id then none
          else some (⟨.mutexBlocked, true, none⟩, { s with mutexBlocked := s.mutexBlocked.insert id s.running }))
      else .ok none : Except Halt (Option (Exit × State ε))) = .ok switch ∧
      (switch = none → (Op.mutexLock : Op ε).spec next (abstraction s) ≠ .error .emptyReady) := by
  simp only [Op.spec]
  cases taken : s.mutex.blocked with
  | false =>
    rw [owner_none taken]
    exact ⟨none, rfl, fun _ => by simp⟩
  | true =>
    obtain ⟨holder, files, owner⟩ := valid.filed.owner taken
    rw [owner]
    simp only [if_true, files.getId, valid.current.getId, bind_ok_left]
    by_cases same : holder = (abstraction s).current
    · exact ⟨_, rfl, fun _ => by simp [same]⟩
    · exact ⟨_, rfl, by simp [same]⟩

/-- In a valid state a call gets to its `switchThread` or to its end. A call that does
not switch does not get stuck. -/
theorem Valid.untilSwitch (valid : Valid s) (fits : choice.Fits s) (op : Op ε) :
    ∃ switch, op.untilSwitch choice.order s = .ok switch ∧
      (switch = none → op.spec (choice.next s) (abstraction s) ≠ .error .emptyReady) := by
  cases op with simp only [Op.untilSwitch]
  | spawn | getQuantums | resume | mutexUnlock =>
    refine ⟨none, rfl, fun _ stuck => ?_⟩
    simp only [Op.spec] at stuck
    split at stuck <;> cases stuck
  | getTid | getTotalQuantums => exact ⟨none, rfl, fun _ => by simp [Op.spec]⟩
  | preempt => exact ⟨_, rfl, by simp⟩
  | terminate tid => exact valid.block.until_terminate fits.block
  | block tid => exact valid.block.until_block
  | mutexLock => exact valid.block.until_mutexLock

theorem deref_error {pointer : Pointer} (halted : s.deref pointer = .error halt) : halt = .badPointer pointer := by
  unfold State.deref at halted
  split at halted
  · exact (Except.error.inj halted).symm
  · cases halted

theorem getId_error {pointer : Pointer} (halted : s.getId pointer = .error halt) : halt = .badPointer pointer := by
  rcases bind_error.mp halted with lost | ⟨thread, -, done⟩
  · exact deref_error lost
  · cases done

end call

section machine
variable {resumption : Resumption} {m m' : Machine} {choice : Choice} {op : Op Unit} {rest : Code} {instr : Instr} {halt : Halt}

private theorem call_halts (valid : Valid m.lib) (fits : choice.Fits m.lib)
    (halted : m.execute choice rest (.call op) = .error halt) : halt = .exit success ∧ op = .terminate 0 := by
  obtain ⟨switch, enters, moving⟩ := valid.untilSwitch fits op.enter
  simp only [Machine.execute, enters, bind_ok_left] at halted
  cases switch with
  | some entry => cases halted
  | none =>
    rcases bind_error.mp halted with halted | ⟨done, -, goes⟩
    · rcases (call_related valid fits op.enter ⟨m.sp, rest⟩).outcome with ⟨other, same, specified⟩ | ⟨done, _, same, -⟩
      · obtain rfl := Except.error.inj (same.symm.trans halted)
        rcases spec_halts specified with rfl | ⟨rfl, main⟩
        · exact absurd specified (moving rfl)
        · refine ⟨rfl, ?_⟩
          cases op <;> cases main
          rfl
      · cases same.symm.trans halted
    · cases goes

/-- A switch that a call begins does not follow a pointer to nowhere. It gets stuck
together with the scheduler. -/
private theorem entered_halts (valid : Valid m.lib) (fits : choice.Fits m.lib)
    (executed : m.execute choice rest (.call op) = .ok m') (halted : m'.completed resumption = .error halt) :
    halt = .emptyReady ∧ op.enter.spec (choice.next m.lib) (abstraction m.lib) = .error .emptyReady := by
  obtain ⟨switch, enters, executed⟩ := bind_ok.mp executed
  cases switch with
  | none =>
    obtain ⟨⟨reply, after⟩, -, same⟩ := bind_ok.mp executed
    cases same
    cases halted
  | some entry =>
    obtain ⟨exit, entered⟩ := entry
    cases executed
    rw [Machine.completed, List.append_assoc, complete_switch] at halted
    have called : op.enter.call choice
        ⟨m.sp, resumption.code (dispatchCode exit.initAlarm exit.toDel ++ (op.afterSwitch ++ rest))⟩ m.lib = .error halt := by
      rw [(untilSwitch_cases enters).call, halted, bind_error_left]
    rcases (call_related valid fits op.enter _).outcome with ⟨other, same, specified⟩ | ⟨done, _, same, -⟩
    · obtain rfl := Except.error.inj (same.symm.trans called)
      rcases spec_halts specified with rfl | ⟨-, main⟩
      · exact ⟨rfl, specified⟩
      · rw [main] at enters
        cases untilSwitch_cases enters with
        | terminate _ notMain => exact absurd rfl notMain
    · cases same.symm.trans called

private theorem switch_halts (stepped : m.stepResuming resumption (.run choice) = some (.error halt))
    (code : m.code = instr :: rest) (inside : inSwitch m.code = true) :
    m.completed resumption = .error halt ∧ (halt = .emptyReady → instr = .takeFront ∧ m.lib.ready = []) := by
  have executed : (∀ goingOut, instr ≠ .saveEnv goingOut) → m.execute choice rest instr = .error halt := by
    intro other
    rw [stepResuming_eq fun choice goingOut rest' _ same => other goingOut (List.cons.inj (code.symm.trans same)).1] at stepped
    simp only [Machine.step, code] at stepped
    split at stepped
    next => cases stepped
    next => exact Option.some.inj stepped
  rw [code] at inside
  unfold Machine.completed
  rw [code]
  cases instr with
  | call | returns | unblock | sigreturn => cases inside
  | saveEnv goingOut =>
    simp only [Machine.stepResuming, code] at stepped
    split at stepped
    next => cases stepped
    next =>
      rcases bind_error.mp (Option.some.inj stepped) with lost | ⟨_, -, goes⟩
      · rcases bind_error.mp lost with gone | ⟨_, -, goes⟩
        · exact ⟨by simp [complete, lost], fun stuck => by cases (deref_error gone).symm.trans stuck⟩
        · cases goes
      · cases goes
  | moveOut moveTo =>
    rcases bind_error.mp (executed (by simp)) with lost | ⟨_, -, goes⟩
    · refine ⟨by simp [complete, lost], fun stuck => ?_⟩
      cases moveTo with simp only [moveOut] at lost
      | blocked | mutexBlocked =>
        rcases bind_error.mp lost with gone | ⟨_, -, goes⟩
        · cases (getId_error gone).symm.trans stuck
        · cases goes
      | ready | running | none => cases lost
    · cases goes
  | takeFront =>
    have executed := executed (by simp)
    simp only [Machine.execute] at executed
    split at executed
    next queue =>
      cases executed
      exact ⟨by simp [complete, queue], fun _ => ⟨rfl, queue⟩⟩
    next => cases executed
  | runTimer | countTotal => cases executed (by simp)
  | delete toDel =>
    rcases bind_error.mp (executed (by simp)) with lost | ⟨_, -, goes⟩
    · refine ⟨by simp [complete, lost], fun stuck => ?_⟩
      unfold delete at lost
      split at lost
      next => cases lost
      next =>
        rcases bind_error.mp lost with gone | ⟨_, -, goes⟩
        · cases (deref_error gone).symm.trans stuck
        · cases goes
    · cases goes
  | startThread =>
    rcases bind_error.mp (executed (by simp)) with gone | ⟨thread, found, goes⟩
    · refine ⟨?_, fun stuck => by cases (deref_error gone).symm.trans stuck⟩
      simp [complete, startThread, gone]
    · simp [startThread, found] at goes

end machine

section run
variable {resumption : Resumption} {start final : Machine} {timeline : List (Move Machine Input)}

theorem run_framed (starts : start.Starts) (run : Run (Machine.StepsResuming resumption) start timeline final)
    (lands : ∀ move ∈ timeline, Lands resumption move) : Unwinding final ∧ (resumption = .afterSwitch → Framed final) :=
  run.invariant (Lands resumption) lands (fun m => Unwinding m ∧ (resumption = .afterSwitch → Framed m))
    ⟨starts.unwinding, fun _ => starts.framed⟩ serializes.preserved

/-- What is left of a switch can only get stuck at an empty queue, and then the
scheduler got stuck in the call or preemption that began it. -/
theorem run_completes (starts : start.Starts) (run : Run (Machine.StepsResuming resumption) start timeline final)
    (lands : ∀ move ∈ timeline, Lands resumption move) {halt : Halt} (halted : final.completed resumption = .error halt) :
    halt = .emptyReady ∧ ∃ earlier call later choice op rest, timeline = earlier ++ call :: later ∧
      call.label = .run choice ∧ call.before.code = .call op :: rest ∧ choice.Fits call.before.lib ∧
      op.enter.spec (choice.next call.before.lib) (abstraction call.before.lib) = .error .emptyReady := by
  induction run with
  | start =>
    obtain ⟨_, _, _, -, -, -, code, -⟩ := starts
    rw [Machine.completed, code] at halted
    cases halted
  | @next trace state label final run taken ih =>
    obtain ⟨earlier, now⟩ := List.forall_mem_append.mp lands
    obtain ⟨unwinding, framed⟩ := run_framed starts run earlier
    cases inside : inSwitch state.code with
    | true =>
      obtain ⟨stuck, first, call, later, choice, op, rest, rfl, begun⟩ :=
        ih earlier (completed_inside taken unwinding framed (now _ (by simp)) inside ▸ halted)
      exact ⟨stuck, first, call, later ++ [⟨state, label, final⟩], choice, op, rest, by simp, begun⟩
    | false =>
      cases seen : committing ⟨state, label, final⟩ with
      | false =>
        have after := ((moves_of_step taken).silent unwinding inside seen).1
        cases (complete_outside after).symm.trans halted
      | true =>
        obtain ⟨choice, op, rest, same, code⟩ := commits_of_committing seen
        obtain rfl : label = .run choice := same
        have valid := (run_serialized starts run earlier (complete_outside inside)).choose_spec.2.1
        have fits := taken.2 choice op rest rfl code
        obtain ⟨stuck, specified⟩ := entered_halts valid fits (execute_of_taken taken code (by simp)) halted
        exact ⟨stuck, trace, ⟨state, .run choice, final⟩, [], choice, op, rest, rfl, rfl, code, fits, specified⟩

/-- In every run whose jumps go to threads that were never switched out, and in every
run at all if contexts are resumed after the switch, no statement follows a pointer to a
thread that is not allocated, wherever the signal arrives. A statement halts if main is
terminated, or if a switch finds the queue empty. -/
theorem halts_at_exit_or_empty_queue {choice : Choice} {halt : Halt} (starts : start.Starts)
    (run : Run (Machine.StepsResuming resumption) start timeline final) (lands : ∀ move ∈ timeline, Lands resumption move)
    (fits : ∀ op rest, final.code = .call op :: rest → choice.Fits final.lib)
    (halted : final.stepResuming resumption (.run choice) = some (.error halt)) :
    halt = .exit success ∧ (∃ rest, final.code = .call (.terminate 0) :: rest) ∨
      halt = .emptyReady ∧ final.lib.ready = [] ∧ ∃ rest, final.code = .takeFront :: rest := by
  cases code : final.code with
  | nil =>
    simp [Machine.stepResuming, Machine.step, code] at halted
  | cons instr rest =>
    cases inside : inSwitch final.code with
    | true =>
      obtain ⟨stuck, front⟩ := switch_halts halted code inside
      obtain rfl := (run_completes starts run lands stuck).1
      obtain ⟨rfl, queue⟩ := front rfl
      exact .inr ⟨rfl, queue, rest, rfl⟩
    | false =>
      have valid := (run_serialized starts run lands (complete_outside inside)).choose_spec.2.1
      have executed : final.execute choice rest instr = .error halt := by
        rw [stepResuming_eq] at halted
        · simp only [Machine.step, code] at halted
          split at halted
          next => cases halted
          next => exact Option.some.inj halted
        · rintro choice goingOut rest' - saves
          rw [saves] at inside
          cases inside
      rw [code] at inside
      cases instr with
      | call op =>
        obtain ⟨rfl, rfl⟩ := call_halts valid (fits op rest code) executed
        exact .inl ⟨rfl, rest, rfl⟩
      | returns | unblock | sigreturn => cases executed
      | _ => cases inside

def halts (m : Machine) (choice : Choice) (halt : Halt) : Bool :=
  match m.stepResuming .afterSwitch (.run choice) with
  | some (.error other) => other = halt
  | _ => false

theorem of_halts {m : Machine} {choice : Choice} {halt : Halt} (tested : halts m choice halt = true) :
    m.stepResuming .afterSwitch (.run choice) = some (.error halt) := by
  unfold halts at tested
  split at tested
  next other halted => exact of_decide_eq_true tested ▸ halted
  next => cases tested

def deadlocking : List Input :=
  [.call (.spawn ()), .run ⟨2, []⟩, .run ⟨3, []⟩] ++ expiry ++ [.call .mutexLock, .run ⟨3, []⟩, .run ⟨3, []⟩] ++
    expiry ++ List.replicate 2 (.run ⟨3, []⟩) ++ [.call .mutexLock] ++ List.replicate 9 (.run ⟨3, []⟩) ++
    [.call (.block 1), .run ⟨3, [(0, 1)]⟩, .run ⟨3, []⟩, .run ⟨3, []⟩]

theorem halts_at_exit_or_empty_queue_deadlock : ∃ final : Machine,
    final.stepResuming .afterSwitch (.run ⟨3, []⟩) = some (.error .emptyReady) ∧ final.lib.ready = [] := by
  obtain ⟨timeline, final, run, tested⟩ := compute_tested (next_sound .afterSwitch) started deadlocking
    (fun _ final => final.code.head? = some .takeFront ∧ halts final ⟨3, []⟩ .emptyReady) (by decide +kernel)
  obtain ⟨front, stuck⟩ := of_decide_eq_true tested
  obtain ⟨rest, code⟩ := List.head?_eq_some_iff.mp front
  have halted := of_halts stuck
  rcases halts_at_exit_or_empty_queue started_starts run (fun _ _ => .inl rfl) (fun op later same => by
    cases code.symm.trans same) halted with ⟨exits, -⟩ | ⟨-, queue, -⟩
  · cases exits
  · exact ⟨final, halted, queue⟩

end run
end Uthreads.Nim
