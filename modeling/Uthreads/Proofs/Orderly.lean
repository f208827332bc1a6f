import Uthreads.Proofs.Phases
import Uthreads.Proofs.Runs

/-! The invariant of runs whose handlers start outside of switches. It says how
far the code is, how it will leave the mask, whom it will count and jump to, and
that every saved context can be resumed in the same sense. -/

namespace Uthreads
open Transition

/-- The thread that `code` counts and jumps to is the one that runs at that time.
Until a context is saved that is its owner afterwards. -/
def Captures : Int → Code → Prop
  | _, [] => True
  | _, .insertReadyToRunning :: rest => ∀ next, Captures next rest
  | _, .saveEnvironment origTid :: rest => Captures origTid rest
  | _, .startRunning :: _ => True
  | running, .countQuantum tid :: rest => tid = running ∧ Captures running rest
  | running, .siglongjmp tid :: _ => tid = running
  | running, _ :: rest => Captures running rest

/-- A context that the library may have left in the record of `tid`. -/
structure Resumable (tid : Int) (env : SigjmpBuf Code) : Prop where
  restores : Restores (decide (sigvtalrm ∈ env.savedMask)) env.pc
  calm : Calm env.pc
  captures : Captures tid env.pc

structure Orderly (m : Machine) : Prop where
  phase : Phase m.lib m.code
  restores : Restores m.masked m.code
  captures : Captures m.lib.runningTid m.code
  saved : ∀ tid env, m.lib.env tid = some env → Resumable tid env

section captures
variable {running : Int} {rest : Code}

private theorem follow_captures (captures : Captures running rest) (op : Op Unit) (next : Next) :
    Captures running (op.follow next ++ rest) := by
  cases next with
  | fails message => exact captures
  | finishes result => cases masks : op.masks <;> simpa [Op.follow, masks, Captures] using captures
  | switches target => cases op <;> simpa [Op.follow, switchThreadsCode, Captures] using captures

private theorem leave_captures (captures : Captures running rest) (target : Status) :
    Captures running (leaveCode target running rest) := by
  cases target <;> simp [leaveCode, Captures, captures]

end captures

section step
variable {m m' : Machine} {input : Input} {rest : Code} {instr : Instr}

private theorem Executes.captures (executed : Executes m rest instr m') (captures : Captures m.lib.runningTid (instr :: rest))
    (saved : ∀ tid env, m.lib.env tid = some env → Captures tid env.pc) : Captures m'.lib.runningTid m'.code := by
  cases executed with
  | body branch =>
    have tail : Captures m.lib.runningTid rest := captures
    exact branch.runningTid_eq.symm ▸ follow_captures tail _ _
  | leave =>
    have tail : Captures m.lib.runningTid rest := captures
    exact leave_captures tail _
  | insertEmpty | insertFront => exact captures _
  | saveEnvironment => trivial
  | startRunning => exact ⟨rfl, rfl⟩
  | countQuantum => exact captures.2
  | siglongjmp found => exact (show _ = m.lib.runningTid from captures) ▸ saved _ _ found
  | _ => exact captures

private theorem Orderly.saves (orderly : Orderly m) {tid : Int} (code : m.code = .saveEnvironment tid :: rest) :
    Resumable tid ⟨⟨m.sp, rest⟩, m.lib.mask⟩ := by
  have phase := orderly.phase
  have restores := orderly.restores
  have captures := orderly.captures
  rw [code] at phase restores captures
  refine ⟨restores.2, ?_, captures⟩
  cases phase with
  | settled valid calm => simp at calm
  | saving valid live calm => exact calm

theorem Moves.orderly (moves : Moves m input m') (undisturbed : Undisturbed m input) (orderly : Orderly m) :
    Orderly m' := by
  have restored := moves.restored ⟨orderly.restores, fun tid env found => (orderly.saved tid env found).restores⟩
  refine ⟨?_, restored.current, ?_, fun tid env found => ?_⟩
  · exact moves.phase undisturbed orderly.restores (fun tid env found => (orderly.saved tid env found).calm) orderly.phase
  · have captures := orderly.captures
    cases moves with
    | expire | deliver | sigprocmask => exact captures
    | run code executed =>
      rw [code] at captures
      exact executed.captures captures fun tid env found => (orderly.saved tid env found).captures
    | @call op user other => cases masks : op.masks <;> simp [Op.code, masks, Captures]
  · rcases moves.saved_from found with kept | rfl | ⟨rest, code, rfl⟩
    · exact orderly.saved tid env kept
    · exact ⟨trivial, calm_nil, trivial⟩
    · exact orderly.saves code

/-- User code, in any well-formed state whose saved contexts can be resumed. -/
theorem orderly_of_user (user : m.code = []) (valid : WellFormed m.lib)
    (saved : ∀ tid env, m.lib.env tid = some env → Resumable tid env) : Orderly m := by
  refine ⟨?_, ?_, ?_, saved⟩
  all_goals rw [user]
  · exact .settled valid calm_nil
  all_goals trivial

theorem Machine.Starts.orderly (starts : m.Starts) : Orderly m := by
  refine orderly_of_user starts.user ?_ fun tid env found => ?_
  · obtain ⟨quantumUsecs, mask, done, -⟩ := starts
    exact Initialized.wellFormed ⟨quantumUsecs, _, mask, done⟩
  · obtain ⟨rfl, rfl⟩ := starts.env_main found
    exact ⟨trivial, calm_nil, trivial⟩

end step

section faults
variable {m : Machine} {rest : Code} {instr : Instr}

private theorem Phase.setStatus_live {s : State Code} {status : Status} (phase : Phase s (.setStatus status :: rest)) :
    s.live s.runningTid := by
  cases phase with
  | settled valid => exact valid.running_live
  | marking other parked live => exact live
  | starting chosen => exact chosen.present _ rfl

theorem Phase.wellFormed {s : State Code} (phase : Phase s (instr :: rest))
    (kind : (∃ op, instr = .body op) ∨ instr = .startRunning ∨ ∃ tid, instr = .countQuantum tid ∨ instr = .siglongjmp tid) :
    WellFormed s := by
  rcases kind with ⟨op, rfl⟩ | rfl | ⟨tid, rfl | rfl⟩
  all_goals cases phase with
  | settled valid => exact valid

/-- In an orderly process every statement finds the records it needs, but for two
kinds: main may end the process, and a return may read a record that was looked for
or created while the signal was still masked. -/
theorem Orderly.executes (orderly : Orderly m) (code : m.code = instr :: rest) :
    (∃ m', m.execute rest instr = .ok m') ∨ instr = .body (.terminate 0) ∨
      ∃ op result tid, instr = .returns op result ∧ result.record = some tid := by
  have phase := orderly.phase
  have captures := orderly.captures
  rw [code] at phase captures
  cases instr with
  | body op =>
    by_cases ends : op = .terminate 0
    · exact .inr (.inl (congrArg _ ends))
    · have goesOn : op.enter ≠ .terminate 0 := by
        intro same
        cases op <;> simp_all [Op.enter]
      obtain ⟨next, lib, branch⟩ := (phase.wellFormed (.inl ⟨op, rfl⟩)).branch op.enter goesOn
      exact .inl ⟨_, by simp only [Machine.execute, body_of_branch branch]; rfl⟩
  | returns op result =>
    cases result with
    | value => exact .inl ⟨_, rfl⟩
    | newThread tid | quantumsOf tid => exact .inr (.inr ⟨op, _, tid, rfl, rfl⟩)
  | forSleepers its =>
    cases its with
    | nil => exact .inl ⟨_, rfl⟩
    | cons it next =>
      have live : it.2 = 0 → m.lib.live it.1 := by
        intro ended
        cases phase with
        | settled valid calm => simp at calm
        | @counting target rest s₀ done its leaving entries reached calm =>
          have member : it ∈ s₀.sleepers.toList := by simp [entries]
          have found := Std.ExtTreeMap.mem_toList_iff_getElem?_eq_some.mp member
          exact reached ▸ (State.live_foldl_wake ..).mpr (leaving.consistent.sleepersLive it.1 (ended ▸ found))
      have updated := State.updateSleeper_ok.mpr ⟨live, rfl⟩
      exact .inl ⟨_, by simp only [Machine.execute, updated]; rfl⟩
  | setStatus status =>
    have updated : m.lib.setStatus m.lib.runningTid status = .ok _ := State.setStatus_ok.mpr ⟨phase.setStatus_live, rfl⟩
    exact .inl ⟨_, by simp only [Machine.execute, updated]; rfl⟩
  | insertReadyToRunning =>
    left
    cases queue : m.lib.readyTids with
    | nil | cons => exact ⟨_, by simp only [Machine.execute, queue]; rfl⟩
  | saveEnvironment origTid =>
    have live : m.lib.live origTid := by
      cases phase with
      | settled valid calm => simp at calm
      | saving valid live calm => exact live
    exact .inl ⟨_, by simp only [Machine.execute, Uthreads.saveEnvironment, State.updateThread_live live]; rfl⟩
  | startRunning =>
    obtain ⟨thread, found⟩ := Option.isSome_iff_exists.mp (phase.wellFormed (.inr (.inl rfl))).running_live
    exact .inl ⟨_, by simp only [Machine.execute, found]; rfl⟩
  | countQuantum tid =>
    have live : m.lib.live tid := captures.1 ▸ (phase.wellFormed (.inr (.inr ⟨tid, .inl rfl⟩))).running_live
    exact .inl ⟨_, by simp only [Machine.execute, State.updateThread_live live]; rfl⟩
  | siglongjmp tid =>
    have same : tid = m.lib.runningTid := captures
    obtain ⟨thread, found⟩ := Option.isSome_iff_exists.mp (phase.wellFormed (.inr (.inr ⟨tid, .inr rfl⟩))).running_live
    exact .inl ⟨_, by simp only [Machine.execute, same, found]; rfl⟩
  | _ => exact .inl ⟨_, rfl⟩

/-- So the only missing record that can ever be read is that of a thread whose
quantums somebody is about to return. -/
theorem Orderly.faults (orderly : Orderly m) {input : Input} {tid : Int}
    (halted : m.step input = some (.error (.nullRecord tid))) :
    ∃ op rest, m.code = .returns op (.quantumsOf tid) :: rest := by
  cases input with simp only [Machine.step] at halted
  | expire => cases halted
  | deliver | call | sigprocmask => split at halted <;> cases halted
  | run =>
    split at halted
    next => cases halted
    next instr rest code =>
      split at halted
      next => cases halted
      next =>
        have halted := Option.some.inj halted
        rcases orderly.executes code with ⟨m', executed⟩ | rfl | ⟨op, result, other, rfl, record⟩
        · cases executed.symm.trans halted
        · cases halted
        · cases result with
          | value => cases record
          | newThread =>
            simp only [Machine.execute, Returned.eval] at halted
            split at halted <;> cases halted
          | quantumsOf =>
            simp only [Machine.execute, Returned.eval] at halted
            split at halted <;> cases halted
            exact ⟨op, rest, code⟩

end faults

theorem run_orderly {start final : Machine} {timeline : Timeline} (orderly : Orderly start)
    (run : Run Machine.Steps start timeline final)
    (undisturbed : ∀ move ∈ timeline, Undisturbed move.before move.label) : Orderly final :=
  run.invariant (fun move => Undisturbed move.before move.label) undisturbed Orderly orderly
    fun _ undisturbed taken orderly => (moves_of_step taken).orderly undisturbed orderly

end Uthreads
