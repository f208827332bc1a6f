import Uthreads.Library.Transition
import Uthreads.Model.Machine
import Uthreads.Proofs.Branches

/-! The statements of the machine by rules, and what they do to the contexts
that are saved in the thread table. -/

namespace Uthreads
open Fallible Transition

section env
variable {ε : Type} (s : State ε) (tid other : Int) (f : UThread ε → UThread ε)

namespace State

theorem env_modifyThread (kept : ∀ thread, (f thread).env = thread.env) : (s.modifyThread tid f).env other = s.env other :=
  s.map_modifyThread tid other f UThread.env kept

theorem env_withStatus (status : Status) : (s.withStatus tid status).env other = s.env other :=
  s.env_modifyThread tid other _ fun _ => rfl

theorem env_wake (it : Int × Int) : (s.wake it).env other = s.env other := by
  simp only [wake, env]
  split
  · by_cases same : other = it.1
    · subst same; simp [Function.comp_def]
    · simp [same]
  · rfl

theorem env_saved (here : Context ε) : (s.saved tid here).env other =
    if other = tid then (s.env other).map fun _ => { here with savedMask := s.mask } else s.env other := by
  simp only [saved, env, allThreads_modifyThread]
  split
  · rename_i same; subst same; simp [Function.comp_def]
  · rfl

@[simp] theorem masked_blockVtAlarm : sigvtalrm ∈ (blockVtAlarm s).mask := Finset.mem_insert_self _ _

@[simp] theorem unmasked_unblockVtAlarm : sigvtalrm ∉ (unblockVtAlarm s).mask := Finset.notMem_erase _ _

theorem live_iff_env {s : State ε} {tid : Int} : s.live tid ↔ ∃ env, s.env tid = some env := by
  simp [live, env, Option.isSome_iff_exists]

end State

theorem Branch.env {s s' : State ε} {op : Op ε} {next : Next} (branch : Branch s op next s') (tid : Int) :
    s'.env tid = s.env tid ∨ s'.env tid = none ∨
      ∃ entryPoint, op = .spawn (some entryPoint) ∧ ¬ s.live tid ∧ s'.env tid = some (UThread.spawned tid entryPoint).env := by
  have removed : ∀ other, (s.remove other).env tid = s.env tid ∨ (s.remove other).env tid = none := by
    intro other
    by_cases same : tid = other <;> simp [State.remove, State.env, same]
  cases branch with
  | @spawn new entryPoint least =>
    simp only [State.enroll, State.emplaceThread, State.env]
    obtain found | ⟨thread, found⟩ := Option.eq_none_or_eq_some (s.allThreads new)
    · by_cases same : tid = new
      · exact .inr (.inr ⟨entryPoint, rfl, by simp [State.live, found, same], by simp [found, same]⟩)
      · exact .inl (by simp [found, same])
    · exact .inl (by simp [found])
  | terminateRunning | terminateReady | terminateBlocked | terminateRest => exact (removed _).imp_right .inl
  | blockReady | resumeBlocked | sleep => exact .inl (State.env_withStatus ..)
  | _ => exact .inl rfl

end env

inductive Executes (m : Machine) (rest : Code) : Instr → Machine → Prop where
  | blockVtAlarm : Executes m rest .blockVtAlarm { m with lib := blockVtAlarm m.lib, code := rest }
  | unblockVtAlarm : Executes m rest .unblockVtAlarm { m with lib := unblockVtAlarm m.lib, code := rest }
  | body {op next lib} (branch : Branch m.lib op.enter next lib) :
      Executes m rest (.body op) { m with lib, code := op.follow next ++ rest }
  | returns {op result value} (read : result.eval m.lib = .ok value) :
      Executes m rest (.returns op result) { m with code := rest }
  | fails {op message} : Executes m rest (.fails op message) { m with code := rest }
  | sigreturn {mask} : Executes m rest (.sigreturn mask) { m with lib := { m.lib with mask }, code := rest }
  | updateSleepers : Executes m rest .updateSleepers { m with code := .forSleepers m.lib.sleepers.toList :: rest }
  | sleepersDone : Executes m rest (.forSleepers []) { m with code := rest }
  | sleeper {it next} (live : it.2 = 0 → m.lib.live it.1) :
      Executes m rest (.forSleepers (it :: next)) { m with lib := m.lib.wake it, code := .forSleepers next :: rest }
  | leave {target} : Executes m rest (.leave target) { m with code := leaveCode target m.lib.runningTid rest }
  | emplaceRunning : Executes m rest .emplaceRunning
      { m with lib := { m.lib with readyTids := m.lib.readyTids ++ [m.lib.runningTid] }, code := rest }
  | insertRunning : Executes m rest .insertRunning
      { m with lib := { m.lib with blockedTids := insert m.lib.runningTid m.lib.blockedTids }, code := rest }
  | setStatus {status} (live : m.lib.live m.lib.runningTid) :
      Executes m rest (.setStatus status) { m with lib := m.lib.withStatus m.lib.runningTid status, code := rest }
  | insertEmpty (queue : m.lib.readyTids = []) : Executes m rest .insertReadyToRunning
      { m with lib := { m.lib with runningTid := 0 }, code := rest }
  | insertFront {tid others} (queue : m.lib.readyTids = tid :: others) : Executes m rest .insertReadyToRunning
      { m with lib := { m.lib with runningTid := tid }, code := .popFront :: .setStatus .running :: rest }
  | popFront : Executes m rest .popFront
      { m with lib := { m.lib with readyTids := m.lib.readyTids.tail }, code := rest }
  | countTotal : Executes m rest .countTotal
      { m with lib := { m.lib with totalQuantums := m.lib.totalQuantums + 1 }, code := rest }
  | saveEnvironment {origTid} (live : m.lib.live origTid) : Executes m rest (.saveEnvironment origTid)
      { m with lib := m.lib.saved origTid ⟨m.sp, rest⟩, code := [.unblockVtAlarm, .startRunning] }
  | startRunning (live : m.lib.live m.lib.runningTid) : Executes m rest .startRunning
      { m with code := [.countQuantum m.lib.runningTid, .siglongjmp m.lib.runningTid] }
  | countQuantum {tid} (live : m.lib.live tid) : Executes m rest (.countQuantum tid)
      { m with
        lib := m.lib.modifyThread tid fun thread =>
          { thread with numOfQuantumsRunning := thread.numOfQuantumsRunning + 1 }
        code := rest }
  | siglongjmp {tid env} (saved : m.lib.env tid = some env) : Executes m rest (.siglongjmp tid)
      { m with lib := { m.lib with mask := env.savedMask }, sp := env.sp, code := env.pc }

theorem executes_of_execute {m m' : Machine} {rest : Code} {instr : Instr}
    (executed : m.execute rest instr = .ok m') : Executes m rest instr m' := by
  cases instr with
  | body op =>
    obtain ⟨⟨next, lib⟩, body, same⟩ := bind_ok.mp executed
    cases same
    exact .body (branch_of_body body)
  | returns op result =>
    obtain ⟨value, read, same⟩ := bind_ok.mp executed
    cases same
    exact .returns read
  | forSleepers its =>
    cases its with
    | nil => cases executed; exact .sleepersDone
    | cons it next =>
      obtain ⟨lib, updated, same⟩ := bind_ok.mp executed
      obtain ⟨live, rfl⟩ := State.updateSleeper_ok.mp updated
      cases same
      exact .sleeper live
  | setStatus status =>
    obtain ⟨lib, updated, same⟩ := bind_ok.mp executed
    obtain ⟨live, rfl⟩ := State.setStatus_ok.mp updated
    cases same
    exact .setStatus live
  | insertReadyToRunning =>
    simp only [Machine.execute] at executed
    split at executed
    next queue => cases executed; exact .insertEmpty queue
    next queue => cases executed; exact .insertFront queue
  | saveEnvironment origTid =>
    obtain ⟨lib, updated, same⟩ := bind_ok.mp executed
    obtain ⟨live, rfl⟩ := State.updateThread_ok.mp updated
    cases same
    exact .saveEnvironment live
  | startRunning =>
    simp only [Machine.execute] at executed
    split at executed
    next => cases executed
    next thread found => cases executed; exact .startRunning (State.live_of_thread found)
  | countQuantum tid =>
    obtain ⟨lib, updated, same⟩ := bind_ok.mp executed
    obtain ⟨live, rfl⟩ := State.updateThread_ok.mp updated
    cases same
    exact .countQuantum live
  | siglongjmp tid =>
    simp only [Machine.execute] at executed
    split at executed
    next => cases executed
    next thread found => cases executed; exact .siglongjmp (by simp [State.env, found])
  | blockVtAlarm => cases executed; exact .blockVtAlarm
  | unblockVtAlarm => cases executed; exact .unblockVtAlarm
  | fails op message => cases executed; exact .fails
  | sigreturn mask => cases executed; exact .sigreturn
  | updateSleepers => cases executed; exact .updateSleepers
  | leave target => cases executed; exact .leave
  | emplaceRunning => cases executed; exact .emplaceRunning
  | insertRunning => cases executed; exact .insertRunning
  | popFront => cases executed; exact .popFront
  | countTotal => cases executed; exact .countTotal

inductive Moves (m : Machine) : Input → Machine → Prop where
  | expire : Moves m .expire { m with pending := true }
  | deliver (deliverable : m.deliverable = true) : Moves m .deliver m.deliver
  | run {instr rest m'} (code : m.code = instr :: rest) (executed : Executes m rest instr m') : Moves m .run m'
  | call {op} (user : m.code = []) (other : op ≠ .preempt) : Moves m (.call op) { m with code := op.code }
  | sigprocmask {mask} (user : m.code = []) : Moves m (.sigprocmask mask) { m with lib := { m.lib with mask } }

theorem moves_of_step {m m' : Machine} {input : Input} (taken : m.Steps input m') : Moves m input m' := by
  cases input with simp only [Machine.Steps, Machine.step] at taken
  | expire => cases taken; exact .expire
  | deliver =>
    split at taken
    next deliverable => cases taken; exact .deliver deliverable
    next => cases taken
  | run =>
    split at taken
    next => cases taken
    next instr rest code =>
      split at taken
      next => cases taken
      next => exact .run code (executes_of_execute (Option.some.inj taken))
  | call op =>
    split at taken
    next possible => cases taken; exact .call possible.1 possible.2.2
    next => cases taken
  | sigprocmask mask =>
    split at taken
    next possible => cases taken; exact .sigprocmask possible.1
    next => cases taken

theorem executes_of_run {m m' : Machine} {instr : Instr} {rest : Code} (taken : m.Steps .run m')
    (code : m.code = instr :: rest) : Executes m rest instr m' := by
  cases moves_of_step taken with
  | run same executed =>
    obtain ⟨rfl, rfl⟩ := List.cons_eq_cons.mp (code.symm.trans same)
    exact executed

theorem Machine.unmasked_of_deliverable (m : Machine) (deliverable : m.deliverable = true) : sigvtalrm ∉ m.lib.mask :=
  of_decide_eq_true (Bool.and_eq_true_iff.mp deliverable).2

section saved
variable {m m' : Machine} {tid : Int} {env : SigjmpBuf Code}

theorem Executes.saved_from {rest : Code} {instr : Instr} (executed : Executes m rest instr m')
    (found : m'.lib.env tid = some env) :
    m.lib.env tid = some env ∨ env = ⟨⟨tid, []⟩, ∅⟩ ∨
      instr = .saveEnvironment tid ∧ env = ⟨⟨m.sp, rest⟩, m.lib.mask⟩ := by
  cases executed with
  | @body op next lib branch =>
    rcases branch.env tid with kept | gone | ⟨entryPoint, spawning, -, new⟩
    · exact .inl (kept ▸ found)
    · exact nomatch gone.symm.trans found
    · have fresh : entryPoint = [] := by
        cases op <;> simp only [Op.enter, Op.spawn.injEq, reduceCtorEq] at spawning
        obtain ⟨_, _, empty⟩ := Option.map_eq_some_iff.mp spawning
        exact empty.symm
      subst fresh
      exact .inr (.inl (Option.some.inj (found.symm.trans new)))
  | sleeper => exact .inl (State.env_wake .. ▸ found)
  | setStatus => exact .inl (State.env_withStatus .. ▸ found)
  | countQuantum =>
    rw [State.env_modifyThread] at found
    · exact .inl found
    · exact fun _ => rfl
  | @saveEnvironment origTid live =>
    rw [State.env_saved] at found
    split at found
    next same =>
      subst same
      obtain ⟨_, _, new⟩ := Option.map_eq_some_iff.mp found
      exact .inr (.inr ⟨rfl, new.symm⟩)
    next => exact .inl found
  | _ => exact .inl found

theorem Moves.saved_from {input : Input} (moves : Moves m input m') (found : m'.lib.env tid = some env) :
    m.lib.env tid = some env ∨ env = ⟨⟨tid, []⟩, ∅⟩ ∨
      ∃ rest, m.code = .saveEnvironment tid :: rest ∧ env = ⟨⟨m.sp, rest⟩, m.lib.mask⟩ := by
  cases moves with
  | run code executed =>
    exact (executed.saved_from found).imp_right (.imp_right fun ⟨same, new⟩ => ⟨_, same ▸ code, new⟩)
  | _ => exact .inl found

theorem Machine.Starts.user (starts : m.Starts) : m.code = [] := by
  obtain ⟨quantumUsecs, mask, done, sp, code, pending⟩ := starts
  exact code

theorem Machine.Starts.stack (starts : m.Starts) : m.sp = 0 := by
  obtain ⟨quantumUsecs, mask, done, sp, code, pending⟩ := starts
  exact sp

theorem Machine.Starts.running (starts : m.Starts) : m.lib.runningTid = 0 := by
  obtain ⟨quantumUsecs, mask, done, -⟩ := starts
  exact (uthreadInit_main done).2

theorem Machine.Starts.allThreads (starts : m.Starts) :
    m.lib.allThreads = Function.update (fun _ => none) 0 (some (.main ⟨0, []⟩)) := by
  obtain ⟨quantumUsecs, mask, done, -⟩ := starts
  exact (uthreadInit_main done).1

theorem Machine.Starts.env_main (starts : m.Starts) (found : m.lib.env tid = some env) :
    tid = 0 ∧ env = ⟨⟨0, []⟩, ∅⟩ := by
  by_cases main : tid = 0
  · subst main
    simpa [State.env, starts.allThreads, UThread.main, eq_comm] using found
  · simp [State.env, starts.allThreads, main] at found

end saved

abbrev Timeline := List (Move Machine Input)

private def Machine.next (m : Machine) (input : Input) : Option (Input × Machine) :=
  ((m.step input).bind Except.toOption).map (input, ·)

private theorem Machine.next_sound (m : Machine) (input label : Input) (m' : Machine) (taken : m.next input = some (label, m')) :
    m.Steps label m' := by
  obtain ⟨after, stepped, same⟩ := Option.map_eq_some_iff.mp taken
  cases same
  exact some_ok.mp stepped

def Machine.perform (m : Machine) (inputs : List Input) : Option (Timeline × Machine) := compute Machine.next m inputs

theorem Machine.perform_run {m final : Machine} {inputs : List Input} {timeline : Timeline}
    (performed : m.perform inputs = some (timeline, final)) : Run Machine.Steps m timeline final :=
  compute_run Machine.next_sound performed

theorem Machine.perform_tested (m : Machine) (inputs : List Input) (test : Timeline → Machine → Bool)
    (passed : (m.perform inputs).any (fun done => test done.1 done.2) = true) :
    ∃ timeline final, Run Machine.Steps m timeline final ∧ test timeline final = true :=
  compute_tested Machine.next_sound m inputs test passed

def Machine.booted : Machine := ⟨(uthreadInit 1000000 ⟨0, []⟩ (.blank ∅)).2, 0, [], false⟩

theorem Machine.booted_starts : Machine.booted.Starts := ⟨1000000, ∅, rfl, rfl, rfl, rfl⟩

def spawnAndSwitch : List Input :=
  [.call (.spawn (some ()))] ++ .replicate 4 .run ++ [.expire, .deliver] ++ .replicate 15 .run

end Uthreads
