import Uthreads.Proofs.Preemptibility
import Uthreads.Proofs.Seats

/-! Which saved contexts will be resumed, in every run, also where handlers start in
the middle of a switch. At most the running thread is marked as such, so the thread that
terminates itself is `running_tid_`, and its context goes with its record. -/

namespace Uthreads
open Transition

/-- The thread whose record holds an outdated context: the one that executes, up to
its save. -/
def executing : Option Int → Code → Option Int
  | running, [] => running
  | _, .saveEnvironment origTid :: _ => some origTid
  | _, .leave .terminated :: _ => none
  | running, .leave _ :: _ => running
  | _, .insertReadyToRunning :: rest => executing none rest
  | _, .startRunning :: _ => none
  | _, .siglongjmp _ :: _ => none
  | running, _ :: rest => executing running rest

def Machine.executing (m : Machine) : Option Int := Uthreads.executing (some m.lib.runningTid) m.code

/-- The record of `tid` holds the context that the thread will go on with. -/
def Machine.Suspended (m : Machine) (tid : Int) (env : SigjmpBuf Code) : Prop :=
  m.executing ≠ some tid ∧ m.lib.env tid = some env

/-- The switch has its thread to choose, and nobody is marked as running. -/
def Vacant : Code → Prop
  | .updateSleepers :: rest => Vacant rest
  | .forSleepers _ :: rest => Vacant rest
  | .leave target :: _ => target ≠ .ready ∧ target ≠ .blocked
  | .insertReadyToRunning :: _ => True
  | _ => False

/-- Code that can be returned to: no switch was left in the middle. -/
def Whole (code : Code) : Prop := ¬ Vacant code ∧ executing none code = none

def Tidy : Code → Prop
  | [] => True
  | .updateSleepers :: rest => Tidy rest
  | .forSleepers _ :: rest => Tidy rest
  | .setStatus status :: rest => (Vacant rest → status ≠ .running ∧ executing none rest ≠ none) ∧ Tidy rest
  | .emplaceRunning :: rest => ¬ Vacant rest ∧ Tidy rest
  | .insertRunning :: rest => ¬ Vacant rest ∧ Tidy rest
  | .insertReadyToRunning :: rest => ¬ Vacant rest ∧ Tidy rest
  | .popFront :: rest => ¬ Vacant rest ∧ Tidy rest
  | .countTotal :: rest => ¬ Vacant rest ∧ Tidy rest
  | .countQuantum _ :: rest => ¬ Vacant rest ∧ Tidy rest
  | _ :: rest => Whole rest ∧ Tidy rest

/-- A handler that cannot get through its switch, for the running thread has no record. -/
inductive Doomed : Code → Prop where
  | masks {rest} : Doomed (.blockVtAlarm :: .updateSleepers :: .leave .ready :: rest)
  | begins {rest} : Doomed (.updateSleepers :: .leave .ready :: rest)
  | wakes {its rest} : Doomed (.forSleepers its :: .leave .ready :: rest)
  | leaves {rest} : Doomed (.leave .ready :: rest)
  | queues {rest} : Doomed (.emplaceRunning :: .setStatus .ready :: rest)
  | marks {rest} : Doomed (.setStatus .ready :: rest)

/-- At most the running thread is marked, nobody is when a thread is chosen, and
nothing that is saved was left in the middle of a switch. -/
structure Marked (m : Machine) : Prop where
  only : Seat.leaving.Holds m.lib
  vacant : Vacant m.code → Seat.free.Holds m.lib
  exposed : Vacant m.code → m.masked = false → ¬ m.lib.live m.lib.runningTid
  code : Tidy m.code ∨ Doomed m.code ∧ m.masked = true ∧ ¬ m.lib.live m.lib.runningTid
  saved : ∀ tid env, m.lib.env tid = some env → Whole env.pc ∧ Tidy env.pc

theorem whole_nil : Whole [] := ⟨id, rfl⟩

section executing
variable {running : Option Int} {code rest : Code} {tid : Int}

theorem executing_none (found : executing none code = some tid) : executing running code = some tid := by
  induction code with
  | nil => cases found
  | cons instr rest ih =>
    cases instr with
    | leave target => cases target <;> cases found
    | saveEnvironment | insertReadyToRunning => exact found
    | startRunning | siglongjmp => cases found
    | _ => exact ih found

theorem executing_whole (whole : executing none code = none) : executing running code = none ∨ executing running code = running := by
  induction code with
  | nil => exact .inr rfl
  | cons instr rest ih =>
    cases instr with
    | leave target => cases target <;> first | exact .inl rfl | exact .inr rfl
    | saveEnvironment => cases whole
    | startRunning | siglongjmp | insertReadyToRunning => exact .inl whole
    | _ => exact ih whole

theorem Tidy.unsaved (tidy : Tidy code) (restores : Restores false code) : executing none code = none := by
  induction code with
  | nil => rfl
  | cons instr rest ih =>
    cases instr with
    | blockVtAlarm | unblockVtAlarm | sigreturn => exact tidy.1.2
    | body | returns | fails => exact tidy.1.2
    | leave target => cases target <;> rfl
    | saveEnvironment => cases restores.1
    | startRunning | siglongjmp => rfl
    | updateSleepers | forSleepers => exact ih tidy restores
    | _ => exact ih tidy.2 restores

end executing

section code
variable {rest : Code}

private theorem tidy_follow (op : Op Unit) (next : Next) : Tidy (op.follow next) := by
  cases next with
  | fails | finishes => cases masks : op.masks <;> simp [Op.follow, masks, Tidy, Whole, Vacant, executing]
  | switches target =>
    cases op <;> cases target <;> simp [Op.follow, switchThreadsCode, Tidy, Whole, Vacant, executing]

private theorem tidy_leave {target : Status} (running : Int) (whole : Whole rest) (tidy : Tidy rest) :
    Tidy (leaveCode target running rest) := by
  cases target <;> simp [leaveCode, Tidy, Whole, Vacant, executing, tidy, whole.1, whole.2]

private theorem vacant_leave {target : Status} {running : Int} (vacant : Vacant (leaveCode target running rest)) :
    Vacant (.leave target :: rest) := by
  cases target <;> simp [leaveCode, Vacant] at vacant ⊢

end code

section branch
variable {s s' : State Code} {op : Op Code}

private theorem Branch.vacates {target : Status} (branch : Branch s op (.switches target) s') (only : Seat.leaving.Holds s)
    (other : target ≠ .ready ∧ target ≠ .blocked) :
    Seat.free.Holds s' ∧ (target = .terminated → ¬ s'.live s'.runningTid) := by
  cases branch with
  | @terminateRunning tid _ found =>
    have own := only tid found
    refine ⟨fun other marked => ?_, fun _ live => ?_⟩
    · change (s.remove tid).status other = _ at marked
      rw [State.status_remove] at marked
      split at marked
      next => cases marked
      next different => exact different ((only other marked).trans own.symm)
    · exact ((State.live_remove ..).mp live).1 own.symm
  | @sleep numQuantums =>
    refine ⟨fun other marked => ?_, nofun⟩
    change (s.doze numQuantums).status other = _ at marked
    rw [State.status_doze] at marked
    split at marked
    next => simp at marked
    next different => exact different (only other marked)
  | blockRunning => exact absurd rfl other.2
  | preempt => exact absurd rfl other.1

end branch

section step
variable {m m' : Machine} {input : Input} {rest : Code} {instr : Instr}

private theorem Executes.only (executed : Executes m rest instr m') (code : m.code = instr :: rest) (marked : Marked m) :
    Seat.leaving.Holds m'.lib := by
  have only := marked.only
  cases executed with
  | body branch => exact fun tid marked => branch.runningTid_eq ▸ only tid (branch.marked marked)
  | sleeper => exact fun tid marked => only tid (State.marked_wake _ marked)
  | setStatus =>
    intro tid marked
    rw [State.status_withStatus] at marked
    split at marked
    next same => exact same
    next => exact only tid marked
  | insertEmpty | insertFront =>
    have nobody := marked.vacant (code ▸ trivial)
    exact fun tid marked => absurd marked (nobody tid)
  | saveEnvironment => exact fun tid marked => only tid ((State.status_saved ..).symm.trans marked)
  | @countQuantum other =>
    intro tid marked
    have kept := m.lib.map_modifyThread other tid (fun thread =>
      { thread with numOfQuantumsRunning := thread.numOfQuantumsRunning + 1 }) UThread.status fun _ => rfl
    exact only tid (kept.symm.trans marked)
  | _ => exact only

private theorem Executes.vacates (executed : Executes m rest instr m') (code : m.code = instr :: rest) (marked : Marked m)
    (tidy : Tidy (instr :: rest)) (restores : m'.masked = false → Restores false m'.code) (vacant : Vacant m'.code) :
    Seat.free.Holds m'.lib ∧ (m'.masked = false → ¬ m'.lib.live m'.lib.runningTid) := by
  have before := marked.vacant
  have exposed := marked.exposed
  rw [code] at before exposed
  cases executed with
  | blockVtAlarm | unblockVtAlarm | returns | fails | sigreturn => exact absurd vacant tidy.1.1
  | @body op next lib branch =>
    cases next with
    | fails => cases vacant
    | finishes => cases masks : op.masks <;> simp [Op.follow, masks, Vacant] at vacant
    | switches target =>
      have other : target ≠ .ready ∧ target ≠ .blocked := by
        simpa [Op.follow, switchThreadsCode, Vacant] using vacant
      obtain ⟨free, gone⟩ := branch.vacates marked.only other
      refine ⟨free, fun unmasked => gone ?_⟩
      have current : Restores false (op.follow (.switches target) ++ rest) := restores unmasked
      by_contra kept
      cases target <;> simp [Op.follow, switchThreadsCode, Restores] at current kept
  | updateSleepers | sleepersDone => exact ⟨before vacant, exposed vacant⟩
  | @sleeper it next =>
    refine ⟨fun tid marked => before vacant tid (State.marked_wake _ marked), fun unmasked live => ?_⟩
    exact exposed vacant unmasked ((State.live_wake ..).mp live)
  | leave => exact ⟨before (vacant_leave vacant), exposed (vacant_leave vacant)⟩
  | @setStatus status =>
    obtain ⟨other, unsaved⟩ := tidy.1 vacant
    refine ⟨fun tid marked' => ?_, fun unmasked => absurd (tidy.2.unsaved (restores unmasked)) unsaved⟩
    rw [State.status_withStatus] at marked'
    split at marked'
    next => obtain ⟨_, _, same⟩ := Option.map_eq_some_iff.mp marked'; exact other same
    next different => exact different (marked.only tid marked')
  | emplaceRunning | insertRunning | insertEmpty | popFront | countTotal | countQuantum => exact absurd vacant tidy.1
  | insertFront | saveEnvironment | startRunning => cases vacant
  | siglongjmp found => exact absurd vacant (marked.saved _ _ found).1.1

private theorem Executes.tidy (executed : Executes m rest instr m') (marked : Marked m)
    (restores : Restores m.masked (instr :: rest)) (tidy : Tidy (instr :: rest)) : Tidy m'.code := by
  cases executed with
  | @body op next =>
    obtain ⟨rfl, -⟩ := restores
    exact (List.append_nil _).symm ▸ tidy_follow op next
  | updateSleepers | sleepersDone | sleeper => exact tidy
  | leave => exact tidy_leave _ tidy.1 tidy.2
  | insertFront => exact ⟨id, fun vacant => absurd vacant tidy.1, tidy.2⟩
  | saveEnvironment | startRunning => simp [Tidy, Whole, Vacant, executing]
  | siglongjmp found => exact (marked.saved _ _ found).2
  | _ => exact tidy.2

private theorem Doomed.settled {code : Code} (doomed : Doomed code) : ¬ Vacant code := by
  cases doomed <;> simp [Vacant]

/-- Marking the running thread as ready faults. -/
private theorem Executes.doomed (executed : Executes m rest instr m') (doomed : Doomed (instr :: rest))
    (masked : m.masked = true) (gone : ¬ m.lib.live m.lib.runningTid) :
    Doomed m'.code ∧ m'.masked = true ∧ ¬ m'.lib.live m'.lib.runningTid := by
  cases doomed with
  | masks => cases executed; exact ⟨.begins, by simp [Machine.masked], gone⟩
  | begins => cases executed; exact ⟨.wakes, masked, gone⟩
  | wakes =>
    cases executed with
    | sleepersDone => exact ⟨.leaves, masked, gone⟩
    | sleeper => exact ⟨.wakes, masked, fun live => gone ((State.live_wake ..).mp live)⟩
  | leaves => cases executed; exact ⟨.queues, masked, gone⟩
  | queues => cases executed; exact ⟨.marks, masked, gone⟩
  | marks =>
    cases executed with
    | setStatus live => exact absurd live gone

theorem Moves.marked (moves : Moves m input m') (restored : Restored m) (marked : Marked m) : Marked m' := by
  have after := (moves.restored restored).current
  have saved : ∀ tid env, m'.lib.env tid = some env → Whole env.pc ∧ Tidy env.pc := by
    intro tid env found
    rcases moves.saved_from found with kept | rfl | ⟨rest, code, rfl⟩
    · exact marked.saved tid env kept
    · exact ⟨whole_nil, trivial⟩
    · rcases marked.code with tidy | ⟨doomed, -⟩
      · rw [code] at tidy
        exact tidy
      · rw [code] at doomed
        cases doomed
  cases moves with
  | expire => exact ⟨marked.only, marked.vacant, marked.exposed, marked.code, saved⟩
  | deliver deliverable =>
    have unmasked := Machine.not_masked deliverable
    have settled : ¬ Vacant m.deliver.code := id
    refine ⟨marked.only, (absurd · settled), (absurd · settled), ?_, saved⟩
    by_cases vacant : Vacant m.code
    · exact .inr ⟨.masks, by simp [Machine.masked, Machine.deliver], marked.exposed vacant unmasked⟩
    · rcases marked.code with tidy | ⟨-, masked, -⟩
      · have unsaved := tidy.unsaved (restored.interrupted deliverable)
        exact .inl (by simp [Machine.deliver, timerHandlerCode, switchThreadsCode, Tidy, Whole, Vacant, executing, vacant, unsaved, tidy])
      · cases unmasked.symm.trans masked
  | run code executed =>
    rcases marked.code with tidy | ⟨doomed, masked, gone⟩
    · rw [code] at tidy
      have vacates := executed.vacates code marked tidy fun unmasked => unmasked ▸ after
      refine ⟨executed.only code marked, fun vacant => (vacates vacant).1, fun vacant => (vacates vacant).2, .inl ?_, saved⟩
      exact executed.tidy marked (code ▸ restored.current) tidy
    · obtain ⟨doomed, masked, gone⟩ := executed.doomed (code ▸ doomed) masked gone
      have settled := doomed.settled
      exact ⟨executed.only code marked, (absurd · settled), (absurd · settled), .inr ⟨doomed, masked, gone⟩, saved⟩
  | @call op user =>
    refine ⟨marked.only, ?_, ?_, .inl ?_, saved⟩ <;> cases masks : op.masks <;>
      simp [Op.code, masks, Vacant, Tidy, Whole, executing]
  | sigprocmask user =>
    have settled : ¬ Vacant m.code := user ▸ id
    exact ⟨marked.only, (absurd · settled), (absurd · settled), .inl (user ▸ trivial), saved⟩

theorem Machine.Starts.marked (starts : m.Starts) : Marked m := by
  have settled : ¬ Vacant m.code := starts.user ▸ id
  refine ⟨?_, (absurd · settled), (absurd · settled), .inl (starts.user ▸ trivial), fun tid env found => ?_⟩
  · obtain ⟨seat, holds, -⟩ := starts.seated.current
    exact fun tid => holds.only
  · obtain ⟨-, rfl⟩ := starts.env_main found
    exact ⟨whole_nil, trivial⟩

private theorem Branch.suspends {s s' : State Code} {op : Op Unit} {next : Next} {env : SigjmpBuf Code}
    (branch : Branch s op.enter next s') (only : Seat.leaving.Holds s) (found : s'.env s.runningTid = some env) :
    executing (some s'.runningTid) (op.follow next) = some s.runningTid := by
  have same := branch.runningTid_eq
  cases next with
  | fails => exact congrArg some same
  | finishes =>
    cases masks : op.masks <;> simpa [Op.follow, masks, executing] using same
  | switches target =>
    cases target with
    | terminated =>
      generalize op.enter = entered at branch
      cases branch with
      | @terminateRunning tid _ marked =>
        obtain rfl := only tid marked
        have gone : (unblockVtAlarm (resetTimer (s.remove s.runningTid))).env s.runningTid = none := by
          simp [State.env, State.remove, unblockVtAlarm, resetTimer, startTimer]
        cases found.symm.trans gone
    | _ => simpa [Op.follow, switchThreadsCode, executing] using same

/-- A thread that executed and does so no longer has saved its context, or lost it
with its record. -/
private theorem Moves.suspends (moves : Moves m input m') (restored : Restored m) (marked : Marked m) {other : Int}
    {env : SigjmpBuf Code} (executes : m.executing = some other) (found : m'.lib.env other = some env)
    (suspended : m'.executing ≠ some other) :
    ∃ rest, m.code = .saveEnvironment other :: rest ∧ env = ⟨⟨m.sp, rest⟩, m.lib.mask⟩ := by
  cases moves with
  | expire | sigprocmask => exact absurd executes suspended
  | deliver deliverable =>
    rcases marked.code with tidy | ⟨-, masked, -⟩
    · have unsaved := tidy.unsaved (restored.interrupted deliverable)
      rcases executing_whole unsaved with none | running
      · cases none.symm.trans executes
      · exact absurd (running.symm.trans executes) suspended
    · cases (Machine.not_masked deliverable).symm.trans masked
  | @call op user =>
    refine absurd ?_ suspended
    rw [Machine.executing, user] at executes
    cases masks : op.masks <;> simpa [Machine.executing, Op.code, masks, executing] using executes
  | run code executed =>
    rw [Machine.executing, code] at executes
    cases executed with
    | body branch =>
      obtain rfl := restored.body code
      obtain rfl := Option.some.inj executes
      rw [Machine.executing, List.append_nil] at suspended
      exact absurd (branch.suspends marked.only found) suspended
    | @leave target =>
      refine absurd ?_ suspended
      cases target with
      | terminated => cases executes
      | _ => exact executes
    | insertEmpty | insertFront => exact absurd (executing_none executes) suspended
    | saveEnvironment =>
      obtain rfl := Option.some.inj executes
      rw [State.env_saved, if_pos rfl] at found
      obtain ⟨_, _, saved⟩ := Option.map_eq_some_iff.mp found
      exact ⟨_, code, saved.symm⟩
    | startRunning | siglongjmp => cases executes
    | _ => exact absurd executes suspended

/-- A thread that is suspended was so before, or is new, or has saved its context
just now. -/
theorem Moves.suspended_from (moves : Moves m input m') (restored : Restored m) (marked : Marked m) {other : Int}
    {env : SigjmpBuf Code} (suspended : m'.Suspended other env) :
    m.Suspended other env ∨ env.pc = [] ∨ ∃ rest, m.code = .saveEnvironment other :: rest ∧ env = ⟨⟨m.sp, rest⟩, m.lib.mask⟩ := by
  obtain ⟨suspended, found⟩ := suspended
  by_cases executes : m.executing = some other
  · exact .inr (.inr (moves.suspends restored marked executes found suspended))
  · rcases moves.saved_from found with kept | rfl | saved
    · exact .inl ⟨executes, kept⟩
    · exact .inr (.inl rfl)
    · exact .inr (.inr saved)

end step

section run
variable {start final : Machine} {timeline : Timeline}

end run
end Uthreads
