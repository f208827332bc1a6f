import Uthreads.Proofs.Preemptibility
import Uthreads.Proofs.Preservation

/-! How far a switch has got, statement by statement. Outside of a switch the
containers agree; inside, they agree again once the statements that remain of it
are executed. -/

namespace Uthreads
open Transition

/-- The statements of a switch, until the chosen thread is off the queue. -/
@[simp] def Instr.switching : Instr → Bool
  | .updateSleepers | .forSleepers _ | .leave _ | .emplaceRunning | .insertRunning => true
  | .insertReadyToRunning | .popFront => true
  | .setStatus status => status ≠ .running
  | _ => false

@[simp] def Instr.calm : Instr → Bool
  | .saveEnvironment _ => false
  | instr => ! instr.switching

def Switching : Code → Prop
  | [] => False
  | instr :: _ => instr.switching = true

instance (code : Code) : Decidable (Switching code) :=
  match code with
  | [] => .isFalse id
  | instr :: _ => inferInstanceAs (Decidable (instr.switching = true))

/-- No switch is left in the middle, and nothing remains to be saved. -/
def Calm (code : Code) : Prop := ∀ instr ∈ code, instr.calm = true

@[simp] theorem calm_nil : Calm [] := fun _ member => nomatch member

@[simp] theorem calm_cons {instr : Instr} {rest : Code} : Calm (instr :: rest) ↔ instr.calm = true ∧ Calm rest :=
  List.forall_mem_cons

@[simp] theorem calm_append {first last : Code} : Calm (first ++ last) ↔ Calm first ∧ Calm last :=
  List.forall_mem_append

/-- What follows the choice of a thread: the save of the one that leaves, or
nothing of the kind. -/
inductive Rear (s : State Code) : Code → Prop where
  | saves {origTid rest} (live : s.live origTid) (calm : Calm rest) :
      Rear s (.countTotal :: .saveEnvironment origTid :: rest)
  | jumps {rest} (calm : Calm rest) : Rear s rest

/-- What holds of the globals when `code` remains to be executed. -/
inductive Phase (s : State Code) : Code → Prop where
  | settled {code} (valid : WellFormed s) (calm : Calm code) : Phase s code
  | interrupted {rest} (valid : Consistent (some s.runningTid) s) (masked : sigvtalrm ∈ s.mask) (calm : Calm rest) :
      Phase s (.blockVtAlarm :: .updateSleepers :: .leave .ready :: rest)
  | updating {target rest} (leaving : Leaving target s) (calm : Calm rest) :
      Phase s (.updateSleepers :: .leave target :: rest)
  | counting {target rest} {s₀ : State Code} {done its} (leaving : Leaving target s₀)
      (entries : s₀.sleepers.toList = done ++ its) (reached : s = done.foldl State.wake s₀) (calm : Calm rest) :
      Phase s (.forSleepers its :: .leave target :: rest)
  | leaving {target rest} (leaving : Leaving target s) (calm : Calm rest) : Phase s (.leave target :: rest)
  | emplacing {rear} (leaving : Leaving .ready s) (rest : Rear s rear) :
      Phase s (.emplaceRunning :: .setStatus .ready :: .insertReadyToRunning :: rear)
  | inserting {rear} (leaving : Leaving .blocked s) (rest : Rear s rear) :
      Phase s (.insertRunning :: .setStatus .blocked :: .insertReadyToRunning :: rear)
  | marking {target rear} (other : target ≠ .running) (parked : Consistent none (s.withStatus s.runningTid target))
      (live : s.live s.runningTid) (rest : Rear s rear) : Phase s (.setStatus target :: .insertReadyToRunning :: rear)
  | choosing {rear} (parked : Consistent none s) (rest : Rear s rear) : Phase s (.insertReadyToRunning :: rear)
  | popping {others rear} (queue : s.readyTids = s.runningTid :: others)
      (chosen : Consistent (some s.runningTid) { s with readyTids := others }) (rest : Rear s rear) :
      Phase s (.popFront :: .setStatus .running :: rear)
  | starting {rear} (chosen : Consistent (some s.runningTid) s) (rest : Rear s rear) :
      Phase s (.setStatus .running :: rear)
  | charging {origTid rest} (valid : WellFormed s) (live : s.live origTid) (calm : Calm rest) :
      Phase s (.countTotal :: .saveEnvironment origTid :: rest)
  | saving {origTid rest} (valid : WellFormed s) (live : s.live origTid) (calm : Calm rest) :
      Phase s (.saveEnvironment origTid :: rest)

theorem Rear.mono {s s' : State Code} {rear : Code} (rest : Rear s rear) (live : ∀ tid, s.live tid → s'.live tid) :
    Rear s' rear := by
  cases rest with
  | saves present calm => exact .saves (live _ present) calm
  | jumps calm => exact .jumps calm

theorem Rear.phase {s : State Code} {rear : Code} (rest : Rear s rear) (valid : WellFormed s) : Phase s rear := by
  cases rest with
  | saves live calm => exact .charging valid live calm
  | jumps calm => exact .settled valid calm

theorem Phase.user {s : State Code} (phase : Phase s []) : WellFormed s := by
  cases phase with
  | settled valid => exact valid

section follow

private theorem follow_calm (op : Op Unit) {next : Next} (stays : ∀ target, next ≠ .switches target) :
    Calm (op.follow next) := by
  cases next with
  | fails message => simp [Op.follow]
  | finishes result => cases masks : op.masks <;> simp [Op.follow, masks]
  | switches target => exact absurd rfl (stays target)

private theorem leave_phase {s : State Code} {target : Status} {rest : Code} (leaving : Leaving target s)
    (calm : Calm rest) : Phase s (leaveCode target s.runningTid rest) := by
  have original := leaving.original
  have parked := leaving.parked
  cases target with
  | ready => exact .emplacing leaving (.saves (original (by simp)) calm)
  | blocked => exact .inserting leaving (.saves (original (by simp)) calm)
  | terminated => exact .choosing parked (.jumps (by simp))
  | main | running | asleep => exact .choosing parked (.saves (original (by simp)) calm)

end follow

section step
variable {m m' : Machine} {rest : Code} {instr : Instr}

private theorem body_phase {op : Op Unit} {next : Next} {lib : State Code} (branch : Branch m.lib op.enter next lib)
    (valid : WellFormed m.lib) (spared : op.enter.Spares m.lib) (calm : Calm rest) :
    Phase lib (op.follow next ++ rest) := by
  cases next with
  | fails message =>
    obtain rfl := branch.fails_same
    exact .settled valid (calm_append.mpr ⟨follow_calm op (by simp), calm⟩)
  | finishes result =>
    exact .settled (branch.finishes_wellFormed valid spared).1 (calm_append.mpr ⟨follow_calm op (by simp), calm⟩)
  | switches target =>
    refine .updating (branch.switches_leaving valid) (calm_append.mpr ⟨?_, calm⟩)
    cases op <;> simp

private theorem settled_phase (executed : Executes m rest instr m') (valid : WellFormed m.lib)
    (quiet : Calm (instr :: rest)) (saved : ∀ tid env, m.lib.env tid = some env → Calm env.pc)
    (spared : ∀ op, instr = .body op → op.enter.Spares m.lib) : Phase m'.lib m'.code := by
  obtain ⟨first, calm⟩ := calm_cons.mp quiet
  cases executed with
  | blockVtAlarm => exact .settled valid.masked calm
  | unblockVtAlarm => exact .settled valid.unmasked calm
  | body branch => exact body_phase branch valid (spared _ rfl) calm
  | returns | fails => exact .settled valid calm
  | sigreturn => exact .settled (valid.frame (fun _ => rfl) rfl rfl rfl rfl rfl) calm
  | setStatus =>
    simp only [Instr.calm, Instr.switching, decide_not, Bool.not_not, decide_eq_true_eq] at first
    subst first
    exact .settled valid.consistent.start calm
  | countTotal => exact .settled (valid.frame (fun _ => rfl) rfl rfl rfl rfl rfl) calm
  | startRunning => exact .settled valid (by simp)
  | countQuantum =>
    exact .settled (valid.frame (fun tid => State.map_modifyThread _ _ _ _ UThread.status fun _ => rfl) rfl rfl rfl rfl rfl) calm
  | siglongjmp found => exact .settled (valid.frame (fun _ => rfl) rfl rfl rfl rfl rfl) (saved _ _ found)
  | _ => simp at first

/-- Each statement leads from a phase to the next one. -/
theorem Executes.phase (executed : Executes m rest instr m') (phase : Phase m.lib (instr :: rest))
    (saved : ∀ tid env, m.lib.env tid = some env → Calm env.pc)
    (spared : ∀ op, instr = .body op → op.enter.Spares m.lib) : Phase m'.lib m'.code := by
  cases phase with
  | settled valid calm => exact settled_phase executed valid calm saved spared
  | interrupted valid masked calm =>
    cases executed
    have kept : Consistent (some m.lib.runningTid) (Uthreads.blockVtAlarm m.lib) :=
      valid.frame (fun _ => rfl) rfl rfl rfl rfl
    exact .updating ⟨by rw [if_pos (.inl rfl)]; exact kept, fun _ => kept.present _ rfl, fun other => absurd rfl other⟩ calm
  | updating leaving calm =>
    cases executed
    exact .counting leaving (List.nil_append _).symm rfl calm
  | counting leaving entries reached calm =>
    cases executed with
    | sleepersDone =>
      rw [List.append_nil] at entries
      rw [← entries, State.foldl_wake_toList] at reached
      exact .leaving (reached ▸ leaving.tick) calm
    | sleeper =>
      rw [List.append_cons] at entries
      exact .counting leaving entries (by simp [reached]) calm
  | leaving leaving calm =>
    cases executed
    exact leave_phase leaving calm
  | emplacing leaving rear =>
    cases executed
    exact .marking (by simp) leaving.parked (leaving.original (by simp)) (rear.mono fun _ present => present)
  | inserting leaving rear =>
    cases executed
    exact .marking (by simp) leaving.parked (leaving.original (by simp)) (rear.mono fun _ present => present)
  | marking other parked live rear =>
    cases executed
    exact .choosing parked (rear.mono fun _ present => (State.live_withStatus ..).mpr present)
  | choosing parked rear =>
    cases executed with
    | insertEmpty queue =>
      have zero := parked.zero.resolve_left (by simp)
      rw [queue] at zero
      cases zero
    | insertFront queue => exact .popping queue (parked.choose queue) (rear.mono fun _ present => present)
  | popping queue chosen rear =>
    cases executed
    rw [queue]
    exact .starting chosen (rear.mono fun _ present => present)
  | starting chosen rear =>
    cases executed
    exact (rear.mono fun _ present => (State.live_withStatus ..).mpr present).phase chosen.start
  | charging valid live calm =>
    cases executed
    exact .saving (valid.frame (fun _ => rfl) rfl rfl rfl rfl rfl) live calm
  | saving valid live calm =>
    cases executed
    apply Phase.settled (valid.frame (fun tid => State.status_saved ..) rfl rfl rfl rfl rfl)
    simp

/-- Outside of a switch and unmasked, a handler finds all threads but the running
one in their places, and interrupts code that saves nothing. -/
theorem Phase.interruptible {s : State Code} {code : Code} (phase : Phase s code) (unmasked : sigvtalrm ∉ s.mask)
    (restores : Restores false code) (outside : ¬ Switching code) : Consistent (some s.runningTid) s ∧ Calm code := by
  cases phase with
  | settled valid calm => exact ⟨valid.consistent, calm⟩
  | interrupted valid masked calm => exact absurd masked unmasked
  | starting chosen rear =>
    cases rear with
    | saves live calm => exact nomatch restores.1
    | jumps calm => exact ⟨chosen, calm_cons.mpr ⟨rfl, calm⟩⟩
  | charging | saving => exact nomatch restores.1
  | marking other => exact absurd (decide_eq_true other) outside
  | _ => exact absurd rfl outside

def Machine.terminates (m : Machine) : Option Int :=
  match m.code with
  | .body (.terminate tid) :: _ => some tid
  | _ => none

/-- What a run must not do for the containers to stay in agreement: start a
handler while a switch has its thread to choose, or terminate a sleeper. -/
def Undisturbed (m : Machine) : Input → Prop
  | .deliver => ¬ Switching m.code
  | .run => ∀ tid ∈ m.terminates, m.lib.status tid ≠ some .asleep
  | .expire | .call _ | .sigprocmask _ => True

instance (m : Machine) (input : Input) : Decidable (Undisturbed m input) :=
  match input with
  | .deliver => inferInstanceAs (Decidable (¬ Switching m.code))
  | .run => inferInstanceAs (Decidable (∀ tid ∈ m.terminates, m.lib.status tid ≠ some .asleep))
  | .expire | .call _ | .sigprocmask _ => .isTrue trivial

theorem Undisturbed.spares {op : Op Unit} (undisturbed : Undisturbed m .run) (code : m.code = .body op :: rest) :
    op.enter.Spares m.lib := by
  rintro tid terminating
  cases op <;> simp only [Op.enter, reduceCtorEq, Op.terminate.injEq] at terminating
  subst terminating
  exact undisturbed _ (by simp [Machine.terminates, code])

theorem Moves.phase {input : Input} (moves : Moves m input m') (undisturbed : Undisturbed m input)
    (restores : Restores m.masked m.code) (saved : ∀ tid env, m.lib.env tid = some env → Calm env.pc)
    (phase : Phase m.lib m.code) : Phase m'.lib m'.code := by
  cases moves with
  | expire => exact phase
  | deliver deliverable =>
    have unmasked := m.unmasked_of_deliverable deliverable
    simp only [Machine.masked, unmasked, decide_false] at restores
    obtain ⟨consistent, calm⟩ := phase.interruptible unmasked restores undisturbed
    exact .interrupted (consistent.frame (fun _ => rfl) rfl rfl rfl rfl) (State.masked_blockVtAlarm _)
      (calm_cons.mpr ⟨rfl, calm_cons.mpr ⟨rfl, calm⟩⟩)
  | run code executed =>
    rw [code] at phase
    exact executed.phase phase saved fun op same => undisturbed.spares (same ▸ code)
  | @call op user other =>
    apply Phase.settled (user ▸ phase).user
    cases masks : op.masks <;> simp [Op.code, masks]
  | sigprocmask user => exact .settled ((user ▸ phase).user.frame (fun _ => rfl) rfl rfl rfl rfl rfl) (user ▸ calm_nil)

end step
end Uthreads
