import Uthreads.Proofs.Ownership

/-! Runs whose switches are atomic: a signal that arrives inside one waits until
it is over. Outside of them the running thread is the one that is marked as such,
with main as the only exception. -/

namespace Uthreads
open Transition

/-- From the call of `switch_threads` to the jump. -/
def inSwitch : Code → Bool
  | [] => false
  | .unblockVtAlarm :: rest => inSwitch rest
  | .blockVtAlarm :: _ | .body _ :: _ | .returns _ _ :: _ | .fails _ _ :: _ | .sigreturn _ :: _ => false
  | _ :: _ => true

def Machine.atomicStep (m : Machine) (input : Input) : Option (Except Halt Machine) :=
  match inSwitch m.code, input, m.code with
  | true, .deliver, _ => none
  | true, .run, instr :: rest => some (m.execute rest instr)
  | _, input, _ => m.step input

def Machine.AtomicSteps (m : Machine) (input : Input) (m' : Machine) : Prop := m.atomicStep input = some (.ok m')

section atomic
variable {m m' : Machine} {input : Input}

theorem moves_of_atomicStep (taken : m.AtomicSteps input m') :
    Moves m input m' ∧ (input = .deliver → inSwitch m.code = false) := by
  unfold Machine.AtomicSteps Machine.atomicStep at taken
  split at taken
  next => cases taken
  next inside code => exact ⟨.run code (executes_of_execute (Option.some.inj taken)), by simp⟩
  next other _ =>
    refine ⟨moves_of_step taken, ?_⟩
    rintro rfl
    exact Bool.not_eq_true _ ▸ fun inside => other inside rfl

/-- A step of the real process is one of these, unless a handler starts inside a
switch. -/
theorem atomic_of_step (taken : m.Steps input m') (outside : input = .deliver → inSwitch m.code = false) :
    m.AtomicSteps input m' := by
  unfold Machine.AtomicSteps Machine.atomicStep
  split
  next inside => exact nomatch inside.symm.trans (outside rfl)
  next instr rest inside code =>
    simp only [Machine.Steps, Machine.step, code] at taken
    split at taken
    next => cases taken
    next => exact taken
  next => exact taken

theorem run_atomic {start final : Machine} {timeline : Timeline} (run : Run Machine.Steps start timeline final)
    (outside : ∀ move ∈ timeline, move.label = .deliver → inSwitch move.before.code = false) :
    Run Machine.AtomicSteps start timeline final := by
  induction run with
  | start => exact .start
  | @next trace state label final run taken ih =>
    have earlier := ih fun move member => outside move (List.mem_append_left _ member)
    exact earlier.next (atomic_of_step taken (outside ⟨state, label, final⟩ (by simp)))

end atomic

/-- Who is marked as running: the running thread unless that is main, at most the
running thread, or nobody. -/
inductive Seat where
  | taken
  | leaving
  | free
  deriving DecidableEq

namespace Seat

def Holds (s : State Code) : Seat → Prop
  | .taken => (∀ tid, s.status tid = some .running → tid = s.runningTid) ∧
      (s.runningTid = 0 ∨ s.status s.runningTid = some .running)
  | .leaving => ∀ tid, s.status tid = some .running → tid = s.runningTid
  | .free => ∀ tid, s.status tid ≠ some .running

def wake : Seat → Seat
  | .taken => .leaving
  | seat => seat

theorem wake_wake (seat : Seat) : seat.wake.wake = seat.wake := by cases seat <;> rfl

end Seat

/-- Code that frees the seat before the next thread takes it, and goes on once that
is done. -/
def Seats : Seat → Code → Prop
  | seat, [] => seat = .taken
  | seat, .updateSleepers :: rest => Seats seat.wake rest
  | seat, .forSleepers _ :: rest => Seats seat.wake rest
  | seat, .leave target :: rest => (target = .ready ∨ target = .blocked ∨ seat = .free) ∧ Seats .taken rest
  | _, .setStatus status :: rest => Seats (if status = .running then .taken else .free) rest
  | seat, .insertReadyToRunning :: rest => seat = .free ∧ Seats .taken rest
  | seat, .saveEnvironment _ :: rest => seat = .taken ∧ Seats .taken rest
  | seat, .startRunning :: _ => seat = .taken
  | seat, .siglongjmp _ :: _ => seat = .taken
  | seat, .emplaceRunning :: rest => Seats seat rest
  | seat, .insertRunning :: rest => Seats seat rest
  | seat, .popFront :: rest => Seats seat rest
  | seat, .countTotal :: rest => Seats seat rest
  | seat, .countQuantum _ :: rest => Seats seat rest
  | seat, .unblockVtAlarm :: rest => Seats seat rest
  | seat, _ :: rest => seat = .taken ∧ Seats .taken rest

structure Seated (m : Machine) : Prop where
  main : m.lib.live 0
  current : ∃ seat : Seat, seat.Holds m.lib ∧ Seats seat m.code
  saved : ∀ tid env, m.lib.env tid = some env → Seats .taken env.pc

section holds
variable {s s' : State Code} {seat : Seat}

private theorem Seat.Holds.frame (holds : seat.Holds s) (status : ∀ tid, s'.status tid = s.status tid)
    (running : s'.runningTid = s.runningTid) : seat.Holds s' := by
  cases seat <;> simpa only [Seat.Holds, status, running] using holds

theorem Seat.Holds.only (holds : seat.Holds s) {tid : Int} (marked : s.status tid = some .running) :
    tid = s.runningTid := by
  cases seat with
  | taken => exact holds.1 tid marked
  | leaving => exact holds tid marked
  | free => exact absurd marked (holds tid)

private theorem Seat.Holds.wake (holds : seat.Holds s) (running : s'.runningTid = s.runningTid)
    (unmarked : ∀ tid, s'.status tid = some .running → s.status tid = some .running) : seat.wake.Holds s' := by
  cases seat with
  | taken | leaving => exact fun tid marked => running ▸ holds.only (unmarked tid marked)
  | free => exact fun tid marked => holds tid (unmarked tid marked)

theorem State.marked_wake (it : Int × Int) {tid : Int} (marked : (s.wake it).status tid = some .running) :
    s.status tid = some .running := by
  unfold State.wake State.status at marked
  unfold State.status
  split at marked
  next =>
    by_cases same : tid = it.1
    · subst same
      cases found : s.allThreads it.1 with
      | none => simp [found] at marked
      | some thread =>
        simp only [found, State.wokenStatus, Function.update_self, Option.map_some, Option.some.injEq] at marked
        split at marked <;> cases marked
    · simpa [same] using marked
  next => exact marked

private theorem Seat.Holds.withStatus (holds : seat.Holds s) (live : s.live s.runningTid) (status : Status) :
    (if status = .running then Seat.taken else .free).Holds (s.withStatus s.runningTid status) := by
  obtain ⟨old, found⟩ := State.live_iff_status.mp live
  have others : ∀ tid, (s.withStatus s.runningTid status).status tid = some .running →
      tid = s.runningTid ∧ status = .running := by
    intro tid marked
    rw [State.status_withStatus] at marked
    split at marked
    next same => subst same; exact ⟨rfl, by simpa [found] using marked⟩
    next other => exact absurd (holds.only marked) other
  split
  next marking =>
    refine ⟨fun tid marked => (others tid marked).1, .inr ?_⟩
    subst marking
    rw [State.runningTid_withStatus, State.status_withStatus, if_pos rfl, found]
    rfl
  next other => exact fun tid marked => other (others tid marked).2

end holds

section body
variable {s s' : State Code} {op : Op Code} {next : Next} {tid : Int}

theorem Branch.marked (branch : Branch s op next s') (marked : s'.status tid = some .running) :
    s.status tid = some .running := by
  cases branch with
  | spawn =>
    rw [State.status_enroll] at marked
    split at marked
    next => cases marked
    next => exact marked
  | terminateRunning | terminateReady | terminateBlocked | terminateRest =>
    change (State.remove _ _).status _ = _ at marked
    rw [State.status_remove] at marked
    split at marked
    next => cases marked
    next => exact marked
  | blockReady | resumeBlocked =>
    rw [State.status_withStatus] at marked
    split at marked
    next => simp at marked
    next => exact marked
  | @sleep numQuantums =>
    change (s.doze numQuantums).status _ = _ at marked
    rw [State.status_doze] at marked
    split at marked
    next => simp at marked
    next => exact marked
  | _ => exact marked

private theorem Branch.keeps_mark (branch : Branch s op next s') (marked : s.status tid = some .running)
    (returns : ∀ target, next ≠ .switches target) : s'.status tid = some .running := by
  cases branch with
  | terminateRunning | blockRunning | sleep | preempt => exact absurd rfl (returns _)
  | spawn =>
    rw [State.status_enroll, if_neg]
    · exact marked
    · rintro ⟨rfl, missing⟩
      exact missing (State.live_iff_status.mpr ⟨_, marked⟩)
  | @terminateReady other _ found | @terminateBlocked other _ found =>
    change (State.remove _ _).status _ = _
    rw [State.status_remove, if_neg]
    · exact marked
    · rintro rfl
      cases marked.symm.trans found
  | @terminateRest other status _ found kind =>
    rw [State.status_remove, if_neg]
    · exact marked
    · rintro rfl
      obtain rfl := Option.some.inj (marked.symm.trans found)
      simp at kind
  | @blockReady other _ found | @resumeBlocked other found =>
    rw [State.status_withStatus, if_neg]
    · exact marked
    · rintro rfl
      cases marked.symm.trans found
  | _ => exact marked

private theorem follow_seats (op : Op Unit) {target : Status} {seat : Seat} {rest : Code}
    (kind : target = .ready ∨ target = .blocked ∨ seat = .free) (later : Seats .taken rest) :
    Seats seat (op.follow (.switches target) ++ rest) := by
  have leaves : target = .ready ∨ target = .blocked ∨ seat.wake = .free :=
    kind.imp_right (.imp_right (congrArg Seat.wake))
  cases op <;> simpa [Op.follow, switchThreadsCode, Seats, later] using leaves

private theorem Branch.seat {op : Op Unit} (branch : Branch s op.enter next s') (holds : Seat.taken.Holds s)
    {rest : Code} (later : Seats .taken rest) : ∃ seat : Seat, seat.Holds s' ∧ Seats seat (op.follow next ++ rest) := by
  cases next with
  | fails | finishes =>
    have running := branch.runningTid_eq
    refine ⟨.taken, ⟨fun tid marked => running ▸ holds.1 tid (branch.marked marked), ?_⟩, ?_⟩
    · refine holds.2.imp running.trans fun marked => ?_
      exact running ▸ branch.keeps_mark marked (by simp)
    · cases masks : op.masks <;> simpa [Op.follow, masks, Seats] using later
  | switches target =>
    generalize op.enter = entered at branch
    cases branch with
    | @terminateRunning tid _ found =>
      have own := holds.only found
      refine ⟨.free, fun other marked => ?_, follow_seats op (.inr (.inr rfl)) later⟩
      change (s.remove tid).status other = _ at marked
      rw [State.status_remove] at marked
      split at marked
      next => cases marked
      next different => exact different ((holds.only marked).trans own.symm)
    | @sleep numQuantums =>
      refine ⟨.free, fun other marked => ?_, follow_seats op (.inr (.inr rfl)) later⟩
      change (s.doze numQuantums).status other = _ at marked
      rw [State.status_doze] at marked
      split at marked
      next => simp at marked
      next different => exact different (holds.only marked)
    | blockRunning => exact ⟨.taken, holds, follow_seats op (.inr (.inl rfl)) later⟩
    | preempt => exact ⟨.taken, holds, follow_seats op (.inl rfl) later⟩

end body

section step
variable {m m' : Machine} {input : Input} {rest : Code} {instr : Instr}

private theorem leave_seats {seat : Seat} {target : Status} (running : Int)
    (kind : target = .ready ∨ target = .blocked ∨ seat = .free) (later : Seats .taken rest) :
    Seats seat (leaveCode target running rest) := by
  cases target with
  | ready | blocked => simp [leaveCode, Seats, later]
  | _ => simpa [leaveCode, Seats, later] using kind

private theorem Executes.seated (executed : Executes m rest instr m') (seated : Seated m) (code : m.code = instr :: rest) :
    ∃ seat : Seat, seat.Holds m'.lib ∧ Seats seat m'.code := by
  obtain ⟨main, ⟨seat, holds, seats⟩, saved⟩ := seated
  rw [code] at seats
  cases executed with
  | blockVtAlarm | returns | fails | sigreturn =>
    obtain ⟨rfl, later⟩ := seats
    exact ⟨.taken, holds, later⟩
  | unblockVtAlarm | emplaceRunning | insertRunning | popFront | countTotal => exact ⟨seat, holds, seats⟩
  | body branch =>
    obtain ⟨rfl, later⟩ := seats
    exact branch.seat holds later
  | updateSleepers => exact ⟨seat, holds, seats⟩
  | sleepersDone => exact ⟨seat.wake, holds.wake rfl fun _ marked => marked, seats⟩
  | sleeper =>
    have later : Seats seat.wake rest := seats
    rw [← seat.wake_wake] at later
    exact ⟨seat.wake, holds.wake rfl fun tid => State.marked_wake _, later⟩
  | leave => exact ⟨seat, holds, leave_seats _ seats.1 seats.2⟩
  | setStatus live => exact ⟨_, holds.withStatus live _, seats⟩
  | insertEmpty =>
    obtain ⟨rfl, later⟩ := seats
    exact ⟨.taken, ⟨fun tid marked => absurd marked (holds tid), .inl rfl⟩, later⟩
  | insertFront =>
    obtain ⟨rfl, later⟩ := seats
    exact ⟨.free, holds, later⟩
  | saveEnvironment =>
    obtain ⟨rfl, later⟩ := seats
    exact ⟨.taken, holds.frame (fun tid => State.status_saved ..) rfl, rfl⟩
  | startRunning => exact ⟨.taken, seats ▸ holds, rfl⟩
  | countQuantum =>
    refine ⟨seat, holds.frame (fun other => ?_) rfl, seats⟩
    exact State.map_modifyThread _ _ other _ UThread.status fun _ => rfl
  | siglongjmp found => exact ⟨.taken, seats ▸ holds, saved _ _ found⟩

private theorem Branch.main_live {s s' : State Code} {op : Op Code} {next : Next} (branch : Branch s op next s')
    (live : s.live 0) : s'.live 0 := by
  cases branch with
  | spawn =>
    apply State.live_iff_status.mpr
    rw [State.status_enroll]
    split
    · exact ⟨_, rfl⟩
    · exact State.live_iff_status.mp live
  | terminateRunning other | terminateReady other | terminateBlocked other | terminateRest other =>
    exact (State.live_remove ..).mpr ⟨Ne.symm other, live⟩
  | blockReady | resumeBlocked => exact (State.live_withStatus ..).mpr live
  | sleep => exact (State.live_withStatus ..).mpr live
  | _ => exact live

private theorem Executes.main_live (executed : Executes m rest instr m') (live : m.lib.live 0) : m'.lib.live 0 := by
  cases executed with
  | body branch => exact branch.main_live live
  | sleeper => exact (State.live_wake ..).mpr live
  | setStatus | saveEnvironment | countQuantum => exact (State.live_modifyThread ..).mpr live
  | _ => exact live

theorem Seats.taken {seat : Seat} {code : Code} (seats : Seats seat code) (outside : inSwitch code = false) :
    seat = .taken := by
  induction code with
  | nil => exact seats
  | cons instr rest ih =>
    cases instr with
    | blockVtAlarm | body | returns | fails | sigreturn => exact seats.1
    | unblockVtAlarm => exact ih seats outside
    | _ => cases outside

theorem Moves.seated (moves : Moves m input m') (outside : input = .deliver → inSwitch m.code = false)
    (seated : Seated m) : Seated m' := by
  refine ⟨?_, ?_, fun tid env found => ?_⟩
  · cases moves with
    | run code executed => exact executed.main_live seated.main
    | _ => exact seated.main
  · obtain ⟨seat, holds, seats⟩ := seated.current
    cases moves with
    | expire => exact ⟨seat, holds, seats⟩
    | deliver =>
      obtain rfl := seats.taken (outside rfl)
      exact ⟨.taken, holds, rfl, .inl rfl, rfl, seats⟩
    | run code executed => exact executed.seated seated code
    | @call op user =>
      obtain rfl : seat = .taken := seats.taken (user ▸ rfl)
      exact ⟨.taken, holds, by cases masks : op.masks <;> simp [Op.code, masks, Seats]⟩
    | sigprocmask => exact ⟨seat, holds, seats⟩
  · rcases moves.saved_from found with kept | rfl | ⟨rest, code, rfl⟩
    · exact seated.saved tid env kept
    · exact rfl
    · obtain ⟨seat, holds, seats⟩ := seated.current
      rw [code] at seats
      exact seats.2

theorem Machine.Starts.seated (starts : m.Starts) : Seated m := by
  have table := starts.allThreads
  refine ⟨by simp [State.live, table], ⟨.taken, ⟨fun tid marked => ?_, .inl starts.running⟩, starts.user ▸ rfl⟩, ?_⟩
  · by_cases main : tid = 0
    · subst main
      simp [State.status, table, UThread.main] at marked
    · simp [State.status, table, main] at marked
  · intro tid env found
    obtain ⟨-, rfl⟩ := starts.env_main found
    exact rfl

/-- A handler that starts outside of a switch starts on the stack of the running
thread. -/
theorem Owns.settled {sp running : Int} {code : Code} (owns : Owns sp running code) (outside : inSwitch code = false) :
    running = sp := by
  induction code with
  | nil => exact owns
  | cons instr rest ih =>
    cases instr with
    | blockVtAlarm | body | returns | fails | sigreturn => exact owns.1
    | unblockVtAlarm => exact ih owns outside
    | _ => cases outside

end step
end Uthreads
