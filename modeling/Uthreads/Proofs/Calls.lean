import Uthreads.Proofs.Sound

/-! Whole calls, from the entry to the return or the jump. What a call did is
read off one inductive predicate; which calls do not come back is decided for
well-formed states. -/

namespace Uthreads
open Fallible

variable {ε : Type} {s s' : State ε}

/-- A call that came back, or handed control over, by what its body did. -/
inductive Step (s : State ε) (here : Context ε) : Op ε → Reply → State ε → Prop where
  | fails {op message} (branch : Branch (blockVtAlarm s) op (.fails message) (blockVtAlarm s))
      (stays : op.switching s = false) : Step s here op (.fails message) (blockVtAlarm s)
  | finishes {op result value middle} (branch : Branch (blockVtAlarm s) op (.finishes result) middle)
      (stays : op.switching s = false) (read : result.eval (unblockVtAlarm middle) = .ok value) :
      Step s here op (.returns value) (unblockVtAlarm middle)
  | switches {op target middle next rest} (branch : Branch (blockVtAlarm s) op (.switches target) middle)
      (leaves : op.switching s = true) (queue : (middle.tick.leave target).readyTids = next :: rest)
      (sleepers : middle.SleepersLive) (chosen : middle.live next) :
      Step s here op (if target = .terminated ∨ target = .ready then .nothing else .returns success)
        (middle.handOver target here next rest)
  | getTid : Step s here .getTid (.returns s.runningTid) s
  | getTotalQuantums : Step s here .getTotalQuantums (.returns s.totalQuantums) s

private theorem step_of_maskedCall {op : Op ε} {here : Context ε} {reply : Reply} (sound : Sound s)
    (taken : maskedCall op here s = .ok (reply, s')) : Step s here op reply s' := by
  obtain ⟨⟨next, middle⟩, body, taken⟩ := bind_ok.mp taken
  have branch := branch_of_body body
  have masked : Sound (blockVtAlarm s) := sound.frame (fun _ => rfl) rfl rfl rfl
  cases next with
  | fails message =>
    have same := branch.fails_same
    cases taken
    subst same
    exact .fails branch (by simp [Op.switching, body])
  | finishes result =>
    obtain ⟨value, read, same⟩ := bind_ok.mp taken
    cases same
    exact .finishes branch (by simp [Op.switching, body]) read
  | switches target =>
    obtain ⟨final, switched, same⟩ := bind_ok.mp taken
    cases same
    obtain ⟨next, rest, queue⟩ := (branch.switches_departing masked).queue
    obtain ⟨sleepers, -, chosen, rfl⟩ := (switchThreads_ok queue).mp switched
    exact .switches branch (by simp [Op.switching, body]) queue sleepers chosen

/-- Every call that does not halt is one of these steps. -/
theorem step_of_call {op : Op ε} {here : Context ε} {reply : Reply} (sound : Sound s)
    (taken : op.call here s = .ok (reply, s')) : Step s here op reply s' := by
  cases op with
  | getTid => cases taken; exact .getTid
  | getTotalQuantums => cases taken; exact .getTotalQuantums
  | _ => exact step_of_maskedCall sound taken

theorem Step.sound {op : Op ε} {here : Context ε} {reply : Reply} (step : Step s here op reply s')
    (sound : Sound s) : Sound s' := by
  have masked : Sound (blockVtAlarm s) := sound.frame (fun _ => rfl) rfl rfl rfl
  cases step with
  | fails => exact masked
  | finishes branch => exact (branch.finishes_sound masked).frame (fun _ => rfl) rfl rfl rfl
  | switches branch leaves queue sleepers chosen => exact (branch.switches_departing masked).sound queue chosen
  | getTid | getTotalQuantums => exact sound

/-- As long as nobody terminates a sleeper, a call keeps all containers in
agreement. -/
theorem Step.wellFormed {op : Op ε} {here : Context ε} {reply : Reply} (step : Step s here op reply s')
    (valid : WellFormed s) (spared : op.Spares s) : WellFormed s' := by
  cases step with
  | fails => exact valid.masked
  | finishes branch => exact (branch.finishes_wellFormed valid.masked spared).1.unmasked
  | switches branch leaves queue =>
    obtain ⟨next, rest, same, -, kept⟩ := (branch.switches_leaving valid.masked).switches
    obtain ⟨rfl, rfl⟩ := List.cons.inj (same.symm.trans queue)
    exact kept here
  | getTid | getTotalQuantums => exact valid

structure Stays (s s' : State ε) : Prop where
  sleepers : s'.sleepers = s.sleepers
  running : s'.runningTid = s.runningTid
  total : s'.totalQuantums = s.totalQuantums
  status : s'.status s.runningTid = s.status s.runningTid

private theorem Branch.finishes_stays {op : Op ε} {result : Returned} (sound : Sound s)
    (branch : Branch s op (.finishes result) s') : Stays s s' := by
  cases branch with
  | @spawn tid entryPoint least =>
    have different : s.runningTid ≠ tid := fun same =>
      sound.disjoint _ sound.running_live (same ▸ least_free least)
    exact ⟨State.sleepers_enroll .., State.runningTid_enroll .., State.totalQuantums_enroll ..,
      by simp [State.status_enroll, different]⟩
  | @terminateReady tid other found | @terminateBlocked tid other found =>
    have away := Ne.symm (sound.not_running found (by simp))
    exact ⟨rfl, rfl, rfl, by simp [State.status_remove, away]⟩
  | @terminateRest tid status other found kind =>
    have away := Ne.symm (sound.not_running found (by rcases kind with rfl | rfl | rfl <;> simp [other]))
    exact ⟨rfl, rfl, rfl, by simp [State.status_remove, away]⟩
  | @blockReady tid other found =>
    have away := Ne.symm (sound.not_running found (by simp))
    exact ⟨rfl, rfl, rfl, by simp [State.status_withStatus, away]⟩
  | @resumeBlocked tid found =>
    have away := Ne.symm (sound.not_running found (by simp))
    exact ⟨rfl, rfl, rfl, by simp [State.status_withStatus, away]⟩
  | blockAsleep | blockRest | resumeAsleep | resumeRest | getTid | getTotalQuantums | getQuantums =>
    exact ⟨rfl, rfl, rfl, rfl⟩

theorem Step.stays {op : Op ε} {here : Context ε} {reply : Reply} (step : Step s here op reply s')
    (sound : Sound s) (stays : op.switching s = false) : Stays s s' := by
  have masked : Sound (blockVtAlarm s) := sound.frame (fun _ => rfl) rfl rfl rfl
  cases step with
  | finishes branch =>
    have kept := branch.finishes_stays masked
    exact ⟨kept.sleepers, kept.running, kept.total, kept.status⟩
  | switches branch leaves => simp [leaves] at stays
  | fails | getTid | getTotalQuantums => exact ⟨rfl, rfl, rfl, rfl⟩

theorem Step.leaves {op : Op ε} {here : Context ε} {reply : Reply} (step : Step s here op reply s')
    (leaves : op.switching s = true) :
    ∃ target middle next rest, Branch (blockVtAlarm s) op (.switches target) middle ∧
      (middle.tick.leave target).readyTids = next :: rest ∧ middle.live next ∧
      reply = (if target = .terminated ∨ target = .ready then .nothing else .returns success) ∧
      s' = middle.handOver target here next rest := by
  cases step with
  | switches branch _ queue _ chosen => exact ⟨_, _, _, _, branch, queue, chosen, rfl, rfl⟩
  | fails _ stays | finishes _ stays => simp [stays] at leaves
  | getTid | getTotalQuantums => simp [Op.switching, Op.body] at leaves

theorem WellFormed.branch (valid : WellFormed s) (op : Op ε) (goesOn : op ≠ .terminate 0) :
    ∃ next s', Branch s op next s' := by
  cases op with
  | spawn entryPoint =>
    cases least : s.freeIds.toList.head? with
    | none => exact ⟨_, _, .spawnFull least⟩
    | some tid =>
      cases entryPoint with
      | none => exact ⟨_, _, .spawnNull least⟩
      | some entryPoint => exact ⟨_, _, .spawn least⟩
  | terminate tid =>
    have other : tid ≠ 0 := fun zero => goesOn (zero ▸ rfl)
    cases found : s.status tid with
    | none => exact ⟨_, _, .terminateMissing other found⟩
    | some status =>
      cases status with
      | running => exact ⟨_, _, .terminateRunning other found⟩
      | ready => exact ⟨_, _, .terminateReady other found ((valid.ready tid).mpr found)⟩
      | blocked => exact ⟨_, _, .terminateBlocked other found⟩
      | main | asleep | terminated => exact ⟨_, _, .terminateRest other found (by simp)⟩
  | block tid =>
    by_cases zero : tid = 0
    · subst zero; exact ⟨_, _, .blockZero⟩
    · cases found : s.status tid with
      | none => exact ⟨_, _, .blockMissing zero found⟩
      | some status =>
        cases status with
        | running => exact ⟨_, _, .blockRunning zero found⟩
        | ready => exact ⟨_, _, .blockReady zero found ((valid.ready tid).mpr found)⟩
        | asleep => exact ⟨_, _, .blockAsleep zero found⟩
        | main | blocked | terminated => exact ⟨_, _, .blockRest zero found (by simp)⟩
  | resume tid =>
    cases found : s.status tid with
    | none => exact ⟨_, _, .resumeMissing found⟩
    | some status =>
      cases status with
      | blocked => exact ⟨_, _, .resumeBlocked found⟩
      | asleep => exact ⟨_, _, .resumeAsleep found⟩
      | main | ready | running | terminated => exact ⟨_, _, .resumeRest found (by simp)⟩
  | sleep numQuantums =>
    by_cases zero : s.runningTid = 0
    · exact ⟨_, _, .sleepZero zero⟩
    · by_cases negative : numQuantums < 0
      · exact ⟨_, _, .sleepNegative zero negative⟩
      · exact ⟨_, _, .sleep zero (Int.not_lt.mp negative) valid.running_live⟩
  | getTid => exact ⟨_, _, .getTid⟩
  | getTotalQuantums => exact ⟨_, _, .getTotalQuantums⟩
  | getQuantums tid =>
    cases found : s.status tid with
    | none => exact ⟨_, _, .getQuantumsMissing found⟩
    | some status => exact ⟨_, _, .getQuantums (State.live_iff_status.mpr ⟨_, found⟩)⟩
  | preempt => exact ⟨_, _, .preempt⟩

theorem Branch.eval {op : Op ε} {result : Returned} (branch : Branch s op (.finishes result) s') :
    ∃ value, result.eval (unblockVtAlarm s') = .ok value := by
  cases branch with
  | spawn => exact ⟨_, eval_newThread.mpr (State.live_enroll_self ..)⟩
  | getQuantums live =>
    obtain ⟨thread, present⟩ := Option.isSome_iff_exists.mp live
    exact ⟨thread.numOfQuantumsRunning, by simp [Returned.eval, unblockVtAlarm, present]⟩
  | _ => exact ⟨_, rfl⟩

/-- From a well-formed state no call faults. -/
theorem WellFormed.call_ok (valid : WellFormed s) (op : Op ε) (here : Context ε) (goesOn : op ≠ .terminate 0) :
    ∃ reply s', op.call here s = .ok (reply, s') := by
  have masked : ∃ reply s', maskedCall op here s = .ok (reply, s') := by
    obtain ⟨next, middle, branch⟩ := valid.masked.branch op goesOn
    have body := body_of_branch branch
    cases next with
    | fails message => exact ⟨.fails message, middle, by simp [maskedCall, body]⟩
    | finishes result =>
      obtain ⟨value, read⟩ := branch.eval
      exact ⟨.returns value, unblockVtAlarm middle, by simp [maskedCall, body, read]⟩
    | switches target =>
      obtain ⟨next, rest, -, switched, -⟩ := (branch.switches_leaving valid.masked).switches
      exact ⟨_, middle.handOver target here next rest, by simp [maskedCall, body, switched here]; rfl⟩
  cases op with
  | getTid => exact ⟨_, _, rfl⟩
  | getTotalQuantums => exact ⟨_, _, rfl⟩
  | _ => exact masked

end Uthreads
