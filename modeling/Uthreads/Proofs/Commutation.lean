import Uthreads.Library.Roster
import Uthreads.Proofs.Runs

/-! Calls about different threads, neither of them running, do not depend on
their order. What each does to its own thread and to the containers is chosen by
the status of that thread, which the other call does not touch. -/

namespace Uthreads
open Fallible Roster

variable {ε : Type}

inductive Handling where
  | block
  | resume
  | terminate
  deriving DecidableEq

def Handling.op (handling : Handling) (tid : Int) : Op ε :=
  match handling with
  | .block => .block tid
  | .resume => .resume tid
  | .terminate => .terminate tid

structure Agrees (s : State ε) : Prop where
  running : ∀ tid, s.status tid = some .running → tid = s.runningTid
  nodup : s.readyTids.Nodup
  ready : ∀ tid, s.live tid → (tid ∈ s.readyTids ↔ s.status tid = some .ready)
  asleep : ∀ tid, s.live tid → (tid ∈ s.sleepers ↔ s.status tid = some .asleep)
  blocked : ∀ tid, s.live tid → (s.status tid = some .blocked ↔ tid ∈ s.blockedTids ∧ tid ∉ s.sleepers)

theorem WellFormed.agrees {s : State ε} (valid : WellFormed s) : Agrees s :=
  ⟨fun tid running => valid.only tid (.inl running), valid.nodup, fun tid _ => valid.ready tid,
    fun tid _ => valid.asleep tid, fun tid _ => valid.blocked tid⟩

/-- What a call does to one thread: to its record, if that remains, and to its
places in the containers. -/
structure Change (ε : Type) where
  record : Option (UThread ε) → Option (UThread ε)
  ready : Edit
  blocked : Edit
  freed : Bool

namespace Change

def keep : Change ε := ⟨id, .keep, .keep, false⟩

def withStatus (status : Status) : Option (UThread ε) → Option (UThread ε) :=
  Option.map fun thread => { thread with status }

def apply (change : Change ε) (tid : Int) (s : State ε) : State ε :=
  { s with
    allThreads := Function.update s.allThreads tid (change.record (s.allThreads tid))
    readyTids := change.ready.inQueue tid s.readyTids
    blockedTids := change.blocked.inSet tid s.blockedTids
    freeIds := if change.freed then s.freeIds.insert tid else s.freeIds }

theorem apply_id (ready blocked : Edit) (tid : Int) (s : State ε) : (⟨id, ready, blocked, false⟩ : Change ε).apply tid s =
    { s with readyTids := ready.inQueue tid s.readyTids, blockedTids := blocked.inSet tid s.blockedTids } := by
  apply State.ext
  case allThreads => exact Function.update_eq_self ..
  all_goals rfl

variable {one two : Change ε} {a b : Int} {s : State ε}

theorem allThreads_apply (other : b ≠ a) : (one.apply a s).allThreads b = s.allThreads b :=
  Function.update_of_ne other ..

theorem status_apply (other : b ≠ a) : (one.apply a s).status b = s.status b := by
  rw [State.status, allThreads_apply other]
  rfl

private theorem insert_comm (ids : Std.ExtTreeSet Int) (a b : Int) : (ids.insert a).insert b = (ids.insert b).insert a := by
  apply Std.ExtTreeSet.ext_mem
  intro id
  simp only [Std.ExtTreeSet.mem_insert]
  exact or_left_comm

theorem apply_comm_except (distinct : a ≠ b) :
    two.apply b (one.apply a s) = { one.apply a (two.apply b s) with
      readyTids := two.ready.inQueue b (one.ready.inQueue a s.readyTids) } := by
  apply State.ext
  case allThreads =>
    simp only [apply, Function.update_of_ne distinct, Function.update_of_ne distinct.symm]
    exact Function.update_comm distinct ..
  case blockedTids => exact Edit.inSet_comm distinct
  case freeIds =>
    simp only [apply]
    cases one.freed <;> cases two.freed
    case true.true => exact insert_comm ..
    all_goals rfl
  all_goals rfl

theorem apply_comm (distinct : a ≠ b) (apart : ¬ (one.ready = .join ∧ two.ready = .join)) :
    two.apply b (one.apply a s) = one.apply a (two.apply b s) := by
  rw [apply_comm_except distinct, Edit.inQueue_comm distinct apart]
  rfl

end Change

section handling
variable {handling : Handling} {status : Status} {s : State ε} {tid : Int} {here : Context ε}

/-- What the call does to a thread with the given status. -/
def Handling.change (handling : Handling) (status : Status) : Change ε :=
  match handling, status with
  | .block, .ready => ⟨Change.withStatus .blocked, .leave, .join, false⟩
  | .block, .asleep => ⟨id, .keep, .join, false⟩
  | .resume, .blocked => ⟨Change.withStatus .ready, .join, .leave, false⟩
  | .resume, .asleep => ⟨id, .keep, .leave, false⟩
  | .terminate, .ready => ⟨fun _ => none, .leave, .keep, true⟩
  | .terminate, .blocked => ⟨fun _ => none, .keep, .leave, true⟩
  | .terminate, _ => ⟨fun _ => none, .keep, .keep, true⟩
  | _, _ => Change.keep

theorem Handling.joins_iff : (handling.change status : Change ε).ready = .join ↔ handling = .resume ∧ status = .blocked := by
  cases handling <;> cases status <;> simp [change, Change.keep]

private theorem handling_branch (handling : Handling) (other : tid ≠ 0) (found : s.status tid = some status)
    (idle : status ≠ .running) (queued : status = .ready → tid ∈ s.readyTids) :
    Branch s (handling.op tid) (.finishes (.value success)) ((handling.change status).apply tid s) := by
  cases handling with
  | block =>
    cases status with
    | running => exact absurd rfl idle
    | ready => exact .blockReady other found (queued rfl)
    | asleep =>
      rw [Handling.change, Change.apply_id]
      exact .blockAsleep other found
    | blocked | main | terminated =>
      change Branch s _ _ (Change.keep.apply tid s)
      rw [Change.keep, Change.apply_id]
      exact .blockRest other found (by simp)
  | resume =>
    cases status with
    | blocked => exact .resumeBlocked found
    | asleep =>
      rw [Handling.change, Change.apply_id]
      exact .resumeAsleep found
    | ready | running | main | terminated =>
      change Branch s _ _ (Change.keep.apply tid s)
      rw [Change.keep, Change.apply_id]
      exact .resumeRest found (by simp)
  | terminate =>
    cases status with
    | running => exact absurd rfl idle
    | ready => exact .terminateReady other found (queued rfl)
    | blocked => exact .terminateBlocked other found
    | main | asleep | terminated => exact .terminateRest other found (by simp)

theorem Handling.call_eq (handling : Handling) (here : Context ε) (other : tid ≠ 0) (found : s.status tid = some status)
    (idle : status ≠ .running) (queued : status = .ready → tid ∈ s.readyTids) :
    (handling.op tid).call here s = .ok (.returns success, unblockVtAlarm ((handling.change status).apply tid s)) := by
  have branch := handling_branch (s := blockVtAlarm s) handling other found idle queued
  have masked : maskedCall (handling.op tid) here s =
      .ok (.returns success, unblockVtAlarm ((handling.change status).apply tid (blockVtAlarm s))) := by
    rw [maskedCall, body_of_branch branch]
    rfl
  have unmasked : unblockVtAlarm ((handling.change status).apply tid (blockVtAlarm s)) =
      unblockVtAlarm ((handling.change status).apply tid s) := by
    apply State.ext
    case mask => exact Finset.erase_insert_eq_erase ..
    all_goals rfl
  rw [← unmasked, ← masked]
  cases handling <;> rfl

def callBoth (first last : Op ε) (hereFirst hereLast : Context ε) (s : State ε) : Except Halt (Reply × Reply × State ε) := do
  let (one, s) ← first.call hereFirst s
  let (two, s) ← last.call hereLast s
  pure (one, two, s)

def Compete (s : State ε) (one : Handling) (a : Int) (two : Handling) (b : Int) : Prop :=
  (one = .resume ∧ s.status a = some .blocked) ∧ two = .resume ∧ s.status b = some .blocked

section both
variable {one two : Handling} {a b : Int} {statusA statusB : Status} {hereA hereB : Context ε}

private theorem Agrees.idle (agrees : Agrees s) (away : a ≠ s.runningTid) (found : s.status a = some status) :
    status ≠ .running ∧ (status = .ready → a ∈ s.readyTids) := by
  constructor
  · rintro rfl
    exact away (agrees.running a found)
  · rintro rfl
    exact (agrees.ready a (State.live_iff_status.mpr ⟨_, found⟩)).mpr found

private theorem callBoth_eq (agrees : Agrees s) (distinct : a ≠ b) (nonzero : a ≠ 0 ∧ b ≠ 0)
    (away : a ≠ s.runningTid ∧ b ≠ s.runningTid) (foundA : s.status a = some statusA) (foundB : s.status b = some statusB) :
    callBoth (one.op a) (two.op b) hereA hereB s = .ok (.returns success, .returns success,
      unblockVtAlarm ((two.change statusB).apply b ((one.change statusA).apply a s))) := by
  obtain ⟨idleA, queuedA⟩ := agrees.idle away.1 foundA
  obtain ⟨idleB, queuedB⟩ := agrees.idle away.2 foundB
  have first := one.call_eq hereA nonzero.1 foundA idleA queuedA
  let middle := unblockVtAlarm ((one.change statusA).apply a s)
  have foundB' : middle.status b = some statusB := (Change.status_apply distinct.symm).trans foundB
  have queuedB' : statusB = .ready → b ∈ middle.readyTids := fun ready =>
    (Edit.mem_inQueue distinct.symm).mpr (queuedB ready)
  have last := two.call_eq hereB nonzero.2 foundB' idleB queuedB'
  have unmasked : unblockVtAlarm ((two.change statusB).apply b middle) =
      unblockVtAlarm ((two.change statusB).apply b ((one.change statusA).apply a s)) := by
    apply State.ext
    case mask => exact Finset.erase_idem
    all_goals rfl
  rw [callBoth, first, bind_ok_left]
  change (two.op b).call hereB middle >>= _ = _
  rw [last, bind_ok_left, unmasked]
  rfl

/-- Calls about two threads that live, neither main nor running, give the same
replies and lead to the same state in either order. Only two resumptions of
blocked threads do not: the threads are enqueued in the order of the calls. -/
theorem calls_commute (agrees : Agrees s) (distinct : a ≠ b) (liveA : s.live a) (liveB : s.live b)
    (nonzero : a ≠ 0 ∧ b ≠ 0) (away : a ≠ s.runningTid ∧ b ≠ s.runningTid) (one two : Handling)
    (hereA hereB hereA' hereB' : Context ε) :
    ∃ ab ba, callBoth (one.op a) (two.op b) hereA hereB s = .ok (.returns success, .returns success, ab) ∧
      callBoth (two.op b) (one.op a) hereB' hereA' s = .ok (.returns success, .returns success, ba) ∧
      (¬ Compete s one a two b → ab = ba) ∧
      (Compete s one a two b → ab.readyTids = s.readyTids ++ [a, b] ∧ ba.readyTids = s.readyTids ++ [b, a] ∧
        ab = { ba with readyTids := ab.readyTids }) := by
  obtain ⟨statusA, foundA⟩ := State.live_iff_status.mp liveA
  obtain ⟨statusB, foundB⟩ := State.live_iff_status.mp liveB
  refine ⟨_, _, callBoth_eq agrees distinct nonzero away foundA foundB,
    callBoth_eq agrees distinct.symm nonzero.symm away.symm foundB foundA, fun other => ?_, fun competing => ?_⟩
  · rw [Change.apply_comm distinct]
    rw [Handling.joins_iff, Handling.joins_iff]
    rintro ⟨⟨rfl, rfl⟩, rfl, rfl⟩
    exact other ⟨⟨rfl, foundA⟩, rfl, foundB⟩
  · obtain ⟨⟨rfl, blockedA⟩, rfl, blockedB⟩ := competing
    obtain rfl := Option.some.inj (foundA.symm.trans blockedA)
    obtain rfl := Option.some.inj (foundB.symm.trans blockedB)
    refine ⟨List.append_assoc .., List.append_assoc .., ?_⟩
    rw [Change.apply_comm_except distinct]
    rfl

end both
end handling

/-- Main has blocked threads 1 and 2, and resumes them in either order. -/
theorem calls_commute_two_blocked : ∃ final ab ba : State Unit, Compete final .resume 1 .resume 2 ∧
    callBoth (.resume 1) (.resume 2) ⟨0, ()⟩ ⟨0, ()⟩ final = .ok (.returns success, .returns success, ab) ∧
    callBoth (.resume 2) (.resume 1) ⟨0, ()⟩ ⟨0, ()⟩ final = .ok (.returns success, .returns success, ba) ∧
    ab.readyTids = [1, 2] ∧ ba.readyTids = [2, 1] := by
  obtain ⟨history, final, run, tested⟩ := perform_tested booted
    [(.spawn (some ()), ⟨0, ()⟩), (.spawn (some ()), ⟨0, ()⟩), (.block 1, ⟨0, ()⟩), (.block 2, ⟨0, ()⟩)]
    (fun history final => Sparing history ∧ final.status 1 = some .blocked ∧ final.status 2 = some .blocked ∧
      final.runningTid = 0 ∧ final.readyTids = []) (by decide +kernel)
  obtain ⟨sparing, one, two, running, ready⟩ := of_decide_eq_true tested
  have valid := run_wellFormed booted_initialized.wellFormed run sparing
  obtain ⟨ab, ba, first, last, -, competing⟩ := calls_commute valid.agrees (a := 1) (b := 2) (by decide)
    (State.live_iff_status.mpr ⟨_, one⟩) (State.live_iff_status.mpr ⟨_, two⟩) (by decide) (by simp [running])
    .resume .resume ⟨0, ()⟩ ⟨0, ()⟩ ⟨0, ()⟩ ⟨0, ()⟩
  obtain ⟨left, right, -⟩ := competing ⟨⟨rfl, one⟩, rfl, two⟩
  rw [ready] at left right
  exact ⟨final, ab, ba, ⟨⟨rfl, one⟩, rfl, two⟩, first, last, left, right⟩
end Uthreads
