import Uthreads.Library.Custody
import Uthreads.Nim.Proofs.Dispatch

/-! Mutual exclusion in nim/uthreads.cpp. Who holds the mutex is told by the
calls and the values they return, not by the variable `mutex`. -/

namespace Uthreads.Nim
open RoundRobin Relational Transition

variable {ε : Type} {s start final : State ε} {tid : Int}

def State.Owns (s : State ε) (tid : Int) : Prop := s.mutex.blocked = true ∧ s.Files tid s.mutex.threadBlock

/-- What a call that will return `value` means to those who use the mutex. -/
def Op.accounts (op : Op ε) (caller : Int) (value : Option Int) (custody : Custody Int) : Custody Int :=
  match op with
  | .mutexLock => if value = some success then custody.ask caller else custody
  | .mutexUnlock => if value = some success then custody.giveUp caller else custody
  | _ => custody

def account (custody : Custody Int) (move : Move (State ε) (Event ε)) : Custody Int :=
  (move.label.op.accounts move.before.runningId move.label.reply.value custody).settle move.after.runningId move.after.live

/-- Whose `uthread_mutex_lock` has not returned yet, and who has the mutex from
the return of one. -/
def custody (history : History ε) : Custody Int := history.foldl account ⟨∅, ∅⟩

section account
variable {usage : Custody Int} {a b : Guarded Int} {next value : Option Int} {op : Op ε}

/-- Every move of the scheduler, seen by the users of the mutex. -/
theorem Ruled.covers (ruled : Ruled next a op value b) (tracks : usage.Tracks a) (eligible : a.Eligible next) :
    (op.accounts a.current value usage).Covers b := by
  cases ruled with
  | quiet other =>
    have same : op.accounts a.current value usage = usage := by
      unfold Op.accounts
      split
      · exact absurd rfl other.1
      · exact absurd rfl other.2
      · rfl
    rw [same]
    exact tracks.rest rfl rfl
  | spawn | block => exact tracks.rest rfl rfl
  | resume =>
    apply tracks.rest
    all_goals
      unfold Guarded.release
      split <;> rfl
  | terminate => exact tracks.leave eligible
  | terminateSelf _ turn => exact (tracks.leave eligible).dispatch turn
  | blockSelf _ turn => exact (tracks.rest (b := a.hold a.current) rfl rfl).dispatch turn
  | lockFree free => exact tracks.take free
  | lockAgain | unlockOther => exact tracks.rest rfl rfl
  | lockWait _ _ turn => exact tracks.wait.dispatch turn
  | unlock owns => exact tracks.grant owns eligible
  | preempt turn => exact (tracks.rest (b := a.requeue) rfl rfl).dispatch turn

theorem calling_accounts (op : Op ε) (caller : Int) (value : Option Int) (calls : tid ∈ usage.calling) :
    tid ∈ (op.accounts caller value usage).calling := by
  unfold Op.accounts
  split
  · split
    · exact Finset.mem_insert_of_mem calls
    · exact calls
  · split
    · exact calls
    · exact calls
  · exact calls

theorem Ruled.waits {owner : Int} (ruled : Ruled next a (.mutexLock : Op ε) value b) (owns : a.owner = some owner)
    (other : owner ≠ a.current) : a.current ∈ b.waiting := by
  cases ruled with
  | quiet kind => exact absurd rfl kind.1
  | lockFree free => exact nomatch free.symm.trans owns
  | lockAgain again => exact absurd (Option.some.inj (owns.symm.trans again)) other
  | lockWait _ _ turn =>
    rw [turn.waiting]
    exact Finset.mem_insert_self ..

theorem Ruled.unlocks_iff (ruled : Ruled next a (.mutexUnlock : Op ε) value b) :
    value = some success ↔ a.owner = some a.current := by
  cases ruled with
  | quiet kind => exact absurd rfl kind.2
  | unlock owns => exact iff_of_true rfl owns
  | unlockOther other => exact iff_of_false (by decide) other

end account

section runs
variable {history : History ε}

theorem Valid.owns_iff (valid : Valid s) : s.Owns tid ↔ (abstraction s).owner = some tid := by
  unfold State.Owns
  cases taken : s.mutex.blocked with
  | false => simp [abstraction, taken]
  | true =>
    obtain ⟨holder, files, owner⟩ := valid.filed.owner taken
    rw [owner, Option.some.injEq]
    constructor
    · intro owns
      exact files.id_inj owns.2
    · rintro rfl
      exact ⟨rfl, files⟩

theorem tracks_account (valid : Valid s) {event : Event ε} {s' : State ε} (taken : Takes s event s') {usage : Custody Int}
    (tracks : usage.Tracks (abstraction s)) : (account usage ⟨s, event, s'⟩).Tracks (abstraction s') := by
  have valid' := (valid.step taken).1
  have covers := (valid.ruled taken).covers tracks (eligible valid.filed taken.1)
  exact covers.settle valid'.placed fun _ => valid'.live_iff

theorem run_tracks (valid : Valid s) {usage : Custody Int} (tracks : usage.Tracks (abstraction s))
    (run : Run Takes s history final) : Valid final ∧ (history.foldl account usage).Tracks (abstraction final) := by
  induction run with
  | start => exact ⟨valid, tracks⟩
  | next run taken ih =>
    rw [List.foldl_append]
    exact ⟨(ih.1.step taken).1, tracks_account ih.1 taken ih.2⟩

theorem custody_tracks (initialized : Initialized start) (run : Run Takes start history final) :
    (custody history).Tracks (abstraction final) := by
  obtain ⟨⟨-, same⟩, -⟩ := initialized.implements
  apply (run_tracks initialized.valid _ run).2
  rw [same]
  exact ⟨nofun, nofun, nofun, nofun, nofun⟩

/-- A call that was not answered yet stays so until its caller is the owner. -/
theorem calling_stays (valid : Valid s) {usage : Custody Int} (tracks : usage.Tracks (abstraction s))
    (calls : tid ∈ usage.calling) (run : Run Takes s history final)
    (shut : ∀ move ∈ history, move.after.live tid ∧ ¬ move.after.Owns tid) : tid ∈ (history.foldl account usage).calling := by
  induction run with
  | start => exact calls
  | @next trace state event after run taken ih =>
    have waits := ih fun move member => shut move (List.mem_append_left _ member)
    obtain ⟨live, open'⟩ := shut ⟨state, event, after⟩ (by simp)
    obtain ⟨valid, tracks⟩ := run_tracks valid tracks run
    have tracks' := tracks_account valid taken tracks
    rw [List.foldl_append]
    have asks := calling_accounts event.op state.runningId event.reply.value waits
    apply Custody.mem_calling_settle.mpr
    refine ⟨asks, live, ?_⟩
    rintro rfl
    have holds := Custody.mem_holders_settle.mpr ⟨live, .inr ⟨asks, rfl⟩⟩
    exact open' ((valid.step taken).1.owns_iff.mpr (tracks'.holders _ holds))

end runs

/-- At most one thread holds the mutex, and the library knows which. Those who
have called `uthread_mutex_lock` and are not the owner do not run. -/
structure Exclusive (usage : Custody Int) (s : State ε) : Prop where
  unique : ∀ tid ∈ usage.holders, ∀ other ∈ usage.holders, tid = other
  holder : ∀ tid ∈ usage.holders, s.live tid ∧ s.Owns tid
  calling : ∀ tid ∈ usage.calling, s.runningId ≠ tid ∧ (s.Owns tid ∨ tid ∈ s.mutexBlocked)

theorem mutual_exclusion {history : History ε} (initialized : Initialized start) (run : Run Takes start history final) :
    Exclusive (custody history) final ∧ ∀ event after, Takes final event after →
      (event.op = .mutexLock → ∀ holder ∈ (custody history).holders, holder ≠ final.runningId →
        ∀ later last, Run Takes after later last →
          (∀ move ∈ later, move.after.live final.runningId ∧ ¬ move.after.Owns final.runningId) →
          last.runningId ≠ final.runningId) ∧
      (event.op = .mutexUnlock → (event.reply.value = some success ↔ final.runningId ∈ (custody history).holders)) := by
  have valid := run_valid initialized run
  have tracks := custody_tracks initialized run
  have current : final.runningId = (abstraction final).current := rfl
  refine ⟨⟨fun tid holds other holds' => ?_, fun tid holds => ?_, fun tid calls => ?_⟩, fun event after taken => ⟨?_, ?_⟩⟩
  · exact Option.some.inj ((tracks.holders tid holds).symm.trans (tracks.holders other holds'))
  · have owns := valid.owns_iff.mpr (tracks.holders tid holds)
    exact ⟨owns.2.live, owns⟩
  · refine ⟨fun same => tracks.running (current ▸ same ▸ calls), ?_⟩
    rcases tracks.calling tid calls with waits | owns
    · exact .inr (mem_waiting.mp waits)
    · exact .inl (valid.owns_iff.mpr owns)
  · intro locks holder holds other later last run' shut
    have ruled := valid.ruled taken
    rw [locks] at ruled
    have waits := ruled.waits (tracks.holders holder holds) other
    have tracks' := tracks_account valid taken tracks
    have valid' := (valid.step taken).1
    have calls : final.runningId ∈ _ := calling_stays valid' tracks' (tracks'.waiting _ waits) run' shut
    intro same
    rw [← same] at calls
    exact (run_tracks valid' tracks' run').2.running calls
  · intro unlocks
    have ruled := valid.ruled taken
    rw [unlocks] at ruled
    rw [ruled.unlocks_iff, current]
    constructor
    · exact fun owns => (tracks.owner _ owns).resolve_left tracks.running
    · exact tracks.holders _

/-- Thread 1 asks for the mutex that main has, is blocked and resumed, and is the
holder once main has unlocked the mutex. -/
theorem mutual_exclusion_resumed_waiter : ∃ history : History Unit, ∃ final : State Unit, Run Takes booted history final ∧
    1 ∈ (custody history).holders ∧ Exclusive (custody history) final := by
  obtain ⟨history, final, run, tested⟩ := perform_tested booted
    [(.spawn (), ⟨0, ()⟩), (.mutexLock, ⟨0, ()⟩), (.preempt, ⟨0, ()⟩), (.mutexLock, ⟨1, ()⟩), (.block 1, ⟨0, ()⟩),
      (.resume 1, ⟨0, ()⟩), (.mutexUnlock, ⟨0, ()⟩), (.preempt, ⟨0, ()⟩)]
    (fun history _ => 1 ∈ (custody history).holders) (by decide +kernel)
  exact ⟨history, final, run, of_decide_eq_true tested, (mutual_exclusion booted_initialized run).1⟩

end Uthreads.Nim
