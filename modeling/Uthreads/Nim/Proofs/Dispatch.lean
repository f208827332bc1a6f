import Uthreads.Nim.Proofs.Places

/-! Whether a switch of nim/uthreads.cpp finds anybody to switch to. Main is
never blocked, but it may wait for the mutex like everybody else. -/

namespace Uthreads.Nim
open RoundRobin Relational Transition

variable {ε : Type} {s start final : State ε} {tid : Int}

def State.runningId (s : State ε) : Int := s.idOf s.running

def State.HoldsMutex (s : State ε) (pointer : Pointer) : Prop := s.mutex.blocked = true ∧ s.mutex.threadBlock = pointer

def Switches (op : Op ε) (s : State ε) : Prop :=
  op = .block s.runningId ∧ s.runningId ≠ mainThread ∨
    op = .mutexLock ∧ s.mutex.blocked = true ∧ s.mutex.threadBlock ≠ s.running ∨
    op = .terminate s.runningId ∧ s.runningId ≠ mainThread ∨ op = .preempt

/-- Somebody can go on: the preempted thread itself, whoever waits for the mutex
that dies with its holder, or another thread that nothing keeps. -/
def SomebodyLeft (op : Op ε) (s : State ε) : Prop :=
  op = .preempt ∨ op = .terminate s.runningId ∧ s.HoldsMutex s.running ∨
    ∃ tid, s.live tid ∧ tid ≠ s.runningId ∧ tid ∉ s.blocked ∧ tid ∉ s.mutexBlocked

section spec
variable {a : Guarded Int} {next value : Option Int}

private theorem turn_stuck : turn value a = .error .emptyReady ↔ a.queue = [] := by
  rw [← Guarded.dispatch_eq_none, turn]
  split <;> rename_i dispatched <;> simp [dispatched]

/-- The holder that terminates itself always leaves somebody behind: main, or
the waiter that is given the mutex. -/
private theorem Sane.heir (sane : Sane a) (eligible : a.Eligible next) (owns : a.owner = some a.current)
    (notMain : a.current ≠ 0) (main : a.able 0 = true) : ((a.surrender a.current next).drop a.current).queue ≠ [] := by
  have surrendered : a.surrender a.current next = a.grant next := if_pos owns
  have kept : ∀ id, id ∈ (a.grant next).queue → id ≠ a.current →
      id ∈ ((a.surrender a.current next).drop a.current).queue := by
    intro id member different
    rw [surrendered]
    exact (List.mem_erase_of_ne different).mpr member
  have absent := (sane.placed.owner _ owns).2
  by_cases waits : 0 ∈ a.waiting
  · cases next with
    | none => exact absurd (eligible ▸ waits) (Finset.notMem_empty 0)
    | some id =>
      obtain ⟨waiting, best⟩ := eligible
      have able : a.able id = true := by
        by_contra unable
        exact nomatch (best (Bool.not_eq_true _ ▸ unable) 0 waits).symm.trans main
      have member : id ∈ (a.grant (some id)).queue := by simp [Guarded.grant, able]
      exact List.ne_nil_of_mem (kept id member fun same => absent (same ▸ waiting))
  · have queued : 0 ∈ a.queue := (sane.placed.queued 0).mpr ⟨fun same => notMain (Option.some.inj same), main, waits⟩
    have member : 0 ∈ (a.grant next).queue := by
      cases next with
      | none => exact queued
      | some id =>
        unfold Guarded.grant
        dsimp only
        split
        · exact List.mem_append_left _ queued
        · exact queued
    exact List.ne_nil_of_mem (kept 0 member (Ne.symm notMain))

private theorem Sane.erase_current (sane : Sane a) : a.queue.erase a.current = a.queue :=
  List.erase_of_not_mem fun member => ((sane.placed.queued _).mp member).1 rfl

/-- A call gets stuck exactly if it leaves the processor to an empty queue. -/
theorem Sane.stuck_iff (sane : Sane a) (eligible : a.Eligible next) (main : a.able 0 = true) (op : Op ε) :
    op.spec next a = .error .emptyReady ↔ a.queue = [] ∧
      (op = .block a.current ∧ a.current ≠ 0 ∨ (op = .mutexLock ∧ ∃ owner, a.owner = some owner ∧ owner ≠ a.current) ∨
        op = .terminate a.current ∧ a.current ≠ 0 ∧ a.owner ≠ some a.current) := by
  have live : (a.tasks a.current).isNone = false := by
    rw [← Option.not_isSome, (sane.placed.turn _ rfl).live]
    rfl
  cases op with
  | spawn | resume | getTid | getQuantums | getTotalQuantums | mutexUnlock =>
    simp only [Op.spec]
    first | (split <;> simp) | simp
  | terminate tid =>
    simp only [Op.spec]
    by_cases self : tid = a.current
    · subst self
      by_cases zero : a.current = 0
      · simp [← zero, live, mainThread]
      · simp only [live, Bool.false_eq_true, zero, mainThread, if_false, if_true]
        rw [turn_stuck]
        by_cases owns : a.owner = some a.current
        · simp [owns, sane.heir eligible owns zero main]
        · have kept : ((a.surrender a.current next).drop a.current).queue = a.queue.erase a.current := by
            rw [Guarded.surrender, if_neg owns]
            rfl
          simp [kept, sane.erase_current, owns, zero]
    · split
      · simp [self]
      · split
        · simp [self]
        · simp [self]
  | block tid =>
    simp only [Op.spec]
    by_cases self : tid = a.current
    · subst self
      by_cases zero : a.current = 0
      · simp [← zero, mainThread]
      · have kept : (a.hold a.current).queue = a.queue.erase a.current := rfl
        simp only [live, Bool.false_eq_true, zero, mainThread, or_self, if_false, if_true]
        rw [turn_stuck, kept, sane.erase_current]
        simp [zero]
    · split
      · simp [self]
      · simp [self]
  | mutexLock =>
    simp only [Op.spec]
    cases owned : a.owner with
    | none => simp
    | some owner =>
      by_cases same : owner = a.current
      · simp [same]
      · have kept : a.wait.queue = a.queue := rfl
        simp only [same, if_false]
        rw [turn_stuck, kept]
        simp [same]
  | preempt =>
    have kept : a.requeue.queue = a.queue ++ [a.current] := rfl
    rw [Op.spec, turn_stuck, kept]
    simp

end spec

section code

private theorem Valid.queue_nil (valid : Valid s) : (abstraction s).queue = [] ↔
    ¬ ∃ tid, s.live tid ∧ tid ≠ s.runningId ∧ tid ∉ s.blocked ∧ tid ∉ s.mutexBlocked := by
  have current : s.runningId = (abstraction s).current := rfl
  rw [List.eq_nil_iff_forall_not_mem, not_exists, current]
  apply forall_congr'
  intro tid
  rw [not_iff_not, valid.placed.queued]
  constructor
  · rintro ⟨other, runnable⟩
    have live : s.live tid := by
      rw [← valid.filed.thread_isSome, ← Option.isSome_map]
      exact runnable.live
    obtain ⟨pointer, files⟩ := valid.filed.exists_files live
    exact ⟨live, fun same => other (congrArg some same.symm), files.runnable_iff.mp runnable⟩
  · rintro ⟨live, other, free⟩
    obtain ⟨pointer, files⟩ := valid.filed.exists_files live
    exact ⟨fun same => other (Option.some.inj same).symm, files.runnable_iff.mpr free⟩

private theorem Valid.owner_iff (valid : Valid s) :
    (abstraction s).owner = some (abstraction s).current ↔ s.HoldsMutex s.running := by
  unfold State.HoldsMutex
  cases taken : s.mutex.blocked with
  | false => simp [abstraction, taken]
  | true =>
    obtain ⟨holder, files, owner⟩ := valid.filed.owner taken
    rw [owner, Option.some.injEq, valid.current_iff files]
    simp [eq_comm]

private theorem Valid.elsewhere_iff (valid : Valid s) :
    (∃ owner, (abstraction s).owner = some owner ∧ owner ≠ (abstraction s).current) ↔
      s.mutex.blocked = true ∧ s.mutex.threadBlock ≠ s.running := by
  have owns := valid.owner_iff
  unfold State.HoldsMutex at owns
  cases taken : s.mutex.blocked with
  | false => simp [abstraction, taken]
  | true =>
    have owner : (abstraction s).owner = some (s.idOf s.mutex.threadBlock) := by simp [abstraction, taken]
    rw [owner, Option.some.injEq, taken] at owns
    simp [owner, owns]

/-- A call of a reachable state takes the front of an empty queue exactly if it
switches and nobody is left who could go on. -/
theorem finds_front_iff {history : History ε} (initialized : Initialized start) (run : Run Takes start history final)
    {choice : Choice} (fits : choice.Fits final) (op : Op ε) (here : Context ε) :
    op.call choice here final ≠ .error .emptyReady ↔ (Switches op final → SomebodyLeft op final) := by
  have valid := run_valid initialized run
  have main : (abstraction final).able 0 = true := by
    obtain ⟨pointer, files⟩ := valid.filed.exists_files valid.main.1
    simp [files.able, valid.main.2]
  have stuck : op.call choice here final = .error .emptyReady ↔
      op.spec (choice.next final) (abstraction final) = .error .emptyReady := by
    rcases (call_related valid fits op here).outcome with ⟨halt, called, specified⟩ | ⟨_, _, called, specified, -⟩
    · rw [called, specified]
      simp
    · rw [called, specified]
      simp
  have current : (abstraction final).current = final.runningId := rfl
  rw [ne_eq, stuck, valid.sane.stuck_iff (eligible valid.filed fits) main, valid.queue_nil, valid.elsewhere_iff,
    ne_eq (abstraction final).owner, valid.owner_iff, current]
  unfold Switches SomebodyLeft
  generalize (∃ tid, final.live tid ∧ tid ≠ final.runningId ∧ tid ∉ final.blocked ∧ tid ∉ final.mutexBlocked) = left
  cases op with simp [mainThread]
  | terminate | block | mutexLock => tauto

end code

section booted

/-- Thread 1 has the mutex, main waits for it, and thread 1 terminates itself. -/
theorem finds_front_iff_dying_holder : ∃ final : State Unit, mainThread ∈ final.mutexBlocked ∧
    (Op.terminate 1).call (.plain final) ⟨1, ()⟩ final ≠ .error .emptyReady := by
  obtain ⟨history, final, run, tested⟩ := perform_tested booted
    [(.spawn (), ⟨0, ()⟩), (.preempt, ⟨0, ()⟩), (.mutexLock, ⟨1, ()⟩), (.preempt, ⟨1, ()⟩), (.mutexLock, ⟨0, ()⟩)]
    (fun _ final => (Choice.plain final).Fits final ∧ mainThread ∈ final.mutexBlocked ∧ final.runningId = 1 ∧
      final.mutex.blocked = true ∧ final.mutex.threadBlock = final.running) (by decide +kernel)
  obtain ⟨fits, waits, running, holds⟩ := of_decide_eq_true tested
  refine ⟨final, waits, ?_⟩
  apply (finds_front_iff booted_initialized run fits (.terminate 1) ⟨1, ()⟩).mpr
  exact fun _ => .inr (.inl ⟨by rw [running], holds⟩)

def stuck (result : Except Halt (Reply × State ε)) : Bool :=
  match result with
  | .error halt => halt = .emptyReady
  | .ok _ => false

theorem eq_of_stuck {result : Except Halt (Reply × State ε)} (halted : stuck result = true) :
    result = .error .emptyReady := by
  unfold stuck at halted
  split at halted
  · rw [of_decide_eq_true halted]
  · cases halted

/-- Main blocks the holder of the mutex and then waits for the mutex. -/
theorem empty_ready_at_wait : ∃ (history : History Unit) (final : State Unit) (choice : Choice), Initialized booted ∧
    Run Takes booted history final ∧ choice.Fits final ∧ final.runningId = mainThread ∧
    Op.mutexLock.call choice ⟨0, ()⟩ final = .error .emptyReady := by
  obtain ⟨history, final, run, tested⟩ := perform_tested booted
    [(.spawn (), ⟨0, ()⟩), (.preempt, ⟨0, ()⟩), (.mutexLock, ⟨1, ()⟩), (.preempt, ⟨1, ()⟩), (.block 1, ⟨0, ()⟩)]
    (fun _ final => (Choice.plain final).Fits final ∧ final.runningId = mainThread ∧
      stuck (Op.mutexLock.call (.plain final) ⟨0, ()⟩ final)) (by decide +kernel)
  obtain ⟨fits, running, halted⟩ := of_decide_eq_true tested
  exact ⟨history, final, .plain final, booted_initialized, run, fits, running, eq_of_stuck halted⟩

end booted
end Uthreads.Nim
