import Mathlib.Algebra.BigOperators.Group.Finset.Basic
import Mathlib.Algebra.BigOperators.Group.Finset.Piecewise
import Mathlib.Algebra.Ring.Nat
import Uthreads.Nim.Proofs.Dispatch
import Uthreads.Nim.Proofs.Memory

/-! The quantums of nim/uthreads.cpp, statement by statement. A switch counts one in
total before it charges the thread that it jumps to, and nothing else is counted or
charged, even where a thread is resumed in the middle of the switch. -/

namespace Uthreads.Nim
open Fallible OrderedMap Transition

def State.count {ε : Type} (s : State ε) (tid : Int) : Nat := ((s.thread tid).map Thread.quantums).getD 0

def State.charged {ε : Type} (s : State ε) : Nat := ∑ tid ∈ allIds.toFinset, s.count tid

/-- The counts of the threads that leave the table in a move. -/
def buried (move : Move Machine Input) : Nat :=
  ∑ tid ∈ allIds.toFinset, if move.after.lib.live tid then 0 else move.before.lib.count tid

/-- The jumps ahead whose quantum is counted already. -/
def owed (code : Code) : Int := code.count .startThread - code.count .countTotal

def Idle (code : Code) : Prop := ∀ instr ∈ code, instr ≠ .countTotal ∧ instr ≠ .startThread

section codes
variable {code rest : Code} {instr : Instr}

@[simp] theorem owed_nil : owed [] = 0 := rfl

theorem owed_cons : owed (instr :: rest) =
    owed rest + (if instr = .startThread then 1 else 0) - if instr = .countTotal then 1 else 0 := by
  simp only [owed, List.count_cons, beq_iff_eq]
  split <;> split <;> omega

theorem owed_append (first last : Code) : owed (first ++ last) = owed first + owed last := by
  simp only [owed, List.count_append]
  omega

theorem Idle.owed (idle : Idle code) : owed code = 0 := by
  have started : Instr.startThread ∉ code := fun member => (idle _ member).2 rfl
  have counted : Instr.countTotal ∉ code := fun member => (idle _ member).1 rfl
  simp [Nim.owed, List.count_eq_zero_of_not_mem started, List.count_eq_zero_of_not_mem counted]

theorem Idle.append {last : Code} (idle : Idle code) (idle' : Idle last) : Idle (code ++ last) :=
  List.forall_mem_append.mpr ⟨idle, idle'⟩

theorem Idle.tail (idle : Idle (instr :: rest)) : Idle rest := (List.forall_mem_cons.mp idle).2

theorem Idle.afterStart (idle : Idle code) : Idle (afterStart code) := by
  induction code with
  | nil => exact idle
  | cons instr rest ih =>
    cases instr with
    | startThread => exact idle.tail
    | _ => exact ih idle.tail

theorem owed_le (later : Idle (afterStart code)) : owed code ≤ 1 := by
  induction code with
  | nil => exact Int.zero_le_ofNat 1
  | cons instr rest ih =>
    cases instr with
    | startThread =>
      have paid : Nim.owed rest = 0 := Idle.owed later
      simp [owed_cons, paid]
    | _ =>
      have bounded := ih later
      rw [owed_cons]
      grind

theorem Unwinds.idle {returns : Bool → Prop} (unwinds : Unwinds returns false code) : Idle code := by
  induction code with
  | nil => simp [Idle]
  | cons instr rest ih =>
    cases instr with
    | call => exact List.forall_mem_cons.mpr ⟨by simp, ih (unwinds.2 false)⟩
    | returns =>
      obtain ⟨-, rfl⟩ := unwinds
      simp [Idle]
    | unblock => exact List.forall_mem_cons.mpr ⟨by simp, ih unwinds⟩
    | sigreturn => exact List.forall_mem_cons.mpr ⟨by simp, ih unwinds.2⟩
    | saveEnv => exact unwinds.elim
    | _ => exact absurd unwinds.1 Bool.false_ne_true

theorem owed_switchThreadCode (exit : Exit) : owed (switchThreadCode exit) = 0 := by
  obtain ⟨moveTo, initAlarm, toDel⟩ := exit
  cases initAlarm <;> cases toDel <;> rfl

theorem idle_afterSwitch (op : Op Unit) : Idle op.afterSwitch := by
  cases op <;> simp [Idle, Op.afterSwitch]

end codes

/-- What is counted and what is charged agree for whatever is executed next. -/
structure Balanced (m : Machine) : Prop where
  current : ¬ Dispatches m.code → owed m.code = 0
  later : Idle (afterStart m.code)
  saved : ∀ pointer thread, m.lib.heap pointer = some thread → owed thread.env.pc = 0 ∧ Idle (afterStart thread.env.pc)

section balanced
variable {resumption : Resumption} {m m' : Machine} {choice : Choice} {rest : Code} {instr : Instr} {input : Input}

private theorem idle_alarmSigHandlerCode {mask : Finset Signal} {code : Code} (idle : Idle code) :
    Idle (alarmSigHandlerCode mask ++ code) := by
  refine Idle.append ?_ idle
  simp [Idle, alarmSigHandlerCode]

private theorem Balanced.resumed (balanced : Balanced m) (code : m.code = instr :: rest) (other : instr ≠ .startThread)
    (even : owed rest = 0) (resumption : Resumption) :
    owed (resumption.code rest) = 0 ∧ Idle (afterStart (resumption.code rest)) := by
  have later : Idle (afterStart rest) := by
    have later := balanced.later
    rw [code] at later
    cases instr <;> first | exact later | exact absurd rfl other
  cases resumption with
  | afterSaveEnv => exact ⟨even, later⟩
  | afterSwitch => exact ⟨later.owed, later.afterStart⟩

private theorem Executes.balanced (executed : Executes resumption m choice rest instr m') (code : m.code = instr :: rest)
    (unwinding : Unwinding m) (balanced : Balanced m) : Balanced m' := by
  have unwinds := unwinding.current.unwinds code
  have current := balanced.current
  have later := balanced.later
  rw [code] at current later
  have idle : ∀ {code}, Idle code → (¬ Dispatches code → owed code = 0) ∧ Idle (afterStart code) :=
    fun idle => ⟨fun _ => idle.owed, idle.afterStart⟩
  suffices next : (¬ Dispatches m'.code → owed m'.code = 0) ∧ Idle (afterStart m'.code) by
    refine ⟨next.1, next.2, fun pointer thread found => ?_⟩
    rcases executed.saved_from found with ⟨before, kept, same, -⟩ | fresh | ⟨rfl, saved⟩
    · exact same ▸ balanced.saved pointer before kept
    · rw [fresh]
      exact ⟨rfl, by simp [Idle, Nim.afterStart]⟩
    · rw [saved]
      refine balanced.resumed code (by simp) ?_ resumption
      have even := current id
      rwa [owed_cons, if_neg (by simp), if_neg (by simp), add_zero, sub_zero] at even
  cases executed with
  | @enters op exit lib enters =>
    have clean : Idle rest := Unwinds.idle ((unwinds (by simp)).2 false)
    have after : Idle (op.afterSwitch ++ rest) := (idle_afterSwitch op).append clean
    rw [List.append_assoc]
    constructor
    · intro _
      rw [owed_append, owed_switchThreadCode, after.owed, add_zero]
    · rw [afterStart_switchThreadCode]
      exact after
  | called =>
    have clean : Idle rest := Unwinds.idle ((unwinds (by simp)).2 false)
    exact idle (List.forall_mem_cons.mpr ⟨by simp, clean⟩)
  | returns =>
    obtain ⟨-, rfl⟩ := unwinds (by simp)
    exact idle (by simp [Idle])
  | unblock => exact idle (Unwinds.idle (unwinds (by simp)))
  | sigreturn => exact idle (Unwinds.idle (unwinds (by simp)).2)
  | moveOut =>
    refine ⟨fun _ => ?_, later⟩
    have even := current id
    rw [owed_cons, if_neg (by simp), if_neg (by simp)] at even ⊢
    exact even
  | saveEnv =>
    obtain ⟨-, dispatches, -⟩ := unwinding.current.saving code resumption
    exact ⟨fun outside => absurd dispatches outside, later⟩
  | takeFront | runTimer | countTotal | delete | deleteNull =>
    have dispatches := (unwinds (by simp)).2.1
    exact ⟨fun outside => absurd dispatches outside, later⟩
  | startThread found =>
    obtain ⟨even, idle⟩ := balanced.saved _ _ found
    exact ⟨fun _ => even, idle⟩

private theorem Moves.balanced (moves : Moves resumption m input m') (unwinding : Unwinding m) (balanced : Balanced m) :
    Balanced m' := by
  cases moves with
  | expire | sigprocmask => exact ⟨balanced.current, balanced.later, balanced.saved⟩
  | deliver unmasked =>
    have idle := @idle_alarmSigHandlerCode m.lib.mask _ (unwinding.unmasked unmasked).idle
    exact ⟨fun _ => idle.owed, idle.afterStart, balanced.saved⟩
  | run code executed => exact executed.balanced code unwinding balanced
  | call user => exact ⟨fun _ => rfl, by simp [Idle, Nim.afterStart], balanced.saved⟩

end balanced

section count
variable {resumption : Resumption} {m m' : Machine} {choice : Choice} {rest : Code} {instr : Instr} {input : Input}
  {toDel : Option Pointer} {tid : Int}

private theorem count_dead {s : State Code} (dead : ¬ s.live tid) : s.count tid = 0 := by
  have absent : s.allThreads[tid]? = none := Std.ExtTreeMap.getElem?_eq_none dead
  simp [State.count, State.thread, absent]

private def Counts (s s' : State Code) (tid : Int) (charge : Nat) : Prop :=
  s'.count tid + (if s'.live tid then 0 else s.count tid) = s.count tid + charge

private theorem Counts.kept {s s' : State Code} (table : s'.allThreads[tid]? = s.allThreads[tid]?)
    (count : ∀ pointer, s.allThreads[tid]? = some pointer →
      (s'.heap pointer).map Thread.quantums = (s.heap pointer).map Thread.quantums) : Counts s s' tid 0 := by
  have same : s'.count tid = s.count tid := by
    unfold State.count State.thread
    rw [table]
    cases found : s.allThreads[tid]? with
    | none => rfl
    | some pointer => exact congrArg (Option.getD · 0) (count pointer found)
  unfold Counts
  rw [same]
  split
  · rfl
  next dead => rw [← same, count_dead dead]

private theorem Counts.gone {s s' : State Code} (dead : ¬ s'.live tid) : Counts s s' tid 0 := by
  rw [Counts, if_neg dead, count_dead dead, Nat.zero_add, Nat.add_zero]

private theorem Booked.counts_called {op : Op Code} {lib : State Code} (booked : Booked none m) (effect : Effect m.lib lib op)
    (tid : Int) : Counts m.lib lib tid 0 := by
  cases effect with
  | quiet quiet => exact .kept (by rw [quiet.allThreads]) fun pointer _ => by rw [quiet.heap]
  | @spawn f address notNull fresh room _ _ _ heap allThreads =>
    by_cases same : tid = getId m.lib
    · have dead := (booked.filing.numbered.getId_new room).1
      have live : lib.live tid := by
        rw [State.live, allThreads, mem_insert]
        exact .inl same
      have thread : lib.thread (getId m.lib) = some (.spawned (getId m.lib) f) := by
        rw [State.thread, allThreads, getElem?_insert, if_pos rfl, heap]
        exact Function.update_self ..
      have before : m.lib.count tid = 0 := count_dead (same ▸ dead)
      have after : lib.count tid = 0 := by
        rw [State.count, same, thread]
        rfl
      rw [Counts, if_pos live, before, after]
    · refine .kept (by rw [allThreads, getElem?_insert, if_neg same]) fun pointer found => ?_
      have different : pointer ≠ address := by
        rintro rfl
        have id := booked.filing.filed tid pointer found
        simp [fresh] at id
      rw [heap, Function.update_of_ne different]
  | @terminate gone pointer filed _ _ _ _ _ heap allThreads =>
    by_cases same : tid = gone
    · apply Counts.gone
      rw [State.live, allThreads, mem_erase]
      exact fun left => left.1 same
    · refine .kept (by rw [allThreads, getElem?_erase, if_neg same]) fun other found => ?_
      have different : other ≠ pointer := by
        rintro rfl
        have id := booked.filing.filed tid other found
        exact same (Option.some.inj (id.symm.trans (booked.filing.filed gone other filed)))
      rcases heap with heap | ⟨-, heap⟩
      · rw [heap, Function.update_of_ne different]
      · rw [heap]

private theorem Booked.counts_started {thread : Thread Code} {mask : Finset Signal} (booked : Booked none m)
    (found : m.lib.heap m.lib.running = some thread) (tid : Int) :
    Counts m.lib { m.lib.store m.lib.running (some { thread with quantums := thread.quantums + 1 }) with mask } tid
      (if tid = m.lib.runningId then 1 else 0) := by
  have recorded := booked.filing.recorded _ thread found (Option.some_ne_none _)
  have id : m.lib.runningId = thread.id := by simp [State.runningId, State.idOf, found]
  by_cases same : tid = m.lib.runningId
  · have filed : m.lib.allThreads[tid]? = some m.lib.running := by rw [same, id, recorded]
    have live : m.lib.live tid := mem_iff_exists.mpr ⟨_, filed⟩
    have before : m.lib.thread tid = some thread := by
      rw [State.thread, filed]
      exact found
    rw [if_pos same, Counts, State.count, State.count, before]
    refine (congrArg (_ + ·) (if_pos live)).trans ?_
    simp [State.thread, State.store, filed]
  · rw [if_neg same]
    refine .kept rfl fun pointer filed => ?_
    have different : pointer ≠ m.lib.running := by
      rintro rfl
      have own := booked.filing.filed tid _ filed
      rw [found] at own
      exact same ((Option.some.inj own).symm.trans id.symm)
    exact congrArg (Option.map Thread.quantums) (Function.update_of_ne different ..)

private theorem ran_other {counted : Instr} (code : m.code = instr :: rest) (other : instr ≠ counted) :
    ran counted m (.run choice) = 0 := by
  simp [ran, code, other]

private theorem ran_self (code : m.code = instr :: rest) : ran instr m (.run choice) = 1 := by simp [ran, code]

private theorem Booked.at_jump (booked : Booked toDel m) (code : m.code = .startThread :: rest) : Booked none m := by
  have later := booked.later
  rw [code] at later
  exact booked.settled (code ▸ later)

private theorem Executes.counts (executed : Executes resumption m choice rest instr m') (code : m.code = instr :: rest)
    (unwinding : Unwinding m) (booked : Booked toDel m) (tid : Int) :
    Counts m.lib m'.lib tid (if tid = m.lib.runningId then ran .startThread m (.run choice) else 0) := by
  have still : ∀ {lib : State Code}, instr ≠ .startThread → Counts m.lib lib tid 0 →
      Counts m.lib lib tid (if tid = m.lib.runningId then ran .startThread m (.run choice) else 0) := by
    intro lib other counts
    rwa [ran_other code other, ite_self]
  have unwinds := unwinding.current.unwinds code
  cases executed with
  | enters enters =>
    apply still (by simp)
    have entered := enters.entered
    rcases entered.allThreads with ⟨-, table⟩ | ⟨gone, -, -, -, -, -, table⟩
    · exact .kept (by rw [table]) fun pointer _ => by rw [entered.heap]
    · by_cases same : tid = gone
      · apply Counts.gone
        rw [State.live, table, mem_erase]
        exact fun left => left.1 same
      · exact .kept (by rw [table, getElem?_erase, if_neg same]) fun pointer _ => by rw [entered.heap]
  | called _ effect =>
    have clean : doomed rest = [] := Unwinds.doomed ((unwinds (by simp)).2 false)
    exact still (by simp) ((booked.settled (code ▸ clean)).counts_called effect tid)
  | returns | unblock | sigreturn | moveOut | takeFront | runTimer | countTotal | deleteNull =>
    exact still (by simp) (.kept rfl fun _ _ => rfl)
  | @saveEnv goingOut thread found =>
    refine still (by simp) (.kept rfl fun pointer _ => ?_)
    by_cases same : pointer = goingOut
    · simp [State.store, same, found]
    · exact congrArg (Option.map Thread.quantums) (Function.update_of_ne same ..)
  | @delete dying =>
    refine still (by simp) (.kept rfl fun pointer filed => ?_)
    have pending := booked.pending
    rw [code] at pending
    cases toDel with
    | none => cases pending
    | some doomed =>
      obtain ⟨rfl, -⟩ := List.cons.inj pending
      have different : pointer ≠ dying := by
        rintro rfl
        exact booked.filing.erased pointer rfl tid filed
      exact congrArg (Option.map Thread.quantums) (Function.update_of_ne different ..)
  | startThread found =>
    rw [ran_self code]
    exact (booked.at_jump code).counts_started found tid

private theorem Moves.counts (moves : Moves resumption m input m') (unwinding : Unwinding m) (booked : Booked toDel m) (tid : Int) :
    Counts m.lib m'.lib tid (if tid = m.lib.runningId then ran .startThread m input else 0) := by
  cases moves with
  | run code executed => exact executed.counts code unwinding booked tid
  | expire | deliver | call | sigprocmask =>
    have kept : Counts m.lib _ tid 0 := .kept rfl fun _ _ => rfl
    exact (ite_self 0).symm ▸ kept

private theorem Effect.total {ε : Type} {s s' : State ε} {op : Op ε} (effect : Effect s s' op) : s'.totalQuantum = s.totalQuantum := by
  cases effect with
  | quiet quiet => exact quiet.total
  | spawn _ _ _ _ _ total | terminate _ _ _ _ _ total => exact total

private theorem Moves.total (moves : Moves resumption m input m') :
    m'.lib.totalQuantum = m.lib.totalQuantum + ran .countTotal m input := by
  cases moves with
  | expire | deliver | call | sigprocmask => rfl
  | run code executed =>
    cases executed with
    | enters enters => rw [ran_other code (by simp), enters.entered.total, Nat.add_zero]
    | called _ effect => rw [ran_other code (by simp), effect.total, Nat.add_zero]
    | countTotal => rw [ran_self code]
    | returns | unblock | sigreturn | moveOut | saveEnv | takeFront | runTimer | delete | deleteNull | startThread =>
      rw [ran_other code (by simp)]
      rfl

private theorem Moves.starts_known (moves : Moves resumption m input m') (booked : Booked toDel m)
    (starts : ran .startThread m input ≠ 0) : m.lib.runningId ∈ allIds := by
  cases moves with
  | expire | deliver | call | sigprocmask => exact absurd rfl starts
  | run code executed =>
    cases executed with
    | @startThread thread found =>
      have filing := (booked.at_jump code).filing
      have id : m.lib.runningId = thread.id := by simp [State.runningId, State.idOf, found]
      have live := mem_iff_exists.mpr ⟨_, filing.recorded _ _ found (Option.some_ne_none _)⟩
      exact mem_allIds.mpr (id ▸ filing.numbered.ids _ live)
    | _ => exact absurd (ran_other code (by simp)) starts

private theorem Moves.charged (moves : Moves resumption m input m') (unwinding : Unwinding m) (booked : Booked toDel m) :
    m'.lib.charged + buried ⟨m, input, m'⟩ = m.lib.charged + ran .startThread m input := by
  have started : ∑ tid ∈ allIds.toFinset, (if tid = m.lib.runningId then ran .startThread m input else 0) =
      ran .startThread m input := by
    rw [Finset.sum_ite_eq']
    split
    next => rfl
    next outside =>
      by_contra idle
      exact outside (List.mem_toFinset.mpr (moves.starts_known booked (Ne.symm idle)))
  rw [← started, State.charged, State.charged, buried, ← Finset.sum_add_distrib, ← Finset.sum_add_distrib]
  exact Finset.sum_congr rfl fun tid _ => moves.counts unwinding booked tid

private theorem Executes.pays (executed : Executes resumption m choice rest instr m') (code : m.code = instr :: rest)
    (balanced : Balanced m) (outside : ¬ Dispatches m'.code → owed m'.code = 0) :
    owed m'.code + ran .startThread m (.run choice) = owed m.code + ran .countTotal m (.run choice) ∧
      (0 ≤ owed m.code → 0 ≤ owed m'.code) := by
  have even := balanced.current
  have later := balanced.later
  have next : owed m.code = owed rest + ran .startThread m (.run choice) - ran .countTotal m (.run choice) := by
    rw [code, owed_cons]
    simp only [ran, code, List.head?_cons, Option.some.injEq]
    split <;> split <;> rfl
  rw [code] at even later
  cases executed with
  | enters | called | moveOut =>
    have before : owed m.code = 0 := code ▸ even id
    rw [before, outside id]
    simp [ran, code]
  | returns | unblock | sigreturn | saveEnv | takeFront | runTimer | countTotal | delete | deleteNull =>
    have jumpless : ran .startThread m (.run choice) = 0 := ran_other code (by simp)
    refine ⟨by simp only; omega, fun positive => ?_⟩
    simp only
    omega
  | startThread found =>
    have paid : owed rest = 0 := Idle.owed later
    have landed := (balanced.saved _ _ found).1
    simp [ran, code, owed_cons, landed, paid]

private theorem Moves.pays (moves : Moves resumption m input m') (unwinding : Unwinding m) (balanced : Balanced m) :
    owed m'.code + ran .startThread m input = owed m.code + ran .countTotal m input ∧
      (0 ≤ owed m.code → 0 ≤ owed m'.code) := by
  have outside := (moves.balanced unwinding balanced).current
  cases moves with
  | expire | sigprocmask => exact ⟨rfl, id⟩
  | deliver unmasked =>
    have even : owed m.code = 0 := (unwinding.unmasked unmasked).idle.owed
    have even' : owed m.deliver.code = 0 := outside id
    simp [ran, even, even']
  | call user => simp [ran, user, owed_cons]
  | run code executed => exact executed.pays code balanced outside

end count

section run
variable {resumption : Resumption} {start final : Machine} {timeline : List (Move Machine Input)}

private theorem Machine.Starts.charged (starts : start.Starts) : start.lib.charged = 1 := by
  obtain ⟨quantumUsecs, address, mask, notNull, done, -⟩ := starts
  obtain ⟨fresh, -⟩ := uthreadInit_fresh done
  have single : ∀ tid ∈ allIds.toFinset, start.lib.count tid = if tid = 0 then 1 else 0 := by
    intro tid _
    rw [State.count, State.thread, fresh.allThreads, getElem?_insert]
    by_cases main : tid = 0
    · rw [if_pos main, if_pos main, Option.bind_some, fresh.heap, Function.update_self]
      rfl
    · rw [if_neg main, if_neg main]
      simp
  rw [State.charged, Finset.sum_congr rfl single, Finset.sum_ite_eq']
  exact if_pos (List.mem_toFinset.mpr (mem_allIds.mpr (by decide)))

private theorem Machine.Starts.balanced (starts : start.Starts) : Balanced start := by
  obtain ⟨quantumUsecs, address, mask, notNull, done, -, code, -⟩ := starts
  obtain ⟨fresh, -⟩ := uthreadInit_fresh done
  refine ⟨fun _ => code ▸ rfl, code ▸ by simp [Idle, Nim.afterStart], fun pointer thread found => ?_⟩
  rw [fresh.heap] at found
  rcases of_update found with ⟨-, main⟩ | ⟨-, none⟩
  · cases main
    exact ⟨rfl, by simp [Idle, Nim.afterStart, Thread.main]⟩
  · cases none

private theorem Machine.Starts.idle (starts : start.Starts) : start.code = [] := by
  obtain ⟨-, -, -, -, -, -, code, -⟩ := starts
  exact code

private theorem run_balanced (starts : start.Starts) (run : Run (Machine.StepsResuming resumption) start timeline final) :
    (final.lib.totalQuantum : Int) = final.lib.charged + (timeline.map buried).sum + owed final.code ∧
      0 ≤ owed final.code ∧ Balanced final := by
  induction run with
  | start =>
    have even : owed start.code = 0 := starts.balanced.current (starts.idle ▸ id)
    exact ⟨by simp [starts.charged, starts.phase.2.2, even], even.ge, starts.balanced⟩
  | @next history state input final run taken ih =>
    obtain ⟨total, positive, balanced⟩ := ih
    obtain ⟨unwinding, ⟨toDel, booked⟩, -⟩ := run_booked starts run
    have moves := moves_of_step taken
    have grown := moves.total
    have charged := moves.charged unwinding booked
    obtain ⟨pays, stays⟩ := moves.pays unwinding balanced
    refine ⟨?_, stays positive, moves.balanced unwinding balanced⟩
    rw [List.map_append, List.sum_append, List.map_singleton, List.sum_singleton]
    omega

/-- In every run, however contexts are resumed and wherever the signal arrives, the
total is what was charged to the threads there ever were, and the one quantum that a
dispatch has counted and not started yet. -/
theorem quantums_conserved (starts : start.Starts) (run : Run (Machine.StepsResuming resumption) start timeline final) :
    (final.lib.totalQuantum : Int) = final.lib.charged + (timeline.map buried).sum + owed final.code ∧
      (owed final.code = 0 ∨ owed final.code = 1 ∧ Dispatches final.code) := by
  obtain ⟨conserved, positive, balanced⟩ := run_balanced starts run
  refine ⟨conserved, ?_⟩
  by_cases dispatches : Dispatches final.code
  · have bounded := owed_le balanced.later
    rcases positive.eq_or_lt with even | ahead
    · exact .inl even.symm
    · exact .inr ⟨by omega, dispatches⟩
  · exact .inl (balanced.current dispatches)

/-- Thread 1 runs one quantum and terminates itself: two of three are charged to main. -/
theorem quantums_conserved_self_termination : ∃ (timeline : List (Move Machine Input)) (final : Machine),
    final.lib.charged = 2 ∧ (timeline.map buried).sum = 1 ∧ final.lib.totalQuantum = 3 := by
  obtain ⟨timeline, final, run, tested⟩ := compute_tested (next_sound .afterSwitch) started
    ([.call (.spawn ()), .run ⟨2, []⟩, .run ⟨3, []⟩] ++ expiry ++ [.call (.terminate 1)] ++ List.replicate 10 (.run ⟨3, []⟩))
    (fun timeline final => final.code = [] ∧ final.lib.charged = 2 ∧ (timeline.map buried).sum = 1) (by decide +kernel)
  obtain ⟨user, charged, deleted⟩ := of_decide_eq_true tested
  have conserved := (quantums_conserved started_starts run).1
  rw [user, charged, deleted, owed_nil] at conserved
  exact ⟨timeline, final, charged, deleted, by omega⟩

end run
end Uthreads.Nim
