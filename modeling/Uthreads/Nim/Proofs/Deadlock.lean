import Uthreads.Nim.Proofs.Holding
import Uthreads.Nim.Proofs.Pointers

/-! When a switch of nim/uthreads.cpp finds nobody to switch to. A thread that is in
no container between two quanta would be in the queue, so an empty queue is a
deadlock over the mutex. -/

namespace Uthreads.Nim
open Fallible OrderedMap RoundRobin Transition

section states
variable {ε : Type} {s s' : State ε} {a : Guarded Int} {op : Op ε} {choice : Choice} {exit : Exit}

/-- Nobody can go on: everybody is blocked or waits for the mutex, main waits for
it, and the thread that has it is blocked. -/
structure Deadlocked (s : State ε) : Prop where
  everybody : ∀ tid, s.live tid → tid ∈ s.blocked ∨ tid ∈ s.mutexBlocked
  main : mainThread ∈ s.mutexBlocked
  holder : s.mutex.blocked = true ∧ ∃ tid ∈ s.blocked, s.Files tid s.mutex.threadBlock

structure Vacated (s : State ε) : Prop where
  filed : Filed s
  placed : Guarded.Placed none (abstraction s)
  main : s.live mainThread ∧ mainThread ∉ s.blocked

theorem Implements.vacated (implements : Implements s a) (placed : Guarded.Placed none a)
    (main : s.live mainThread ∧ mainThread ∉ s.blocked) : Vacated s :=
  ⟨implements.filed, implements.same.symm ▸ placed, main⟩

theorem Vacated.save (vacated : Vacated s) (pointer : Pointer) (env : SigjmpBuf ε) :
    Vacated (s.modify pointer fun thread => { thread with env }) :=
  Implements.vacated (Implements.save ⟨vacated.filed, rfl⟩ pointer env) vacated.placed vacated.main

private theorem Filed.stalled_iff (filed : Filed s) {tid : Int} (live : s.live tid) :
    (abstraction s).able tid = false ↔ tid ∈ s.blocked := by
  obtain ⟨pointer, files⟩ := filed.exists_files live
  rw [files.able]
  simp

/-- An empty queue between two quanta is a deadlock. -/
theorem Vacated.stuck_iff (vacated : Vacated s) : s.ready = [] ↔ Deadlocked s := by
  constructor
  · intro empty
    have queue : (abstraction s).queue = [] := List.map_eq_nil_iff.mpr empty
    have everybody : ∀ tid, s.live tid → tid ∈ s.blocked ∨ tid ∈ s.mutexBlocked := by
      intro tid live
      exact (vacated.placed.stalled queue tid).imp (vacated.filed.stalled_iff live).mp mem_waiting.mp
    have waits := (everybody mainThread vacated.main.1).resolve_left vacated.main.2
    obtain ⟨owner, owns, held⟩ := vacated.placed.stalled_owner queue (mem_waiting.mpr waits)
    refine ⟨everybody, waits, ?_⟩
    cases taken : s.mutex.blocked with
    | false => cases owns.symm.trans (owner_none taken)
    | true =>
      obtain ⟨tid, files, same⟩ := vacated.filed.owner taken
      obtain rfl := Option.some.inj (owns.symm.trans same)
      exact ⟨rfl, owner, (vacated.filed.stalled_iff files.live).mp held, files⟩
  · intro deadlocked
    apply List.eq_nil_iff_forall_not_mem.mpr
    intro pointer member
    obtain ⟨tid, files⟩ := vacated.filed.ready pointer member
    have queued : tid ∈ (abstraction s).queue := List.mem_map.mpr ⟨pointer, member, files.idOf⟩
    obtain ⟨free, idle⟩ := files.runnable_iff.mp ((vacated.placed.queued tid).mp queued).2
    exact (deadlocked.everybody tid files.live).elim free idle

private theorem Valid.vacated_terminate {tid : Int} {toDel : Pointer} {left free : State ε} (valid : Valid s) (fits : choice.Fits s)
    (live : tid ∈ s.allThreads) (notMain : tid ≠ mainThread) (leaves : leaveMutex tid choice.order s = .ok left)
    (freed : freeThread tid left = .ok (toDel, free)) (self : free.getId free.running = .ok tid) : Vacated free := by
  obtain ⟨granted, handed, implements, table, heap, running⟩ := leaveMutex_eq valid fits tid
  obtain rfl := Except.ok.inj (handed.symm.trans leaves)
  have kept : granted.blocked = s.blocked := by
    obtain ⟨_, _, _, rfl⟩ := leaveMutex_quiet leaves
    rfl
  obtain ⟨pointer, found⟩ := valid.filed.exists_files live
  have files : granted.Files tid pointer := ⟨table ▸ found.1, heap ▸ found.2⟩
  have current : granted.Files (abstraction s).current granted.running :=
    ⟨table ▸ running ▸ valid.current.1, heap ▸ running ▸ valid.current.2⟩
  obtain ⟨-, rfl⟩ := Prod.mk.inj (Except.ok.inj ((freeThread_eq implements.filed files).symm.trans freed))
  have id : (granted.withdraw tid).getId (granted.withdraw tid).running = .ok (abstraction s).current := current.getId
  obtain rfl := Except.ok.inj (id.symm.trans self)
  have eligible := eligible valid.filed fits
  have placed := valid.placed.surrender (abstraction s).current eligible
  have unowned := valid.placed.surrender_owner (abstraction s).current eligible
  have dropped := placed.drop unowned
  rw [Option.filter_some, if_neg (by simp)] at dropped
  refine (implements.drop placed.nodup unowned).vacated dropped ⟨?_, fun blocked => ?_⟩
  · exact mem_erase.mpr ⟨Ne.symm notMain, table ▸ valid.main.1⟩
  · exact valid.main.2 (kept ▸ (mem_erase.mp blocked).2)

private theorem Valid.vacated_block {tid : Int} {moved : State ε} (valid : Valid s) (filed : s.allThreads[tid]? = some s.running)
    (notMain : tid ≠ mainThread) (unqueued : findIdeque tid s = .ok none) (out : moveOut .blocked s.running s = .ok moved) :
    Vacated moved := by
  have files := valid.filed.files filed
  obtain rfl := valid.current.id_inj files
  obtain ⟨id, found, out⟩ := bind_ok.mp out
  obtain rfl := Except.ok.inj (files.getId.symm.trans found)
  have absent := Except.ok.inj ((findIdeque_eq valid.filed.ready_allocated).symm.trans unqueued)
  have parked := valid.implements.hold files
  rw [State.park, State.readyWithout_of_none absent] at parked
  have held := valid.placed.hold (abstraction s).current
  rw [Option.filter_some, if_neg (by simp)] at held
  cases out
  refine parked.vacated held ⟨valid.main.1, fun blocked => ?_⟩
  exact (mem_insert.mp blocked).elim (Ne.symm notMain) valid.main.2

private theorem Valid.vacated_mutexLock {holder id : Int} {moved : State ε} (valid : Valid s) (taken : s.mutex.blocked = true)
    (held : s.getId s.mutex.threadBlock = .ok holder) (caller : s.getId s.running = .ok id) (other : holder ≠ id)
    (out : moveOut .mutexBlocked s.running { s with mutexBlocked := s.mutexBlocked.insert id s.running } = .ok moved) :
    Vacated moved := by
  obtain rfl := Except.ok.inj (valid.current.getId.symm.trans caller)
  obtain ⟨owner, files, owns⟩ := valid.filed.owner taken
  obtain rfl := Except.ok.inj (files.getId.symm.trans held)
  have waiting := valid.implements.wait valid.current
  have again : (s.mutexBlocked.insert (abstraction s).current s.running).insert (abstraction s).current s.running =
      s.mutexBlocked.insert (abstraction s).current s.running := by
    apply insert_of_getElem?
    rw [getElem?_insert, if_pos rfl]
  generalize s.mutexBlocked.insert (abstraction s).current s.running = waiters at waiting again out
  obtain ⟨id, found, out⟩ := bind_ok.mp out
  obtain rfl := Except.ok.inj (valid.current.getId.symm.trans found)
  rw [again] at out
  cases out
  exact waiting.vacated (valid.placed.wait owns other) valid.main

theorem Enters.vacated (enters : Enters choice.order s op exit s') (valid : Valid s) (fits : choice.Fits s) {moved : State ε}
    (out : moveOut exit.moveTo s'.running s' = .ok moved) : Vacated moved := by
  cases enters with
  | terminate live notMain leaves freed self =>
    cases out
    exact valid.block.vacated_terminate fits.block live notMain leaves freed self
  | block filed notMain unqueued => exact valid.block.vacated_block filed notMain unqueued out
  | mutexLock taken held caller other => exact valid.block.vacated_mutexLock taken held caller other out
  | preempt =>
    cases out
    exact (valid.block.implements.requeue valid.block.current).vacated valid.block.placed.requeue valid.block.main

end states

/-- How far a switch has got. -/
inductive Leaving (m : Machine) : Prop where
  | outside (outside : inSwitch m.code = false)
  | moveOut {moveTo toDel rest} (code : m.code = .moveOut moveTo :: rest) (next : Jumps toDel false false rest)
      (vacates : ∀ moved, Nim.moveOut moveTo m.lib.running m.lib = .ok moved → Vacated moved)
  | saveEnv {pointer toDel rest} (code : m.code = .saveEnv pointer :: rest) (next : Jumps toDel false false rest)
      (vacated : Vacated m.lib)
  | takeFront {toDel} (code : Jumps toDel false false m.code) (vacated : Vacated m.lib)
  | taken {toDel counted} (code : Jumps toDel true counted m.code)

section machine
variable {resumption : Resumption} {m m' : Machine} {input : Input} {choice : Choice} {op : Op Unit} {rest : Code} {instr : Instr}

/-- A call leaves the processor with nobody behind, or is over at once. -/
private theorem Valid.leaving (valid : Valid m.lib) (fits : choice.Fits m.lib)
    (executed : m.execute choice rest (.call op) = .ok m') : Leaving m' := by
  obtain ⟨switch, enters, executed⟩ := bind_ok.mp executed
  cases switch with
  | none =>
    obtain ⟨⟨reply, after⟩, -, same⟩ := bind_ok.mp executed
    cases same
    exact .outside rfl
  | some entry =>
    obtain ⟨exit, entered⟩ := entry
    cases executed
    have next : Jumps exit.toDel false false (dispatchCode exit.initAlarm exit.toDel ++ op.afterSwitch ++ rest) := by
      rw [List.append_assoc]
      exact jumps_dispatchCode exit.initAlarm exit.toDel _
    exact .moveOut rfl next fun moved out => (untilSwitch_cases enters).vacated valid fits out

private theorem Jumps.leaving {toDel : Option Pointer} {popped counted : Bool} (jumps : Jumps toDel popped counted m.code)
    (taken : m.StepsResuming resumption (.run choice) m') (code : m.code = instr :: rest)
    (lands : ∀ thread, instr = .startThread → m.lib.heap m.lib.running = some thread → inSwitch thread.env.pc = false) :
    Leaving m' := by
  rw [code] at jumps
  cases jumps with
  | takeFront next =>
    have executed := execute_of_taken taken code (by simp)
    simp only [Machine.execute] at executed
    split at executed
    · cases executed
    · cases executed
      exact .taken next
  | runTimer next | countTotal next =>
    cases execute_of_taken taken code (by simp)
    exact .taken next
  | delete next =>
    obtain ⟨lib, -, same⟩ := bind_ok.mp (execute_of_taken taken code (by simp))
    cases same
    exact .taken next
  | startThread =>
    obtain ⟨thread, found, rfl⟩ := startThread_executed (execute_of_taken taken code (by simp))
    exact .outside (lands thread rfl found)

private theorem Leaving.step (leaving : Leaving m) (taken : m.StepsResuming resumption input m') (unwinding : Unwinding m)
    (framed : resumption = .afterSwitch → Framed m) (lands : Lands resumption ⟨m, input, m'⟩)
    (inside : inSwitch m.code = true) : Leaving m' := by
  cases moves_of_step taken with
  | expire =>
    cases leaving with
    | outside outside => exact .outside outside
    | moveOut code next vacates => exact .moveOut code next vacates
    | saveEnv code next vacated => exact .saveEnv code next vacated
    | takeFront code vacated => exact .takeFront code vacated
    | taken code => exact .taken code
  | deliver unmasked =>
    rcases unwinding.current with unwinds | ⟨_, _, masked, _⟩
    · cases inside.symm.trans (Unwinds.outside (unmasked ▸ unwinds))
    · cases unmasked.symm.trans masked
  | call user | sigprocmask user =>
    rw [user] at inside
    cases inside
  | @run choice instr rest _ here =>
    have lands : ∀ thread, instr = .startThread → m.lib.heap m.lib.running = some thread → inSwitch thread.env.pc = false := by
      intro thread jumps found
      rcases lands with repaired | fresh
      · exact (framed repaired).saved _ thread found
      · exact fresh _ _ thread rfl (jumps ▸ here) found
    cases leaving with
    | outside outside => cases inside.symm.trans outside
    | moveOut code next vacates =>
      obtain ⟨lib, out, same⟩ := bind_ok.mp (execute_of_taken taken code (by simp))
      cases same
      exact .saveEnv rfl next (vacates lib out)
    | saveEnv code next vacated =>
      obtain ⟨lib, saved, rfl⟩ := saved_of_taken taken code
      obtain ⟨thread, found, -⟩ := bind_ok.mp saved
      rw [saveEnv_eq (deref_ok.mp found)] at saved
      cases saved
      exact .takeFront next (vacated.save _ _)
    | takeFront code | taken code => exact code.leaving taken here lands

end machine

section spec
variable {ε : Type} {a b : Guarded Int} {next value : Option Int} {op : Op ε}

def SparesMutex (op : Op ε) (a : Guarded Int) : Prop := ∀ tid, op = .block tid → ¬ a.Involved tid

private theorem Ruled.unheld (ruled : Ruled next a op value b) (sane : Sane a) (eligible : a.Eligible next)
    (spared : SparesMutex op a) (unheld : a.Unheld) : b.Unheld := by
  have able : a.able a.current = true := (sane.placed.turn _ rfl).1
  cases ruled with
  | quiet | lockAgain | unlockOther => exact unheld
  | spawn new => exact unheld.accept sane.placed new
  | @terminate tid => exact (unheld.surrender eligible).drop (sane.placed.surrender_owner tid eligible)
  | terminateSelf _ turn =>
    exact ((unheld.surrender eligible).drop (sane.placed.surrender_owner a.current eligible)).dispatch turn
  | block => exact unheld.hold (spared _ rfl)
  | blockSelf _ turn => exact (unheld.hold (spared _ rfl)).dispatch turn
  | resume => exact unheld.release
  | lockFree => exact unheld.take able
  | lockWait _ _ turn => exact (unheld.wait able).dispatch turn
  | unlock => exact unheld.grant eligible
  | preempt turn =>
    have requeued : a.requeue.Unheld := unheld
    exact requeued.dispatch turn

/-- Whoever waits for the mutex waits for a thread that can run. -/
private theorem Sane.unstuck (sane : Sane a) (eligible : a.Eligible next) (main : a.able 0 = true) (unheld : a.Unheld)
    (spared : SparesMutex op a) : op.spec next a ≠ .error .emptyReady := by
  intro stuck
  obtain ⟨queue, leaves⟩ := (sane.stuck_iff eligible main op).mp stuck
  have owns : a.current ≠ 0 → a.owner = some a.current := by
    intro other
    have waits : 0 ∈ a.waiting := by
      by_contra idle
      have queued := (sane.placed.queued 0).mpr ⟨fun same => other (Option.some.inj same), main, idle⟩
      exact List.not_mem_nil (queue ▸ queued)
    cases owner : a.owner with
    | none => exact absurd (sane.placed.unowned owner ▸ waits) (Finset.notMem_empty 0)
    | some holder => rw [unheld.owner_current sane.placed queue owner]
  rcases leaves with ⟨blocks, other⟩ | ⟨-, owner, held, other⟩ | ⟨-, other, idle⟩
  · exact spared _ blocks (.inl (owns other))
  · exact other (unheld.owner_current sane.placed queue held)
  · exact idle (owns other)

private theorem run_unheld {trace : List (Move (Guarded Int) Label)} (run : Run SpecTakes specInit trace a)
    (spared : ∀ step ∈ trace, SparesMutex step.label.op step.before) : a.Unheld := by
  have involved : ∀ tid, ¬ specInit.Involved tid := by
    rintro tid (owns | waits)
    · cases owns
    · exact Finset.notMem_empty tid waits
  have initial : Sane specInit ∧ specInit.Unheld := ⟨specInit_sane, fun tid some => absurd some (involved tid)⟩
  refine (run.invariant (fun step => SparesMutex step.label.op step.before) spared (fun a => Sane a ∧ a.Unheld) initial ?_).2
  rintro step spared ⟨eligible, specified⟩ ⟨sane, unheld⟩
  have ruled := ruled_of_spec specified
  exact ⟨sane.step eligible ruled, ruled.unheld sane eligible spared unheld⟩

end spec

section run
variable {resumption : Resumption} {start final : Machine} {timeline : List (Move Machine Input)} {choice : Choice} {rest : Code}

private theorem run_leaving (starts : start.Starts) (run : Run (Machine.StepsResuming resumption) start timeline final)
    (lands : ∀ move ∈ timeline, Lands resumption move) : Leaving final := by
  induction run with
  | start =>
    obtain ⟨_, _, _, -, -, -, code, -⟩ := starts
    exact .outside (code ▸ rfl)
  | @next trace state label final run taken ih =>
    obtain ⟨earlier, now⟩ := List.forall_mem_append.mp lands
    obtain ⟨unwinding, framed⟩ := run_framed starts run earlier
    cases inside : inSwitch state.code with
    | true => exact (ih earlier).step taken unwinding framed (now _ (by simp)) inside
    | false =>
      cases seen : committing ⟨state, label, final⟩ with
      | false => exact .outside ((moves_of_step taken).silent unwinding inside seen).1
      | true =>
        obtain ⟨choice, op, rest, same, code⟩ := commits_of_committing seen
        obtain rfl : label = .run choice := same
        have between := run_between starts run earlier inside
        exact between.valid.leaving (taken.2 choice op rest rfl code) (execute_of_taken taken code (by simp))

/-- In every run whose jumps go to threads that were never switched out, and in every
run at all if contexts are resumed after the switch, a switch finds the ready queue
empty exactly in a deadlock: main waits for a mutex whose holder is blocked, and all
others are blocked or wait for it. -/
theorem stuck_iff_deadlocked (starts : start.Starts) (run : Run (Machine.StepsResuming resumption) start timeline final)
    (lands : ∀ move ∈ timeline, Lands resumption move) (code : final.code = .takeFront :: rest) :
    final.stepResuming resumption (.run choice) = some (.error .emptyReady) ↔ Deadlocked final.lib := by
  have vacated : Vacated final.lib := by
    cases run_leaving starts run lands with
    | outside outside =>
      rw [code] at outside
      cases outside
    | takeFront _ vacated => exact vacated
    | moveOut other | saveEnv other => cases code.symm.trans other
    | taken jumps =>
      rw [code] at jumps
      cases jumps
  have masked : final.deliverable = false := by
    have unwinds := (run_framed starts run lands).1.current.unwinds code (by simp)
    have masked := of_decide_eq_true unwinds.1
    simp [Machine.deliverable, masked]
  rw [← vacated.stuck_iff, stepResuming_eq (by simp [code])]
  simp only [Machine.step, code, masked, Machine.execute, Bool.false_eq_true, if_false, Option.some.injEq]
  cases queue : final.lib.ready <;> simp

theorem stuck_iff_deadlocked_holder_blocks_itself : ∃ final : Machine, Deadlocked final.lib := by
  obtain ⟨timeline, final, run, tested⟩ := compute_tested (next_sound .afterSwitch) started deadlocking
    (fun _ final => final.code.head? = some .takeFront ∧ halts final ⟨3, []⟩ .emptyReady) (by decide +kernel)
  obtain ⟨front, stuck⟩ := of_decide_eq_true tested
  obtain ⟨rest, code⟩ := List.head?_eq_some_iff.mp front
  exact ⟨final, (stuck_iff_deadlocked started_starts run (fun _ _ => .inl rfl) code).mp (of_halts stuck)⟩

private theorem committing_between (starts : start.Starts) (run : Run (Machine.StepsResuming resumption) start timeline final)
    (lands : ∀ move ∈ timeline, Lands resumption move) {move : Move Machine Input} (member : move ∈ timeline)
    (seen : committing move = true) : Between resumption move.before := by
  obtain ⟨first, last, rfl⟩ := List.append_of_mem member
  obtain ⟨_, _, _, -, code⟩ := commits_of_committing seen
  exact run_between starts run.at_move.1 (List.forall_mem_append.mp lands).1 (by rw [code]; rfl)

private theorem Valid.sparesMutex {move : Move Machine Input} {op : Op Unit} (valid : Valid move.before.lib)
    (label : move.label = .run choice) (code : move.before.code = .call op :: rest)
    (spared : ∀ tid, Begins (.block tid) move → ¬ move.before.lib.Owns tid ∧ tid ∉ move.before.lib.mutexBlocked) :
    SparesMutex op.enter (abstraction move.before.lib) := by
  intro tid blocks involved
  cases op <;> simp only [Op.enter, reduceCtorEq, Op.block.injEq] at blocks
  obtain ⟨idle, free⟩ := spared tid ⟨by simp, choice, rest, label, blocks ▸ code⟩
  exact involved.elim (fun owns => idle (valid.owns_iff.mpr owns)) fun waits => free (mem_waiting.mp waits)

/-- If nobody blocks a thread that has the mutex or waits for it, no switch finds the
ready queue empty. -/
theorem never_stuck (starts : start.Starts) (run : Run (Machine.StepsResuming resumption) start timeline final)
    (lands : ∀ move ∈ timeline, Lands resumption move)
    (spared : ∀ move ∈ timeline, ∀ tid, Begins (.block tid) move →
      ¬ move.before.lib.Owns tid ∧ tid ∉ move.before.lib.mutexBlocked)
    (code : final.code = .takeFront :: rest) : final.lib.ready ≠ [] := by
  intro empty
  have halted : final.completed resumption = .error .emptyReady := by
    rw [Machine.completed, code]
    simp [complete, empty]
  obtain ⟨-, earlier, call, later, choice, op, rest', cut, label, calls, fits, stuck⟩ := run_completes starts run lands halted
  have here : call ∈ timeline := by simp [cut]
  have valid := (committing_between starts run lands here (by simp [committing, label, calls])).valid
  have before := (cut ▸ run).at_move.1
  obtain ⟨trace, refined, -, paired⟩ := run_serialized starts before (List.forall_mem_append.mp (cut ▸ lands)).1
    (complete_outside (by rw [calls]; rfl))
  have unheld := run_unheld refined fun step member => by
    obtain ⟨move, kept, performs⟩ := effect_of_paired paired step member
    obtain ⟨member, seen⟩ := List.mem_filter.mp kept
    have member : move ∈ timeline := cut ▸ List.mem_append_left _ member
    obtain ⟨choice, op, rest, label, code⟩ := commits_of_committing seen
    obtain ⟨op', rest', code', same, -⟩ := performs.decides
    obtain rfl := Instr.call.inj (List.cons.inj (code.symm.trans code')).1
    rw [same, performs.before]
    exact (committing_between starts run lands member seen).valid.sparesMutex label code (spared move member)
  have main : (abstraction call.before.lib).able 0 = true := by
    obtain ⟨pointer, files⟩ := valid.filed.exists_files valid.main.1
    simp [files.able, valid.main.2]
  exact valid.sane.unstuck (eligible valid.filed fits) main unheld (valid.sparesMutex label calls (spared call here)) stuck

private def blocksFree (move : Move Machine Input) : Bool :=
  match move.before.code with
  | .call (.block _) :: _ => !move.before.lib.mutex.blocked && move.before.lib.mutexBlocked.isEmpty
  | _ => true

private theorem spared_of_blocksFree {move : Move Machine Input} (tested : blocksFree move = true) {tid : Int}
    (begins : Begins (.block tid) move) : ¬ move.before.lib.Owns tid ∧ tid ∉ move.before.lib.mutexBlocked := by
  obtain ⟨-, choice, rest, -, code⟩ := begins
  rw [blocksFree, code] at tested
  obtain ⟨free, idle⟩ := (Bool.and_eq_true ..).mp tested
  refine ⟨fun owns => ?_, fun waits => ?_⟩
  · simp [owns.1] at free
  · rw [Std.ExtTreeMap.isEmpty_iff.mp idle] at waits
    exact Std.ExtTreeMap.not_mem_empty waits

/-- Main has blocked thread 2, and waits for the mutex of thread 1. -/
theorem never_stuck_waiting_main : ∃ final : Machine, mainThread ∈ final.lib.mutexBlocked ∧ 2 ∈ final.lib.blocked ∧
    final.code.head? = some .takeFront ∧ final.lib.ready ≠ [] := by
  obtain ⟨timeline, final, run, tested⟩ := compute_tested (next_sound .afterSwitch) started
    ([.call (.spawn ()), .run ⟨2, []⟩, .run ⟨3, []⟩, .call (.spawn ()), .run ⟨4, []⟩, .run ⟨3, []⟩, .call (.block 2),
      .run ⟨3, []⟩, .run ⟨3, []⟩] ++ expiry ++ [.call .mutexLock, .run ⟨3, []⟩, .run ⟨3, []⟩] ++ expiry ++
      List.replicate 2 (.run ⟨3, []⟩) ++ [.call .mutexLock] ++ List.replicate 3 (.run ⟨3, []⟩))
    (fun timeline final => (∀ move ∈ timeline, blocksFree move) ∧ mainThread ∈ final.lib.mutexBlocked ∧
      2 ∈ final.lib.blocked ∧ final.code.head? = some .takeFront) (by decide +kernel)
  obtain ⟨spared, waits, held, front⟩ := of_decide_eq_true tested
  obtain ⟨rest, code⟩ := List.head?_eq_some_iff.mp front
  refine ⟨final, waits, held, front, never_stuck started_starts run (fun _ _ => .inl rfl) (fun move member tid begins => ?_) code⟩
  exact spared_of_blocksFree (spared move member) begins

end run
end Uthreads.Nim
