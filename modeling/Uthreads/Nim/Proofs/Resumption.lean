import Uthreads.Nim.Proofs.Runs
import Uthreads.Nim.Proofs.Statements

/-! What a thread of nim/uthreads.cpp does when it is jumped to. The value of
`saveEnv` is not looked at, so a thread that was switched out continues with the
dispatch of the next one. -/

namespace Uthreads.Nim
open Fallible OrderedMap Transition

structure Thread.Fresh (thread : Thread Code) : Prop where
  unrun : thread.quantums = 0
  entry : thread.env.pc = []
  stack : thread.env.sp = thread.id

/-- The code from the front of the queue to the jump, with the thread that it
has to delete, and whether it has popped the front and counted the quantum. -/
inductive Jumps : Option Pointer → Bool → Bool → Code → Prop where
  | takeFront {toDel rest} (next : Jumps toDel true false rest) : Jumps toDel false false (.takeFront :: rest)
  | runTimer {toDel rest} (next : Jumps toDel true false rest) : Jumps toDel true false (.runTimer :: rest)
  | countTotal {toDel rest} (next : Jumps toDel true true rest) : Jumps toDel true false (.countTotal :: rest)
  | delete {toDel rest} (next : Jumps none true true rest) : Jumps (some toDel) true true (.delete toDel :: rest)
  | startThread {rest} : Jumps none true true (.startThread :: rest)

theorem jumps_dispatchCode (initAlarm : Bool) (toDel : Option Pointer) (rest : Code) :
    Jumps toDel false false (dispatchCode initAlarm toDel ++ rest) := by
  apply Jumps.takeFront
  cases toDel with
  | none =>
    have counted : Jumps none true false (.countTotal :: .startThread :: rest) := .countTotal .startThread
    cases initAlarm with
    | false => exact counted
    | true => exact .runTimer counted
  | some toDel =>
    have counted : Jumps (some toDel) true false (.countTotal :: .delete toDel :: .startThread :: rest) :=
      .countTotal (.delete .startThread)
    cases initAlarm with
    | false => exact counted
    | true => exact .runTimer counted

theorem Jumps.front {toDel : Option Pointer} {code : Code} (jumps : Jumps toDel false false code) :
    ∃ rest, code = .takeFront :: rest := by
  cases jumps
  exact ⟨_, rfl⟩

/-- The context of a thread that was switched out. -/
structure Thread.Parked (thread : Thread Code) : Prop where
  ran : 0 < thread.quantums
  masked : sigvtalrm ∈ thread.env.savedMask
  tail : Jumps none false false thread.env.pc

def Thread.Away (thread : Thread Code) : Prop := thread.Fresh ∨ thread.Parked

/-- The threads that are allocated are those of the table, each under its id,
but for the one that is to be deleted. -/
structure Filing (toDel : Option Pointer) (s : State Code) : Prop where
  set : s.set = {sigvtalrm}
  null : s.heap nullptr = none
  numbered : Numbered s
  filed : ∀ (tid : Int) (pointer : Pointer), s.allThreads[tid]? = some pointer → (s.heap pointer).map Thread.id = some tid
  recorded : ∀ pointer thread, s.heap pointer = some thread → some pointer ≠ toDel → s.allThreads[thread.id]? = some pointer
  erased : ∀ pointer, toDel = some pointer → ∀ tid : Int, s.allThreads[tid]? ≠ some pointer

structure OnCpu (m : Machine) : Prop where
  current : ∃ thread, m.lib.heap m.lib.running = some thread ∧ 0 < thread.quantums ∧ thread.id = m.sp
  others : ∀ pointer thread, m.lib.heap pointer = some thread → pointer ≠ m.lib.running → thread.Away

/-- User code, a call that has not begun or is about to return, and a handler. -/
inductive UserCode : Code → Prop where
  | idle : UserCode []
  | returns (reply : Reply) : UserCode [.returns reply]
  | call (op : Op Unit) : UserCode [.call op]
  | handler (rest : Code) : UserCode (.call .preempt :: rest)

/-- The phases of a turn on the processor. -/
inductive Phase (m : Machine) : Option Pointer → Bool → Bool → Prop where
  | user (code : UserCode m.code) (cpu : OnCpu m) : Phase m none false false
  | leaving {toDel moveTo rest} (code : m.code = .moveOut moveTo :: rest) (next : Jumps toDel false false rest)
      (masked : sigvtalrm ∈ m.lib.mask) (dying : toDel = none ∨ toDel = some m.lib.running) (cpu : OnCpu m) :
      Phase m toDel false false
  | saving {toDel rest} (code : m.code = .saveEnv m.lib.running :: rest) (next : Jumps toDel false false rest)
      (masked : sigvtalrm ∈ m.lib.mask) (dying : toDel = none ∨ toDel = some m.lib.running) (cpu : OnCpu m) :
      Phase m toDel false false
  | switching {toDel popped counted} (code : Jumps toDel popped counted m.code) (masked : sigvtalrm ∈ m.lib.mask)
      (away : ∀ pointer thread, m.lib.heap pointer = some thread → some pointer ≠ toDel → thread.Away) :
      Phase m toDel popped counted

section filing
variable {s s' : State Code} {toDel : Option Pointer}

theorem Filing.keep (filing : Filing toDel s) (set : s'.set = s.set) (allThreads : s'.allThreads = s.allThreads)
    (ids : ∀ pointer, (s'.heap pointer).map Thread.id = (s.heap pointer).map Thread.id) : Filing toDel s' := by
  refine ⟨set.trans filing.set, ?_, ?_, fun tid pointer found => ?_, fun pointer thread found alive => ?_, ?_⟩
  · have null := ids nullptr
    rw [filing.null] at null
    exact Option.map_eq_none_iff.mp null
  · have same : ∀ tid, s'.live tid ↔ s.live tid := fun tid => by rw [State.live, allThreads, State.live]
    exact ⟨(same 0).mpr filing.numbered.main, fun tid live => filing.numbered.ids tid ((same tid).mp live)⟩
  · rw [ids]
    exact filing.filed tid pointer (allThreads ▸ found)
  · have same := ids pointer
    rw [found, Option.map_some] at same
    obtain ⟨before, kept, id⟩ := Option.map_eq_some_iff.mp same.symm
    rw [allThreads, ← id]
    exact filing.recorded pointer before kept alive
  · rw [allThreads]
    exact filing.erased

private theorem Numbered.erase (numbered : Numbered s) {tid : Int} (notMain : tid ≠ mainThread)
    (allThreads : s'.allThreads = s.allThreads.erase tid) : Numbered s' := by
  have live : ∀ other, s'.live other ↔ other ≠ tid ∧ s.live other := fun other => by
    rw [State.live, allThreads, mem_erase, State.live]
  exact ⟨(live 0).mpr ⟨Ne.symm notMain, numbered.main⟩, fun other alive => numbered.ids other ((live other).mp alive).2⟩

theorem Filing.erase (filing : Filing none s) {tid : Int} {pointer : Pointer} (found : s.allThreads[tid]? = some pointer)
    (notMain : tid ≠ mainThread) (set : s'.set = s.set) (heap : s'.heap = s.heap)
    (allThreads : s'.allThreads = s.allThreads.erase tid) : Filing (some pointer) s' := by
  refine ⟨set.trans filing.set, heap ▸ filing.null, filing.numbered.erase notMain allThreads, ?_, ?_, ?_⟩
  · intro other pointer' present
    rw [allThreads] at present
    exact heap ▸ filing.filed other pointer' (of_getElem?_erase present).2
  · intro pointer' thread record alive
    rw [heap] at record
    have recorded := filing.recorded pointer' thread record (Option.some_ne_none _)
    have different : thread.id ≠ tid := by
      rintro rfl
      exact alive (recorded.symm.trans found)
    rw [allThreads, getElem?_erase, if_neg different]
    exact recorded
  · intro _ dying other present
    cases dying
    rw [allThreads] at present
    obtain ⟨different, present⟩ := of_getElem?_erase present
    have id := filing.filed other pointer present
    exact different (Option.some.inj (id.symm.trans (filing.filed tid pointer found)))

theorem Filing.delete {pointer : Pointer} (filing : Filing (some pointer) s) :
    Filing none (s.store pointer none) := by
  have away : ∀ other, other ≠ pointer → (s.store pointer none).heap other = s.heap other := fun other different =>
    Function.update_of_ne different ..
  refine ⟨filing.set, ?_, ⟨filing.numbered.main, filing.numbered.ids⟩, ?_, ?_, nofun⟩
  · by_cases null : nullptr = pointer
    · have gone : (s.store pointer none).heap pointer = none := Function.update_self ..
      rw [null, gone]
    · exact (away _ null).trans filing.null
  · intro tid other present
    have different : other ≠ pointer := fun same => filing.erased pointer rfl tid (same ▸ present)
    rw [away other different]
    exact filing.filed tid other present
  · intro other thread record _
    rcases of_update record with ⟨-, none⟩ | ⟨different, record⟩
    · cases none
    · exact filing.recorded other thread record fun same => different (Option.some.inj same)

theorem Filing.spawn (filing : Filing none s) {address : Pointer} {f : Code} (notNull : address ≠ nullptr)
    (fresh : s.heap address = none) (room : ¬ (s.allThreads.size : Int) + 1 > maxThreadNum) (set : s'.set = s.set)
    (heap : s'.heap = Function.update s.heap address (some (.spawned (getId s) f)))
    (allThreads : s'.allThreads = s.allThreads.insert (getId s) address) : Filing none s' := by
  obtain ⟨new, range⟩ := filing.numbered.getId_new room
  have away : ∀ {tid : Int} {pointer : Pointer}, s.allThreads[tid]? = some pointer → pointer ≠ address := by
    rintro tid pointer present rfl
    have id := filing.filed tid pointer present
    simp [fresh] at id
  have live : ∀ tid, s'.live tid ↔ tid = getId s ∨ s.live tid := fun tid => by
    rw [State.live, allThreads, mem_insert, State.live]
  refine ⟨set.trans filing.set, ?_, ⟨(live 0).mpr (.inr filing.numbered.main), fun tid alive => ?_⟩, ?_, ?_, nofun⟩
  · rw [heap, Function.update_of_ne (Ne.symm notNull)]
    exact filing.null
  · rcases (live tid).mp alive with rfl | alive
    · exact mem_allIds.mp range
    · exact filing.numbered.ids tid alive
  · intro tid pointer present
    rw [allThreads] at present
    rcases of_getElem?_insert present with ⟨rfl, rfl⟩ | present
    · rw [heap, Function.update_self]
      rfl
    · rw [heap, Function.update_of_ne (away present)]
      exact filing.filed tid pointer present
  · intro pointer thread record _
    rw [heap] at record
    rcases of_update record with ⟨same, new⟩ | ⟨-, record⟩
    · cases new
      rw [allThreads, getElem?_insert, same]
      exact if_pos rfl
    · have recorded := filing.recorded pointer thread record (Option.some_ne_none _)
      have different : thread.id ≠ getId s := by
        intro taken
        apply new
        rw [← taken]
        exact mem_iff_exists.mpr ⟨pointer, recorded⟩
      rw [allThreads, getElem?_insert, if_neg different]
      exact recorded

end filing

section phases
variable {m m' : Machine} {toDel : Option Pointer} {popped counted : Bool} {choice : Choice} {rest : Code}

/-- How often a step executed this statement: once or not at all. -/
def ran (instr : Instr) (m : Machine) (input : Input) : Nat :=
  match input with
  | .run _ => if m.code.head? = some instr then 1 else 0
  | _ => 0

/-- The phase after a statement, and what the statement has popped and counted. -/
structure Reaches (m m' : Machine) (popped counted : Bool) (choice : Choice) : Prop where
  phase : ∃ toDel popped' counted', Phase m' toDel popped' counted' ∧ Filing toDel m'.lib ∧
    popped'.toNat + ran .startThread m (.run choice) = popped.toNat + ran .takeFront m (.run choice) ∧
    counted'.toNat + ran .startThread m (.run choice) = counted.toNat + ran .countTotal m (.run choice)
  total : m'.lib.totalQuantum = m.lib.totalQuantum + ran .countTotal m (.run choice)

private theorem Reaches.plain {instr : Instr} {toDel' : Option Pointer} (code : m.code = instr :: rest)
    (other : instr ≠ .takeFront ∧ instr ≠ .countTotal ∧ instr ≠ .startThread) (phase : Phase m' toDel' popped counted)
    (filing : Filing toDel' m'.lib) (total : m'.lib.totalQuantum = m.lib.totalQuantum) :
    Reaches m m' popped counted choice := by
  have nothing : ∀ counts : Instr, instr ≠ counts → ran counts m (.run choice) = 0 := by
    intro counts different
    simp [ran, code, different]
  refine ⟨⟨toDel', popped, counted, phase, filing, ?_, ?_⟩, ?_⟩
  · rw [nothing _ other.1, nothing _ other.2.2]
  · rw [nothing _ other.2.1, nothing _ other.2.2]
  · rw [nothing _ other.2.1, total, Nat.add_zero]

theorem OnCpu.keep (cpu : OnCpu m) (heap : m'.lib.heap = m.lib.heap) (running : m'.lib.running = m.lib.running)
    (sp : m'.sp = m.sp) : OnCpu m' := by
  constructor
  · rw [heap, running, sp]
    exact cpu.current
  · rw [heap, running]
    exact cpu.others

private theorem OnCpu.effect {op : Op Unit} (cpu : OnCpu m) (filing : Filing none m.lib)
    (effect : Effect m.lib m'.lib op.enter) (sp : m'.sp = m.sp) : OnCpu m' ∧ Filing none m'.lib ∧ m'.lib.totalQuantum = m.lib.totalQuantum := by
  obtain ⟨thread, found, ran, id⟩ := cpu.current
  generalize same : op.enter = entered at effect
  cases effect with
  | quiet quiet =>
    refine ⟨cpu.keep quiet.heap quiet.running sp, ?_, quiet.total⟩
    exact filing.keep quiet.set quiet.allThreads fun pointer => by rw [quiet.heap]
  | @spawn f address notNull fresh room running set total heap allThreads =>
    have entry : f = [] := by
      cases op <;> cases same
      rfl
    have different : m.lib.running ≠ address := by
      rintro rfl
      exact nomatch fresh.symm.trans found
    refine ⟨⟨⟨thread, ?_, ran, sp ▸ id⟩, fun pointer other record away => ?_⟩, ?_, total⟩
    · rw [running, heap, Function.update_of_ne different]
      exact found
    · rw [heap] at record
      rcases of_update record with ⟨-, new⟩ | ⟨-, record⟩
      · cases new
        exact .inl ⟨rfl, entry, rfl⟩
      · exact cpu.others pointer other record (running ▸ away)
    · exact filing.spawn notNull fresh room set heap allThreads
  | @terminate tid pointer filed notMain other running set total heap allThreads =>
    have id := filing.filed tid pointer filed
    have notNull : pointer ≠ nullptr := by
      rintro rfl
      simp [filing.null] at id
    have heap := heap.resolve_right fun null => notNull null.1
    have different : m.lib.running ≠ pointer := fun same => other (same ▸ id)
    have left : Filing (some pointer) { m.lib with allThreads := m.lib.allThreads.erase tid } :=
      filing.erase filed notMain rfl rfl rfl
    refine ⟨⟨⟨thread, ?_, ran, ?_⟩, fun pointer' thread record away => ?_⟩, ?_, total⟩
    · rw [running, heap, Function.update_of_ne different]
      exact found
    · rw [sp]
      assumption
    · rw [heap] at record
      rcases of_update record with ⟨-, gone⟩ | ⟨-, record⟩
      · cases gone
      · exact cpu.others pointer' thread record (running ▸ away)
    · exact left.delete.keep set allThreads fun pointer' => by rw [heap]; rfl

private theorem OnCpu.call {op : Op Unit} (cpu : OnCpu m) (filing : Filing none m.lib) (code : m.code = .call op :: rest)
    (alone : op = .preempt ∨ rest = []) (fits : choice.Fits m.lib) (executed : m.execute choice rest (.call op) = .ok m') :
    Reaches m m' false false choice := by
  obtain ⟨switch, enters, executed⟩ := bind_ok.mp executed
  have counted : (Instr.call op) ≠ .takeFront ∧ (Instr.call op) ≠ .countTotal ∧ (Instr.call op) ≠ .startThread :=
    ⟨nofun, nofun, nofun⟩
  cases switch with
  | some entry =>
    obtain ⟨exit, lib⟩ := entry
    cases executed
    have entered := (untilSwitch_cases enters).entered
    have cpu' : OnCpu { m with lib, code := switchThreadCode exit ++ op.afterSwitch ++ rest } :=
      cpu.keep entered.heap entered.running rfl
    have masked : sigvtalrm ∈ lib.mask := by
      rw [entered.mask, filing.set]
      exact Finset.mem_union_left _ (Finset.mem_singleton_self _)
    have next : Jumps exit.toDel false false (dispatchCode exit.initAlarm exit.toDel ++ op.afterSwitch ++ rest) := by
      rw [List.append_assoc]
      exact jumps_dispatchCode ..
    have held : Filing exit.toDel lib ∧ (exit.toDel = none ∨ exit.toDel = some lib.running) := by
      rcases entered.allThreads with ⟨none, same⟩ | ⟨tid, pointer, dying, found, notMain, id, erased⟩
      · rw [none]
        exact ⟨filing.keep entered.set same fun pointer => by rw [entered.heap], .inl rfl⟩
      · obtain ⟨thread, record, rfl⟩ := Option.map_eq_some_iff.mp id
        have recorded := filing.recorded _ thread record (Option.some_ne_none _)
        obtain rfl := Option.some.inj (found.symm.trans recorded)
        rw [dying, entered.running]
        exact ⟨filing.erase found notMain entered.set entered.heap erased, .inr rfl⟩
    exact .plain code counted (.leaving rfl next masked held.2 cpu') held.1 entered.total
  | none =>
    obtain ⟨⟨reply, lib⟩, called, executed⟩ := bind_ok.mp executed
    cases executed
    obtain rfl : rest = [] := by
      refine alone.resolve_left ?_
      rintro rfl
      cases enters
    have idle : OnCpu { m with lib, code := [.returns reply] } ∧ Filing none lib ∧ lib.totalQuantum = m.lib.totalQuantum :=
      cpu.effect filing (call_effect fits enters called) rfl
    exact .plain code counted (.user (.returns reply) idle.1) idle.2.1 idle.2.2

/-- Whoever is saved is away, unless it is to be deleted. -/
private theorem OnCpu.saved (cpu : OnCpu m) (filing : Filing toDel m.lib) (code : m.code = .saveEnv m.lib.running :: rest)
    (next : Jumps toDel false false rest) (masked : sigvtalrm ∈ m.lib.mask) (dying : toDel = none ∨ toDel = some m.lib.running)
    (executed : m.execute choice rest (.saveEnv m.lib.running) = .ok m') : Reaches m m' false false choice := by
  obtain ⟨thread, found, ran, -⟩ := cpu.current
  obtain ⟨lib, saved, executed⟩ := bind_ok.mp executed
  cases executed
  rw [saveEnv_eq found] at saved
  cases saved
  have ids : ∀ pointer, ((m.lib.modify m.lib.running fun thread => { thread with env := ⟨⟨m.sp, rest⟩, m.lib.mask⟩ }).heap
      pointer).map Thread.id = (m.lib.heap pointer).map Thread.id := fun pointer => State.map_modify Thread.id fun _ => rfl
  refine .plain code (by simp) (.switching next masked ?_) (filing.keep rfl rfl ids) rfl
  intro pointer other record alive
  rcases of_update record with ⟨rfl, saved⟩ | ⟨same, record⟩
  · obtain rfl : toDel = none := dying.resolve_right (Ne.symm alive)
    rw [found] at saved
    cases saved
    exact .inr ⟨ran, masked, next⟩
  · exact cpu.others pointer other record same

private theorem jump_phase (filing : Filing none m.lib) (code : m.code = .startThread :: rest)
    (away : ∀ pointer thread, m.lib.heap pointer = some thread → some pointer ≠ none → thread.Away)
    (executed : m.execute choice rest .startThread = .ok m') : Reaches m m' true true choice := by
  obtain ⟨thread, found, rfl⟩ := startThread_executed executed
  have ids : ∀ pointer, ((m.lib.store m.lib.running (some { thread with quantums := thread.quantums + 1 })).heap
      pointer).map Thread.id = (m.lib.heap pointer).map Thread.id := by
    intro pointer
    simp only [State.store, Function.update_apply]
    split
    · rename_i same
      rw [same, found]
      rfl
    · rfl
  have filing' : Filing none { m.lib.store m.lib.running (some { thread with quantums := thread.quantums + 1 }) with
      mask := thread.env.savedMask } := filing.keep rfl rfl ids
  have others : ∀ pointer other, (m.lib.store m.lib.running (some { thread with quantums := thread.quantums + 1 })).heap
      pointer = some other → pointer ≠ m.lib.running → other.Away := by
    intro pointer other record different
    simp only [State.store, Function.update_of_ne different] at record
    exact away pointer other record (Option.some_ne_none _)
  have current : (m.lib.store m.lib.running (some { thread with quantums := thread.quantums + 1 })).heap m.lib.running =
      some { thread with quantums := thread.quantums + 1 } := Function.update_self ..
  refine ⟨⟨none, false, false, ?_, filing', ?_, ?_⟩, ?_⟩
  · rcases away _ thread found (Option.some_ne_none _) with ⟨-, entry, stack⟩ | parked
    · apply Phase.user
      · rw [entry]
        exact .idle
      · exact ⟨⟨_, current, Nat.succ_pos _, stack.symm⟩, others⟩
    · refine .switching parked.tail parked.masked fun pointer other record _ => ?_
      by_cases same : pointer = m.lib.running
      · rw [same, current] at record
        cases record
        exact .inr ⟨Nat.succ_pos _, parked.masked, parked.tail⟩
      · exact others pointer other record same
  · simp [ran, code]
  · simp [ran, code]
  · simp [ran, code, State.store]

private theorem switching_run {instr : Instr} (filing : Filing toDel m.lib) (code : m.code = instr :: rest)
    (jumps : Jumps toDel popped counted (instr :: rest)) (masked : sigvtalrm ∈ m.lib.mask)
    (away : ∀ pointer thread, m.lib.heap pointer = some thread → some pointer ≠ toDel → thread.Away)
    (executed : m.execute choice rest instr = .ok m') : Reaches m m' popped counted choice := by
  cases jumps with
  | takeFront next =>
    simp only [Machine.execute] at executed
    split at executed
    next => cases executed
    next front ready queue =>
      cases executed
      refine ⟨⟨toDel, true, false, .switching next masked away, filing.keep rfl rfl fun _ => rfl, ?_, ?_⟩, ?_⟩
      all_goals simp [ran, code]
  | runTimer next =>
    cases executed
    exact .plain code (by simp) (.switching next masked away) (filing.keep rfl rfl fun _ => rfl) rfl
  | countTotal next =>
    cases executed
    refine ⟨⟨toDel, true, true, .switching next masked away, filing.keep rfl rfl fun _ => rfl, ?_, ?_⟩, ?_⟩
    all_goals simp [ran, code]
  | @delete pointer _ next =>
    obtain ⟨lib, deleted, executed⟩ := bind_ok.mp executed
    cases executed
    have stored : lib = m.lib.store pointer none := by
      rcases delete_ok deleted with stored | ⟨rfl, rfl⟩
      · exact stored
      · have same : Function.update m.lib.heap nullptr none = m.lib.heap := Function.update_eq_self_iff.mpr filing.null.symm
        rw [State.store, same]
    subst stored
    refine .plain code (by simp) (.switching next masked ?_) filing.delete rfl
    intro other thread record _
    rcases of_update record with ⟨-, none⟩ | ⟨different, record⟩
    · cases none
    · exact away other thread record fun same => different (Option.some.inj same)
  | startThread => exact jump_phase filing code away executed

theorem Phase.idle (phase : Phase m toDel popped counted) (code : m.code = []) :
    toDel = none ∧ popped = false ∧ counted = false ∧ OnCpu m := by
  cases phase with
  | user _ cpu => exact ⟨rfl, rfl, rfl, cpu⟩
  | leaving shape => exact nomatch shape.symm.trans code
  | saving shape => exact nomatch shape.symm.trans code
  | switching jumps =>
    rw [code] at jumps
    cases jumps

/-- A handler may only start on top of user code, or of a call before or after
its own work. -/
theorem Phase.unmasked (phase : Phase m toDel popped counted) (unmasked : sigvtalrm ∉ m.lib.mask) :
    toDel = none ∧ popped = false ∧ counted = false ∧ OnCpu m := by
  cases phase with
  | user _ cpu => exact ⟨rfl, rfl, rfl, cpu⟩
  | leaving _ _ masked => exact absurd masked unmasked
  | saving _ _ masked => exact absurd masked unmasked
  | switching _ masked => exact absurd masked unmasked

/-- A statement of the library, in each phase. -/
private theorem Phase.run {instr : Instr} (phase : Phase m toDel popped counted) (filing : Filing toDel m.lib)
    (code : m.code = instr :: rest) (fits : ∀ op rest, m.code = .call op :: rest → choice.Fits m.lib)
    (executed : m.execute choice rest instr = .ok m') : Reaches m m' popped counted choice := by
  cases phase with
  | user shape cpu =>
    generalize same : m.code = all at shape
    rw [code] at same
    cases shape with
    | idle => cases same
    | returns reply =>
      cases same
      cases executed
      exact .plain code (by simp) (.user .idle (cpu.keep rfl rfl rfl)) filing rfl
    | call op =>
      cases same
      exact cpu.call filing code (.inr rfl) (fits op _ code) executed
    | handler rest =>
      cases same
      exact cpu.call filing code (.inl rfl) (fits _ _ code) executed
  | @leaving _ moveTo _ shape next masked dying cpu =>
    obtain ⟨rfl, rfl⟩ := List.cons.inj (code.symm.trans shape)
    obtain ⟨lib, moved, executed⟩ := bind_ok.mp executed
    obtain ⟨blocked, mutexBlocked, ready, rfl⟩ := moveOut_ok moved
    cases executed
    exact .plain code (by simp) (.saving rfl next masked dying (cpu.keep rfl rfl rfl))
      (filing.keep rfl rfl fun _ => rfl) rfl
  | saving shape next masked dying cpu =>
    obtain ⟨rfl, rfl⟩ := List.cons.inj (code.symm.trans shape)
    exact cpu.saved filing code next masked dying executed
  | switching jumps masked away =>
    rw [code] at jumps
    exact switching_run filing code jumps masked away executed

/-- Every step leads from a phase to a phase, and keeps the accounts. -/
theorem Phase.step {input : Input} (phase : Phase m toDel popped counted) (filing : Filing toDel m.lib)
    (step : m.Steps input m') : ∃ toDel' popped' counted', Phase m' toDel' popped' counted' ∧ Filing toDel' m'.lib ∧
      popped'.toNat + ran .startThread m input = popped.toNat + ran .takeFront m input ∧
      counted'.toNat + ran .startThread m input = counted.toNat + ran .countTotal m input ∧
      m'.lib.totalQuantum = m.lib.totalQuantum + ran .countTotal m input := by
  obtain ⟨stepped, fits⟩ := step
  cases input with simp only [Machine.step] at stepped
  | expire =>
    cases stepped
    refine ⟨toDel, popped, counted, ?_, filing, rfl, rfl, rfl⟩
    cases phase with
    | user code cpu => exact .user code (cpu.keep rfl rfl rfl)
    | leaving code next masked dying cpu => exact .leaving code next masked dying (cpu.keep rfl rfl rfl)
    | saving code next masked dying cpu => exact .saving code next masked dying (cpu.keep rfl rfl rfl)
    | switching code masked away => exact .switching code masked away
  | deliver =>
    split at stepped
    next deliverable =>
      cases stepped
      have unmasked := of_decide_eq_true ((Bool.and_eq_true ..).mp deliverable).2
      obtain ⟨rfl, rfl, rfl, cpu⟩ := phase.unmasked unmasked
      exact ⟨none, false, false, .user (.handler _) (cpu.keep rfl rfl rfl), filing.keep rfl rfl fun _ => rfl, rfl, rfl, rfl⟩
    next => cases stepped
  | run choice =>
    split at stepped
    next => cases stepped
    next instr rest code =>
      split at stepped
      next => cases stepped
      next =>
        have reaches := phase.run filing code (fun op rest call => fits choice op rest rfl call) (Option.some.inj stepped)
        obtain ⟨toDel', popped', counted', phase', filing', pops, counts⟩ := reaches.phase
        exact ⟨toDel', popped', counted', phase', filing', pops, counts, reaches.total⟩
  | call op =>
    split at stepped
    next idle =>
      cases stepped
      obtain ⟨rfl, rfl, rfl, cpu⟩ := phase.idle idle.1
      exact ⟨none, false, false, .user (.call op) (cpu.keep rfl rfl rfl), filing, rfl, rfl, rfl⟩
    next => cases stepped
  | sigprocmask mask =>
    split at stepped
    next idle =>
      cases stepped
      obtain ⟨rfl, rfl, rfl, cpu⟩ := phase.idle idle.1
      refine ⟨none, false, false, .user ?_ (cpu.keep rfl rfl rfl), filing.keep rfl rfl fun _ => rfl, rfl, rfl, rfl⟩
      rw [idle.1]
      exact .idle
    next => cases stepped

end phases

section runs
variable {m final : Machine} {history : List (Move Machine Input)}

theorem Machine.Starts.phase (starts : m.Starts) : Phase m none false false ∧ Filing none m.lib ∧ m.lib.totalQuantum = 1 := by
  obtain ⟨quantumUsecs, address, mask, notNull, done, sp, code, -⟩ := starts
  obtain ⟨fresh, set⟩ := uthreadInit_fresh done
  have record : ∀ pointer thread, m.lib.heap pointer = some thread → pointer = address ∧ thread = .main ⟨0, []⟩ := by
    intro pointer thread found
    rw [fresh.heap] at found
    rcases of_update found with ⟨same, main⟩ | ⟨-, none⟩
    · exact ⟨same, (Option.some.inj main).symm⟩
    · cases none
  have live : ∀ tid, m.lib.live tid ↔ tid = 0 := fun tid => by
    rw [State.live, fresh.allThreads, mem_insert]
    simp
  have main : m.lib.heap address = some (.main ⟨0, []⟩) := by rw [fresh.heap, Function.update_self]
  refine ⟨.user (code ▸ .idle) ⟨⟨_, fresh.running ▸ main, Nat.one_pos, sp.symm⟩, ?_⟩, ⟨set, ?_, ?_, ?_, ?_, nofun⟩,
    fresh.total⟩
  · exact fun pointer thread found other => absurd ((record pointer thread found).1.trans fresh.running.symm) other
  · rw [fresh.heap, Function.update_of_ne (Ne.symm notNull)]
  · refine ⟨(live 0).mpr rfl, fun tid alive => ?_⟩
    rw [(live tid).mp alive]
    decide
  · intro tid pointer found
    rw [fresh.allThreads] at found
    rcases of_getElem?_insert found with ⟨rfl, rfl⟩ | found
    · rw [main]
      rfl
    · simp at found
  · intro pointer thread found _
    obtain ⟨rfl, rfl⟩ := record pointer thread found
    rw [fresh.allThreads, getElem?_insert]
    exact if_pos rfl

/-- How often a history executed a statement. -/
def executed (instr : Instr) (history : List (Move Machine Input)) : Nat :=
  history.countP fun move => ran instr move.before move.label = 1

theorem executed_concat (instr : Instr) (move : Move Machine Input) :
    executed instr (history ++ [move]) = executed instr history + ran instr move.before move.label := by
  have once : ran instr move.before move.label = 0 ∨ ran instr move.before move.label = 1 := by
    unfold ran
    split
    · split
      · exact .inr rfl
      · exact .inl rfl
    · exact .inl rfl
  rw [executed, executed, List.countP_append, List.countP_singleton]
  rcases once with none | one
  · simp [none]
  · simp [one]

theorem run_phase (starts : m.Starts) (run : Run Machine.Steps m history final) :
    ∃ toDel popped counted, Phase final toDel popped counted ∧ Filing toDel final.lib ∧
      executed .takeFront history = executed .startThread history + popped.toNat ∧
      executed .countTotal history = executed .startThread history + counted.toNat ∧
      final.lib.totalQuantum = 1 + executed .countTotal history := by
  induction run with
  | start =>
    obtain ⟨phase, filing, total⟩ := starts.phase
    exact ⟨none, false, false, phase, filing, rfl, rfl, total⟩
  | next run taken ih =>
    obtain ⟨toDel, popped, counted, phase, filing, pops, counts, total⟩ := ih
    obtain ⟨toDel', popped', counted', phase', filing', popped_eq, counted_eq, total_eq⟩ := phase.step filing taken
    refine ⟨toDel', popped', counted', phase', filing', ?_, ?_, ?_⟩
    all_goals
      simp only [executed_concat]
      omega

end runs

structure Keeps (m m' : Machine) : Prop where
  running : m'.lib.running = m.lib.running
  ready : m'.lib.ready = m.lib.ready
  total : m'.lib.totalQuantum = m.lib.totalQuantum

/-- From here the thread returns to user code without another dispatch, and is
the running thread there. -/
def StartsQuantum (m : Machine) : Prop :=
  ∃ trace final, Run Machine.Steps m trace final ∧ (∀ move ∈ trace, Keeps move.before move.after) ∧ final.code = [] ∧
    (final.lib.heap final.lib.running).map Thread.id = some final.sp

section dispatch
variable {m final : Machine}

/-- Whoever was switched out takes the front of the queue before anything else. -/
theorem not_startsQuantum {rest : Code} (code : m.code = .takeFront :: rest) (masked : sigvtalrm ∈ m.lib.mask) :
    ¬ StartsQuantum m := by
  rintro ⟨trace, final, run, kept, idle, -⟩
  have stays : final.code = .takeFront :: rest ∧ sigvtalrm ∈ final.lib.mask := by
    apply run.invariant (fun move => Keeps move.before move.after) kept
      (fun m => m.code = .takeFront :: rest ∧ sigvtalrm ∈ m.lib.mask) ⟨code, masked⟩
    rintro ⟨before, input, after⟩ keeps ⟨stepped, -⟩ ⟨code, masked⟩
    cases input with simp only [Machine.step] at stepped
    | expire => cases stepped; exact ⟨code, masked⟩
    | deliver =>
      split at stepped
      next deliverable => exact absurd masked (of_decide_eq_true ((Bool.and_eq_true ..).mp deliverable).2)
      next => cases stepped
    | run choice =>
      rw [code] at stepped
      dsimp only at stepped
      split at stepped
      next => cases stepped
      next =>
        have taken := Option.some.inj stepped
        simp only [Machine.execute] at taken
        split at taken
        next => cases taken
        next front ready queue =>
          cases taken
          have same : ready = before.lib.ready := keeps.ready
          rw [queue] at same
          exact absurd same (List.cons_ne_self front ready).symm
    | call op =>
      rw [code] at stepped
      simp at stepped
    | sigprocmask mask =>
      rw [code] at stepped
      simp at stepped
  exact nomatch stays.1.symm.trans idle

theorem ran_eq_one {instr : Instr} {input : Input} : ran instr m input = 1 ↔
    ∃ choice rest, input = .run choice ∧ m.code = instr :: rest := by
  unfold ran
  split
  next choice =>
    cases code : m.code with
    | nil => simp
    | cons first rest => simp
  next other => simpa using fun choice same => absurd same (other choice)

/-- The context that a jump finds decides. -/
private theorem jump_iff {after : Machine} {choice : Choice} {rest : Code} {toDel : Option Pointer} {popped counted : Bool}
    (phase : Phase m toDel popped counted) (code : m.code = .startThread :: rest)
    (jumped : m.execute choice rest .startThread = .ok after) :
    StartsQuantum after ↔ (m.lib.heap m.lib.running).map Thread.quantums = some 0 := by
  obtain ⟨thread, found, rfl⟩ := startThread_executed jumped
  have away : thread.Away := by
    cases phase with
    | user shape => rw [code] at shape; cases shape
    | leaving shape => exact nomatch code.symm.trans shape
    | saving shape => exact nomatch code.symm.trans shape
    | switching jumps _ away =>
      rw [code] at jumps
      cases jumps
      exact away _ thread found (Option.some_ne_none _)
  rw [found, Option.map_some, Option.some.injEq]
  rcases away with ⟨unrun, entry, stack⟩ | parked
  · refine iff_of_true ⟨[], _, .start, by simp, entry, ?_⟩ unrun
    simp [State.store, stack]
  · refine iff_of_false ?_ (Nat.pos_iff_ne_zero.mp parked.ran)
    obtain ⟨rest, front⟩ := parked.tail.front
    exact not_startsQuantum front parked.masked

/-- In every run, the thread that is jumped to starts a quantum in user code if
it has not run before, and otherwise dispatches again. There are as many pops
and as many counts as jumps. -/
theorem starts_quantum_iff {history : List (Move Machine Input)} (starts : m.Starts)
    (run : Run Machine.Steps m history final) :
    (∀ move ∈ history, ran .startThread move.before move.label = 1 → (StartsQuantum move.after ↔
        (move.before.lib.heap move.before.lib.running).map Thread.quantums = some 0)) ∧
      (final.code = [] → executed .takeFront history = executed .startThread history ∧
        final.lib.totalQuantum = 1 + executed .startThread history) := by
  refine ⟨fun move member jumps => ?_, fun idle => ?_⟩
  · obtain ⟨first, last, rfl, before, taken, -⟩ := run.at_mem member
    obtain ⟨toDel, popped, counted, phase, -⟩ := run_phase starts before
    obtain ⟨choice, rest, label, code⟩ := ran_eq_one.mp jumps
    have stepped := taken.1
    rw [label, Machine.step, code] at stepped
    dsimp only at stepped
    split at stepped
    next => cases stepped
    next => exact jump_iff phase code (Option.some.inj stepped)
  · obtain ⟨toDel, popped, counted, phase, -, pops, counts, total⟩ := run_phase starts run
    obtain ⟨-, rfl, rfl, -⟩ := phase.idle idle
    rw [Bool.toNat_false, Nat.add_zero] at pops counts
    exact ⟨pops, counts ▸ total⟩

end dispatch

section examples
variable {m m' : Machine} {input : Input}

theorem stepResuming_afterSaveEnv : m.stepResuming .afterSaveEnv input = m.step input := by
  unfold Machine.stepResuming
  split
  next code => simp only [Machine.step, code, Machine.execute, Resumption.code]
  next => rfl

/-- The source resumes a context after its `saveEnv`. -/
theorem steps_iff : m.Steps input m' ↔ m.StepsResuming .afterSaveEnv input m' := by
  rw [Machine.Steps, Machine.StepsResuming, stepResuming_afterSaveEnv]

def Input.fits (input : Input) (m : Machine) : Bool :=
  match input, m.code with
  | .run choice, .call _ :: _ => decide (choice.Fits m.lib)
  | _, _ => true

def next (resumption : Resumption) (m : Machine) (input : Input) : Option (Input × Machine) :=
  if input.fits m then ((m.stepResuming resumption input).bind Except.toOption).map (input, ·) else none

theorem next_sound (resumption : Resumption) (m : Machine) (input label : Input) (m' : Machine)
    (taken : next resumption m input = some (label, m')) : m.StepsResuming resumption label m' := by
  unfold next at taken
  split at taken
  next fits =>
    obtain ⟨after, stepped, same⟩ := Option.map_eq_some_iff.mp taken
    cases same
    refine ⟨some_ok.mp stepped, fun choice op rest runs code => ?_⟩
    subst runs
    unfold Input.fits at fits
    rw [code] at fits
    exact of_decide_eq_true fits
  next => cases taken

theorem next_steps (m : Machine) (input label : Input) (m' : Machine) (taken : next .afterSaveEnv m input = some (label, m')) :
    m.Steps label m' :=
  steps_iff.mpr (next_sound .afterSaveEnv m input label m' taken)

def started : Machine := ⟨(uthreadInit 1000000 1 ⟨0, []⟩ (.blank ∅)).2, 0, [], false⟩

theorem started_starts : started.Starts := ⟨1000000, 1, ∅, by decide, rfl, rfl, rfl, rfl⟩

private def spawning : List Input := [.call (.spawn ()), .run ⟨2, []⟩, .run ⟨3, []⟩]

private def preemption : List Input := [.expire, .deliver] ++ List.replicate 6 (.run ⟨3, []⟩)

/-- The first dispatch of thread 1. -/
theorem starts_quantum_iff_spawned : ∃ move : Move Machine Input, move.after.sp = 1 ∧ StartsQuantum move.after := by
  obtain ⟨history, final, run, tested⟩ := compute_tested next_steps started (spawning ++ preemption)
    (fun history _ => history.getLast?.any fun move => move.after.sp = 1 ∧ ran .startThread move.before move.label = 1 ∧
      (move.before.lib.heap move.before.lib.running).map Thread.quantums = some 0) (by decide +kernel)
  obtain ⟨move, last, tested⟩ := (Option.any_eq_true _ _).mp tested
  obtain ⟨stack, jumps, unrun⟩ := of_decide_eq_true tested
  have member := List.mem_of_getLast? last
  exact ⟨move, stack, ((starts_quantum_iff started_starts run).1 move member jumps).mpr unrun⟩

/-- Main was preempted and is jumped to when thread 1 is preempted in turn. It
takes thread 1 from the queue and counts one more quantum. -/
theorem resumed_main_dispatches : ∃ (history rest : List (Move Machine Input)) (resumed final : Machine),
    started.Starts ∧ Run Machine.Steps started history resumed ∧
      (history.getLast?.any fun move => ran .startThread move.before move.label = 1) = true ∧
      resumed.sp = 0 ∧ resumed.lib.idOf resumed.lib.running = 0 ∧ ¬ StartsQuantum resumed ∧
      Run Machine.Steps resumed rest final ∧ final.sp = 0 ∧ final.lib.idOf final.lib.running = 1 ∧
      final.lib.totalQuantum = resumed.lib.totalQuantum + 1 ∧ final.lib.ready ≠ resumed.lib.ready := by
  obtain ⟨history, resumed, run, tested⟩ := compute_tested next_steps started (spawning ++ preemption ++ preemption)
    (fun history resumed => (history.getLast?.any fun move => ran .startThread move.before move.label = 1) ∧
      resumed.sp = 0 ∧ resumed.lib.idOf resumed.lib.running = 0 ∧ resumed.code.head? = some .takeFront ∧
      sigvtalrm ∈ resumed.lib.mask ∧
      (compute (next .afterSaveEnv) resumed [.run ⟨3, []⟩, .run ⟨3, []⟩]).any fun done => done.2.sp = 0 ∧
        done.2.lib.idOf done.2.lib.running = 1 ∧ done.2.lib.totalQuantum = resumed.lib.totalQuantum + 1 ∧
        done.2.lib.ready ≠ resumed.lib.ready) (by decide +kernel)
  obtain ⟨jumps, stack, running, front, masked, later⟩ := of_decide_eq_true tested
  obtain ⟨⟨rest, final⟩, followed, later⟩ := (Option.any_eq_true _ _).mp later
  obtain ⟨stack', running', total, ready⟩ := of_decide_eq_true later
  obtain ⟨others, code⟩ := List.head?_eq_some_iff.mp front
  exact ⟨history, rest, resumed, final, started_starts, run, jumps, stack, running, not_startsQuantum code masked,
    compute_run next_steps followed, stack', running', total, ready⟩

end examples
end Uthreads.Nim
