import Uthreads.Nim.Proofs.Serialization

/-! Who owns the records of the threads in nim/uthreads.cpp, statement by statement
and wherever the signal arrives: the table, but for a thread that deletes itself. -/

namespace Uthreads.Nim
open Fallible OrderedMap Transition

def Instr.dooms : Instr → Option Pointer
  | .delete toDel => some toDel
  | _ => none

def doomed (code : Code) : List Pointer := code.filterMap Instr.dooms

/-- The threads that are allocated are those of the table, but for the one that the
code is about to delete: it is the thread that executes. -/
structure Booked (toDel : Option Pointer) (m : Machine) : Prop where
  filing : Filing toDel m.lib
  pending : doomed m.code = toDel.toList
  later : doomed (afterStart m.code) = []
  dying : ∀ pointer, toDel = some pointer → (m.lib.heap pointer).map Thread.id = some m.sp ∧ m.sp ∉ m.lib.allThreads
  own : ¬ Dispatches m.code → toDel = none ∨ toDel = some m.lib.running
  contexts : ∀ pointer thread, m.lib.heap pointer = some thread → some pointer ≠ toDel → doomed thread.env.pc = []

structure Seated (m : Machine) : Prop where
  current : ¬ Dispatches m.code → (m.lib.heap m.lib.running).map Thread.id = some m.sp
  saved : ∀ pointer thread, m.lib.heap pointer = some thread → thread.env.sp = thread.id

private theorem map_id_store {s : State Code} {pointer : Pointer} {thread other : Thread Code}
    (found : s.heap pointer = some thread) (same : other.id = thread.id) (address : Pointer) :
    ((s.store pointer (some other)).heap address).map Thread.id = (s.heap address).map Thread.id := by
  by_cases here : address = pointer
  · simp only [State.store, here, found, Function.update_self, Option.map_some, same]
  · simp only [State.store, Function.update_of_ne here]

section doomed
variable {code rest : Code} {instr : Instr}

theorem doomed_append (first last : Code) : doomed (first ++ last) = doomed first ++ doomed last :=
  List.filterMap_append

theorem doomed_afterStart (clean : doomed code = []) : doomed (afterStart code) = [] := by
  induction code with
  | nil => exact clean
  | cons instr rest ih =>
    have gone : doomed rest = [] := by
      cases instr with
      | delete toDel => cases clean
      | _ => exact clean
    cases instr with
    | startThread => exact gone
    | _ => exact ih gone

theorem doomed_resumed {resumption : Resumption} (clean : doomed rest = []) : doomed (resumption.code rest) = [] := by
  cases resumption with
  | afterSaveEnv => exact clean
  | afterSwitch => exact doomed_afterStart clean

theorem doomed_switchThreadCode (exit : Exit) : doomed (switchThreadCode exit) = exit.toDel.toList := by
  obtain ⟨moveTo, initAlarm, toDel⟩ := exit
  cases initAlarm <;> cases toDel <;> rfl

theorem doomed_afterSwitch (op : Op Unit) : doomed op.afterSwitch = [] := by
  cases op <;> rfl

/-- Nothing is deleted by code that is entered with the signal unmasked. -/
theorem Unwinds.doomed {returns : Bool → Prop} (unwinds : Unwinds returns false code) : doomed code = [] := by
  induction code with
  | nil => rfl
  | cons instr rest ih =>
    cases instr with
    | call => exact ih (unwinds.2 false)
    | returns =>
      obtain ⟨-, rfl⟩ := unwinds
      rfl
    | unblock => exact ih unwinds
    | sigreturn => exact ih unwinds.2
    | saveEnv => exact unwinds.elim
    | _ => exact absurd unwinds.1 Bool.false_ne_true

end doomed

theorem Unwinding.unmasked {m : Machine} (unwinding : Unwinding m) (unmasked : Masked m.lib.mask = false) :
    Unwinds (fun _ => True) false m.code := by
  rcases unwinding.current with unwinds | ⟨_, _, masked, _⟩
  · exact unmasked ▸ unwinds
  · cases unmasked.symm.trans masked

section booked
variable {resumption : Resumption} {m m' : Machine} {choice : Choice} {rest : Code} {instr : Instr} {input : Input}
  {toDel : Option Pointer}

private theorem Booked.keep (booked : Booked toDel m) (set : m'.lib.set = m.lib.set)
    (allThreads : m'.lib.allThreads = m.lib.allThreads) (heap : m'.lib.heap = m.lib.heap) (sp : m'.sp = m.sp)
    (pending : doomed m'.code = doomed m.code) (later : doomed (afterStart m'.code) = [])
    (own : ¬ Dispatches m'.code → ¬ Dispatches m.code ∧ m'.lib.running = m.lib.running) : Booked toDel m' := by
  refine ⟨booked.filing.keep set allThreads fun pointer => by rw [heap], pending.trans booked.pending, later, ?_, ?_, ?_⟩
  · rw [heap, sp, allThreads]
    exact booked.dying
  · intro outside
    obtain ⟨before, same⟩ := own outside
    rw [same]
    exact booked.own before
  · rw [heap]
    exact booked.contexts

theorem Booked.settled (booked : Booked toDel m) (clean : doomed m.code = []) : Booked none m := by
  have same := booked.pending.symm.trans clean
  cases toDel with
  | none => exact booked
  | some => cases same

private theorem Booked.enters {order : List (Int × Pointer)} {op : Op Unit} {exit : Exit} {lib : State Code}
    (booked : Booked none m) (seated : Seated m) (enters : Enters order m.lib op.enter exit lib) (code : m.code = .call op :: rest)
    (clean : doomed rest = []) : Booked exit.toDel { m with lib, code := switchThreadCode exit ++ op.afterSwitch ++ rest } := by
  have entered := enters.entered
  have current := seated.current (code ▸ id)
  have own : exit.toDel = none ∨ exit.toDel = some m.lib.running := by
    rcases entered.allThreads with ⟨nobody, -⟩ | ⟨tid, pointer, dying, filed, -, id, -⟩
    · exact .inl nobody
    · obtain ⟨thread, found, rfl⟩ := Option.map_eq_some_iff.mp id
      have recorded := booked.filing.recorded _ thread found (Option.some_ne_none _)
      exact .inr (dying.trans (filed.symm.trans recorded))
  refine ⟨?_, ?_, ?_, fun pointer dying => ?_, fun _ => ?_, ?_⟩
  · rcases entered.allThreads with ⟨nobody, table⟩ | ⟨tid, pointer, dying, filed, notMain, -, table⟩
    · rw [nobody]
      exact booked.filing.keep entered.set table fun pointer => by rw [entered.heap]
    · rw [dying]
      exact booked.filing.erase filed notMain entered.set entered.heap table
  · rw [doomed_append, doomed_append, doomed_switchThreadCode, doomed_afterSwitch, clean, List.append_nil, List.append_nil]
  · rw [List.append_assoc, afterStart_switchThreadCode, doomed_append, doomed_afterSwitch, clean]
    rfl
  · rcases entered.allThreads with ⟨nobody, -⟩ | ⟨tid, -, -, -, -, id, table⟩
    · cases nobody.symm.trans dying
    · obtain rfl : m.sp = tid := Option.some.inj (current.symm.trans id)
      obtain rfl : m.lib.running = pointer := by
        rcases own with nobody | running
        · cases nobody.symm.trans dying
        · exact Option.some.inj (running.symm.trans dying)
      rw [entered.heap, table, mem_erase]
      exact ⟨current, fun left => left.1 rfl⟩
  · rw [entered.running]
    exact own
  · rw [entered.heap]
    exact fun pointer thread found _ => booked.contexts pointer thread found (Option.some_ne_none _)

private theorem Booked.called {op : Op Unit} {reply : Reply} {lib : State Code} (booked : Booked none m)
    (effect : Effect m.lib lib op.enter) (clean : doomed rest = []) :
    Booked none { m with lib, code := .returns reply :: rest } := by
  have settled : ∀ filing : Filing none lib, (∀ pointer thread, lib.heap pointer = some thread → doomed thread.env.pc = []) →
      Booked none { m with lib, code := .returns reply :: rest } := fun filing contexts =>
    ⟨filing, clean, @doomed_afterStart (.returns reply :: rest) clean, nofun, fun _ => .inl rfl,
      fun pointer thread found _ => contexts pointer thread found⟩
  have contexts : ∀ pointer thread, m.lib.heap pointer = some thread → doomed thread.env.pc = [] :=
    fun pointer thread found => booked.contexts pointer thread found (Option.some_ne_none _)
  generalize same : op.enter = entered at effect
  cases effect with
  | quiet quiet =>
    apply settled (booked.filing.keep quiet.set quiet.allThreads fun pointer => by rw [quiet.heap])
    rw [quiet.heap]
    exact contexts
  | spawn notNull fresh room _ set _ heap allThreads =>
    apply settled (booked.filing.spawn notNull fresh room set heap allThreads)
    rw [heap]
    intro pointer thread found
    rcases of_update found with ⟨-, new⟩ | ⟨-, kept⟩
    · cases new
      cases op <;> cases same
      rfl
    · exact contexts pointer thread kept
  | @terminate tid pointer filed notMain _ _ set _ heap allThreads =>
    have notNull : pointer ≠ nullptr := by
      rintro rfl
      have id := booked.filing.filed tid _ filed
      simp [booked.filing.null] at id
    have heap := heap.resolve_right fun null => notNull null.1
    have left : Filing (some pointer) { m.lib with allThreads := m.lib.allThreads.erase tid } :=
      booked.filing.erase filed notMain rfl rfl rfl
    apply settled (left.delete.keep set allThreads fun other => by rw [heap]; rfl)
    rw [heap]
    intro other thread found
    rcases of_update found with ⟨-, gone⟩ | ⟨-, kept⟩
    · cases gone
    · exact contexts other thread kept

private theorem Booked.saved {thread : Thread Code} (booked : Booked toDel m) (code : m.code = .saveEnv m.lib.running :: rest)
    (found : m.lib.heap m.lib.running = some thread) (dispatches : Dispatches rest) (env : SigjmpBuf Code)
    (pc : env.pc = resumption.code rest) : Booked toDel { m with
      lib := m.lib.store m.lib.running (some { thread with env }), code := rest } := by
  have pending := booked.pending
  have later := booked.later
  rw [code] at pending later
  have ids := @map_id_store _ _ _ { thread with env } found rfl
  refine ⟨booked.filing.keep rfl rfl ids, pending, later, fun pointer dying => ?_, fun outside => absurd dispatches outside, ?_⟩
  · exact ⟨(ids pointer).trans (booked.dying pointer dying).1, (booked.dying pointer dying).2⟩
  · intro pointer other record alive
    rcases of_update record with ⟨rfl, saved⟩ | ⟨-, kept⟩
    · cases saved
      obtain rfl : toDel = none := (booked.own (code ▸ id)).resolve_right (Ne.symm alive)
      rw [pc]
      exact doomed_resumed pending
    · exact booked.contexts pointer other kept alive

private theorem Booked.jumped {thread : Thread Code} {mask : Finset Signal} (booked : Booked toDel m)
    (code : m.code = .startThread :: rest) (found : m.lib.heap m.lib.running = some thread) : Booked none { m with
      lib := { m.lib.store m.lib.running (some { thread with quantums := thread.quantums + 1 }) with mask }
      sp := thread.env.sp
      code := thread.env.pc } := by
  have later := booked.later
  rw [code] at later
  have booked := booked.settled (code ▸ later)
  have contexts := fun pointer thread found => booked.contexts pointer thread found (Option.some_ne_none _)
  have clean := contexts _ thread found
  have ids := @map_id_store _ _ _ { thread with quantums := thread.quantums + 1 } found rfl
  refine ⟨booked.filing.keep rfl rfl ids, clean, doomed_afterStart clean, nofun, fun _ => .inl rfl, fun pointer other record _ => ?_⟩
  rcases of_update record with ⟨-, charged⟩ | ⟨-, kept⟩
  · cases charged
    exact clean
  · exact contexts pointer other kept

private theorem Booked.deleted {pointer : Pointer} {lib : State Code} (booked : Booked toDel m)
    (code : m.code = .delete pointer :: rest) (dispatches : Dispatches rest) (deleted : delete pointer m.lib = .ok lib) :
    Booked none { m with lib, code := rest } := by
  have pending := booked.pending
  have later := booked.later
  rw [code] at pending later
  cases toDel with
  | none => cases pending
  | some dying =>
    obtain ⟨rfl, clean⟩ := List.cons.inj pending
    have allocated := (booked.dying pointer rfl).1
    rcases delete_ok deleted with rfl | ⟨rfl, -⟩
    · refine ⟨booked.filing.delete, clean, later, nofun, fun outside => absurd dispatches outside, ?_⟩
      intro other thread found _
      rcases of_update found with ⟨-, gone⟩ | ⟨different, kept⟩
      · cases gone
      · exact booked.contexts other thread kept fun same => different (Option.some.inj same)
    · rw [booked.filing.null] at allocated
      cases allocated

private theorem Executes.booked (executed : Executes resumption m choice rest instr m') (code : m.code = instr :: rest)
    (other : ∀ pointer, instr ≠ .delete pointer) (unwinding : Unwinding m) (seated : Seated m) (booked : Booked toDel m) :
    ∃ toDel', Booked toDel' m' := by
  have unwinds := unwinding.current.unwinds code
  have pending := booked.pending
  have later := booked.later
  have own := booked.own
  rw [code] at later own
  cases executed with
  | enters enters =>
    have clean : doomed rest = [] := Unwinds.doomed ((unwinds (by simp)).2 false)
    exact ⟨_, (booked.settled (code ▸ clean)).enters seated enters code clean⟩
  | called _ effect =>
    have clean : doomed rest = [] := Unwinds.doomed ((unwinds (by simp)).2 false)
    exact ⟨_, (booked.settled (code ▸ clean)).called effect clean⟩
  | returns | unblock | sigreturn =>
    exact ⟨toDel, booked.keep rfl rfl rfl rfl (code ▸ rfl) later fun _ => ⟨code ▸ id, rfl⟩⟩
  | moveOut => exact ⟨toDel, booked.keep rfl rfl rfl rfl (code ▸ rfl) later fun _ => ⟨code ▸ id, rfl⟩⟩
  | saveEnv found =>
    obtain ⟨rfl, dispatches, -⟩ := unwinding.current.saving code resumption
    exact ⟨toDel, booked.saved code found dispatches _ rfl⟩
  | takeFront | runTimer | countTotal =>
    have dispatches := (unwinds (by simp)).2.1
    exact ⟨toDel, booked.keep rfl rfl rfl rfl (code ▸ rfl) later fun outside => absurd dispatches outside⟩
  | delete | deleteNull => exact absurd rfl (other _)
  | startThread found => exact ⟨none, booked.jumped code found⟩

theorem Booked.step (booked : Booked toDel m) (taken : m.StepsResuming resumption input m') (unwinding : Unwinding m)
    (seated : Seated m) : ∃ toDel', Booked toDel' m' := by
  by_cases deletes : ∃ choice pointer rest, input = .run choice ∧ m.code = .delete pointer :: rest
  · obtain ⟨choice, pointer, rest, rfl, code⟩ := deletes
    obtain ⟨lib, deleted, same⟩ := bind_ok.mp (execute_of_taken taken code (by simp))
    cases same
    exact ⟨none, booked.deleted code (unwinding.current.unwinds code (by simp)).2.1 deleted⟩
  · cases moves_of_step taken with
    | expire => exact ⟨toDel, booked.keep rfl rfl rfl rfl rfl booked.later fun outside => ⟨outside, rfl⟩⟩
    | deliver unmasked =>
      have unwinds := unwinding.unmasked unmasked
      refine ⟨toDel, booked.keep rfl rfl rfl rfl rfl ?_ fun _ => ⟨unwinds.not_dispatches, rfl⟩⟩
      exact @doomed_afterStart (alarmSigHandlerCode _ ++ m.code) unwinds.doomed
    | run code executed =>
      refine executed.booked code (fun pointer same => ?_) unwinding seated booked
      exact deletes ⟨_, pointer, _, rfl, same ▸ code⟩
    | call user => exact ⟨toDel, booked.keep rfl rfl rfl rfl (user ▸ rfl) rfl fun _ => ⟨user ▸ id, rfl⟩⟩
    | sigprocmask user => exact ⟨toDel, booked.keep rfl rfl rfl rfl rfl booked.later fun outside => ⟨outside, rfl⟩⟩

end booked

section seated
variable {resumption : Resumption} {m m' : Machine} {choice : Choice} {rest : Code} {instr : Instr} {input : Input}
  {toDel : Option Pointer}

private theorem Seated.called {op : Op Code} {lib : State Code} {code : Code} (seated : Seated m) (booked : Booked none m)
    (effect : Effect m.lib lib op) (outside : ¬ Dispatches m.code) : Seated { m with lib, code } := by
  have current := seated.current outside
  suffices kept : lib.heap m.lib.running = m.lib.heap m.lib.running ∧
      ∀ pointer thread, lib.heap pointer = some thread → thread.env.sp = thread.id by
    refine ⟨fun _ => ?_, kept.2⟩
    rw [effect.frame.1, kept.1]
    exact current
  cases effect with
  | quiet quiet =>
    rw [quiet.heap]
    exact ⟨rfl, seated.saved⟩
  | @spawn f address _ fresh _ _ _ _ heap =>
    have different : m.lib.running ≠ address := by
      rintro rfl
      rw [fresh] at current
      cases current
    rw [heap]
    refine ⟨Function.update_of_ne different .., fun pointer thread found => ?_⟩
    rcases of_update found with ⟨-, new⟩ | ⟨-, kept⟩
    · cases new
      rfl
    · exact seated.saved pointer thread kept
  | @terminate tid pointer filed _ other _ _ _ heap =>
    have different : m.lib.running ≠ pointer := fun same => other (same ▸ booked.filing.filed tid pointer filed)
    rcases heap with heap | ⟨-, heap⟩
    · rw [heap]
      refine ⟨Function.update_of_ne different .., fun address thread found => ?_⟩
      rcases of_update found with ⟨-, gone⟩ | ⟨-, kept⟩
      · cases gone
      · exact seated.saved address thread kept
    · rw [heap]
      exact ⟨rfl, seated.saved⟩

private theorem Executes.seated (executed : Executes resumption m choice rest instr m') (code : m.code = instr :: rest)
    (unwinding : Unwinding m) (booked : Booked toDel m) (seated : Seated m) : Seated m' := by
  have unwinds := unwinding.current.unwinds code
  have current := seated.current
  rw [code] at current
  cases executed with
  | enters enters =>
    constructor
    · intro _
      rw [enters.entered.heap, enters.entered.running]
      exact current id
    · rw [enters.entered.heap]
      exact seated.saved
  | called _ effect =>
    have clean : doomed rest = [] := Unwinds.doomed ((unwinds (by simp)).2 false)
    exact seated.called (booked.settled (code ▸ clean)) effect (code ▸ id)
  | returns | unblock | sigreturn | moveOut => exact ⟨fun _ => current id, seated.saved⟩
  | saveEnv found =>
    obtain ⟨rfl, dispatches, -⟩ := unwinding.current.saving code resumption
    refine ⟨fun outside => absurd dispatches outside, fun pointer thread record => ?_⟩
    rcases of_update record with ⟨rfl, saved⟩ | ⟨-, kept⟩
    · have id := current id
      rw [found] at id
      cases saved
      exact (Option.some.inj id).symm
    · exact seated.saved pointer thread kept
  | takeFront | runTimer | countTotal | deleteNull =>
    have dispatches := (unwinds (by simp)).2.1
    exact ⟨fun outside => absurd dispatches outside, seated.saved⟩
  | delete =>
    have dispatches := (unwinds (by simp)).2.1
    refine ⟨fun outside => absurd dispatches outside, fun pointer thread record => ?_⟩
    rcases of_update record with ⟨-, gone⟩ | ⟨-, kept⟩
    · cases gone
    · exact seated.saved pointer thread kept
  | @startThread thread found =>
    have own := seated.saved _ thread found
    refine ⟨fun _ => ?_, fun pointer other record => ?_⟩
    · simp only [State.store, Function.update_self, Option.map_some, own]
    · rcases of_update record with ⟨-, charged⟩ | ⟨-, kept⟩
      · cases charged
        exact own
      · exact seated.saved pointer other kept

theorem Moves.seated (moves : Moves resumption m input m') (unwinding : Unwinding m) (booked : Booked toDel m)
    (seated : Seated m) : Seated m' := by
  cases moves with
  | expire | sigprocmask => exact ⟨seated.current, seated.saved⟩
  | deliver unmasked =>
    exact ⟨fun _ => seated.current (unwinding.unmasked unmasked).not_dispatches, seated.saved⟩
  | run code executed => exact executed.seated code unwinding booked seated
  | call user => exact ⟨fun _ => seated.current (user ▸ id), seated.saved⟩

end seated

/-- The stack that is executed on is that of a thread that is allocated. -/
def Stacked (m : Machine) : Prop := ∃ pointer, (m.lib.heap pointer).map Thread.id = some m.sp

def Frees (move : Move Machine Input) : Prop :=
  ∃ choice pointer rest, move.label = .run choice ∧ move.before.code = .delete pointer :: rest

/-- A thread was deleted by a switch that has not jumped yet. -/
def Freed (timeline : List (Move Machine Input)) : Prop :=
  ∃ first move last, timeline = first ++ move :: last ∧ Frees move ∧
    ∀ other ∈ last, ran .startThread other.before other.label ≠ 1

section stacked
variable {resumption : Resumption} {m m' : Machine} {input : Input} {toDel : Option Pointer}
  {timeline : List (Move Machine Input)} {move : Move Machine Input}

theorem freed_concat : Freed (timeline ++ [move]) ↔
    Frees move ∨ Freed timeline ∧ ran .startThread move.before move.label ≠ 1 := by
  constructor
  · rintro ⟨first, freeing, last, same, frees, jumpless⟩
    rcases List.eq_nil_or_concat last with rfl | ⟨earlier, later, rfl⟩
    · obtain ⟨-, single⟩ := List.append_inj' same rfl
      cases single
      exact .inl frees
    · rw [List.concat_eq_append, ← List.cons_append, ← List.append_assoc] at same
      obtain ⟨rfl, single⟩ := List.append_inj' same rfl
      cases single
      refine .inr ⟨⟨first, freeing, earlier, rfl, frees, fun other member => ?_⟩, jumpless _ (by simp)⟩
      exact jumpless other (by simp [member])
  · rintro (frees | ⟨⟨first, freeing, last, rfl, frees, jumpless⟩, other⟩)
    · exact ⟨timeline, move, [], rfl, frees, by simp⟩
    · refine ⟨first, freeing, last ++ [move], by simp, frees, List.forall_mem_append.mpr ⟨jumpless, ?_⟩⟩
      exact List.forall_mem_singleton.mpr other

private theorem Booked.unstacked {pointer : Pointer} {rest : Code} {lib : State Code} (booked : Booked toDel m)
    (code : m.code = .delete pointer :: rest) (deleted : delete pointer m.lib = .ok lib) :
    ¬ Stacked { m with lib, code := rest } := by
  rintro ⟨other, id⟩
  have pending := booked.pending
  rw [code] at pending
  cases toDel with
  | none => cases pending
  | some dying =>
    obtain ⟨rfl, -⟩ := List.cons.inj pending
    obtain ⟨allocated, erased⟩ := booked.dying pointer rfl
    obtain ⟨thread, found, same⟩ := Option.map_eq_some_iff.mp id
    have same : thread.id = m.sp := same
    rcases delete_ok deleted with rfl | ⟨rfl, -⟩
    · rcases of_update found with ⟨-, gone⟩ | ⟨different, kept⟩
      · cases gone
      · have recorded := booked.filing.recorded other thread kept fun same => different (Option.some.inj same)
        exact erased (mem_iff_exists.mpr ⟨other, same ▸ recorded⟩)
    · rw [booked.filing.null] at allocated
      cases allocated

private theorem Moves.stacked_iff (moves : Moves resumption m input m') (kept : ¬ Frees ⟨m, input, m'⟩)
    (seated : Seated m) (seated' : Seated m') : Stacked m' ↔ Stacked m ∨ ran .startThread m input = 1 := by
  have plain : (Stacked m' ↔ Stacked m) → ran .startThread m input ≠ 1 →
      (Stacked m' ↔ Stacked m ∨ ran .startThread m input = 1) := by
    intro same jumpless
    rw [same, or_iff_left jumpless]
  cases moves with
  | expire | deliver | call | sigprocmask => exact plain Iff.rfl (by simp [ran])
  | @run choice instr rest _ code executed =>
    have jumpless : instr ≠ .startThread → ran .startThread m (.run choice) ≠ 1 := by
      intro other
      simp [ran, code, other]
    have outside := seated.current
    rw [code] at outside
    cases executed with
    | enters enters =>
      refine plain ?_ (jumpless (by simp))
      simp only [Stacked, enters.entered.heap]
    | called _ effect =>
      exact plain (iff_of_true ⟨_, seated'.current id⟩ ⟨_, outside id⟩) (jumpless (by simp))
    | returns | unblock | sigreturn | moveOut | takeFront | runTimer | countTotal =>
      exact plain Iff.rfl (jumpless (by simp))
    | @saveEnv goingOut thread found =>
      refine plain (exists_congr fun pointer => ?_) (jumpless (by simp))
      have ids := @map_id_store _ _ _ { thread with env := ⟨⟨m.sp, resumption.code rest⟩, m.lib.mask⟩ } found rfl pointer
      exact Eq.congr_left ids
    | delete | deleteNull => exact absurd ⟨choice, _, _, rfl, code⟩ kept
    | @startThread thread found =>
      refine iff_of_true ⟨m.lib.running, ?_⟩ (.inr (by simp [ran, code]))
      simp only [State.store, Function.update_self, Option.map_some, seated.saved _ _ found]

end stacked

section free
variable {s : State Code}

theorem Filing.freeAllThread (filing : Filing none s) :
    ∃ last, Nim.freeAllThread s = .ok last ∧ ∀ pointer, last.heap pointer = none := by
  obtain ⟨last, freed, kept, gone⟩ := freeAllThread_ok filing.null filing.filed
  refine ⟨last, freed, fun pointer => ?_⟩
  cases found : s.heap pointer with
  | none => exact kept pointer found
  | some thread =>
    have recorded := filing.recorded pointer thread found (Option.some_ne_none _)
    exact gone _ pointer (filing.numbered.ids _ (mem_iff_exists.mpr ⟨pointer, recorded⟩)) recorded

/-- A termination of main deletes every thread, and then ends the process. -/
theorem Filing.exits {m : Machine} (filing : Filing none m.lib) (choice : Choice) (rest : Code) :
    (∃ last, Nim.freeAllThread (block m.lib) = .ok last ∧ ∀ pointer, last.heap pointer = none) ∧
      m.execute choice rest (.call (.terminate 0)) = .error (.exit success) := by
  have blocked : Filing none (block m.lib) := filing.keep rfl rfl fun _ => rfl
  obtain ⟨last, freed, gone⟩ := blocked.freeAllThread
  have main : ¬ (0 : Int) ∉ (block m.lib).allThreads := not_not_intro blocked.numbered.main
  refine ⟨⟨last, freed, gone⟩, ?_⟩
  simp only [Machine.execute, Op.enter, Op.untilSwitch, Op.call, uthreadTerminate, mainThread, if_neg main, or_true, if_true,
    freed, bind_ok_left]
  rfl

end free

section run
variable {resumption : Resumption} {start final : Machine} {timeline : List (Move Machine Input)}

theorem Machine.Starts.booked (starts : start.Starts) : Booked none start ∧ Seated start := by
  obtain ⟨-, filing, -⟩ := starts.phase
  obtain ⟨quantumUsecs, address, mask, -, done, sp, code, -⟩ := starts
  obtain ⟨fresh, -⟩ := uthreadInit_fresh done
  have only : ∀ pointer thread, start.lib.heap pointer = some thread → thread = .main ⟨0, []⟩ := by
    intro pointer thread found
    rw [fresh.heap] at found
    rcases of_update found with ⟨-, main⟩ | ⟨-, none⟩
    · exact (Option.some.inj main).symm
    · cases none
  refine ⟨⟨filing, code ▸ rfl, code ▸ rfl, nofun, fun _ => .inl rfl, ?_⟩, fun _ => ?_, ?_⟩
  · intro pointer thread found _
    rw [only pointer thread found]
    rfl
  · rw [fresh.heap, fresh.running, Function.update_self, sp]
    rfl
  · intro pointer thread found
    rw [only pointer thread found]
    rfl

theorem run_booked (starts : start.Starts) (run : Run (Machine.StepsResuming resumption) start timeline final) :
    Unwinding final ∧ (∃ toDel, Booked toDel final) ∧ Seated final := by
  apply run.invariant (fun _ => True) (fun _ _ => trivial) (fun m => Unwinding m ∧ (∃ toDel, Booked toDel m) ∧ Seated m)
    ⟨starts.unwinding, ⟨none, starts.booked.1⟩, starts.booked.2⟩
  rintro move - taken ⟨unwinding, ⟨toDel, booked⟩, seated⟩
  have moves := moves_of_step taken
  exact ⟨moves.unwinding unwinding, booked.step taken unwinding seated, moves.seated unwinding booked seated⟩

/-- In every run, however contexts are resumed and wherever the signal arrives, the
threads of the table are allocated, and every other thread that is allocated is about
to be deleted. When none is, `freeAllThread` deletes each of them once. -/
theorem threads_accounted (starts : start.Starts) (run : Run (Machine.StepsResuming resumption) start timeline final) :
    (∀ (tid : Int) (pointer : Pointer), final.lib.allThreads[tid]? = some pointer →
      (final.lib.heap pointer).map Thread.id = some tid) ∧
    (∀ pointer thread, final.lib.heap pointer = some thread →
      final.lib.allThreads[thread.id]? = some pointer ∨ .delete pointer ∈ final.code) ∧
    ((∀ pointer, .delete pointer ∉ final.code) →
      ∃ s, freeAllThread final.lib = .ok s ∧ ∀ pointer, s.heap pointer = none) := by
  obtain ⟨-, ⟨toDel, booked⟩, -⟩ := run_booked starts run
  have pending : ∀ pointer, toDel = some pointer → .delete pointer ∈ final.code := by
    rintro pointer rfl
    have member : pointer ∈ doomed final.code := by
      rw [booked.pending]
      exact List.mem_singleton_self pointer
    obtain ⟨instr, found, dooms⟩ := List.mem_filterMap.mp member
    cases instr <;> cases dooms
    exact found
  refine ⟨booked.filing.filed, fun pointer thread found => ?_, fun clean => ?_⟩
  · by_cases dying : toDel = some pointer
    · exact .inr (pending pointer dying)
    · exact .inl (booked.filing.recorded pointer thread found (Ne.symm dying))
  · cases toDel with
    | none => exact booked.filing.freeAllThread
    | some pointer => exact absurd (pending pointer rfl) (clean pointer)

private def departing : List Input :=
  [.call (.spawn ()), .run ⟨2, []⟩, .run ⟨3, []⟩, .expire, .deliver] ++ List.replicate 6 (.run ⟨3, []⟩) ++
    [.call (.terminate 1)]

/-- Thread 1 has left the table and is about to be deleted. -/
theorem threads_accounted_departing : ∃ final : Machine, 1 ∉ final.lib.allThreads ∧ .delete 2 ∈ final.code := by
  obtain ⟨timeline, final, run, tested⟩ := compute_tested (next_sound .afterSwitch) started
    (departing ++ [.run ⟨3, []⟩])
    (fun _ final => 1 ∉ final.lib.allThreads ∧ (final.lib.heap 2).map Thread.id = some 1) (by decide +kernel)
  obtain ⟨gone, id⟩ := of_decide_eq_true tested
  obtain ⟨thread, found, same⟩ := Option.map_eq_some_iff.mp id
  refine ⟨final, gone, ((threads_accounted started_starts run).2.1 2 thread found).resolve_left fun recorded => gone ?_⟩
  exact mem_iff_exists.mpr ⟨2, same ▸ recorded⟩

/-- In every run, however contexts are resumed and wherever the signal arrives, what is
executed outside of a dispatch is executed on the stack of the running thread, and every
context that is saved is on the stack of its own thread. No handler starts inside of
`siglongjmp`: it would run on the stack that is left. -/
theorem own_stacks (starts : start.Starts) (run : Run (Machine.StepsResuming resumption) start timeline final) :
    (¬ Dispatches final.code → (final.lib.heap final.lib.running).map Thread.id = some final.sp) ∧
    ∀ pointer thread, final.lib.heap pointer = some thread → thread.env.sp = thread.id :=
  ⟨(run_booked starts run).2.2.current, (run_booked starts run).2.2.saved⟩

/-- Thread 1 executes its own code on its own stack. -/
theorem own_stacks_spawned : ∃ final : Machine, final.sp = 1 ∧ (final.lib.heap final.lib.running).map Thread.id = some 1 := by
  obtain ⟨timeline, final, run, tested⟩ := compute_tested (next_sound .afterSwitch) started departing
    (fun _ final => final.sp = 1 ∧ final.code = [.call (.terminate 1)]) (by decide +kernel)
  obtain ⟨stack, code⟩ := of_decide_eq_true tested
  exact ⟨final, stack, stack ▸ (own_stacks started_starts run).1 (code ▸ id)⟩

/-- In every run, however contexts are resumed and wherever the signal arrives, the
stack that is executed on has been freed from the `delete` of a thread that terminates
itself to the jump that follows, and nowhere else, if no handler starts inside of
`siglongjmp`. A termination of main frees all threads, its caller too, before it ends
the process. -/
theorem stack_freed_iff (starts : start.Starts) (run : Run (Machine.StepsResuming resumption) start timeline final) :
    ((∀ pointer thread, final.lib.heap pointer = some thread → thread.id ≠ final.sp) ↔ Freed timeline) ∧
    ∀ choice rest, final.code = .call (.terminate 0) :: rest →
      (∃ last, freeAllThread (block final.lib) = .ok last ∧ ∀ pointer, last.heap pointer = none) ∧
        final.execute choice rest (.call (.terminate 0)) = .error (.exit success) := by
  refine ⟨?_, fun choice rest code => ?_⟩
  swap
  · obtain ⟨unwinding, ⟨toDel, booked⟩, -⟩ := run_booked starts run
    have clean : doomed rest = [] := ((unwinding.current.unwinds code (by simp)).2 false).doomed
    exact (booked.settled (code ▸ clean)).filing.exits choice rest
  have stacked : Stacked final ↔ ¬ Freed timeline := by
    induction run with
    | start =>
      refine iff_of_true ⟨_, starts.booked.2.current ?_⟩ ?_
      · obtain ⟨_, _, _, -, -, -, code, -⟩ := starts
        exact code ▸ id
      · rintro ⟨first, move, last, same, -⟩
        simp at same
    | @next trace state label final run taken ih =>
      obtain ⟨-, ⟨toDel, booked⟩, seated⟩ := run_booked starts run
      obtain ⟨-, -, seated'⟩ := run_booked starts (run.next taken)
      rw [freed_concat, not_or, not_and]
      by_cases frees : Frees ⟨state, label, final⟩
      · obtain ⟨choice, pointer, rest, rfl, code⟩ := id frees
        obtain ⟨lib, deleted, same⟩ := bind_ok.mp (execute_of_taken taken code (by simp))
        cases same
        exact iff_of_false (booked.unstacked code deleted) fun kept => kept.1 frees
      · rw [(moves_of_step taken).stacked_iff frees seated seated', ih]
        rw [and_iff_right frees, not_ne_iff, imp_iff_not_or]
  rw [← not_iff_not, ← stacked, Stacked]
  push Not
  refine exists_congr fun pointer => ?_
  rw [Option.map_eq_some_iff]

/-- Thread 1 has been deleted, and its stack is still executed on. -/
theorem stack_freed_iff_departing : ∃ final : Machine, final.sp = 1 ∧
    ∀ pointer thread, final.lib.heap pointer = some thread → thread.id ≠ final.sp := by
  obtain ⟨timeline, final, run, tested⟩ := compute_tested (next_sound .afterSwitch) started
    (departing ++ List.replicate 7 (.run ⟨3, []⟩))
    (fun timeline final => final.sp = 1 ∧ cutAt 18 (fun move last => move.label = .run ⟨3, []⟩ ∧
      move.before.code.head? = some (.delete 2) ∧ last = []) timeline) (by decide +kernel)
  obtain ⟨stack, freed⟩ := of_decide_eq_true tested
  obtain ⟨move, last, cut, tested⟩ := of_cutAt freed
  obtain ⟨label, front, rfl⟩ := of_decide_eq_true tested
  obtain ⟨rest, code⟩ := List.head?_eq_some_iff.mp front
  exact ⟨final, stack, (stack_freed_iff started_starts run).1.mpr ⟨_, move, [], cut, ⟨_, 2, rest, label, code⟩, by simp⟩⟩

end run
end Uthreads.Nim
