import Uthreads.Nim.Proofs.Resumption

/-! Where SIGVTALRM is masked in nim/uthreads.cpp, statement by statement, and with
what mask a call returns, at once or after its thread was switched out. -/

namespace Uthreads.Nim
open Fallible Transition

def Masked (mask : Finset Signal) : Bool := decide (sigvtalrm ∈ mask)

section calls
variable {s s' : State Code} {op : Op Code}

theorem unmasked_unblock (set : s.set = {sigvtalrm}) : Masked (unblock s).mask = false := by
  simp [Masked, unblock, set]

theorem masked_union {mask : Finset Signal} (set : s.set = {sigvtalrm}) : Masked (s.set ∪ mask) = true := by
  simp [Masked, set]

private theorem Ends.masked (ends : Ends s op s') (set : s.set = {sigvtalrm}) :
    Masked s'.mask = true ↔ (∃ f, op = .spawn f) ∧ s.Full := by
  cases ends with
  | unblocks same room =>
    rw [unmasked_unblock (same.trans set)]
    exact iff_of_false Bool.false_ne_true fun ⟨⟨f, spawns⟩, taken⟩ => room f spawns taken
  | full taken => exact iff_of_true (masked_union set) ⟨⟨_, rfl⟩, taken⟩

end calls

inductive Executes (resumption : Resumption) (m : Machine) (choice : Choice) (rest : Code) : Instr → Machine → Prop where
  | enters {op exit lib} (enters : Enters choice.order m.lib op.enter exit lib) :
      Executes resumption m choice rest (.call op) { m with lib, code := switchThreadCode exit ++ op.afterSwitch ++ rest }
  | called {op reply lib} (other : op ≠ .preempt) (effect : Effect m.lib lib op.enter) (ends : Ends m.lib op.enter lib) :
      Executes resumption m choice rest (.call op) { m with lib, code := .returns reply :: rest }
  | returns {reply} : Executes resumption m choice rest (.returns reply) { m with code := rest }
  | unblock : Executes resumption m choice rest .unblock { m with lib := Nim.unblock m.lib, code := rest }
  | sigreturn {mask} : Executes resumption m choice rest (.sigreturn mask)
      { m with lib := { m.lib with mask }, code := rest }
  | moveOut {moveTo blocked mutexBlocked ready} : Executes resumption m choice rest (.moveOut moveTo)
      { m with lib := { m.lib with blocked, mutexBlocked, ready }, code := .saveEnv m.lib.running :: rest }
  | saveEnv {goingOut thread} (found : m.lib.heap goingOut = some thread) :
      Executes resumption m choice rest (.saveEnv goingOut)
        { m with
          lib := m.lib.store goingOut
            (some { thread with env := { sp := m.sp, pc := resumption.code rest, savedMask := m.lib.mask } })
          code := rest }
  | takeFront {front ready} (queue : m.lib.ready = front :: ready) : Executes resumption m choice rest .takeFront
      { m with lib := { m.lib with running := front, ready }, code := rest }
  | runTimer : Executes resumption m choice rest .runTimer { m with lib := Nim.runTimer m.lib, code := rest }
  | countTotal : Executes resumption m choice rest .countTotal
      { m with lib := { m.lib with totalQuantum := m.lib.totalQuantum + 1 }, code := rest }
  | deleteNull {toDel} : Executes resumption m choice rest (.delete toDel) { m with code := rest }
  | delete {toDel} : Executes resumption m choice rest (.delete toDel) { m with lib := m.lib.store toDel none, code := rest }
  | startThread {thread} (found : m.lib.heap m.lib.running = some thread) :
      Executes resumption m choice rest .startThread
        { m with
          lib := { m.lib.store m.lib.running (some { thread with quantums := thread.quantums + 1 }) with
            mask := thread.env.savedMask }
          sp := thread.env.sp
          code := thread.env.pc }

inductive Moves (resumption : Resumption) (m : Machine) : Input → Machine → Prop where
  | expire : Moves resumption m .expire { m with pending := true }
  | deliver (unmasked : Masked m.lib.mask = false) : Moves resumption m .deliver m.deliver
  | run {choice instr rest m'} (code : m.code = instr :: rest) (executed : Executes resumption m choice rest instr m') :
      Moves resumption m (.run choice) m'
  | call {op} (user : m.code = []) : Moves resumption m (.call op) { m with code := [.call op] }
  | sigprocmask {mask} (user : m.code = []) :
      Moves resumption m (.sigprocmask mask) { m with lib := { m.lib with mask } }

section moves
variable {resumption : Resumption} {m m' : Machine} {choice : Choice} {rest : Code} {instr : Instr} {input : Input}

private theorem executes_of_execute (fits : ∀ op, instr = .call op → choice.Fits m.lib)
    (other : ∀ goingOut, instr ≠ .saveEnv goingOut) (executed : m.execute choice rest instr = .ok m') :
    Executes resumption m choice rest instr m' := by
  cases instr with
  | call op =>
    obtain ⟨switch, enters, executed⟩ := bind_ok.mp executed
    cases switch with
    | some entry => cases executed; exact .enters (untilSwitch_cases enters)
    | none =>
      obtain ⟨⟨reply, lib⟩, called, executed⟩ := bind_ok.mp executed
      cases executed
      refine .called ?_ (call_effect (fits op rfl) enters called) (call_ends (fits op rfl) enters called)
      rintro rfl
      cases enters
  | saveEnv goingOut => exact absurd rfl (other goingOut)
  | moveOut moveTo =>
    obtain ⟨lib, out, executed⟩ := bind_ok.mp executed
    obtain ⟨blocked, mutexBlocked, ready, rfl⟩ := moveOut_ok out
    cases executed
    exact .moveOut
  | takeFront =>
    simp only [Machine.execute] at executed
    split at executed
    next => cases executed
    next queue => cases executed; exact .takeFront queue
  | delete toDel =>
    obtain ⟨lib, deleted, executed⟩ := bind_ok.mp executed
    cases executed
    rcases delete_ok deleted with rfl | ⟨-, rfl⟩
    · exact .delete
    · exact .deleteNull
  | startThread =>
    obtain ⟨thread, found, rfl⟩ := startThread_executed executed
    exact .startThread found
  | returns reply => cases executed; exact .returns
  | unblock => cases executed; exact .unblock
  | sigreturn mask => cases executed; exact .sigreturn
  | runTimer => cases executed; exact .runTimer
  | countTotal => cases executed; exact .countTotal

/-- Only a save depends on how contexts are resumed. -/
theorem stepResuming_eq (other : ∀ choice goingOut rest, input = .run choice → m.code ≠ .saveEnv goingOut :: rest) :
    m.stepResuming resumption input = m.step input := by
  unfold Machine.stepResuming
  split
  next code => exact absurd code (other _ _ _ rfl)
  next => rfl

theorem moves_of_step (taken : m.StepsResuming resumption input m') : Moves resumption m input m' := by
  obtain ⟨stepped, fits⟩ := taken
  by_cases saves : ∃ choice goingOut rest, input = .run choice ∧ m.code = .saveEnv goingOut :: rest
  · obtain ⟨choice, goingOut, rest, rfl, code⟩ := saves
    simp only [Machine.stepResuming, code] at stepped
    split at stepped
    next => cases stepped
    next =>
      obtain ⟨lib, saved, stepped⟩ := bind_ok.mp (Option.some.inj stepped)
      obtain ⟨thread, found, saved⟩ := bind_ok.mp saved
      cases saved
      cases stepped
      exact .run code (.saveEnv (deref_ok.mp found))
  · have other : ∀ choice goingOut rest, input = .run choice → m.code ≠ .saveEnv goingOut :: rest :=
      fun choice goingOut rest runs code => saves ⟨choice, goingOut, rest, runs, code⟩
    rw [stepResuming_eq other] at stepped
    cases input with simp only [Machine.step] at stepped
    | expire => cases stepped; exact .expire
    | deliver =>
      split at stepped
      next deliverable =>
        cases stepped
        exact .deliver (decide_eq_false (of_decide_eq_true (Bool.and_eq_true_iff.mp deliverable).2))
      next => cases stepped
    | run choice =>
      split at stepped
      next => cases stepped
      next instr rest code =>
        split at stepped
        next => cases stepped
        next =>
          refine .run code (executes_of_execute (fun op same => ?_) (fun goingOut same => ?_) (Option.some.inj stepped))
          · exact fits choice op rest rfl (same ▸ code)
          · exact other choice goingOut rest rfl (same ▸ code)
    | call op =>
      split at stepped
      next possible => cases stepped; exact .call possible.1
      next => cases stepped
    | sigprocmask mask =>
      split at stepped
      next possible => cases stepped; exact .sigprocmask possible.1
      next => cases stepped

end moves

/-- The dispatch of a thread, after the save of the one that leaves. -/
def Dispatches : Code → Prop
  | .takeFront :: _ => True
  | .runTimer :: _ => True
  | .countTotal :: _ => True
  | .delete _ :: _ => True
  | .startThread :: _ => True
  | _ => False

/-- Code that is entered with the signal masked or not. Its switches are executed
with the signal masked, and `returns` holds of the mask that a call returns with. -/
def Unwinds (returns : Bool → Prop) : Bool → Code → Prop
  | _, [] => True
  | _, .call op :: rest => (op ≠ .preempt → rest = []) ∧ ∀ masked, Unwinds returns masked rest
  | masked, .returns _ :: rest => returns masked ∧ rest = []
  | _, .unblock :: rest => Unwinds returns false rest
  | _, .sigreturn mask :: rest => Masked mask = false ∧ Unwinds returns false rest
  | _, .saveEnv _ :: _ => False
  | masked, .startThread :: rest => masked = true ∧ Unwinds returns masked rest
  | masked, _ :: rest => masked = true ∧ Dispatches rest ∧ Unwinds returns masked rest

/-- The save in the middle of a switch is that of the running thread. -/
def Staged (returns : Bool → Prop) (m : Machine) : Prop :=
  Unwinds returns (Masked m.lib.mask) m.code ∨
    ∃ rest, m.code = .saveEnv m.lib.running :: rest ∧ Masked m.lib.mask = true ∧ Dispatches rest ∧ Unwinds returns true rest

section unwinds
variable {returns : Bool → Prop} {masked : Bool} {rest : Code}

theorem Unwinds.not_dispatches (unwinds : Unwinds returns false rest) : ¬ Dispatches rest := by
  cases rest with
  | nil => exact id
  | cons instr rest => cases instr <;> first | exact id | exact fun _ => Bool.false_ne_true unwinds.1

private theorem unwinds_switchThread (exit : Exit) (later : Unwinds returns true rest) :
    Unwinds returns true (switchThreadCode exit ++ rest) := by
  obtain ⟨moveTo, initAlarm, toDel⟩ := exit
  cases initAlarm <;> cases toDel <;> simpa [switchThreadCode, dispatchCode, Unwinds, Dispatches] using later

private theorem unwinds_afterSwitch {op : Op Unit} (other : op ≠ .preempt) (returned : returns false) :
    Unwinds returns true (op.afterSwitch ++ []) := by
  cases op <;> first | exact ⟨returned, rfl⟩ | exact absurd rfl other

private theorem Unwinds.resumed (unwinds : Unwinds returns true rest) (dispatches : Dispatches rest) (resumption : Resumption) :
    Unwinds returns true (resumption.code rest) := by
  cases resumption with
  | afterSaveEnv => exact unwinds
  | afterSwitch =>
    change Unwinds returns true (afterStart rest)
    induction rest with
    | nil => trivial
    | cons instr rest ih =>
      cases instr with
      | takeFront | runTimer | countTotal | delete => exact ih unwinds.2.2 unwinds.2.1
      | startThread => exact unwinds.2
      | _ => exact dispatches.elim

end unwinds

section step
variable {resumption : Resumption} {m m' : Machine} {choice : Choice} {rest : Code} {instr : Instr} {input : Input}
  {returns : Bool → Prop}

private theorem Executes.staged (executed : Executes resumption m choice rest instr m') (code : m.code = instr :: rest)
    (set : m.lib.set = {sigvtalrm}) (jumpless : instr ≠ .startThread)
    (answers : ∀ op, instr = .call op → op ≠ .preempt → ∀ masked, returns masked) (staged : Staged returns m) :
    Staged returns m' := by
  rcases staged with unwinds | ⟨later, same, masked, dispatches, unwinds⟩
  · rw [code] at unwinds
    cases executed with
    | @enters op exit lib enters =>
      left
      have later : Unwinds returns true (op.afterSwitch ++ rest) := by
        by_cases handler : op = .preempt
        · subst handler
          exact unwinds.2 false
        · obtain rfl := unwinds.1 handler
          exact unwinds_afterSwitch handler (answers op rfl handler false)
      rw [enters.entered.mask, masked_union set, List.append_assoc]
      exact unwinds_switchThread exit later
    | called other => exact .inl ⟨answers _ rfl other _, unwinds.1 other⟩
    | returns => exact .inl (unwinds.2 ▸ trivial)
    | unblock => exact .inl ((unmasked_unblock set).symm ▸ unwinds)
    | sigreturn => exact .inl (unwinds.1.symm ▸ unwinds.2)
    | moveOut => exact .inr ⟨rest, rfl, unwinds.1, unwinds.2.1, unwinds.1 ▸ unwinds.2.2⟩
    | saveEnv => exact unwinds.elim
    | takeFront | runTimer | countTotal | delete | deleteNull => exact .inl unwinds.2.2
    | startThread => exact absurd rfl jumpless
  · obtain ⟨rfl, rfl⟩ := List.cons.inj (code.symm.trans same)
    cases executed
    exact .inl (masked.symm ▸ unwinds)

/-- Where a saved context comes from: it was there, it is that of a new thread, or
it is saved now. -/
theorem Executes.saved_from (executed : Executes resumption m choice rest instr m') {pointer : Pointer}
    {thread : Thread Code} (found : m'.lib.heap pointer = some thread) :
    (∃ before, m.lib.heap pointer = some before ∧ before.env = thread.env ∧ instr ≠ .saveEnv pointer) ∨
      thread.env.pc = [] ∨ instr = .saveEnv pointer ∧
        thread.env = { sp := m.sp, pc := resumption.code rest, savedMask := m.lib.mask } := by
  cases executed with
  | enters enters => exact .inl ⟨thread, enters.entered.heap ▸ found, rfl, by simp⟩
  | @called op reply lib _ effect =>
    generalize same : op.enter = entered at effect
    cases effect with
    | quiet quiet => exact .inl ⟨thread, quiet.heap ▸ found, rfl, by simp⟩
    | spawn _ _ _ _ _ _ heap =>
      rw [heap] at found
      rcases of_update found with ⟨-, new⟩ | ⟨other, kept⟩
      · cases new
        cases op <;> cases same
        exact .inr (.inl rfl)
      · exact .inl ⟨thread, kept, rfl, by simp⟩
    | terminate _ _ _ _ _ _ heap =>
      rcases heap with heap | ⟨-, heap⟩
      · rw [heap] at found
        rcases of_update found with ⟨-, gone⟩ | ⟨other, kept⟩
        · cases gone
        · exact .inl ⟨thread, kept, rfl, by simp⟩
      · exact .inl ⟨thread, heap ▸ found, rfl, by simp⟩
  | saveEnv =>
    rcases of_update found with ⟨rfl, saved⟩ | ⟨other, kept⟩
    · cases saved
      exact .inr (.inr ⟨rfl, rfl⟩)
    · exact .inl ⟨thread, kept, rfl, by simpa using Ne.symm other⟩
  | delete =>
    rcases of_update found with ⟨-, gone⟩ | ⟨other, kept⟩
    · cases gone
    · exact .inl ⟨thread, kept, rfl, by simp⟩
  | startThread present =>
    rcases of_update found with ⟨rfl, charged⟩ | ⟨other, kept⟩
    · cases charged
      exact .inl ⟨_, present, rfl, by simp⟩
    · exact .inl ⟨thread, kept, rfl, by simp⟩
  | _ => exact .inl ⟨thread, found, rfl, by simp⟩

theorem Staged.saving {pointer : Pointer} (staged : Staged returns m) (code : m.code = .saveEnv pointer :: rest)
    (resumption : Resumption) :
    pointer = m.lib.running ∧ Dispatches rest ∧ Unwinds returns (Masked m.lib.mask) (resumption.code rest) := by
  rcases staged with unwinds | ⟨later, same, masked, dispatches, unwinds⟩
  · rw [code] at unwinds
    exact unwinds.elim
  · obtain ⟨own, rfl⟩ := List.cons.inj (code.symm.trans same)
    rw [masked]
    exact ⟨Instr.saveEnv.inj own, dispatches, unwinds.resumed dispatches resumption⟩

theorem Staged.unwinds (staged : Staged returns m) (code : m.code = instr :: rest)
    (other : ∀ pointer, instr ≠ .saveEnv pointer) : Unwinds returns (Masked m.lib.mask) (instr :: rest) := by
  rcases staged with unwinds | ⟨later, same, -⟩
  · exact code ▸ unwinds
  · exact absurd (List.cons.inj (code.symm.trans same)).1 (other _)

private theorem Moves.staged (moves : Moves resumption m input m') (set : m.lib.set = {sigvtalrm})
    (jumpless : ∀ choice rest, input = .run choice → m.code ≠ .startThread :: rest)
    (answers : ∀ choice op rest, input = .run choice → m.code = .call op :: rest → op ≠ .preempt → ∀ masked, returns masked)
    (staged : Staged returns m) : Staged returns m' := by
  cases moves with
  | expire => exact staged
  | deliver unmasked =>
    rcases staged with unwinds | ⟨_, _, masked, _⟩
    · rw [unmasked] at unwinds
      exact .inl ⟨by simp, fun _ => ⟨unmasked, unwinds⟩⟩
    · cases unmasked.symm.trans masked
  | run code executed =>
    refine executed.staged code set (fun same => ?_) (fun op same => ?_) staged
    · exact jumpless _ _ rfl (same ▸ code)
    · exact answers _ op _ rfl (same ▸ code)
  | call user => exact .inl ⟨fun _ => rfl, fun _ => trivial⟩
  | sigprocmask user => exact .inl (user.symm ▸ trivial)

/-- The discipline of every context, executing or saved. -/
structure Unwinding (m : Machine) : Prop where
  set : m.lib.set = {sigvtalrm}
  current : Staged (fun _ => True) m
  saved : ∀ pointer thread, m.lib.heap pointer = some thread →
    Unwinds (fun _ => True) (Masked thread.env.savedMask) thread.env.pc

private theorem Executes.set (executed : Executes resumption m choice rest instr m') : m'.lib.set = m.lib.set := by
  cases executed with
  | enters enters => exact enters.entered.set
  | called _ effect => exact effect.frame.2
  | _ => rfl

theorem Moves.unwinding (moves : Moves resumption m input m') (unwinding : Unwinding m) : Unwinding m' := by
  refine ⟨?_, ?_, fun pointer thread found => ?_⟩
  · cases moves with
    | run code executed => exact executed.set.trans unwinding.set
    | _ => exact unwinding.set
  · by_cases jumps : ∃ choice rest, input = .run choice ∧ m.code = .startThread :: rest
    · obtain ⟨choice, rest, rfl, code⟩ := jumps
      cases moves with
      | run same executed =>
        obtain ⟨rfl, rfl⟩ := List.cons.inj (code.symm.trans same)
        cases executed with
        | startThread present => exact .inl (unwinding.saved _ _ present)
    · refine moves.staged unwinding.set (fun choice rest runs code => ?_) (by simp) unwinding.current
      exact jumps ⟨choice, rest, runs, code⟩
  · cases moves with
    | run code executed =>
      rcases executed.saved_from found with ⟨before, kept, same, -⟩ | fresh | ⟨rfl, saved⟩
      · exact same ▸ unwinding.saved pointer before kept
      · exact fresh.symm ▸ trivial
      · rw [saved]
        exact (unwinding.current.saving code resumption).2.2
    | _ => exact unwinding.saved pointer thread found

/-- The call that `caller` is in returns on such a stack and with such a mask. Between
the save and the jump the code that is executed is no longer the caller's. -/
structure Awaits (caller : Pointer) (returns : Int → Bool → Prop) (m : Machine) : Prop where
  current : m.lib.running = caller → ¬ Dispatches m.code → Staged (returns m.sp) m
  saved : (m.lib.running = caller → Dispatches m.code) → ∀ thread, m.lib.heap caller = some thread →
    Unwinds (returns thread.env.sp) (Masked thread.env.savedMask) thread.env.pc

section awaits
variable {caller : Pointer} {returns : Int → Bool → Prop}

private def SameContext (caller : Pointer) (m m' : Machine) : Prop :=
  ∀ thread, m'.lib.heap caller = some thread →
    (∃ before, m.lib.heap caller = some before ∧ before.env = thread.env) ∨ thread.env.pc = []

private theorem Awaits.kept (awaits : Awaits caller returns m) (kept : SameContext caller m m')
    (away : m.lib.running = caller → Dispatches m.code) {thread : Thread Code} (found : m'.lib.heap caller = some thread) :
    Unwinds (returns thread.env.sp) (Masked thread.env.savedMask) thread.env.pc := by
  rcases kept thread found with ⟨before, present, same⟩ | fresh
  · exact same ▸ awaits.saved away before present
  · exact fresh.symm ▸ trivial

private theorem Awaits.plain (awaits : Awaits caller returns m) (stack : m'.sp = m.sp)
    (running : m'.lib.running = m.lib.running) (before : ¬ Dispatches m.code) (after : ¬ Dispatches m'.code)
    (kept : SameContext caller m m')
    (staged : m.lib.running = caller → Staged (returns m.sp) m → Staged (returns m.sp) m') : Awaits caller returns m' := by
  refine ⟨fun own _ => ?_, fun away thread found => ?_⟩
  · rw [running] at own
    rw [stack]
    exact staged own (awaits.current own before)
  · refine awaits.kept kept (fun own => ?_) found
    exact absurd (away (running.trans own)) after

private theorem Awaits.dispatching (awaits : Awaits caller returns m) (before : Dispatches m.code) (after : Dispatches m'.code)
    (kept : SameContext caller m m') : Awaits caller returns m' :=
  ⟨fun _ other => absurd after other, fun _ _ found => awaits.kept kept (fun _ => before) found⟩

private theorem Executes.awaits (executed : Executes resumption m choice rest instr m') (code : m.code = instr :: rest)
    (unwinding : Unwinding m) (quiet : ∀ op, instr = .call op → m.lib.running = caller → op = .preempt)
    (awaits : Awaits caller returns m) : Awaits caller returns m' := by
  have kept : instr ≠ .saveEnv caller → SameContext caller m m' := by
    intro other thread found
    rcases executed.saved_from found with ⟨before, present, same, -⟩ | fresh | ⟨saves, -⟩
    · exact .inl ⟨before, present, same⟩
    · exact .inr fresh
    · exact absurd saves other
  have staged : instr ≠ .startThread → m.lib.running = caller → Staged (returns m.sp) m → Staged (returns m.sp) m' := by
    intro jumpless own
    exact executed.staged code unwinding.set jumpless fun op same other => absurd (quiet op same own) other
  have unwinds := unwinding.current.unwinds code
  have plain := @Awaits.plain m m' caller returns awaits
  have dispatching := @Awaits.dispatching m m' caller returns awaits
  have current := awaits.current
  have saved := awaits.saved
  rw [code] at plain dispatching current saved
  cases executed with
  | enters enters => exact plain rfl enters.entered.running id id (kept (by simp)) (staged (by simp))
  | called _ effect => exact plain rfl effect.frame.1 id id (kept (by simp)) (staged (by simp))
  | moveOut => exact plain rfl rfl id id (kept (by simp)) (staged (by simp))
  | returns =>
    obtain ⟨-, rfl⟩ := unwinds (by simp)
    exact plain rfl rfl id id (kept (by simp)) (staged (by simp))
  | unblock =>
    have after := Unwinds.not_dispatches (unwinds (by simp))
    exact plain rfl rfl id after (kept (by simp)) (staged (by simp))
  | sigreturn =>
    have after := Unwinds.not_dispatches (unwinds (by simp)).2
    exact plain rfl rfl id after (kept (by simp)) (staged (by simp))
  | takeFront | runTimer | countTotal | delete | deleteNull =>
    obtain ⟨-, after, -⟩ := unwinds (by simp)
    exact dispatching trivial after (kept (by simp))
  | @saveEnv goingOut =>
    obtain ⟨rfl, dispatches, -⟩ := unwinding.current.saving code resumption
    refine ⟨fun _ outside => absurd dispatches outside, fun _ thread found => ?_⟩
    rcases of_update found with ⟨rfl, context⟩ | ⟨other, present⟩
    · cases context
      exact ((current rfl id).saving code resumption).2.2
    · exact saved (fun own => absurd own.symm other) thread present
  | startThread present =>
    refine ⟨fun own _ => ?_, fun _ thread found => awaits.kept (kept (by simp)) (fun _ => code ▸ trivial) found⟩
    obtain rfl : m.lib.running = caller := own
    exact .inl (saved (fun _ => trivial) _ present)

theorem Moves.awaits (moves : Moves resumption m input m') (unwinding : Unwinding m)
    (quiet : ∀ choice op rest, input = .run choice → m.code = .call op :: rest → m.lib.running = caller → op = .preempt)
    (awaits : Awaits caller returns m) : Awaits caller returns m' := by
  have kept : m'.lib.heap = m.lib.heap → SameContext caller m m' := fun same thread found => .inl ⟨thread, same ▸ found, rfl⟩
  have staged := fun jumpless answers => @Moves.staged resumption m m' input (returns m.sp) moves unwinding.set jumpless answers
  cases moves with
  | expire => exact ⟨awaits.current, awaits.saved⟩
  | deliver unmasked =>
    have outside : ¬ Dispatches m.code := by
      rcases unwinding.current with unwinds | ⟨_, _, other, _⟩
      · exact Unwinds.not_dispatches (unmasked ▸ unwinds)
      · cases unmasked.symm.trans other
    exact awaits.plain rfl rfl outside id (kept rfl) fun _ => staged (by simp) (by simp)
  | run code executed => exact executed.awaits code unwinding (fun op same => quiet _ op _ rfl (same ▸ code)) awaits
  | call user => exact awaits.plain rfl rfl (user ▸ id) id (kept rfl) fun _ => staged (by simp) (by simp)
  | sigprocmask user => exact awaits.plain rfl rfl (user ▸ id) (user ▸ id) (kept rfl) fun _ => staged (by simp) (by simp)

end awaits

end step

/-- A spawn that finds the table full. -/
def Refused (op : Op Unit) (s : State Code) : Prop := op = .spawn () ∧ s.Full

instance (op : Op Unit) (s : State Code) : Decidable (Refused op s) := inferInstanceAs (Decidable (_ ∧ _))

/-- User code's call of `op` begins to execute. -/
def Begins (op : Op Unit) (move : Move Machine Input) : Prop :=
  op ≠ .preempt ∧ ∃ choice rest, move.label = .run choice ∧ move.before.code = .call op :: rest

/-- The call that begins with `calling` returns with `returning`: the same thread
runs and has not begun another one. -/
structure Returns (op : Op Unit) (calling : Move Machine Input) (middle : List (Move Machine Input))
    (returning : Move Machine Input) : Prop where
  begins : Begins op calling
  caller : returning.before.lib.running = calling.before.lib.running
  only : ∀ move ∈ middle, move.before.lib.running = calling.before.lib.running → ∀ other, ¬ Begins other move
  returns : ∃ choice reply rest, returning.label = .run choice ∧ returning.before.code = .returns reply :: rest

section run
variable {resumption : Resumption} {m m' start final : Machine} {timeline middle : List (Move Machine Input)}

private theorem Executes.begins {choice : Choice} {rest : Code} {op : Op Unit}
    (executed : Executes resumption m choice rest (.call op) m') (code : m.code = .call op :: rest) (unwinding : Unwinding m)
    (other : op ≠ .preempt) :
    Awaits m.lib.running (fun sp masked => sp = m.sp ∧ masked = decide (Refused op m.lib)) m' := by
  have unwinds := unwinding.current.unwinds code (by simp)
  obtain rfl := unwinds.1 other
  have spawning : (∃ f, op.enter = .spawn f) ↔ op = .spawn () := by cases op <;> simp [Op.enter]
  cases executed with
  | enters enters =>
    have accepted : false = decide (Refused op m.lib) := by
      refine (decide_eq_false ?_).symm
      rintro ⟨rfl, -⟩
      cases enters
    refine ⟨fun _ _ => .inl ?_, fun away => (away enters.entered.running).elim⟩
    rw [enters.entered.mask, masked_union unwinding.set, List.append_assoc]
    exact unwinds_switchThread _ (unwinds_afterSwitch other ⟨rfl, accepted⟩)
  | called _ effect ends =>
    refine ⟨fun _ _ => .inl ⟨⟨rfl, ?_⟩, rfl⟩, fun away => (away effect.frame.1).elim⟩
    have masked := ends.masked unwinding.set
    rw [spawning] at masked
    exact Bool.eq_iff_iff.mpr (masked.trans (decide_eq_true_iff (p := Refused op m.lib)).symm)

theorem Machine.Starts.unwinding (starts : start.Starts) : Unwinding start := by
  obtain ⟨quantumUsecs, address, mask, -, done, -, code, -⟩ := starts
  obtain ⟨fresh, set⟩ := uthreadInit_fresh done
  refine ⟨set, .inl (code.symm ▸ trivial), fun pointer thread found => ?_⟩
  rw [fresh.heap] at found
  rcases of_update found with ⟨-, main⟩ | ⟨-, none⟩
  · cases main
    trivial
  · cases none

theorem run_unwinding (starts : start.Starts) (run : Run (Machine.StepsResuming resumption) start timeline final) :
    Unwinding final :=
  run.invariant (fun _ => True) (fun _ _ => trivial) Unwinding starts.unwinding
    fun _ _ taken unwinding => (moves_of_step taken).unwinding unwinding

private theorem run_awaits {caller : Pointer} {returns : Int → Bool → Prop}
    (run : Run (Machine.StepsResuming resumption) m middle m') (unwinding : Unwinding m) (awaits : Awaits caller returns m)
    (only : ∀ move ∈ middle, move.before.lib.running = caller → ∀ other, ¬ Begins other move) :
    Unwinding m' ∧ Awaits caller returns m' := by
  refine run.invariant (fun move => move.before.lib.running = caller → ∀ other, ¬ Begins other move) only
    (fun m => Unwinding m ∧ Awaits caller returns m) ⟨unwinding, awaits⟩ ?_
  rintro move quiet taken ⟨unwinding, awaits⟩
  have moves := moves_of_step taken
  refine ⟨moves.unwinding unwinding, moves.awaits unwinding (fun choice op rest runs code own => ?_) awaits⟩
  by_contra other
  exact quiet own op ⟨other, choice, rest, runs, code⟩

/-- In every run, however contexts are resumed, a call returns on the stack of its
caller, and with the signal unmasked unless it is a spawn that finds the table full:
that one leaves it masked. -/
theorem calls_preemptible_iff (starts : start.Starts) (run : Run (Machine.StepsResuming resumption) start timeline final) :
    ∀ first calling middle returning last op, timeline = first ++ calling :: (middle ++ returning :: last) →
      Returns op calling middle returning → returning.before.sp = calling.before.sp ∧
      (sigvtalrm ∉ returning.after.lib.mask ↔ ¬ (op = .spawn () ∧ calling.before.lib.Full)) := by
  rintro first calling middle returning last op rfl ⟨⟨other, choice, rest, label, code⟩, caller, only, returns⟩
  obtain ⟨earlier, taken, later⟩ := run.at_move
  obtain ⟨between, returned, -⟩ := later.at_move
  obtain ⟨choice', reply, rest', label', code'⟩ := returns
  have unwinding := run_unwinding starts earlier
  have moves := moves_of_step taken
  have awaits : Awaits calling.before.lib.running
      (fun sp masked => sp = calling.before.sp ∧ masked = decide (Refused op calling.before.lib)) calling.after := by
    cases label ▸ moves with
    | run same executed =>
      obtain ⟨rfl, rfl⟩ := List.cons.inj (code.symm.trans same)
      exact executed.begins code unwinding other
  have awaits := (run_awaits between (moves.unwinding unwinding) awaits only).2
  have staged := awaits.current caller (code' ▸ id)
  obtain ⟨⟨stack, masked⟩, -⟩ := staged.unwinds code' (by simp)
  have kept : returning.after.lib = returning.before.lib := by
    have ends := label' ▸ moves_of_step returned
    generalize returning.after = after at ends ⊢
    cases ends with
    | run same executed =>
      obtain ⟨rfl, rfl⟩ := List.cons.inj (code'.symm.trans same)
      cases executed
      rfl
  refine ⟨stack, ?_⟩
  rw [kept]
  exact not_congr (decide_eq_decide.mp masked)

end run

section examples

private def begins (move : Move Machine Input) : Bool :=
  match move.label, move.before.code with
  | .run _, .call op :: _ => op ≠ .preempt
  | _, _ => false

private theorem begins_of_begins {op : Op Unit} {move : Move Machine Input} (begun : Begins op move) : begins move = true := by
  obtain ⟨other, choice, rest, label, code⟩ := begun
  simp [begins, label, code, other]

private def returnsAt (place count : Nat) (op : Op Unit) (choice : Choice) (test : Move Machine Input → Move Machine Input → Bool)
    (moves : List (Move Machine Input)) : Bool :=
  cutAt place (fun calling later => calling.label = .run choice ∧ calling.before.code = [.call op] ∧
    (∀ move ∈ later.take count, move.before.lib.running = calling.before.lib.running → begins move = false) ∧
    cutAt count (fun returning _ => returning.label = .run choice ∧ returning.before.lib.running = calling.before.lib.running ∧
      (returning.before.code = [.returns (.returns success)] ∨ returning.before.code = [.returns (.fails (printErrors spawnError))]) ∧
      test calling returning) later) moves

private theorem of_returnsAt {place count : Nat} {op : Op Unit} {choice : Choice}
    {test : Move Machine Input → Move Machine Input → Bool} {moves : List (Move Machine Input)} (user : op ≠ .preempt)
    (tested : returnsAt place count op choice test moves = true) :
    ∃ first calling middle returning last, moves = first ++ calling :: (middle ++ returning :: last) ∧
      Returns op calling middle returning ∧ test calling returning = true := by
  obtain ⟨calling, later, cut, tested⟩ := of_cutAt tested
  obtain ⟨label, code, only, tested⟩ := of_decide_eq_true tested
  obtain ⟨returning, last, cut', tested⟩ := of_cutAt tested
  obtain ⟨label', caller, reply, tested⟩ := of_decide_eq_true tested
  refine ⟨_, calling, later.take count, returning, last, cut' ▸ cut, ⟨⟨user, choice, [], label, code⟩, caller, ?_, ?_⟩, tested⟩
  · intro move member own other begun
    exact Bool.false_ne_true ((only move member own).symm.trans (begins_of_begins begun))
  · rcases reply with reply | reply <;> exact ⟨choice, _, [], label', reply⟩

private def preempted : List Input := [.expire, .deliver] ++ List.replicate 6 (.run ⟨3, []⟩)

/-- Thread 1 blocks itself, and returns after main has resumed it and is preempted. -/
theorem calls_preemptible_iff_resumed_block : ∃ calling middle returning, Returns (.block 1) calling middle returning ∧
    calling.before.sp = 1 ∧ sigvtalrm ∉ returning.after.lib.mask := by
  obtain ⟨timeline, final, run, tested⟩ := compute_tested (next_sound .afterSwitch) started
    ([.call (.spawn ()), .run ⟨2, []⟩, .run ⟨3, []⟩] ++ preempted ++ [.call (.block 1)] ++ List.replicate 9 (.run ⟨3, []⟩) ++
      [.call (.resume 1), .run ⟨3, []⟩, .run ⟨3, []⟩] ++ preempted ++ [.run ⟨3, []⟩, .run ⟨3, []⟩])
    (fun timeline _ => returnsAt 12 20 (.block 1) ⟨3, []⟩ (fun calling _ => calling.before.sp = 1) timeline)
    (by decide +kernel)
  obtain ⟨first, calling, middle, returning, last, cut, returns, tested⟩ := of_returnsAt (by simp) tested
  have unmasked := (calls_preemptible_iff started_starts run first calling middle returning last _ cut returns).2.mpr (by simp)
  exact ⟨calling, middle, returning, returns, of_decide_eq_true tested, unmasked⟩

/-- Main spawns a hundredth thread besides itself, with the signal unmasked. The call
fails and leaves it masked. -/
theorem full_spawn_returns_masked : ∃ start timeline final first calling middle returning last,
    start.Starts ∧ Run (Machine.StepsResuming .afterSwitch) start timeline final ∧
    timeline = first ++ calling :: (middle ++ returning :: last) ∧ Returns (.spawn ()) calling middle returning ∧
    sigvtalrm ∉ calling.before.lib.mask ∧ ¬ sigvtalrm ∉ returning.after.lib.mask := by
  obtain ⟨timeline, final, run, tested⟩ := compute_tested (next_sound .afterSwitch) started
    ((List.range 100).flatMap fun i => [.call (.spawn ()), .run ⟨i + 2, []⟩, .run ⟨i + 2, []⟩])
    (fun timeline _ => returnsAt 298 0 (.spawn ()) ⟨101, []⟩ (fun calling returning =>
      sigvtalrm ∉ calling.before.lib.mask ∧ sigvtalrm ∈ returning.after.lib.mask) timeline)
    (by decide +kernel)
  obtain ⟨first, calling, middle, returning, last, cut, returns, tested⟩ := of_returnsAt (by simp) tested
  obtain ⟨unmasked, masked⟩ := of_decide_eq_true tested
  exact ⟨_, timeline, final, first, calling, middle, returning, last, started_starts, run, cut, returns, unmasked,
    not_not_intro masked⟩

end examples
end Uthreads.Nim
