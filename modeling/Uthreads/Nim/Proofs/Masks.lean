import Uthreads.Nim.Proofs.Memory
import Uthreads.Proofs.Isolation

/-! The signals other than SIGVTALRM that a thread of nim/uthreads.cpp masks. A mask is
saved with the context that it belongs to, also where a context is resumed in the middle
of a switch, so no other thread ever sees it. -/

namespace Uthreads.Nim
open Fallible OrderedMap Transition

def Machine.observed (m : Machine) : Finset Signal := others m.lib.mask

def Gives (own : Finset Signal) (code : Code) : Prop := ∀ mask, .sigreturn mask ∈ code → others mask = own

/-- Wherever the context of the thread is, on the processor or in its record, its other
signals are `own`. What is in the record counts from the save on. -/
structure KeepsMask (tid : Int) (own : Finset Signal) (m : Machine) : Prop where
  executing : m.sp = tid → m.observed = own ∧ Gives own m.code
  filed : (m.sp = tid → Dispatches m.code) → ∀ pointer thread, m.lib.heap pointer = some thread → thread.id = tid →
    others thread.env.savedMask = own ∧ Gives own thread.env.pc

def Creates (tid : Int) (move : Move Machine Input) : Prop := ¬ move.before.lib.live tid ∧ move.after.lib.live tid

instance (tid : Int) (move : Move Machine Input) : Decidable (Creates tid move) := inferInstanceAs (Decidable (¬ _ ∧ _))

section gives
variable {own : Finset Signal} {code rest : Code}

theorem Gives.of_subset (gives : Gives own code) (subset : rest ⊆ code) : Gives own rest :=
  fun mask member => gives mask (subset member)

theorem afterStart_subset : afterStart code ⊆ code := by
  induction code with
  | nil => exact List.Subset.refl _
  | cons instr rest ih =>
    cases instr with
    | startThread => exact List.subset_cons_self ..
    | _ => exact List.subset_cons_of_subset _ ih

theorem Gives.resumed (gives : Gives own rest) (resumption : Resumption) : Gives own (resumption.code rest) := by
  cases resumption with
  | afterSaveEnv => exact gives
  | afterSwitch => exact gives.of_subset afterStart_subset

theorem Gives.switchThread (gives : Gives own rest) (exit : Exit) (op : Op Unit) :
    Gives own (switchThreadCode exit ++ op.afterSwitch ++ rest) := by
  obtain ⟨moveTo, initAlarm, toDel⟩ := exit
  intro mask member
  apply gives mask
  cases op <;> cases initAlarm <;> cases toDel <;>
    simpa [switchThreadCode, dispatchCode, Op.afterSwitch] using member

end gives

section step
variable {resumption : Resumption} {m m' : Machine} {choice : Choice} {input : Input} {rest : Code} {instr : Instr}
  {toDel : Option Pointer} {tid : Int} {own : Finset Signal} {pointer : Pointer} {thread : Thread Code}

inductive Origin (resumption : Resumption) (m m' : Machine) (rest : Code) (instr : Instr) (pointer : Pointer) (thread : Thread Code) :
    Prop where
  | kept {before} (found : m.lib.heap pointer = some before) (id : before.id = thread.id) (env : before.env = thread.env)
      (other : instr ≠ .saveEnv pointer)
  | fresh (room : ¬ (m.lib.allThreads.size : Int) + 1 > maxThreadNum) (live : m'.lib.live (getId m.lib))
      (new : thread = .spawned (getId m.lib) [])
  | saved {before} (saves : instr = .saveEnv pointer) (found : m.lib.heap pointer = some before) (id : before.id = thread.id)
      (env : thread.env = { sp := m.sp, pc := resumption.code rest, savedMask := m.lib.mask })

private theorem Executes.origin (executed : Executes resumption m choice rest instr m')
    (found : m'.lib.heap pointer = some thread) : Origin resumption m m' rest instr pointer thread := by
  cases executed with
  | enters enters => exact .kept (enters.entered.heap ▸ found) rfl rfl (by simp)
  | @called op reply lib _ effect =>
    generalize same : op.enter = entered at effect
    cases effect with
    | quiet quiet => exact .kept (quiet.heap ▸ found) rfl rfl (by simp)
    | spawn _ _ room _ _ _ heap allThreads =>
      rw [heap] at found
      rcases of_update found with ⟨-, new⟩ | ⟨other, before⟩
      · cases new
        cases op <;> cases same
        refine .fresh room ?_ rfl
        rw [State.live, allThreads, mem_insert]
        exact .inl rfl
      · exact .kept before rfl rfl (by simp)
    | terminate _ _ _ _ _ _ heap =>
      rcases heap with heap | ⟨-, heap⟩
      · rw [heap] at found
        rcases of_update found with ⟨-, gone⟩ | ⟨other, before⟩
        · cases gone
        · exact .kept before rfl rfl (by simp)
      · exact .kept (heap ▸ found) rfl rfl (by simp)
  | saveEnv before =>
    rcases of_update found with ⟨rfl, saved⟩ | ⟨other, before⟩
    · cases saved
      exact .saved rfl before rfl rfl
    · exact .kept before rfl rfl fun same => other (Instr.saveEnv.inj same).symm
  | delete =>
    rcases of_update found with ⟨-, gone⟩ | ⟨-, before⟩
    · cases gone
    · exact .kept before rfl rfl (by simp)
  | startThread before =>
    rcases of_update found with ⟨rfl, started⟩ | ⟨-, before⟩
    · cases started
      exact .kept before rfl rfl (by simp)
    · exact .kept before rfl rfl (by simp)
  | returns | unblock | sigreturn | moveOut | takeFront | runTimer | countTotal | deleteNull =>
    exact .kept found rfl rfl (by simp)

private theorem observed_called {op : Op Unit} (taken : m.StepsResuming resumption (.run choice) m') (code : m.code = .call op :: rest)
    (set : m.lib.set = {sigvtalrm}) : m'.observed = m.observed := by
  have executed := execute_of_taken taken code (by simp)
  obtain ⟨switch, enters, executed⟩ := bind_ok.mp executed
  have same : m'.lib.mask \ m.lib.set = m.lib.mask \ m.lib.set := by
    cases switch with
    | some entry =>
      cases executed
      rw [(untilSwitch_cases enters).entered.mask]
      exact Finset.union_sdiff_left ..
    | none =>
      obtain ⟨⟨reply, lib⟩, called, executed⟩ := bind_ok.mp executed
      cases executed
      exact call_others (taken.2 choice op rest rfl code) enters called
  rw [set, Finset.sdiff_singleton_eq_erase, Finset.sdiff_singleton_eq_erase] at same
  exact same

private theorem Booked.other_id (booked : Booked toDel m) (seated : Seated m) (outside : ¬ Dispatches m.code)
    (found : m.lib.heap pointer = some thread) (other : pointer ≠ m.lib.running) : thread.id ≠ m.sp := by
  intro same
  have current := seated.current outside
  obtain ⟨running, here, id⟩ := Option.map_eq_some_iff.mp current
  have away : some pointer ≠ toDel := by
    rintro rfl
    rcases booked.own outside with none | dying
    · cases none
    · exact other (Option.some.inj dying)
  have filed := booked.filing.recorded pointer thread found away
  rcases booked.own outside with rfl | rfl
  · have recorded := booked.filing.recorded _ running here (Option.some_ne_none _)
    rw [id, ← same] at recorded
    exact other (Option.some.inj (filed.symm.trans recorded))
  · exact (booked.dying _ rfl).2 (mem_iff_exists.mpr ⟨pointer, same ▸ filed⟩)

private theorem Executes.outside (executed : Executes resumption m choice rest instr m') (code : m.code = instr :: rest)
    (unwinding : Unwinding m) (outside : ¬ Dispatches m.code) :
    m'.sp = m.sp ∧ (¬ Dispatches m'.code ∨ instr = .saveEnv m.lib.running) := by
  have unwinds := unwinding.current.unwinds code
  rw [code] at outside
  cases executed with
  | enters => exact ⟨rfl, .inl fun dispatches => by simp [switchThreadCode, Dispatches] at dispatches⟩
  | called | moveOut => exact ⟨rfl, .inl id⟩
  | returns =>
    obtain ⟨-, rfl⟩ := unwinds (by simp)
    exact ⟨rfl, .inl id⟩
  | unblock => exact ⟨rfl, .inl (Unwinds.not_dispatches (unwinds (by simp)))⟩
  | sigreturn => exact ⟨rfl, .inl (Unwinds.not_dispatches (unwinds (by simp)).2)⟩
  | saveEnv =>
    obtain ⟨rfl, -⟩ := unwinding.current.saving code resumption
    exact ⟨rfl, .inr rfl⟩
  | _ => exact absurd trivial outside

private theorem Executes.keepsMask (executed : Executes resumption m choice rest instr m') (code : m.code = instr :: rest)
    (unwinding : Unwinding m) (booked : Booked toDel m) (seated : Seated m) (quiet : ∀ op, instr = .call op → m'.observed = m.observed)
    (known : m'.lib.live tid → m.lib.live tid) (keeps : KeepsMask tid own m) : KeepsMask tid own m' := by
  have here := keeps.executing
  rw [code] at here
  have tail : Gives own (instr :: rest) → Gives own rest := fun gives => gives.of_subset (List.subset_cons_self ..)
  constructor
  · cases executed with
    | startThread found =>
      intro lands
      exact keeps.filed (fun _ => code ▸ trivial) _ _ found ((seated.saved _ _ found).symm.trans lands)
    | enters =>
      intro stack
      exact ⟨(quiet _ rfl).trans (here stack).1, (tail (here stack).2).switchThread _ _⟩
    | called =>
      intro stack
      exact ⟨(quiet _ rfl).trans (here stack).1, fun mask member => tail (here stack).2 mask (by simpa using member)⟩
    | moveOut => exact fun stack => ⟨(here stack).1, fun mask member => tail (here stack).2 mask (by simpa using member)⟩
    | sigreturn => exact fun stack => ⟨(here stack).2 _ List.mem_cons_self, tail (here stack).2⟩
    | unblock =>
      intro stack
      refine ⟨Eq.trans ?_ (here stack).1, tail (here stack).2⟩
      simp only [Machine.observed, Nim.unblock, unwinding.set, Finset.sdiff_singleton_eq_erase, others_erase]
    | returns | saveEnv | takeFront | runTimer | countTotal | delete | deleteNull =>
      exact fun stack => ⟨(here stack).1, tail (here stack).2⟩
  · intro away pointer thread found id
    cases executed.origin found with
    | @kept before found sameId env other =>
      rw [← env]
      refine keeps.filed (fun stack => ?_) pointer before found (sameId.trans id)
      by_contra outside
      obtain ⟨same, elsewhere | saves⟩ := executed.outside code unwinding outside
      · exact elsewhere (away (same.trans stack))
      · refine booked.other_id seated outside found ?_ (sameId.trans (id.trans stack.symm))
        rintro rfl
        exact other saves
    | fresh room live new =>
      obtain rfl : tid = getId m.lib := id.symm.trans (congrArg Thread.id new)
      exact absurd (known live) (booked.filing.numbered.getId_new room).1
    | @saved before saves found sameId env =>
      subst saves
      obtain ⟨rfl, -⟩ := unwinding.current.saving code resumption
      have current := seated.current (by rw [code]; exact fun dispatches => dispatches)
      rw [found, Option.map_some, sameId, id] at current
      obtain ⟨observed, gives⟩ := here (Option.some.inj current).symm
      rw [env]
      exact ⟨observed, (tail gives).resumed resumption⟩

/-- The context of a thread leaves with its mask and comes back with it. -/
private theorem KeepsMask.step (keeps : KeepsMask tid own m) (taken : m.StepsResuming resumption input m') (unwinding : Unwinding m)
    (booked : Booked toDel m) (seated : Seated m) (known : m'.lib.live tid → m.lib.live tid)
    (foreign : ∀ mask, input = .sigprocmask mask → m.sp ≠ tid) : KeepsMask tid own m' := by
  cases moves_of_step taken with
  | expire => exact ⟨keeps.executing, keeps.filed⟩
  | deliver =>
    refine ⟨fun stack => ?_, fun away => keeps.filed fun stack => (away stack).elim⟩
    obtain ⟨observed, gives⟩ := keeps.executing stack
    refine ⟨(others_insert _).trans observed, fun mask member => ?_⟩
    rcases List.mem_append.mp member with handler | interrupted
    · have same : mask = m.lib.mask := by simpa [alarmSigHandlerCode] using handler
      exact same ▸ observed
    · exact gives mask interrupted
  | run code executed =>
    refine executed.keepsMask code unwinding booked seated (fun op calls => ?_) known keeps
    exact observed_called taken (calls ▸ code) unwinding.set
  | call =>
    refine ⟨fun stack => ⟨(keeps.executing stack).1, ?_⟩, fun away => keeps.filed fun stack => (away stack).elim⟩
    exact fun mask member => by simp at member
  | sigprocmask => exact ⟨fun stack => absurd stack (foreign _ rfl), keeps.filed⟩

def Unstarted (tid : Int) (m : Machine) : Prop :=
  ∀ pointer thread, m.lib.heap pointer = some thread → thread.id = tid → thread.env = { sp := tid, pc := [], savedMask := ∅ }

private theorem Moves.created (moves : Moves resumption m input m') (unwinding : Unwinding m) (booked : Booked toDel m)
    (seated : Seated m) (missing : ¬ m.lib.live tid) (present : m'.lib.live tid) : m.sp ≠ tid ∧ m'.sp = m.sp ∧ Unstarted tid m' := by
  cases moves with
  | run code executed =>
    have unwinds := unwinding.current.unwinds code
    cases executed with
    | enters enters =>
      rcases enters.entered.allThreads with ⟨-, same⟩ | ⟨gone, -, -, -, -, -, erased⟩
      · rw [State.live, same] at present
        exact absurd present missing
      · rw [State.live, erased, mem_erase] at present
        exact absurd present.2 missing
    | @called op reply lib _ effect =>
      have clean : doomed _ = [] := Unwinds.doomed ((unwinds (by simp)).2 false)
      have booked := booked.settled (code ▸ clean)
      obtain ⟨running, here, id⟩ := Option.map_eq_some_iff.mp (seated.current (code ▸ fun dispatches => dispatches))
      have live : m.lib.live m.sp := id ▸ mem_iff_exists.mpr ⟨_, booked.filing.recorded _ running here (Option.some_ne_none _)⟩
      refine ⟨fun same => missing (same ▸ live), rfl, fun pointer thread found id => ?_⟩
      have unknown : m.lib.heap pointer ≠ some thread := fun before =>
        missing (mem_iff_exists.mpr ⟨pointer, id ▸ booked.filing.recorded pointer thread before (Option.some_ne_none _)⟩)
      generalize same : op.enter = entered at effect
      cases effect with
      | quiet quiet => exact absurd (quiet.heap ▸ found) unknown
      | spawn _ _ _ _ _ _ heap =>
        rw [heap] at found
        rcases of_update found with ⟨-, new⟩ | ⟨-, before⟩
        · cases new
          cases op <;> cases same
          exact id ▸ rfl
        · exact absurd before unknown
      | terminate _ _ _ _ _ _ _ allThreads =>
        rw [State.live, allThreads, mem_erase] at present
        exact absurd present.2 missing
    | _ => exact absurd present missing
  | _ => exact absurd present missing

private theorem Moves.unstarted (moves : Moves resumption m input m') (unwinding : Unwinding m) (seated : Seated m)
    (elsewhere : m.sp ≠ tid) (unstarted : Unstarted tid m) : Unstarted tid m' := by
  cases moves with
  | run code executed =>
    intro pointer thread found id
    cases executed.origin found with
    | kept before sameId env => exact env ▸ unstarted pointer _ before (sameId.trans id)
    | fresh _ _ new =>
      subst new
      exact id ▸ rfl
    | saved saves before sameId =>
      subst saves
      obtain ⟨rfl, -⟩ := unwinding.current.saving code resumption
      have current := seated.current (code ▸ fun dispatches => dispatches)
      rw [before, Option.map_some, sameId, id] at current
      exact absurd (Option.some.inj current).symm elsewhere
  | _ => exact unstarted

/-- Control comes to another stack by a jump, with the mask that was saved there. -/
private theorem Moves.jumps (moves : Moves resumption m input m') (seated : Seated m) (other : m'.sp ≠ m.sp) :
    ∃ pointer thread, m.lib.heap pointer = some thread ∧ thread.id = m'.sp ∧ m'.lib.mask = thread.env.savedMask := by
  cases moves with
  | run code executed =>
    cases executed with
    | startThread found => exact ⟨_, _, found, (seated.saved _ _ found).symm, rfl⟩
    | _ => exact absurd rfl other
  | _ => exact absurd rfl other

private theorem keepsMask_of_taken (taken : m.StepsResuming resumption input m') (unwinding : Unwinding m) (booked : Booked toDel m)
    (seated : Seated m) (kept : ∃ own, KeepsMask tid own m) : ∃ own, KeepsMask tid own m' := by
  obtain ⟨own, keeps⟩ := kept
  have moves := moves_of_step taken
  by_cases known : m'.lib.live tid → m.lib.live tid
  · by_cases foreign : ∀ mask, input = .sigprocmask mask → m.sp ≠ tid
    · exact ⟨own, keeps.step taken unwinding booked seated known foreign⟩
    · obtain ⟨mask, own⟩ := not_forall.mp foreign
      obtain ⟨rfl, here⟩ := Classical.not_imp.mp own
      have here := not_not.mp here
      cases moves with
      | sigprocmask user =>
        refine ⟨others mask, fun _ => ⟨rfl, fun mask member => ?_⟩, fun away => ?_⟩
        · rw [user] at member
          exact absurd member List.not_mem_nil
        · have dispatches := away here
          rw [user] at dispatches
          exact dispatches.elim
  · obtain ⟨present, missing⟩ := Classical.not_imp.mp known
    obtain ⟨elsewhere, stack, unstarted⟩ := moves.created unwinding booked seated missing present
    refine ⟨∅, fun here => absurd (stack.symm.trans here) elsewhere, fun _ pointer thread found id => ?_⟩
    rw [unstarted pointer thread found id]
    exact ⟨rfl, fun mask member => absurd member List.not_mem_nil⟩

end step

section run
variable {resumption : Resumption} {start one two : Machine} {first middle : List (Move Machine Input)} {tid : Int}

structure Isolated (m : Machine) : Prop where
  unwinding : Unwinding m
  booked : ∃ toDel, Booked toDel m
  seated : Seated m
  kept : ∀ tid, ∃ own, KeepsMask tid own m

private theorem Isolated.step {m m' : Machine} {input : Input} (taken : m.StepsResuming resumption input m') (isolated : Isolated m) :
    Isolated m' := by
  obtain ⟨unwinding, ⟨toDel, booked⟩, seated, kept⟩ := isolated
  have moves := moves_of_step taken
  exact ⟨moves.unwinding unwinding, booked.step taken unwinding seated, moves.seated unwinding booked seated,
    fun tid => keepsMask_of_taken taken unwinding booked seated (kept tid)⟩

private theorem Machine.Starts.isolated (starts : start.Starts) : Isolated start := by
  have booked := starts.booked
  refine ⟨starts.unwinding, ⟨none, booked.1⟩, booked.2, fun tid => ⟨start.observed, fun _ => ⟨rfl, ?_⟩, ?_⟩⟩
  · obtain ⟨-, -, -, -, -, -, code, -⟩ := starts
    exact fun mask member => absurd (code ▸ member) List.not_mem_nil
  · intro away pointer thread found id
    obtain ⟨quantumUsecs, address, mask, -, done, sp, code, -⟩ := starts
    obtain ⟨fresh, -⟩ := uthreadInit_fresh done
    rw [fresh.heap] at found
    rcases of_update found with ⟨-, main⟩ | ⟨-, none⟩
    · cases main
      have dispatches := away (sp.trans id)
      rw [code] at dispatches
      exact dispatches.elim
    · cases none

theorem run_isolated (starts : start.Starts) (run : Run (Machine.StepsResuming resumption) start first one) : Isolated one :=
  run.invariant (fun _ => True) (fun _ _ => trivial) Isolated starts.isolated fun _ _ taken isolated => isolated.step taken

private theorem run_keeps (isolated : Isolated one) (run : Run (Machine.StepsResuming resumption) one middle two)
    (known : ∀ move ∈ middle, ¬ Creates tid move)
    (foreign : ∀ move ∈ middle, ∀ mask, move.label = .sigprocmask mask → move.before.sp ≠ tid)
    (begins : one.sp = tid) (ends : two.sp = tid) : two.observed = one.observed := by
  obtain ⟨own, keeps⟩ := isolated.kept tid
  obtain ⟨rfl, -⟩ := keeps.executing begins
  have both := run.invariant
    (fun move => ¬ Creates tid move ∧ ∀ mask, move.label = .sigprocmask mask → move.before.sp ≠ tid)
    (fun move member => ⟨known move member, foreign move member⟩)
    (fun m => Isolated m ∧ KeepsMask tid one.observed m) ⟨isolated, keeps⟩ ?_
  · exact (both.2.executing ends).1
  · rintro move ⟨known, foreign⟩ taken ⟨isolated, keeps⟩
    have known : move.after.lib.live tid → move.before.lib.live tid := by
      intro present
      by_contra missing
      exact known ⟨missing, present⟩
    obtain ⟨unwinding, ⟨toDel, booked⟩, seated, -⟩ := id isolated
    exact ⟨isolated.step taken, keeps.step taken unwinding booked seated known foreign⟩

private theorem run_unstarted (isolated : Isolated one) (unstarted : Unstarted tid one)
    (run : Run (Machine.StepsResuming resumption) one middle two) (elsewhere : ∀ move ∈ middle, move.before.sp ≠ tid)
    (begins : one.sp ≠ tid) (ends : two.sp = tid) : two.lib.mask = ∅ := by
  have all := run.invariant (fun move => move.before.sp ≠ tid) elsewhere
    (fun m => Isolated m ∧ Unstarted tid m ∧ (m.sp = tid → m.lib.mask = ∅)) ⟨isolated, unstarted, fun here => absurd here begins⟩ ?_
  · exact all.2.2 ends
  · rintro move elsewhere taken ⟨isolated, unstarted, -⟩
    obtain ⟨unwinding, -, seated, -⟩ := id isolated
    have moves := moves_of_step taken
    refine ⟨isolated.step taken, moves.unstarted unwinding seated elsewhere unstarted, fun here => ?_⟩
    obtain ⟨pointer, thread, found, id, mask⟩ := moves.jumps seated fun same => elsewhere (same.symm.trans here)
    rw [mask, unstarted pointer thread found (id.trans here)]

/-- In every run, however contexts are resumed and wherever the signal arrives, a thread
that has the processor again finds the other signals masked that it left masked, unless
it changed them itself in between. A thread that has it for the first time finds nothing
masked. -/
theorem other_masks_kept (starts : start.Starts) (before : Run (Machine.StepsResuming resumption) start first one)
    (run : Run (Machine.StepsResuming resumption) one middle two) (tid : Int) (executing : two.sp = tid) :
    (one.sp = tid → (∀ move ∈ middle, ¬ Creates tid move) →
      (∀ move ∈ middle, ∀ mask, move.label = .sigprocmask mask → move.before.sp ≠ tid) → two.observed = one.observed) ∧
    ∀ spawn rest, middle = spawn :: rest → Creates tid spawn → (∀ move ∈ rest, move.before.sp ≠ tid) →
      two.lib.mask = ∅ := by
  have isolated := run_isolated starts before
  refine ⟨fun begins known foreign => run_keeps isolated run known foreign begins executing, ?_⟩
  rintro spawn rest rfl ⟨missing, present⟩ elsewhere
  obtain ⟨rfl, taken, later⟩ := run.head
  obtain ⟨unwinding, ⟨toDel, booked⟩, seated, -⟩ := id isolated
  obtain ⟨other, stack, unstarted⟩ := (moves_of_step taken).created unwinding booked seated missing present
  exact run_unstarted (isolated.step taken) unstarted later elsewhere (stack.trans_ne other) executing

private def changesMask : Input → Bool
  | .sigprocmask _ => true
  | _ => false

/-- Main masks signal 10 and spawns thread 1, which starts with nothing masked, masks
signal 12 and is preempted. -/
theorem other_masks_kept_two_threads : ∃ starting final : Machine,
    starting.sp = 1 ∧ starting.lib.mask = ∅ ∧ final.sp = 0 ∧ final.observed = {10} := by
  obtain ⟨timeline, final, run, tested⟩ := compute_tested (next_sound .afterSwitch) started
    ([.sigprocmask {10}, .call (.spawn ()), .run ⟨2, []⟩, .run ⟨3, []⟩] ++ expiry ++ [.sigprocmask {12}, .expire, .deliver] ++
      List.replicate 8 (.run ⟨3, []⟩))
    (fun timeline final => final.sp = 0 ∧
      cutAt 1 (fun call last => call.before.sp = 0 ∧ call.before.observed = {10} ∧
        ∀ move ∈ call :: last, ¬ Creates 0 move ∧ (changesMask move.label → move.before.sp ≠ 0)) timeline ∧
      cutAt 2 (fun spawn last => Creates 1 spawn ∧ (∀ move ∈ last.take 8, move.before.sp ≠ 1) ∧
        cutAt 8 (fun jump _ => jump.before.sp ≠ 1 ∧ jump.after.sp = 1) last) timeline)
    (by decide +kernel)
  obtain ⟨back, called, spawned⟩ := of_decide_eq_true tested
  obtain ⟨call, later, cut, tested⟩ := of_cutAt called
  obtain ⟨here, observed, kept⟩ := of_decide_eq_true tested
  obtain ⟨spawn, rest, cut', tested⟩ := of_cutAt spawned
  obtain ⟨creates, elsewhere, jumped⟩ := of_decide_eq_true tested
  obtain ⟨jump, last, cut'', tested⟩ := of_cutAt jumped
  obtain ⟨away, arrives⟩ := of_decide_eq_true tested
  refine ⟨jump.after, final, arrives, ?_, back, ?_⟩
  · rw [cut'] at run
    obtain ⟨earlier, spawning, rest⟩ := run.at_move
    rw [cut''] at rest
    obtain ⟨upTo, jumping, -⟩ := rest.at_move
    have segment := Run.cons spawning (upTo.next jumping)
    refine (other_masks_kept started_starts earlier segment 1 arrives).2 _ _ rfl creates fun move member => ?_
    rcases List.mem_append.mp member with member | member
    · exact elsewhere move member
    · obtain rfl := List.mem_singleton.mp member
      exact away
  · rw [cut] at run
    obtain ⟨earlier, calling, rest⟩ := run.at_move
    refine ((other_masks_kept started_starts earlier (.cons calling rest) 0 back).1 here
      (fun move member => (kept move member).1) fun move member mask sets => ?_).trans observed
    exact (kept move member).2 (sets ▸ rfl)

end run
end Uthreads.Nim
