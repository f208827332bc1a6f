import Uthreads.Proofs.Seats

/-! The signals other than SIGVTALRM that a thread masks. The library adds and
removes its own signal only, and a mask is saved and restored with the context it
belongs to, so no other thread ever sees it. -/

namespace Uthreads
open Transition

def others (mask : Finset Signal) : Finset Signal := mask.erase sigvtalrm

def Machine.observed (m : Machine) : Finset Signal := others m.lib.mask

def Gives (own : Finset Signal) (code : Code) : Prop := ∀ mask, .sigreturn mask ∈ code → others mask = own

def Departed : Code → Prop
  | [] => False
  | .saveEnvironment _ :: _ => False
  | .leave target :: _ => target = .terminated
  | .startRunning :: _ => True
  | .siglongjmp _ :: _ => True
  | _ :: rest => Departed rest

/-- Wherever the context of the thread is, on the processor or in its record, its
other signals are `own`. -/
structure Keeps (tid : Int) (own : Finset Signal) (m : Machine) : Prop where
  executing : m.sp = tid → m.observed = own ∧ Gives own m.code
  filed : (m.sp = tid → Departed m.code) → ∀ env, m.lib.env tid = some env → others env.savedMask = own ∧ Gives own env.pc

def Creates (tid : Int) (move : Move Machine Input) : Prop := ¬ move.before.lib.live tid ∧ move.after.lib.live tid

instance (tid : Int) (move : Move Machine Input) : Decidable (Creates tid move) := inferInstanceAs (Decidable (_ ∧ _))

section masks
variable (mask : Finset Signal)

@[simp] theorem others_insert : others (insert sigvtalrm mask) = others mask := by
  simp only [others]
  exact Finset.erase_insert_eq_erase ..

@[simp] theorem others_erase : others (mask.erase sigvtalrm) = others mask := by
  simp only [others, Finset.erase_idem]

theorem Branch.others {s s' : State Code} {op : Op Code} {next : Next} (branch : Branch s op next s') :
    others s'.mask = others s.mask := by
  cases branch with
  | spawn =>
    simp only [State.enroll, State.emplaceThread]
    split <;> rfl
  | terminateRunning => exact others_erase _
  | _ => rfl

end masks

section gives
variable {own : Finset Signal} {rest : Code}

@[simp] theorem gives_nil : Gives own [] := by simp [Gives]

@[simp] theorem gives_cons {instr : Instr} :
    Gives own (instr :: rest) ↔ (∀ mask, instr = .sigreturn mask → others mask = own) ∧ Gives own rest := by
  simp only [Gives, List.mem_cons, eq_comm (b := instr), or_imp, forall_and]

private theorem Gives.follow (gives : Gives own rest) (op : Op Unit) (next : Next) : Gives own (op.follow next ++ rest) := by
  intro mask member
  apply gives mask
  cases next with
  | fails => simpa [Op.follow] using member
  | finishes => cases masks : op.masks <;> simpa [Op.follow, masks] using member
  | switches => cases op <;> simpa [Op.follow, switchThreadsCode] using member

private theorem Gives.leave (gives : Gives own rest) (target : Status) (running : Int) :
    Gives own (leaveCode target running rest) := by
  intro mask member
  apply gives mask
  cases target with
  | terminated => simp [leaveCode] at member
  | _ => simpa [leaveCode] using member

end gives

section departed
variable {rest : Code}

theorem departed_follow {op : Op Unit} {next : Next} (departed : Departed (op.follow next ++ rest)) :
    Departed rest ∨ next = .switches .terminated := by
  cases next with
  | fails => exact .inl departed
  | finishes => cases masks : op.masks <;> simp only [Op.follow, masks] at departed <;> exact .inl departed
  | switches target => cases op <;> exact .inr (congrArg _ departed)

theorem departed_leave {target : Status} {running : Int} (departed : Departed (leaveCode target running rest)) :
    target = .terminated := by
  cases target <;> first | rfl | exact departed.elim

end departed

section step
variable {m m' : Machine} {input : Input} {tid : Int} {own : Finset Signal} {rest : Code} {instr : Instr}

private theorem Keeps.stays (keeps : Keeps tid own m) (stack : m'.sp = m.sp)
    (executing : m.sp = tid → m.observed = own → Gives own m.code → m'.observed = own ∧ Gives own m'.code)
    (departed : Departed m'.code → Departed m.code) (env : m'.lib.env tid = m.lib.env tid) : Keeps tid own m' := by
  refine ⟨fun here => ?_, fun away => ?_⟩
  · rw [stack] at here
    exact executing here (keeps.executing here).1 (keeps.executing here).2
  · rw [env]
    exact keeps.filed fun here => departed (away (stack.trans here))

theorem terminated_env {s s' : State Code} {op : Op Code} {seat : Seat}
    (branch : Branch s op (.switches .terminated) s') (holds : seat.Holds s) : s'.env s.runningTid = none := by
  cases branch with
  | @terminateRunning own _ found =>
    obtain rfl := holds.only found
    simp [State.env, unblockVtAlarm, resetTimer, startTimer, State.remove]

private theorem Executes.keeps (executed : Executes m rest instr m') (code : m.code = instr :: rest) (owned : Owned m)
    (seated : Seated m) (known : m'.lib.live tid → m.lib.live tid) (keeps : Keeps tid own m) : Keeps tid own m' := by
  have current := owned.current
  have stays := @Keeps.stays m m' tid own keeps
  have tail : Gives own (instr :: rest) → Gives own rest := fun gives => (gives_cons.mp gives).2
  have filed := keeps.filed
  have here := keeps.executing
  rw [code] at current stays filed here
  cases executed with
  | blockVtAlarm => exact stays rfl (fun _ same gives => ⟨(others_insert _).trans same, tail gives⟩) id rfl
  | unblockVtAlarm => exact stays rfl (fun _ same gives => ⟨(others_erase _).trans same, tail gives⟩) id rfl
  | returns | fails | sleepersDone | emplaceRunning | insertRunning | insertEmpty | popFront | countTotal =>
    exact stays rfl (fun _ same gives => ⟨same, tail gives⟩) id rfl
  | sigreturn => exact stays rfl (fun _ _ gives => ⟨gives _ List.mem_cons_self, tail gives⟩) id rfl
  | updateSleepers => exact stays rfl (fun _ same gives => ⟨same, gives_cons.mpr ⟨by simp, tail gives⟩⟩) id rfl
  | sleeper =>
    exact stays rfl (fun _ same gives => ⟨same, gives_cons.mpr ⟨by simp, tail gives⟩⟩) id (State.env_wake ..)
  | insertFront =>
    refine stays rfl (fun _ same gives => ⟨same, ?_⟩) id rfl
    exact gives_cons.mpr ⟨by simp, gives_cons.mpr ⟨by simp, tail gives⟩⟩
  | setStatus => exact stays rfl (fun _ same gives => ⟨same, tail gives⟩) id (State.env_withStatus ..)
  | countQuantum =>
    exact stays rfl (fun _ same gives => ⟨same, tail gives⟩) id (State.env_modifyThread _ _ _ _ fun _ => rfl)
  | startRunning => exact stays rfl (fun _ same _ => ⟨same, by simp⟩) (fun _ => trivial) rfl
  | leave => exact stays rfl (fun _ same gives => ⟨same, (tail gives).leave _ _⟩) departed_leave rfl
  | @body op next lib branch =>
    refine ⟨fun own => ?_, fun away env found => ?_⟩
    · obtain ⟨same, gives⟩ := here own
      exact ⟨branch.others.trans same, (tail gives).follow _ _⟩
    · have present : m.lib.env tid = some env := by
        rcases branch.env tid with kept | gone | ⟨_, _, fresh, _⟩
        · exact kept ▸ found
        · cases gone.symm.trans found
        · exact absurd (known (State.live_iff_env.mpr ⟨env, found⟩)) fresh
      refine filed (fun own => ?_) env present
      rcases departed_follow (away own) with departed | rfl
      · exact departed
      · obtain ⟨seat, holds, -⟩ := seated.current
        have gone := terminated_env branch holds
        rw [current.1, own] at gone
        cases gone.symm.trans found
  | @saveEnvironment origTid =>
    refine ⟨fun own => ⟨(here own).1, by simp⟩, fun _ env found => ?_⟩
    rw [State.env_saved] at found
    split at found
    next same =>
      obtain ⟨_, _, rfl⟩ := Option.map_eq_some_iff.mp found
      have own := current.1.symm.trans same.symm
      exact ⟨(here own).1, tail (here own).2⟩
    next other => exact filed (fun own => absurd (own.symm.trans current.1.symm) other) env found
  | @siglongjmp target env found =>
    have filed := filed fun _ => trivial
    refine ⟨fun own => ?_, fun _ => filed⟩
    have same := (owned.saved _ _ found).1.symm.trans own
    exact filed env (same ▸ found)

theorem Moves.keeps (moves : Moves m input m') (owned : Owned m) (seated : Seated m)
    (known : m'.lib.live tid → m.lib.live tid) (foreign : ∀ mask, input = .sigprocmask mask → m.sp ≠ tid)
    (keeps : Keeps tid own m) : Keeps tid own m' := by
  cases moves with
  | expire => exact ⟨keeps.executing, keeps.filed⟩
  | deliver =>
    refine ⟨fun here => ?_, fun away => keeps.filed fun here => ?_⟩
    · obtain ⟨same, gives⟩ := keeps.executing here
      have interrupted : others m.lib.mask = own := same
      refine ⟨(others_insert _).trans same, ?_⟩
      simp [Machine.deliver, timerHandlerCode, switchThreadsCode, gives, interrupted]
    · have departed := away here
      simp [Machine.deliver, timerHandlerCode, switchThreadsCode, Departed] at departed
  | run code executed => exact executed.keeps code owned seated known keeps
  | @call op user =>
    refine ⟨fun here => ⟨(keeps.executing here).1, ?_⟩, fun away => keeps.filed fun here => absurd (away here) ?_⟩
    · cases masks : op.masks <;> simp [Op.code, masks]
    · cases masks : op.masks <;> simp [Op.code, masks, Departed]
  | sigprocmask =>
    have other := foreign _ rfl
    exact ⟨fun here => absurd here other, keeps.filed⟩

private theorem Executes.live_from (executed : Executes m rest instr m') (present : m'.lib.live tid) :
    m.lib.live tid ∨ ∃ op, instr = .body op := by
  cases executed with
  | body => exact .inr ⟨_, rfl⟩
  | sleeper => exact .inl ((State.live_wake ..).mp present)
  | setStatus | saveEnvironment | countQuantum => exact .inl ((State.live_modifyThread ..).mp present)
  | _ => exact .inl present

/-- A thread that does not exist is not executed, and cannot spawn itself. -/
private theorem Moves.created (moves : Moves m input m') (owned : Owned m) (seated : Seated m)
    (missing : ¬ m.lib.live tid) (present : m'.lib.live tid) : m.sp ≠ tid ∧ m'.sp = m.sp := by
  cases moves with
  | @run instr rest m' code executed =>
    obtain ⟨op, rfl⟩ := (executed.live_from present).resolve_left missing
    obtain ⟨seat, holds, seats⟩ := seated.current
    have same := owned.current
    rw [code] at seats same
    obtain ⟨rfl, -⟩ := seats
    refine ⟨?_, by cases executed; rfl⟩
    rw [← same.1]
    rintro rfl
    apply missing
    rcases holds.2 with main | marked
    · exact main ▸ seated.main
    · exact State.live_iff_status.mpr ⟨_, marked⟩
  | _ => exact absurd present missing

/-- Until it is first executed, the record of a thread holds its entry point and
the empty mask. -/
private theorem Moves.unstarted (moves : Moves m input m') (owned : Owned m) (elsewhere : m.sp ≠ tid)
    (unstarted : ∀ env, m.lib.env tid = some env → env = ⟨⟨tid, []⟩, ∅⟩) :
    ∀ env, m'.lib.env tid = some env → env = ⟨⟨tid, []⟩, ∅⟩ := by
  intro env found
  rcases moves.saved_from found with kept | new | ⟨rest, code, -⟩
  · exact unstarted env kept
  · exact new
  · have current := owned.current
    rw [code] at current
    exact absurd current.1.symm elsewhere

private theorem unstarted_of_missing (missing : ¬ m.lib.live tid) :
    ∀ env, m.lib.env tid = some env → env = ⟨⟨tid, []⟩, ∅⟩ :=
  fun env found => absurd (State.live_iff_env.mpr ⟨env, found⟩) missing

private theorem Moves.jumps (moves : Moves m input m') (owned : Owned m) (other : m'.sp ≠ m.sp) :
    ∃ env, m.lib.env m'.sp = some env ∧ m'.lib.mask = env.savedMask := by
  cases moves with
  | run code executed =>
    cases executed with
    | siglongjmp found =>
      refine ⟨_, ?_, rfl⟩
      exact (owned.saved _ _ found).1.symm ▸ found
    | _ => exact absurd rfl other
  | _ => exact absurd rfl other

private theorem Moves.kept (moves : Moves m input m') (owned : Owned m) (seated : Seated m)
    (kept : ∃ own, Keeps tid own m) : ∃ own, Keeps tid own m' := by
  obtain ⟨own, keeps⟩ := kept
  by_cases known : m'.lib.live tid → m.lib.live tid
  · by_cases foreign : ∀ mask, input = .sigprocmask mask → m.sp ≠ tid
    · exact ⟨own, moves.keeps owned seated known foreign keeps⟩
    · obtain ⟨mask, own⟩ := not_forall.mp foreign
      obtain ⟨rfl, here⟩ := Classical.not_imp.mp own
      have here := not_not.mp here
      cases moves with
      | sigprocmask user =>
        refine ⟨others mask, fun _ => ⟨rfl, user.symm ▸ gives_nil⟩, fun away => ?_⟩
        exact absurd (away here) (user.symm ▸ id)
  · obtain ⟨present, missing⟩ := Classical.not_imp.mp known
    obtain ⟨elsewhere, stack⟩ := moves.created owned seated missing present
    refine ⟨∅, fun here => absurd (stack.symm.trans here) elsewhere, fun _ env found => ?_⟩
    obtain rfl := moves.unstarted owned elsewhere (unstarted_of_missing missing) env found
    exact ⟨rfl, gives_nil⟩

end step

section run
variable {start one two : Machine} {first middle : List (Move Machine Input)}

structure Isolated (m : Machine) : Prop where
  owned : Owned m
  seated : Seated m
  kept : ∀ tid, ∃ own, Keeps tid own m

private theorem Isolated.step {m m' : Machine} {input : Input} (taken : m.AtomicSteps input m') (isolated : Isolated m) :
    Isolated m' := by
  obtain ⟨moves, outside⟩ := moves_of_atomicStep taken
  refine ⟨?_, moves.seated outside isolated.seated, fun tid => moves.kept isolated.owned isolated.seated (isolated.kept tid)⟩
  exact moves.owned (fun delivered => isolated.owned.current.settled (outside delivered)) isolated.owned

private theorem Machine.Starts.isolated (starts : start.Starts) : Isolated start := by
  refine ⟨starts.owned, starts.seated, fun tid => ⟨start.observed, fun _ => ?_, fun away env found => ?_⟩⟩
  · exact ⟨rfl, starts.user.symm ▸ gives_nil⟩
  · obtain ⟨rfl, -⟩ := starts.env_main found
    exact absurd (away starts.stack) (starts.user.symm ▸ id)

theorem run_isolated (starts : start.Starts) (run : Run Machine.AtomicSteps start first one) : Isolated one :=
  run.invariant (fun _ => True) (fun _ _ => trivial) Isolated starts.isolated fun _ _ taken isolated => isolated.step taken

private theorem run_keeps {tid : Int} (isolated : Isolated one) (run : Run Machine.AtomicSteps one middle two)
    (known : ∀ move ∈ middle, ¬ Creates tid move)
    (foreign : ∀ move ∈ middle, ∀ mask, move.label = .sigprocmask mask → move.before.sp ≠ tid)
    (begins : one.sp = tid) (ends : two.sp = tid) : two.observed = one.observed := by
  obtain ⟨own, keeps⟩ := isolated.kept tid
  obtain ⟨rfl, -⟩ := keeps.executing begins
  have both := run.invariant
    (fun move => ¬ Creates tid move ∧ ∀ mask, move.label = .sigprocmask mask → move.before.sp ≠ tid)
    (fun move member => ⟨known move member, foreign move member⟩)
    (fun m => Isolated m ∧ Keeps tid one.observed m) ⟨isolated, keeps⟩ ?_
  · exact (both.2.executing ends).1
  · rintro move ⟨known, foreign⟩ taken ⟨isolated, keeps⟩
    refine ⟨isolated.step taken, ?_⟩
    have known : move.after.lib.live tid → move.before.lib.live tid := by
      intro present
      by_contra missing
      exact known ⟨missing, present⟩
    exact (moves_of_atomicStep taken).1.keeps isolated.owned isolated.seated known foreign keeps

private theorem run_unstarted {tid : Int} (isolated : Isolated one) (run : Run Machine.AtomicSteps one middle two)
    (missing : ¬ one.lib.live tid) (elsewhere : ∀ move ∈ middle, move.before.sp ≠ tid) (begins : one.sp ≠ tid)
    (ends : two.sp = tid) : two.lib.mask = ∅ := by
  have all := run.invariant (fun move => move.before.sp ≠ tid) elsewhere
    (fun m => Isolated m ∧ (m.sp = tid → m.lib.mask = ∅) ∧ ∀ env, m.lib.env tid = some env → env = ⟨⟨tid, []⟩, ∅⟩)
    ⟨isolated, fun here => absurd here begins, unstarted_of_missing missing⟩ ?_
  · exact all.2.1 ends
  · rintro move elsewhere taken ⟨isolated, -, unstarted⟩
    have moves := (moves_of_atomicStep taken).1
    refine ⟨isolated.step taken, fun here => ?_, moves.unstarted isolated.owned elsewhere unstarted⟩
    obtain ⟨env, found, mask⟩ := moves.jumps isolated.owned fun same => elsewhere (same.symm.trans here)
    obtain rfl := unstarted env (here ▸ found)
    exact mask

/-- In every run with atomic switches, a thread that has the processor again finds
the other signals masked that it left masked, unless it changed them itself in
between. A thread that has it for the first time finds nothing masked. -/
theorem other_signals_kept (starts : start.Starts) (before : Run Machine.AtomicSteps start first one)
    (run : Run Machine.AtomicSteps one middle two) (tid : Int) (executing : two.sp = tid) :
    (one.sp = tid → (∀ move ∈ middle, ¬ Creates tid move) →
      (∀ move ∈ middle, ∀ mask, move.label = .sigprocmask mask → move.before.sp ≠ tid) → two.observed = one.observed) ∧
    ∀ spawn rest, middle = spawn :: rest → Creates tid spawn → (∀ move ∈ rest, move.before.sp ≠ tid) →
      two.lib.mask = ∅ := by
  have isolated := run_isolated starts before
  refine ⟨fun begins known foreign => run_keeps isolated run known foreign begins executing, ?_⟩
  rintro spawn rest rfl ⟨missing, present⟩ elsewhere
  obtain ⟨rfl, taken, -⟩ := run.head
  have other := ((moves_of_atomicStep taken).1.created isolated.owned isolated.seated missing present).1
  exact run_unstarted isolated run missing (List.forall_mem_cons.mpr ⟨other, elsewhere⟩) other executing

end run

private def setsMask : Input → Bool
  | .sigprocmask _ => true
  | _ => false

/-- Main masks signal 10 and spawns thread 1, which starts with nothing masked and
masks signal 12. When main is resumed it has its own mask. -/
theorem other_signals_kept_two_threads : ∃ starting final : Machine,
    starting.sp = 1 ∧ starting.lib.mask = ∅ ∧ final.sp = 0 ∧ final.observed = {10} := by
  obtain ⟨timeline, final, run, tested⟩ := Machine.booted.perform_tested
    ([.sigprocmask {10}] ++ spawnAndSwitch ++ [.sigprocmask {12}, .expire, .deliver] ++ .replicate 15 .run)
    (fun timeline final => final.sp = 0 ∧
      (∀ move ∈ timeline, move.label = .deliver → inSwitch move.before.code = false) ∧
      cutAt 1 (fun call last => call.before.sp = 0 ∧ call.before.observed = {10} ∧
        ∀ move ∈ call :: last, ¬ Creates 0 move ∧ (setsMask move.label → move.before.sp ≠ 0)) timeline ∧
      cutAt 3 (fun spawn last => Creates 1 spawn ∧ (∀ move ∈ last.take 18, move.before.sp ≠ 1) ∧
        cutAt 18 (fun jump _ => jump.before.sp ≠ 1 ∧ jump.after.sp = 1) last) timeline)
    (by decide +kernel)
  obtain ⟨back, outside, called, spawned⟩ := of_decide_eq_true tested
  have run := run_atomic run outside
  obtain ⟨call, later, cut, tested⟩ := of_cutAt called
  obtain ⟨here, observed, kept⟩ := of_decide_eq_true tested
  obtain ⟨spawn, rest, cut', tested⟩ := of_cutAt spawned
  obtain ⟨creates, elsewhere, jumped⟩ := of_decide_eq_true tested
  obtain ⟨jump, last, cut'', tested⟩ := of_cutAt jumped
  obtain ⟨away, arrives⟩ := of_decide_eq_true tested
  refine ⟨jump.after, final, arrives, ?_, back, ?_⟩
  · rw [cut'] at run
    obtain ⟨earlier, spawning, rest⟩ := run.at_move
    rw [cut''] at rest
    obtain ⟨upTo, jumping, -⟩ := rest.at_move
    have segment := Run.cons spawning (upTo.next jumping)
    refine (other_signals_kept Machine.booted_starts earlier segment 1 arrives).2 _ _ rfl creates fun move member => ?_
    rcases List.mem_append.mp member with member | member
    · exact elsewhere move member
    · obtain rfl := List.mem_singleton.mp member
      exact away
  · rw [cut] at run
    obtain ⟨earlier, calling, rest⟩ := run.at_move
    refine ((other_signals_kept Machine.booted_starts earlier (.cons calling rest) 0 back).1 here
      (fun move member => (kept move member).1) fun move member mask sets => ?_).trans observed
    exact (kept move member).2 (sets ▸ rfl)

end Uthreads
