import Uthreads.Proofs.Orderly
import Uthreads.Proofs.Termination

/-! A thread that terminates itself, statement by statement. It erases its own
record while `running_tid_` still names it, and unmasks the signal before the
switch has found a successor. -/

namespace Uthreads
open Transition

@[simp] def Instr.reads (tid : Int) : Instr → Bool
  | .returns _ (.quantumsOf other) => other = tid
  | _ => false

/-- The code is about to return the quantums of `tid`, which it looked for before. -/
def Reads (tid : Int) (code : Code) : Prop := ∃ instr ∈ code, instr.reads tid = true

instance (tid : Int) (code : Code) : Decidable (Reads tid code) :=
  inferInstanceAs (Decidable (∃ instr ∈ code, instr.reads tid = true))

@[simp] theorem reads_nil (tid : Int) : ¬ Reads tid [] := fun ⟨_, member, _⟩ => nomatch member

@[simp] theorem reads_cons {tid : Int} {instr : Instr} {rest : Code} :
    Reads tid (instr :: rest) ↔ instr.reads tid = true ∨ Reads tid rest :=
  List.exists_mem_cons_iff ..

@[simp] theorem reads_append {tid : Int} {first last : Code} :
    Reads tid (first ++ last) ↔ Reads tid first ∨ Reads tid last := by
  simp only [Reads, List.mem_append, or_and_right, exists_or]

/-- The thread has terminated itself. -/
def SelfTerminates (tid : Int) (move : Move Machine Input) : Prop :=
  move.label = .run ∧ move.before.lib.runningTid = tid ∧ ∃ rest, move.before.code = .body (.terminate tid) :: rest

/-- The next statement is that of a `uthread_spawn` that hands out `tid`. -/
def HandsOut (tid : Int) (m : Machine) (input : Input) : Prop :=
  input = .run ∧ m.lib.freeIds.toList.head? = some tid ∧
    ∃ entryPoint rest, m.code = .body (.spawn (some entryPoint)) :: rest

/-- A terminated thread: it has no record, and nobody is going to read one. -/
structure Gone (tid : Int) (m : Machine) : Prop where
  orderly : Orderly m
  record : ¬ m.lib.live tid
  current : ¬ Reads tid m.code
  saved : ∀ other env, m.lib.env other = some env → ¬ Reads tid env.pc

section branch
variable {ε : Type} {s s' : State ε} {tid : Int}

private theorem Branch.gains {op : Op ε} {next : Next} (branch : Branch s op next s') (live : s'.live tid) :
    s.live tid ∨ s.freeIds.toList.head? = some tid ∧ ∃ entryPoint, op = .spawn (some entryPoint) := by
  have kept : ∀ {other}, (s.remove other).live tid → s.live tid := fun live => ((State.live_remove ..).mp live).2
  cases branch with
  | @spawn new entryPoint least =>
    rw [State.live_iff_status] at live ⊢
    simp only [State.status_enroll] at live
    split at live
    next same => exact .inr ⟨same.1 ▸ least, entryPoint, rfl⟩
    next => exact .inl live
  | terminateRunning | terminateReady | terminateBlocked | terminateRest => exact .inl (kept live)
  | blockReady | resumeBlocked | sleep => exact .inl ((State.live_withStatus ..).mp live)
  | _ => exact .inl live

private theorem Branch.reads {op : Op ε} (branch : Branch s op (.finishes (.quantumsOf tid)) s') :
    s.live tid ∧ op = .getQuantums tid := by
  cases branch with
  | getQuantums live => exact ⟨live, rfl⟩

private theorem follow_reads {op : Op Unit} {next : Next} (reads : Reads tid (op.follow next)) :
    next = .finishes (.quantumsOf tid) := by
  cases next with
  | fails message => simp [Op.follow] at reads
  | finishes result =>
    cases result with
    | value | newThread => cases masks : op.masks <;> simp [Op.follow, masks] at reads
    | quantumsOf => cases masks : op.masks <;> simpa [Op.follow, masks] using reads
  | switches target => cases op <;> simp [Op.follow, switchThreadsCode] at reads

private theorem leave_reads {target : Status} {running : Int} {rest : Code}
    (reads : Reads tid (leaveCode target running rest)) : Reads tid rest := by
  cases target <;> simp [leaveCode] at reads
  all_goals exact reads

end branch

section step
variable {m m' : Machine} {input : Input} {tid : Int} {rest : Code} {instr : Instr}

private theorem Executes.reads (executed : Executes m rest instr m') (reads : Reads tid m'.code) :
    Reads tid rest ∨ (∃ other env, instr = .siglongjmp other ∧ m.lib.env other = some env ∧ Reads tid env.pc) ∨
      instr = .body (.getQuantums tid) ∧ m.lib.live tid := by
  cases executed with
  | @body op next lib branch =>
    refine (reads_append.mp reads).symm.imp_right fun prepared => .inr ?_
    obtain rfl := follow_reads prepared
    obtain ⟨live, same⟩ := branch.reads
    cases op <;> simp only [Op.enter, reduceCtorEq, Op.getQuantums.injEq] at same
    exact ⟨congrArg (fun tid => Instr.body (.getQuantums tid)) same, live⟩
  | leave => exact .inl (leave_reads reads)
  | siglongjmp found => exact .inr (.inl ⟨_, _, rfl, found, reads⟩)
  | updateSleepers | sleeper | insertFront => exact .inl (by simpa using reads)
  | saveEnvironment | startRunning => simp at reads
  | _ => exact .inl reads

theorem Gone.unread (gone : Gone tid m) (moves : Moves m input m') : ¬ Reads tid m'.code := by
  have current := gone.current
  cases moves with
  | expire | sigprocmask => exact current
  | deliver => simpa [Machine.deliver, timerHandlerCode, switchThreadsCode] using current
  | run code executed =>
    rw [code, reads_cons] at current
    intro reads
    rcases executed.reads reads with left | ⟨other, env, -, found, read⟩ | ⟨-, live⟩
    · exact current (.inr left)
    · exact gone.saved other env found read
    · exact gone.record live
  | @call op user other => cases masks : op.masks <;> simp [Op.code, masks]

theorem Moves.handsOut (moves : Moves m input m') (dead : ¬ m.lib.live tid) (live : m'.lib.live tid) :
    HandsOut tid m input := by
  cases moves with
  | run code executed =>
    cases executed with
    | @body op next lib branch =>
      obtain ⟨least, entryPoint, same⟩ := (branch.gains live).resolve_left dead
      cases op <;> simp only [Op.enter, reduceCtorEq, Op.spawn.injEq] at same
      obtain ⟨_, rfl, _⟩ := Option.map_eq_some_iff.mp same
      exact ⟨rfl, least, (), _, code⟩
    | sleeper => exact absurd ((State.live_wake ..).mp live) dead
    | setStatus => exact absurd ((State.live_withStatus ..).mp live) dead
    | saveEnvironment | countQuantum => exact absurd ((State.live_modifyThread ..).mp live) dead
    | _ => exact absurd live dead
  | _ => exact absurd live dead

theorem Gone.step (gone : Gone tid m) (moves : Moves m input m') (undisturbed : Undisturbed m input)
    (unspawned : ¬ HandsOut tid m input) : Gone tid m' := by
  refine ⟨moves.orderly undisturbed gone.orderly, fun live => unspawned (moves.handsOut gone.record live),
    gone.unread moves, fun other env found => ?_⟩
  rcases moves.saved_from found with kept | rfl | ⟨rest, code, rfl⟩
  · exact gone.saved other env kept
  · exact reads_nil tid
  · have current := gone.current
    rw [code, reads_cons] at current
    exact fun reads => current (.inr reads)

private theorem Phase.parked {s : State Code} (phase : Phase s (.insertReadyToRunning :: rest)) : Consistent none s := by
  cases phase with
  | settled valid calm => simp at calm
  | choosing parked => exact parked

/-- `running_tid_` only ever changes to a thread that has a record. -/
theorem Orderly.running_live (orderly : Orderly m) (moves : Moves m input m') :
    m'.lib.runningTid = m.lib.runningTid ∨ m.lib.live m'.lib.runningTid := by
  cases moves with
  | run code executed =>
    have phase := orderly.phase
    rw [code] at phase
    cases executed with
    | body branch => exact .inl branch.runningTid_eq
    | insertEmpty => exact .inr (phase.parked.queue_live (phase.parked.zero.resolve_left (by simp)))
    | insertFront queue => exact .inr (phase.parked.queue_live (by simp [queue]))
    | siglongjmp | startRunning => exact .inl rfl
    | _ => exact .inl rfl
  | _ => exact .inl rfl

/-- At every moment, all that wait in the queue have a record. -/
theorem Phase.queue_live {s : State Code} {code : Code} (phase : Phase s code) (queued : tid ∈ s.readyTids) :
    s.live tid := by
  cases phase with
  | settled valid | charging valid | saving valid => exact valid.consistent.queue_live queued
  | interrupted consistent => exact consistent.queue_live queued
  | updating leaving | leaving leaving | emplacing leaving | inserting leaving => exact leaving.consistent.queue_live queued
  | @counting target rest s₀ done its leaving entries reached calm =>
    rw [reached] at queued ⊢
    apply (State.live_foldl_wake ..).mpr
    rw [State.foldl_wake_readyTids, List.mem_append] at queued
    rcases queued with queued | woken
    · exact leaving.consistent.queue_live queued
    · obtain ⟨it, member, rfl⟩ := List.mem_map.mp woken
      obtain ⟨member, ended⟩ := List.mem_filter.mp member
      have listed : it ∈ s₀.sleepers.toList := entries ▸ List.mem_append_left _ member
      have found := Std.ExtTreeMap.mem_toList_iff_getElem?_eq_some.mp listed
      exact leaving.consistent.sleepersLive it.1 ((of_decide_eq_true ended).1 ▸ found)
  | marking other parked => exact (State.live_withStatus ..).mp (parked.queue_live queued)
  | choosing parked => exact parked.queue_live queued
  | popping queue chosen =>
    rw [queue, List.mem_cons] at queued
    rcases queued with rfl | queued
    · exact chosen.present _ rfl
    · exact chosen.queue_live queued
  | starting chosen => exact chosen.queue_live queued

/-- Outside of a switch, all threads but the running one are in their places. -/
theorem Phase.consistent {s : State Code} {code : Code} (phase : Phase s code) (outside : ¬ Switching code) :
    Consistent (some s.runningTid) s := by
  cases phase with
  | settled valid | charging valid | saving valid => exact valid.consistent
  | interrupted consistent => exact consistent
  | starting chosen => exact chosen
  | marking other => exact absurd (decide_eq_true other) outside
  | _ => exact absurd rfl outside

end step

section run
variable {start final : Machine} {timeline first later : Timeline} {ending : Move Machine Input} {tid : Int}

theorem run_gone (gone : Gone tid start) (run : Run Machine.Steps start timeline final)
    (undisturbed : ∀ move ∈ timeline, Undisturbed move.before move.label)
    (unspawned : ∀ move ∈ timeline, ¬ HandsOut tid move.before move.label) : Gone tid final :=
  run.invariant (fun move => Undisturbed move.before move.label ∧ ¬ HandsOut tid move.before move.label)
    (fun move member => ⟨undisturbed move member, unspawned move member⟩) (Gone tid) gone
    fun _ ⟨undisturbed, unspawned⟩ taken gone => gone.step (moves_of_step taken) undisturbed unspawned

theorem Orderly.gone (orderly : Orderly ending.before) (taken : ending.before.Steps ending.label ending.after)
    (undisturbed : Undisturbed ending.before ending.label) (ends : SelfTerminates tid ending)
    (unread : ∀ other env, other ≠ tid → ending.before.lib.env other = some env → ¬ Reads tid env.pc) :
    Gone tid ending.after := by
  obtain ⟨label, running, rest, code⟩ := ends
  rw [label] at taken undisturbed
  have moves := moves_of_step taken
  have executed := executes_of_run taken code
  have restores := orderly.restores
  have phase := orderly.phase
  rw [code] at restores phase
  obtain ⟨rfl, -⟩ := restores
  have present := running ▸ (phase.wellFormed (.inl ⟨_, rfl⟩)).running_live
  have dead : ¬ ending.after.lib.live tid := by
    generalize ending.after = after at executed ⊢
    cases executed with
    | body branch => exact branch.terminates present
  refine ⟨moves.orderly undisturbed orderly, dead, fun reads => ?_, fun other env found => ?_⟩
  · rcases executed.reads reads with left | ⟨other, env, same, -⟩ | ⟨same, -⟩
    · exact reads_nil tid left
    · cases same
    · cases same
  · have different : other ≠ tid := by
      rintro rfl
      exact dead (State.live_iff_env.mpr ⟨env, found⟩)
    rcases moves.saved_from found with kept | rfl | ⟨rest, same, -⟩
    · exact unread other env different kept
    · exact reads_nil tid
    · cases code.symm.trans same

/-- Once a thread has terminated itself and until its id is handed out again: it
is not queued, no step looks it up, no step makes it the running thread, and
the other threads stay in agreement. This takes a run whose handlers start where no
switch has its thread to choose, without terminations of sleepers, and without another
thread that is suspended before a read of this thread's quantums. Until the jump the
code, and a handler on top of it, still executes on the stack of the erased thread. -/
theorem self_termination_safe (user : start.code = []) (valid : WellFormed start.lib)
    (contexts : ∀ other env, start.lib.env other = some env → Resumable other env)
    (run : Run Machine.Steps start (first ++ ending :: later) final)
    (undisturbed : ∀ move ∈ first ++ ending :: later, Undisturbed move.before move.label)
    (ends : SelfTerminates tid ending)
    (unread : ∀ other env, other ≠ tid → ending.before.lib.env other = some env → ¬ Reads tid env.pc)
    (unspawned : ∀ move ∈ later, ¬ HandsOut tid move.before move.label) :
    tid ∉ final.lib.readyTids ∧
    (∀ input, final.step input ≠ some (.error (.nullRecord tid))) ∧
    (∀ move ∈ later, move.after.lib.runningTid = tid → move.before.lib.runningTid = tid) ∧
    (¬ Switching final.code → final.lib.runningTid ≠ tid ∧ Consistent (some final.lib.runningTid) final.lib) ∧
    (final.code = [] → WellFormed final.lib) := by
  obtain ⟨earlier, taken, after⟩ := run.at_move
  have orderly := run_orderly (orderly_of_user user valid contexts) earlier fun move member =>
    undisturbed move (List.mem_append_left _ member)
  have ended := orderly.gone taken (undisturbed ending (by simp)) ends unread
  have quiet : ∀ move ∈ later, Undisturbed move.before move.label := fun move member =>
    undisturbed move (by simp [member])
  have gone := run_gone ended after quiet unspawned
  refine ⟨fun queued => gone.record (gone.orderly.phase.queue_live queued), fun input halted => ?_,
    fun move member again => ?_, fun outside => ?_, fun user => (user ▸ gone.orderly.phase).user⟩
  · obtain ⟨op, rest, code⟩ := gone.orderly.faults halted
    exact gone.current (code ▸ reads_cons.mpr (.inl (by simp)))
  · obtain ⟨before, rest, rfl, upTo, step, -⟩ := after.at_mem member
    have gone := run_gone ended upTo (fun move member => quiet move (by simp [member]))
      fun move member => unspawned move (by simp [member])
    rcases gone.orderly.running_live (moves_of_step step) with kept | live
    · exact kept ▸ again
    · exact absurd (again ▸ live) gone.record
  · have consistent := gone.orderly.phase.consistent outside
    exact ⟨fun same => gone.record (same ▸ consistent.present _ rfl), consistent⟩

end run

/-- Thread 1 terminates itself, and the signal arrives when main is chosen but
not yet resumed. -/
theorem self_termination_safe_late_signal : ∃ timeline final, Run Machine.Steps Machine.booted timeline final ∧
    (∃ move ∈ timeline, SelfTerminates 1 move) ∧ (∃ move ∈ timeline, move.label = .deliver ∧ ¬ move.before.lib.live 1) ∧
    1 ∉ final.lib.readyTids ∧ ∀ input, final.step input ≠ some (.error (.nullRecord 1)) := by
  obtain ⟨timeline, final, run, tested⟩ := Machine.booted.perform_tested
    (spawnAndSwitch ++ [.call (.terminate 1)] ++ .replicate 11 .run ++ [.expire, .deliver] ++ .replicate 18 .run)
    (fun timeline _ =>
      match timeline.drop 24 with
      | [] => false
      | ending :: later =>
        (∀ move ∈ timeline, Undisturbed move.before move.label) ∧
        (ending.label = .run ∧ ending.before.lib.runningTid = 1 ∧ ending.before.code = [.body (.terminate 1)]) ∧
        (∀ i ∈ List.range 100, ∀ env ∈ ending.before.lib.env i, ¬ Reads 1 env.pc) ∧
        (∀ move ∈ later, move.before.code.head? ≠ some (.body (.spawn (some ())))) ∧
        ∃ move ∈ later, move.label = .deliver ∧ ¬ move.before.lib.live 1)
    (by decide +kernel)
  split at tested
  next => cases tested
  next ending later parts =>
    obtain ⟨undisturbed, ⟨label, running, code⟩, unread, unspawned, move, member, signal⟩ := of_decide_eq_true tested
    rw [← List.take_append_drop 24 timeline, parts] at run undisturbed
    have starts := Machine.booted_starts
    have fresh := starts.orderly.phase
    rw [starts.user] at fresh
    have orderly := run_orderly starts.orderly run.at_move.1 fun move member =>
      undisturbed move (List.mem_append_left _ member)
    have consistent := orderly.phase.consistent (by simp [code, Switching])
    have ends : SelfTerminates 1 ending := ⟨label, running, [], code⟩
    have safe := self_termination_safe starts.user fresh.user starts.orderly.saved run undisturbed ends
      (fun other env _ found => ?_) (fun move member => ?_)
    · exact ⟨_, final, run, ⟨ending, by simp, ends⟩, ⟨move, by simp [member], signal⟩, safe.1, safe.2.1⟩
    · obtain ⟨low, high⟩ := (consistent.ids other).mp (.inl (State.live_iff_env.mpr ⟨env, found⟩))
      obtain ⟨i, rfl⟩ := Int.eq_ofNat_of_zero_le low
      exact unread i (List.mem_range.mpr (Int.ofNat_lt.mp high)) env found
    · rintro ⟨-, -, ⟨⟩, rest, code⟩
      exact unspawned move member (by simp [code])

/-- Thread 1 terminates itself, and the signal arrives as soon as it is unmasked,
before the switch. The handler puts the erased thread at the back of the queue
and dereferences its record. -/
theorem handler_requeues_terminated : ∃ start timeline final, start.code = [] ∧ WellFormed start.lib ∧
    start.sp = 1 ∧ start.lib.runningTid = 1 ∧ Run Machine.Steps start timeline final ∧
    (timeline.head?.map fun move => move.label) = some (.call (.terminate 1)) ∧
    (∃ move ∈ timeline, SelfTerminates 1 move) ∧ ¬ final.lib.live 1 ∧ 1 ∈ final.lib.freeIds ∧
    1 ∈ final.lib.readyTids ∧ final.step .run = some (.error (.nullRecord 1)) := by
  obtain ⟨earlier, start, reach, tested⟩ := Machine.booted.perform_tested
    spawnAndSwitch
    (fun earlier start => (∀ move ∈ earlier, Undisturbed move.before move.label) ∧
      start.code = [] ∧ start.sp = 1 ∧ start.lib.runningTid = 1 ∧
      (start.perform ([.call (.terminate 1)] ++ .replicate 2 .run ++ [.expire, .deliver] ++ .replicate 5 .run)).any
        fun done =>
          (done.1.head?.map fun move => move.label) = some (.call (.terminate 1)) ∧
          (∃ move ∈ done.1, move.label = .run ∧ move.before.lib.runningTid = 1 ∧
            move.before.code = [.body (.terminate 1)]) ∧
          ¬ done.2.lib.live 1 ∧ 1 ∈ done.2.lib.freeIds ∧ 1 ∈ done.2.lib.readyTids ∧ (done.2.step .run).any (haltsWith (.nullRecord 1)))
    (by decide +kernel)
  obtain ⟨undisturbed, user, stack, running, tested⟩ := of_decide_eq_true tested
  obtain ⟨⟨timeline, final⟩, performed, tested⟩ := (Option.any_eq_true _ _).mp tested
  obtain ⟨called, ⟨move, member, label, active, code⟩, dead, free, queued, faults⟩ := of_decide_eq_true tested
  have orderly := (run_orderly Machine.booted_starts.orderly reach undisturbed).phase
  rw [user] at orderly
  exact ⟨start, timeline, final, user, orderly.user, stack, running, Machine.perform_run performed, called,
    ⟨move, member, label, active, [], code⟩, dead, free, queued, of_any_haltsWith faults⟩

end Uthreads
