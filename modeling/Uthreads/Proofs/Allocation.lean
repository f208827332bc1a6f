import Uthreads.Library.Issuing
import Uthreads.Proofs.Accounting
import Uthreads.Proofs.Simulation

/-! Which id a new thread gets. The table and the free ids are kept by different
functions, but they share out the same range after every history. -/

namespace Uthreads
open Fallible Transition

variable {ε : Type} {s s' start final : State ε}

def State.alive (s : State ε) : Nat := (allIds.filter fun tid => s.live tid).length

def Filed (s : State ε) : Prop := ∀ tid thread, s.allThreads tid = some thread → thread.tid = tid

/-- The smallest id that a new thread may have and no live thread has. -/
abbrev LeastFree (s : State ε) (tid : Int) : Prop := Issuing.Least s.live 1 maxThreadNum tid

/-- The new thread is last in the queue, and nobody else notices. -/
structure Enrolled (s s' : State ε) (tid : Int) : Prop where
  queue : s'.readyTids = s.readyTids ++ [tid]
  count : s'.quantums tid = some 0
  status : s'.status tid = some .ready
  others : ∀ other, s.live other → s'.allThreads other = s.allThreads other
  running : s'.runningTid = s.runningTid

def spawned (move : Move (State ε) (Event ε)) : Option Int :=
  match move.label.op with
  | .spawn (some _) => move.label.reply.value
  | _ => none

/-- The move terminates the thread, and does not merely try to. -/
def Terminates (tid : Int) (move : Move (State ε) (Event ε)) : Prop :=
  move.label.op = .terminate tid ∧ move.label.reply.value ≠ some failure

section filed

private def carried (s : State ε) (tid : Int) : Option Int := (s.allThreads tid).map UThread.tid

private theorem filed_iff : Filed s ↔ ∀ tid, s.live tid → carried s tid = some tid := by
  constructor
  · intro filed tid present
    obtain ⟨thread, found⟩ := Option.isSome_iff_exists.mp present
    simp [carried, found, filed tid thread found]
  · intro own tid thread found
    have named := own tid (State.live_of_thread found)
    simpa [carried, found] using named

private theorem carried_modifyThread (s : State ε) (tid other : Int) {f : UThread ε → UThread ε}
    (kept : ∀ thread, (f thread).tid = thread.tid) : carried (s.modifyThread tid f) other = carried s other :=
  State.map_modifyThread _ _ _ _ UThread.tid kept

private theorem carried_withStatus (s : State ε) (tid other : Int) (status : Status) :
    carried (s.withStatus tid status) other = carried s other :=
  carried_modifyThread s tid other fun _ => rfl

private theorem carried_saved (s : State ε) (tid other : Int) (here : Context ε) :
    carried (s.saved tid here) other = carried s other :=
  carried_modifyThread s tid other fun _ => rfl

private theorem carried_started (s : State ε) (other : Int) : carried s.started other = carried s other :=
  carried_modifyThread s s.runningTid other fun _ => rfl

private theorem carried_remove (s : State ε) {tid other : Int} (different : other ≠ tid) :
    carried (s.remove tid) other = carried s other := by
  simp [carried, State.remove, different]

private theorem carried_tick (s : State ε) (tid : Int) : carried s.tick tid = carried s tid := by
  simp only [carried, State.tick]
  split
  · simp [Function.comp_def]
  · rfl

private theorem carried_leave (s : State ε) (target : Status) (tid : Int) :
    carried (s.leave target) tid = carried s tid := by
  cases target
  case ready | blocked => exact carried_withStatus ..
  all_goals rfl

private theorem carried_handOver (s : State ε) (target : Status) (here : Context ε) (next : Int) (rest : List Int)
    (tid : Int) : carried (s.handOver target here next rest) tid = carried s tid := by
  have chosen : carried ((s.tick.leave target).dispatch next rest) tid = carried s tid := by
    rw [State.dispatch, carried_withStatus]
    exact (carried_leave ..).trans (carried_tick ..)
  rw [← chosen]
  simp only [State.handOver]
  split
  · exact carried_started ..
  · exact (carried_started ..).trans (carried_saved ..)

private theorem carried_enroll (s : State ε) (tid other : Int) (entryPoint : ε) :
    carried (s.enroll tid entryPoint) other = if other = tid ∧ ¬ s.live tid then some tid else carried s other := by
  simp only [carried, State.enroll, State.emplaceThread, State.live]
  obtain found | ⟨thread, found⟩ := Option.eq_none_or_eq_some (s.allThreads tid)
  · by_cases same : other = tid <;> simp [found, same, UThread.spawned]
  · simp [found]

private theorem Branch.filed {op : Op ε} {next : Next} (branch : Branch s op next s') (filed : Filed s) : Filed s' := by
  rw [filed_iff] at filed ⊢
  intro tid present
  cases branch with
  | @spawn new entryPoint least =>
    rw [carried_enroll]
    split
    next both => rw [both.1]
    next other =>
      apply filed
      rw [State.live_iff_status, State.status_enroll, if_neg other] at present
      exact State.live_iff_status.mpr present
  | terminateRunning | terminateReady | terminateBlocked | terminateRest =>
    obtain ⟨away, present⟩ := (State.live_remove ..).mp present
    exact (carried_remove s away).trans (filed tid present)
  | blockReady | resumeBlocked =>
    rw [carried_withStatus]
    exact filed tid ((State.live_withStatus ..).mp present)
  | @sleep numQuantums =>
    change carried (s.withStatus s.runningTid .asleep) tid = _
    rw [carried_withStatus]
    exact filed tid ((State.live_withStatus ..).mp present)
  | _ => exact filed tid present

theorem Initialized.filed (initialized : Initialized s) : Filed s := by
  obtain ⟨quantumUsecs, here, mask, done⟩ := initialized
  intro tid thread found
  rw [(uthreadInit_main done).1] at found
  by_cases zero : tid = 0
  · subst zero
    cases found
    rfl
  · simp [zero] at found

theorem Step.filed {op : Op ε} {here : Context ε} {reply : Reply} (step : Step s here op reply s') (filed : Filed s) :
    Filed s' := by
  cases step with
  | fails => exact filed
  | finishes branch => exact branch.filed (s := blockVtAlarm s) filed
  | switches branch =>
    have kept := filed_iff.mp (branch.filed (s := blockVtAlarm s) filed)
    rw [filed_iff]
    intro tid present
    rw [carried_handOver]
    exact kept tid ((State.live_handOver ..).mp present)
  | getTid | getTotalQuantums => exact filed

end filed

section spawning

private theorem leastFree (sound : Sound s) {tid : Int} (least : s.freeIds.toList.head? = some tid) :
    LeastFree s tid := by
  obtain ⟨range, dead⟩ := sound.mem_freeIds.mp (least_free least)
  have other : tid ≠ 0 := fun zero => dead (zero ▸ sound.main)
  refine ⟨⟨by omega, range.2⟩, dead, fun below low less => ?_⟩
  by_contra gone
  have available := ((sound.ids below).mpr ⟨by omega, by omega⟩).resolve_left gone
  rw [← Std.ExtTreeSet.min?_eq_head?_toList, Std.ExtTreeSet.min?_eq_some_iff_mem_and_forall] at least
  have bound := Std.isLE_compare.mp (least.2 below available)
  omega

private theorem alive_full (sound : Sound s) : (s.alive : Int) = maxThreadNum ↔ s.freeIds.toList = [] := by
  rw [← length_allIds, Int.natCast_inj, State.alive, List.length_filter_eq_length_iff, List.eq_nil_iff_forall_not_mem]
  simp only [decide_eq_true_eq, mem_allIds, Std.ExtTreeSet.mem_toList]
  constructor
  · intro all tid free
    obtain ⟨range, dead⟩ := sound.mem_freeIds.mp free
    exact dead (all tid range)
  · exact fun none tid range => ((sound.ids tid).mpr range).resolve_right (none tid)

private theorem enrolled (s : State ε) {tid : Int} (dead : ¬ s.live tid) (entryPoint : ε) :
    Enrolled s (unblockVtAlarm ((blockVtAlarm s).enroll tid entryPoint)) tid := by
  have missing : ¬ (blockVtAlarm s).live tid := dead
  refine ⟨State.readyTids_enroll .., ?_, ?_, fun other present => ?_, State.runningTid_enroll ..⟩
  · exact (State.quantums_enroll ..).trans (if_pos ⟨rfl, missing⟩)
  · exact (State.status_enroll ..).trans (if_pos ⟨rfl, missing⟩)
  · have none : (blockVtAlarm s).allThreads tid = none := by simpa [State.live] using missing
    have different : other ≠ tid := fun same => dead (same ▸ present)
    simp only [State.enroll, State.emplaceThread, unblockVtAlarm, none]
    exact Function.update_of_ne different ..

private theorem spawn_call (s : State ε) (entryPoint : ε) (here : Context ε) :
    (Op.spawn (some entryPoint)).call here s = .ok (match s.freeIds.toList.head? with
      | none => (.fails (libraryErr ++ maxThreadsErr), blockVtAlarm s)
      | some tid => (.returns tid, unblockVtAlarm ((blockVtAlarm s).enroll tid entryPoint))) := by
  cases least : s.freeIds.toList.head? with
  | none =>
    have branch : Branch (blockVtAlarm s) (.spawn (some entryPoint)) _ _ := .spawnFull least
    have body := body_of_branch branch
    simp [Op.call, maskedCall, body]
  | some tid =>
    have branch : Branch (blockVtAlarm s) (.spawn (some entryPoint)) _ _ := .spawn least
    have body := body_of_branch branch
    have read : (Returned.newThread tid).eval (unblockVtAlarm ((blockVtAlarm s).enroll tid entryPoint)) = .ok tid :=
      eval_newThread.mpr (State.live_enroll_self ..)
    simp [Op.call, maskedCall, body, read]

end spawning

section refilling

private theorem free_sorted (s : State ε) : s.freeIds.toList.Pairwise (· < ·) :=
  s.freeIds.ordered_toList.imp compare_lt_iff_lt.mp

private theorem toList_erase_head {free : Std.ExtTreeSet Int} {tid : Int} {rest : List Int}
    (list : free.toList = tid :: rest) : (free.erase tid).toList = rest := by
  have sorted : (tid :: rest).Pairwise (· < ·) := list ▸ free.ordered_toList.imp compare_lt_iff_lt.mp
  apply ((free.erase tid).ordered_toList.imp compare_lt_iff_lt.mp).eq_of_mem_iff sorted.of_cons
  intro other
  rw [Std.ExtTreeSet.mem_toList, Std.ExtTreeSet.mem_erase, ← Std.ExtTreeSet.mem_toList (t := free), list,
    List.mem_cons, ne_eq, Std.compare_eq_iff_eq]
  have away := (List.pairwise_cons.mp sorted).1 other
  grind

private theorem Branch.free_kept {op : Op ε} {next : Next} (branch : Branch s op next s')
    (keeps : ∀ tid, op ≠ .terminate tid) (other : ∀ entryPoint, op ≠ .spawn (some entryPoint)) :
    s'.freeIds = s.freeIds := by
  cases branch with
  | spawn => exact absurd rfl (other _)
  | terminateRunning | terminateReady | terminateBlocked | terminateRest => exact absurd rfl (keeps _)
  | _ => rfl

private theorem Step.free_kept {op : Op ε} {here : Context ε} {reply : Reply} (step : Step s here op reply s')
    (keeps : ∀ tid, op ≠ .terminate tid) (other : ∀ entryPoint, op ≠ .spawn (some entryPoint)) :
    s'.freeIds = s.freeIds := by
  cases step with
  | finishes branch => exact branch.free_kept keeps other
  | switches branch => exact (State.freeIds_handOver ..).trans (branch.free_kept keeps other)
  | fails | getTid | getTotalQuantums => rfl

private theorem refill_step {event : Event ε} (sound : Sound s) (taken : Takes s event s')
    (keeps : ∀ tid, event.op ≠ .terminate tid) :
    match spawned ⟨s, event, s'⟩ with
    | none => s'.freeIds = s.freeIds
    | some value => ∀ tid rest, s.freeIds.toList = tid :: rest → value = tid ∧ s'.freeIds.toList = rest := by
  obtain ⟨op, here, reply⟩ := event
  have kept := (step_of_call sound taken).free_kept keeps
  cases op with
  | spawn entryPoint =>
    cases entryPoint with
    | none => exact kept fun _ same => by cases same
    | some entryPoint =>
      have call := spawn_call s entryPoint here
      cases least : s.freeIds.toList.head? with
      | none =>
        rw [least] at call
        cases taken.symm.trans call
        simp only [spawned]
        intro tid rest list
        simp [list] at least
      | some first =>
        rw [least] at call
        cases taken.symm.trans call
        simp only [spawned, Reply.value]
        intro tid rest list
        rw [list] at least
        cases least
        exact ⟨rfl, (congrArg Std.ExtTreeSet.toList (State.freeIds_enroll ..)).trans (toList_erase_head list)⟩
  | _ => exact kept fun _ same => by cases same

/-- Along a run that terminates nobody the spawns use up the free ids from the
smallest one on. -/
private theorem refill {history : History ε} (sound : Sound start) (run : Run Takes start history final)
    (keeps : ∀ move ∈ history, ∀ tid, move.label.op ≠ .terminate tid)
    (enough : (history.filterMap spawned).length ≤ start.freeIds.toList.length) :
    start.freeIds.toList = history.filterMap spawned ++ final.freeIds.toList := by
  induction run with
  | start => rfl
  | @next history state event final run taken ih =>
    have earlier := fun move member => keeps move (List.mem_append_left _ member)
    rw [List.filterMap_append, List.length_append] at enough
    have used := ih earlier (by omega)
    have last := refill_step (run_sound sound run) taken (keeps ⟨state, event, final⟩ (by simp))
    rw [List.filterMap_append, used, List.append_assoc]
    congr 1
    cases value : spawned ⟨state, event, final⟩ with
    | none =>
      simp only [value] at last
      simp [value, last]
    | some tid =>
      simp only [value] at last
      simp only [List.filterMap_cons, value, List.filterMap_nil, List.length_singleton] at enough ⊢
      cases left : state.freeIds.toList with
      | nil =>
        rw [used, left, List.append_nil] at enough
        omega
      | cons first rest =>
        obtain ⟨rfl, list⟩ := last first rest left
        rw [list]
        rfl

end refilling

section emptying

private theorem Branch.live_iff {op : Op ε} {next : Next} (branch : Branch s op next s') (tid : Int)
    (other : ∀ entryPoint, op ≠ .spawn (some entryPoint)) : s'.live tid ↔ s.live tid ∧ op ≠ .terminate tid := by
  have stays : ∀ {s'' : State ε}, (s''.live tid ↔ s.live tid) → op ≠ .terminate tid →
      (s''.live tid ↔ s.live tid ∧ op ≠ .terminate tid) := fun same away => same.trans (and_iff_left away).symm
  cases branch with
  | spawn => exact absurd rfl (other _)
  | terminateRunning | terminateReady | terminateBlocked | terminateRest =>
    apply (State.live_remove ..).trans
    rw [and_comm]
    exact and_congr_right fun _ => not_congr ⟨fun same => same ▸ rfl, fun same => (Op.terminate.inj same).symm⟩
  | @terminateMissing gone _ missing =>
    have dead := State.status_eq_none.mp missing
    exact ⟨fun present => ⟨present, fun same => dead (Op.terminate.inj same ▸ present)⟩, And.left⟩
  | blockReady | resumeBlocked | sleep => exact stays (State.live_withStatus ..) (by simp)
  | _ => exact stays Iff.rfl (by simp)

private theorem Step.live_iff {op : Op ε} {here : Context ε} {reply : Reply} (step : Step s here op reply s') (tid : Int)
    (other : ∀ entryPoint, op ≠ .spawn (some entryPoint)) : s'.live tid ↔ s.live tid ∧ op ≠ .terminate tid := by
  cases step with
  | fails branch => exact branch.live_iff tid other
  | finishes branch => exact branch.live_iff tid other
  | switches branch => exact (State.live_handOver ..).trans (branch.live_iff tid other)
  | getTid | getTotalQuantums => simp

private theorem Step.refused_iff {tid : Int} {here : Context ε} {reply : Reply}
    (step : Step s here (.terminate tid) reply s') : reply.value ≠ some failure ↔ s.live tid := by
  have done : (some success : Option Int) ≠ some failure := by decide
  cases step with
  | fails branch =>
    cases branch with
    | terminateMissing other missing => exact iff_of_false (fun other => other rfl) (State.status_eq_none.mp missing)
  | finishes branch stays read =>
    cases branch with
    | terminateReady other found | terminateBlocked other found | terminateRest other found =>
      cases read
      exact iff_of_true done (State.live_iff_status.mpr ⟨_, found⟩)
  | switches branch =>
    cases branch with
    | terminateRunning other found => exact iff_of_true (by simp [Reply.value]) (State.live_iff_status.mpr ⟨_, found⟩)

private theorem live_after {history : History ε} (sound : Sound start) (run : Run Takes start history final)
    (closed : ∀ move ∈ history, ∀ entryPoint, move.label.op ≠ .spawn (some entryPoint)) (tid : Int) :
    (final.live tid ↔ start.live tid ∧ ¬ ∃ move ∈ history, Terminates tid move) ∧
      ((∃ move ∈ history, Terminates tid move) → start.live tid) := by
  induction run with
  | start => simp
  | @next history state event final run taken ih =>
    obtain ⟨present, before⟩ := ih fun move member => closed move (List.mem_append_left _ member)
    obtain ⟨op, here, reply⟩ := event
    have step := step_of_call (run_sound sound run) taken
    have now : final.live tid ↔ state.live tid ∧ op ≠ .terminate tid :=
      step.live_iff tid (closed ⟨state, ⟨op, here, reply⟩, final⟩ (by simp))
    have ended : Terminates tid ⟨state, ⟨op, here, reply⟩, final⟩ ↔ op = .terminate tid ∧ state.live tid := by
      apply and_congr_right
      rintro rfl
      exact step.refused_iff
    simp only [List.mem_append, List.mem_singleton, or_and_right, exists_or, exists_eq_left, ended]
    refine ⟨now.trans ⟨?_, ?_⟩, ?_⟩
    · rintro ⟨live, away⟩
      obtain ⟨live, spared⟩ := present.mp live
      exact ⟨live, fun either => either.elim spared fun now => away now.1⟩
    · rintro ⟨live, spared⟩
      have still := present.mpr ⟨live, fun ended => spared (.inl ended)⟩
      exact ⟨still, fun same => spared (.inr ⟨same, still⟩)⟩
    · rintro (ended | ⟨-, live⟩)
      · exact before ended
      · exact (present.mp live).1

end emptying

/-- After every history a spawn takes the least id that is not in use and fails
only when all are. So the ids that a full table gives back are handed out again
in increasing order. -/
theorem ids_allocated {history : History ε} (initialized : Initialized start) (run : Run Takes start history final) :
    (∀ entryPoint here, ∃ reply s', (Op.spawn (some entryPoint)).call here final = .ok (reply, s') ∧
      (reply.value = some failure ↔ (final.alive : Int) = maxThreadNum) ∧
      ((final.alive : Int) ≠ maxThreadNum →
        ∃ tid, reply = .returns tid ∧ LeastFree final tid ∧ Enrolled final s' tid)) ∧
    (∀ a b one two, final.allThreads a = some one → final.allThreads b = some two → one.tid = two.tid → a = b) ∧
    ∀ ending emptied refilling refilled, ∀ gone : List Int, (final.alive : Int) = maxThreadNum →
      Run Takes final ending emptied → (∀ move ∈ ending, ∀ entryPoint, move.label.op ≠ .spawn (some entryPoint)) →
      Run Takes emptied refilling refilled → (∀ move ∈ refilling, ∀ tid, move.label.op ≠ .terminate tid) →
      gone.Pairwise (· < ·) → (∀ tid, tid ∈ gone ↔ ∃ move ∈ ending, Terminates tid move) →
      (refilling.filterMap spawned).length ≤ gone.length →
      refilling.filterMap spawned = gone.take (refilling.filterMap spawned).length := by
  have sound := run_sound initialized.sound run
  refine ⟨fun entryPoint here => ?_, fun a b one two first second same => ?_, ?_⟩
  · cases least : final.freeIds.toList.head? with
    | none =>
      have call := spawn_call final entryPoint here
      rw [least] at call
      have full := (alive_full sound).mpr (List.head?_eq_none_iff.mp least)
      exact ⟨_, _, call, iff_of_true rfl full, absurd full⟩
    | some tid =>
      have call := spawn_call final entryPoint here
      rw [least] at call
      have free := leastFree sound least
      have notFull : (final.alive : Int) ≠ maxThreadNum := fun full => by
        simp [(alive_full sound).mp full] at least
      have positive : some tid ≠ some failure := fun same => by
        have := free.range.1
        cases same
        simp [failure] at this
      exact ⟨_, _, call, iff_of_false positive notFull,
        fun _ => ⟨tid, rfl, free, enrolled final free.free entryPoint⟩⟩
  · have filed : Filed final := by
      have both := run.invariant (fun _ => True) (fun _ _ => trivial) (fun s => Sound s ∧ Filed s)
        ⟨initialized.sound, initialized.filed⟩ fun move _ taken valid =>
          have step := step_of_call valid.1 taken
          ⟨step.sound valid.1, step.filed valid.2⟩
      exact both.2
    rw [← filed a one first, same, filed b two second]
  · intro ending emptied refilling refilled gone full ends closed refills keeps sorted all enough
    have later := run_sound sound ends
    have same : emptied.freeIds.toList = gone := by
      apply (free_sorted emptied).eq_of_mem_iff sorted
      intro tid
      rw [Std.ExtTreeSet.mem_toList, all, later.mem_freeIds]
      obtain ⟨present, before⟩ := live_after sound ends closed tid
      have none := (alive_full sound).mp full
      have used : tid ∉ final.freeIds := by
        rw [← Std.ExtTreeSet.mem_toList, none]
        exact List.not_mem_nil
      constructor
      · rintro ⟨range, dead⟩
        have live := ((sound.ids tid).mpr range).resolve_right used
        by_contra spared
        exact dead (present.mpr ⟨live, spared⟩)
      · intro ended
        have range := (sound.ids tid).mp (.inl (before ended))
        exact ⟨range, fun live => (present.mp live).2 ended⟩
    have used := refill later refills keeps (same ▸ enough)
    rw [same] at used
    rw [used, List.take_left]

/-- A full table gives up thread 7 and then thread 3, which come back as 3 and 7. -/
theorem ids_allocated_full_table : ∃ (final : State Unit) (refilling : History Unit),
    (final.alive : Int) = maxThreadNum ∧ refilling.filterMap spawned = [3, 7] := by
  obtain ⟨history, final, run, tested⟩ := perform_tested booted (List.replicate 99 (.spawn (some ()), ⟨0, ()⟩))
    (fun _ final => (final.alive : Int) = maxThreadNum ∧
      (perform final [(.terminate 7, ⟨0, ()⟩), (.terminate 3, ⟨0, ()⟩)]).any fun ended =>
        ended.1.map (fun move => (move.label.op, move.label.reply.value)) =
          [(.terminate 7, some success), (.terminate 3, some success)] ∧
        (perform ended.2 [(.spawn (some ()), ⟨0, ()⟩), (.spawn (some ()), ⟨0, ()⟩)]).any fun refilled =>
          refilled.1.map (fun move => move.label.op) = [.spawn (some ()), .spawn (some ())] ∧
            (refilled.1.filterMap spawned).length = 2)
    (by decide +kernel)
  obtain ⟨full, tested⟩ := of_decide_eq_true tested
  obtain ⟨⟨ending, emptied⟩, ends, tested⟩ := (Option.any_eq_true _ _).mp tested
  obtain ⟨ended, tested⟩ := of_decide_eq_true tested
  obtain ⟨⟨refilling, refilled⟩, refills, tested⟩ := (Option.any_eq_true _ _).mp tested
  obtain ⟨ops, length⟩ := of_decide_eq_true tested
  have enders : ∀ move ∈ ending, (move.label.op, move.label.reply.value) ∈
      ([(.terminate 7, some success), (.terminate 3, some success)] : List (Op Unit × Option Int)) :=
    fun move member => ended ▸ List.mem_map_of_mem member
  have spawns : ∀ move ∈ refilling, move.label.op = .spawn (some ()) := by
    intro move member
    have listed := List.mem_map_of_mem (f := fun move => move.label.op) member
    rw [ops] at listed
    simpa using listed
  have all : ∀ tid, tid ∈ [3, 7] ↔ ∃ move ∈ ending, Terminates tid move := by
    intro tid
    have pairs : (∃ pair ∈ ending.map fun move => (move.label.op, move.label.reply.value),
        pair.1 = .terminate tid ∧ pair.2 ≠ some failure) ↔ ∃ move ∈ ending, Terminates tid move := by
      simp [Terminates]
    rw [← pairs, ended]
    simp [success, failure, or_comm, eq_comm]
  have order := (ids_allocated booted_initialized run).2.2 _ _ _ _ [3, 7] full (perform_run ends)
    (fun move member entryPoint same => by simpa [same] using enders move member) (perform_run refills)
    (fun move member tid same => by simpa [same] using spawns move member) (by decide) all length.le
  exact ⟨final, refilling, full, by rwa [length] at order⟩

end Uthreads
