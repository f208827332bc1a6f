import Mathlib.Algebra.BigOperators.Group.Finset.Basic
import Mathlib.Algebra.BigOperators.Group.Finset.Piecewise
import Mathlib.Algebra.Ring.Nat
import Uthreads.Model.Specification
import Uthreads.Proofs.Runs

/-! Every quantum is charged once, to the thread that starts it. The counts of
terminated threads are kept by the history, for the code forgets them. -/

namespace Uthreads
open Transition

variable {ε : Type} {s s' start final : State ε}

def Op.removes (op : Op ε) (tid : Int) : Bool :=
  match op with
  | .terminate other => other = tid
  | _ => false

def State.charged (s : State ε) : Nat := ∑ tid ∈ allIds.toFinset, (s.quantums tid).getD 0

def buried (move : Move (State ε) (Event ε)) : Nat :=
  match move.label.op with
  | .terminate tid => (move.before.quantums tid).getD 0
  | _ => 0

def HasRun (start : State ε) (history : History ε) (tid : Int) : Prop :=
  ∃ first last, history = first ++ last ∧ (first.foldl (fun _ move => move.after) start).runningTid = tid ∧
    ∀ move ∈ last, move.label.op.removes tid = false

structure Charged (move : Move (State ε) (Event ε)) : Prop where
  total : move.after.totalQuantums = move.before.totalQuantums + if switched move = true then 1 else 0
  count : ∀ tid, move.before.live tid → move.label.op.removes tid = false →
    move.after.quantums tid = (move.before.quantums tid).map
      (· + if switched move = true ∧ tid = move.after.runningTid then 1 else 0)

/-- The count of one thread between the call and the switch, if there is one:
gone, created as zero, or as it was. -/
structure Recount (op : Op ε) (s : State ε) (tid : Int) (count : Option Nat) : Prop where
  removed : op.removes tid = true → count = none
  kept : op.removes tid = false → count = s.quantums tid ∨ s.quantums tid = none ∧ count = some 0

private theorem Recount.same {op : Op ε} {tid : Int} {count : Option Nat} (keeps : op.removes tid = false)
    (same : count = s.quantums tid) : Recount op s tid count :=
  ⟨fun removes => by simp [keeps] at removes, fun _ => .inl same⟩

private theorem Recount.remove (other tid : Int) {count : Option Nat} (same : count = (s.remove other).quantums tid) :
    Recount (.terminate other) s tid count := by
  rw [State.quantums_remove] at same
  constructor
  · intro removes
    rw [same, if_pos (of_decide_eq_true removes).symm]
  · intro keeps
    exact .inl (by rw [same, if_neg (Ne.symm (of_decide_eq_false keeps))])

private theorem Branch.recount {op : Op ε} {next : Next} (sound : Sound s) (branch : Branch s op next s') (tid : Int) :
    Recount op s tid (s'.quantums tid) := by
  cases branch with
  | @spawn new entryPoint least =>
    have fresh : ¬ s.live new := fun present => sound.disjoint new present (least_free least)
    refine ⟨fun removes => (by cases removes), fun _ => ?_⟩
    rw [State.quantums_enroll]
    by_cases same : tid = new
    · exact .inr ⟨State.quantums_eq_none.mpr (same ▸ fresh), if_pos ⟨same, fresh⟩⟩
    · exact .inl (if_neg fun both => same both.1)
  | terminateRunning | terminateReady | terminateBlocked | terminateRest => exact .remove _ tid rfl
  | @terminateMissing gone other missing =>
    refine ⟨fun removes => ?_, fun _ => .inl rfl⟩
    rw [← of_decide_eq_true removes]
    exact State.quantums_eq_none.mpr (State.status_eq_none.mp missing)
  | blockReady | resumeBlocked => exact .same rfl (State.quantums_withStatus ..)
  | @sleep numQuantums => exact .same rfl (State.quantums_doze s tid numQuantums)
  | _ => exact .same rfl rfl

/-- A switch adds one to the count of the thread it dispatches; apart from this
a call only deletes or creates. -/
theorem Step.recount {op : Op ε} {here : Context ε} {reply : Reply} (step : Step s here op reply s')
    (sound : Sound s) (tid : Int) : ∃ count, Recount op s tid count ∧ s'.quantums tid =
      count.map (· + if op.switching s = true ∧ tid = s'.runningTid then 1 else 0) := by
  have masked : Sound (blockVtAlarm s) := sound.frame (fun _ => rfl) rfl rfl rfl
  cases step with
  | fails branch stays =>
    have recount := branch.recount masked tid
    exact ⟨_, ⟨recount.removed, recount.kept⟩, by simp [stays]⟩
  | @finishes _ _ _ middle branch stays =>
    have recount := branch.recount masked tid
    exact ⟨middle.quantums tid, ⟨recount.removed, recount.kept⟩, by simp [stays]; rfl⟩
  | @switches _ target middle next rest branch leaves =>
    have recount := branch.recount masked tid
    refine ⟨middle.quantums tid, ⟨recount.removed, recount.kept⟩, ?_⟩
    rw [State.quantums_handOver, State.runningTid_handOver]
    by_cases dispatched : tid = next <;> simp [leaves, dispatched]
  | getTid | getTotalQuantums => exact ⟨_, .same rfl rfl, by simp [Op.switching, Op.body]⟩

theorem Step.total {op : Op ε} {here : Context ε} {reply : Reply} (step : Step s here op reply s')
    (sound : Sound s) : s'.totalQuantums = s.totalQuantums + if op.switching s = true then 1 else 0 := by
  cases kind : op.switching s with
  | false => simpa using (step.stays sound kind).total
  | true =>
    obtain ⟨target, middle, next, rest, branch, -, -, -, rfl⟩ := step.leaves kind
    rw [State.totalQuantums_handOver]
    cases branch <;> rfl

theorem Step.charged {op : Op ε} {here : Context ε} {reply : Reply} (step : Step s here op reply s')
    (sound : Sound s) : Charged ⟨s, ⟨op, here, reply⟩, s'⟩ := by
  refine ⟨step.total sound, fun tid present keeps => ?_⟩
  obtain ⟨count, recount, charged⟩ := step.recount sound tid
  rcases recount.kept keeps with same | ⟨missing, -⟩
  · exact same ▸ charged
  · exact absurd present (State.quantums_eq_none.mp missing)

private theorem quantums_range (sound : Sound s) {tid : Int} (outside : tid ∉ allIds.toFinset) :
    s.quantums tid = none :=
  State.quantums_eq_none.mpr fun present => outside (List.mem_toFinset.mpr (mem_allIds.mpr ((sound.ids tid).mp (.inl present))))

private theorem Step.getD_quantums {op : Op ε} {here : Context ε} {reply : Reply} (step : Step s here op reply s')
    (sound : Sound s) (tid : Int) :
    (s'.quantums tid).getD 0 + (if op.removes tid = true then (s.quantums tid).getD 0 else 0) =
      (s.quantums tid).getD 0 + if op.switching s = true ∧ tid = s'.runningTid then 1 else 0 := by
  obtain ⟨count, recount, charged⟩ := step.recount sound tid
  have dispatched : count = none → ¬ (op.switching s = true ∧ tid = s'.runningTid) := by
    rintro rfl ⟨-, rfl⟩
    exact State.quantums_eq_none.mp charged (step.sound sound).running_live
  cases removes : op.removes tid with
  | true =>
    have none := recount.removed removes
    simp [charged, none, dispatched none]
  | false =>
    rcases recount.kept removes with same | ⟨missing, rfl⟩
    · cases count with
      | none => simp [charged, ← same, dispatched rfl]
      | some count => simp [charged, ← same]
    · simp [charged, missing]

theorem Step.conserves {op : Op ε} {here : Context ε} {reply : Reply} (step : Step s here op reply s')
    (sound : Sound s) : s'.charged + buried ⟨s, ⟨op, here, reply⟩, s'⟩ =
      s.charged + if op.switching s = true then 1 else 0 := by
  have deleted : ∑ tid ∈ allIds.toFinset, (if op.removes tid = true then (s.quantums tid).getD 0 else 0) =
      buried ⟨s, ⟨op, here, reply⟩, s'⟩ := by
    cases op with
    | terminate gone =>
      simp only [Op.removes, decide_eq_true_eq, Finset.sum_ite_eq, buried]
      split
      next => rfl
      next outside => rw [quantums_range sound outside]; rfl
    | _ => simp [Op.removes, buried]
  have started : ∑ tid ∈ allIds.toFinset, (if op.switching s = true ∧ tid = s'.runningTid then 1 else 0) =
      if op.switching s = true then 1 else 0 := by
    have sound' := step.sound sound
    have inside : s'.runningTid ∈ allIds.toFinset :=
      List.mem_toFinset.mpr (mem_allIds.mpr ((sound'.ids _).mp (.inl sound'.running_live)))
    cases op.switching s with
    | false => simp
    | true => simp only [true_and, Finset.sum_ite_eq', inside, if_true]
  rw [← deleted, ← started, State.charged, State.charged, ← Finset.sum_add_distrib, ← Finset.sum_add_distrib]
  exact Finset.sum_congr rfl fun tid _ => step.getD_quantums sound tid

section run

private theorem hasRun_concat {history : History ε} {move : Move (State ε) (Event ε)} {tid : Int} :
    HasRun start (history ++ [move]) tid ↔
      move.after.runningTid = tid ∨ HasRun start history tid ∧ move.label.op.removes tid = false := by
  constructor
  · rintro ⟨first, last, same, running, kept⟩
    rcases List.eq_nil_or_concat last with rfl | ⟨rest, final, rfl⟩
    · rw [List.append_nil] at same
      subst same
      exact .inl (by simpa using running)
    · rw [List.concat_eq_append, ← List.append_assoc] at same
      obtain ⟨rfl, single⟩ := List.append_inj' same rfl
      cases single
      exact .inr ⟨⟨first, rest, rfl, running, fun move member => kept move (by simp [member])⟩, kept _ (by simp)⟩
  · rintro (running | ⟨⟨first, last, rfl, running, kept⟩, keeps⟩)
    · exact ⟨history ++ [move], [], by simp, by simpa using running, by simp⟩
    · refine ⟨first, last ++ [move], by simp, running, fun other member => ?_⟩
      rcases List.mem_append.mp member with member | member
      · exact kept other member
      · exact (List.mem_singleton.mp member) ▸ keeps

private theorem run_reaches {history : History ε} (run : Run Takes start history final) :
    history.foldl (fun _ move => move.after) start = final := by
  cases run with
  | start => rfl
  | next => simp

private theorem hasRun_iff {history : History ε} (initialized : Initialized start)
    (run : Run Takes start history final) (tid : Int) :
    HasRun start history tid ↔ ∃ count, final.quantums tid = some (count + 1) := by
  induction run with
  | start =>
    have fresh := initialized.fresh
    have begins : HasRun start [] tid ↔ start.runningTid = tid := by
      constructor
      · rintro ⟨first, last, same, running, -⟩
        obtain ⟨rfl, rfl⟩ := List.append_eq_nil_iff.mp same.symm
        exact running
      · exact fun running => ⟨[], [], rfl, running, by simp⟩
    rw [begins, fresh.running, fresh.quantums]
    by_cases zero : tid = 0 <;> simp [zero, eq_comm]
  | @next history state event final run taken ih =>
    have sound := run_sound initialized.sound run
    have step := step_of_call sound taken
    obtain ⟨count, recount, charged⟩ := step.recount sound tid
    have current : state.runningTid = tid → HasRun start history tid := fun running =>
      ⟨history, [], by simp, (congrArg State.runningTid (run_reaches run)).trans running, by simp⟩
    rw [hasRun_concat, ih, charged]
    change final.runningTid = tid ∨ _ ∧ event.op.removes tid = false ↔ _
    cases removes : event.op.removes tid with
    | true =>
      have none := recount.removed removes
      have elsewhere : final.runningTid ≠ tid := by
        rintro rfl
        rw [none] at charged
        exact State.quantums_eq_none.mp charged (step.sound sound).running_live
      simp [none, elsewhere]
    | false =>
      have dispatched : final.runningTid = tid →
          (∃ count, state.quantums tid = some (count + 1)) ∨ event.op.switching state = true ∧ tid = final.runningTid := by
        intro running
        cases kind : event.op.switching state with
        | false => exact .inl (ih.mp (current ((step.stays sound kind).running.symm.trans running)))
        | true => exact .inr ⟨rfl, running.symm⟩
      have alive : final.runningTid = tid → count ≠ none := by
        rintro rfl none
        rw [none] at charged
        exact State.quantums_eq_none.mp charged (step.sound sound).running_live
      by_cases running : final.runningTid = tid
      · apply iff_of_true (.inl running)
        rcases dispatched running with ⟨old, found⟩ | charge
        · rcases recount.kept removes with rfl | ⟨missing, -⟩
          · exact ⟨old + if event.op.switching state = true ∧ tid = final.runningTid then 1 else 0, by
              rw [found, Option.map_some]; exact congrArg some (by omega)⟩
          · simp [missing] at found
        · obtain ⟨old, rfl⟩ := Option.ne_none_iff_exists'.mp (alive running)
          exact ⟨old, by rw [if_pos charge]; rfl⟩
      · rw [if_neg fun charge => running charge.2.symm]
        rcases recount.kept removes with rfl | ⟨missing, rfl⟩
        · cases state.quantums tid <;> simp [running]
        · simp [running, missing]

end run

/-- The total counts the switches, it is the sum of the counts of all threads
there ever were, each switch is charged to the thread it dispatches, and a live
thread's count is zero until it runs. -/
theorem quantum_accounting {history : History ε} (initialized : Initialized start)
    (run : Run Takes start history final) :
    final.totalQuantums = 1 + switches history ∧
      final.totalQuantums = final.charged + (history.map buried).sum ∧
      (∀ move ∈ history, Charged move) ∧
      ∀ tid, final.live tid → (final.quantums tid = some 0 ↔ ¬ HasRun start history tid) := by
  have begins : start.totalQuantums = 1 ∧ start.charged = 1 := by
    have fresh := initialized.fresh
    refine ⟨fresh.total, ?_⟩
    have single : ∀ tid ∈ allIds.toFinset, (start.quantums tid).getD 0 = if tid = 0 then 1 else 0 := by
      intro tid _
      rw [fresh.quantums]
      split <;> rfl
    rw [State.charged, Finset.sum_congr rfl single, Finset.sum_ite_eq']
    exact if_pos (List.mem_toFinset.mpr (mem_allIds.mpr (by decide)))
  have totals : final.totalQuantums = 1 + switches history ∧
      final.charged + (history.map buried).sum = 1 + switches history ∧ ∀ move ∈ history, Charged move := by
    induction run with
    | start => simp [begins]
    | @next history state event final run taken ih =>
      obtain ⟨total, sum, charged⟩ := ih
      have sound := run_sound initialized.sound run
      have step := step_of_call sound taken
      have conserves : final.charged + buried ⟨state, event, final⟩ = _ := step.conserves sound
      have grows := step.total sound
      rw [switches_concat, List.map_append, List.sum_append]
      simp only [List.map_cons, List.map_nil, List.sum_cons, List.sum_nil]
      refine ⟨by omega, by omega, fun move member => ?_⟩
      rcases List.mem_append.mp member with member | member
      · exact charged move member
      · exact (List.mem_singleton.mp member) ▸ step.charged sound
  obtain ⟨total, sum, charged⟩ := totals
  refine ⟨total, by omega, charged, fun tid present => ?_⟩
  have found : final.quantums tid ≠ none := fun none => State.quantums_eq_none.mp none present
  rw [hasRun_iff initialized run]
  cases quantums : final.quantums tid with
  | none => exact absurd quantums found
  | some count => cases count <;> simp

/-- Thread 1 runs one quantum and terminates itself: of the three quantums two
are charged to main and one is buried. -/
theorem quantum_accounting_self_termination : ∃ (history : History Unit) (final : State Unit),
    Run Takes booted history final ∧ final.charged = 2 ∧ (history.map buried).sum = 1 ∧
      final.totalQuantums = 1 + switches history ∧ final.totalQuantums = 2 + 1 ∧ (∀ move ∈ history, Charged move) ∧
      HasRun booted history 0 := by
  obtain ⟨history, final, run, tested⟩ := perform_tested booted
    [(.spawn (some ()), ⟨0, ()⟩), (.preempt, ⟨0, ()⟩), (.terminate 1, ⟨1, ()⟩)]
    (fun history final => final.charged = 2 ∧ final.live 0 ∧ final.quantums 0 ≠ some 0 ∧
      (history.map buried).sum = 1) (by decide +kernel)
  obtain ⟨living, present, positive, deleted⟩ := of_decide_eq_true tested
  obtain ⟨counted, total, charged, hasRun⟩ := quantum_accounting booted_initialized run
  refine ⟨history, final, run, living, deleted, counted, by omega, charged, ?_⟩
  by_contra never
  exact positive ((hasRun 0 present).mpr never)

end Uthreads
