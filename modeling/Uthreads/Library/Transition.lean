import Mathlib.Data.List.Basic

/-! Finite runs of a labelled transition relation. A run keeps the transitions
it took, so that a property of a history can count them or quantify over them. -/

namespace Transition

universe u v w x

structure Move (σ : Type u) (α : Type v) where
  before : σ
  label : α
  after : σ

variable {σ : Type u} {α : Type v} {τ : Type w} {β : Type x}

inductive Run (step : σ → α → σ → Prop) (start : σ) : List (Move σ α) → σ → Prop where
  | start : Run step start [] start
  | next {trace : List (Move σ α)} {state : σ} {label : α} {final : σ}
      (run : Run step start trace state) (taken : step state label final) :
      Run step start (trace ++ [⟨state, label, final⟩]) final

namespace Run

variable {step : σ → α → σ → Prop} {start middle final : σ} {trace first last : List (Move σ α)}

theorem single {label : α} (taken : step start label final) : Run step start [⟨start, label, final⟩] final :=
  .next .start taken

theorem nil_eq (run : Run step start [] final) : start = final := by
  generalize same : ([] : List (Move σ α)) = trace at run
  cases run with
  | start => rfl
  | next => exact nomatch List.append_eq_nil_iff.mp same.symm

theorem imp {weaker : σ → α → σ → Prop} (run : Run step start trace final)
    (implied : ∀ {state label after}, step state label after → weaker state label after) : Run weaker start trace final := by
  induction run with
  | start => exact .start
  | next _ taken ih => exact ih.next (implied taken)

theorem append (one : Run step start first middle) (two : Run step middle last final) :
    Run step start (first ++ last) final := by
  induction two with
  | start => simpa using one
  | next _ taken ih => rw [← List.append_assoc]; exact ih.next taken

theorem cons {label : α} (taken : step start label middle) (rest : Run step middle trace final) :
    Run step start (⟨start, label, middle⟩ :: trace) final :=
  (single taken).append rest

/-- A run passes through a state wherever its history is cut. -/
theorem split (run : Run step start (first ++ last) final) :
    ∃ middle, Run step start first middle ∧ Run step middle last final := by
  generalize same : first ++ last = trace at run
  induction run generalizing last with
  | start =>
    obtain ⟨rfl, rfl⟩ := List.append_eq_nil_iff.mp same
    exact ⟨start, .start, .start⟩
  | @next trace state label final run taken ih =>
    rcases List.eq_nil_or_concat last with rfl | ⟨rest, move, rfl⟩
    · rw [List.append_nil] at same
      subst same
      exact ⟨final, run.next taken, .start⟩
    · rw [List.concat_eq_append, ← List.append_assoc] at same
      obtain ⟨shorter, single⟩ := List.append_inj' same rfl
      obtain ⟨middle, one, two⟩ := ih shorter
      cases single
      exact ⟨middle, one, List.concat_eq_append ▸ two.next taken⟩

theorem move_taken (run : Run step start trace final) : ∀ move ∈ trace, step move.before move.label move.after := by
  induction run with
  | start => simp
  | next _ taken ih =>
    intro move member
    rcases List.mem_append.mp member with member | member
    · exact ih move member
    · cases List.mem_singleton.mp member
      exact taken

theorem last_move {move : Move σ α} (run : Run step start (trace ++ [move]) final) :
    Run step start trace move.before ∧ step move.before move.label move.after ∧ move.after = final := by
  generalize same : trace ++ [move] = all at run
  cases run with
  | start => simp at same
  | next run taken =>
    obtain ⟨rfl, single⟩ := List.append_inj' same rfl
    cases single
    exact ⟨run, taken, rfl⟩

/-- A run seen from one of its moves. -/
theorem at_move {move : Move σ α} (run : Run step start (first ++ move :: last) final) :
    Run step start first move.before ∧ step move.before move.label move.after ∧ Run step move.after last final := by
  rw [List.append_cons] at run
  obtain ⟨middle, upTo, after⟩ := run.split
  obtain ⟨before, taken, rfl⟩ := upTo.last_move
  exact ⟨before, taken, after⟩

theorem at_mem {move : Move σ α} (run : Run step start trace final) (member : move ∈ trace) :
    ∃ first last, trace = first ++ move :: last ∧ Run step start first move.before ∧
      step move.before move.label move.after ∧ Run step move.after last final := by
  obtain ⟨first, last, rfl⟩ := List.append_of_mem member
  exact ⟨first, last, rfl, run.at_move⟩

theorem head {move : Move σ α} (run : Run step start (move :: last) final) :
    start = move.before ∧ step move.before move.label move.after ∧ Run step move.after last final := by
  have run : Run step start ([] ++ move :: last) final := run
  obtain ⟨before, taken, after⟩ := run.at_move
  exact ⟨before.nil_eq, taken, after⟩

theorem rest {move : Move σ α} (run : Run step start (move :: last) final) : Run step move.after last final :=
  run.head.2.2

theorem after_mem (run : Run step start trace final) :
    ∀ move ∈ trace, move.after = final ∨ ∃ next ∈ trace, next.before = move.after := by
  induction run with
  | start => simp
  | @next trace state label final run taken ih =>
    intro move member
    rcases List.mem_append.mp member with member | member
    · rcases ih move member with same | ⟨next, later, same⟩
      · exact .inr ⟨⟨state, label, final⟩, by simp, same.symm⟩
      · exact .inr ⟨next, List.mem_append_left _ later, same⟩
    · cases List.mem_singleton.mp member
      exact .inl rfl

theorem final_mem (run : Run step start trace final) : start = final ∨ ∃ move ∈ trace, move.after = final := by
  cases run with
  | start => exact .inl rfl
  | @next trace state label _ run taken => exact .inr ⟨⟨state, label, final⟩, by simp, rfl⟩

/-- The rule for invariants. The moves a property has to survive may be
restricted to those a history really contains. -/
theorem invariant (run : Run step start trace final) (allowed : Move σ α → Prop)
    (only : ∀ move ∈ trace, allowed move) (valid : σ → Prop) (initial : valid start)
    (preserved : ∀ move, allowed move → step move.before move.label move.after →
      valid move.before → valid move.after) : valid final := by
  induction run with
  | start => exact initial
  | next run taken ih =>
    have kept := ih fun move member => only move (List.mem_append_left _ member)
    exact preserved ⟨_, _, _⟩ (only _ (by simp)) taken kept

/-- A property that a run ends with and did not start with began to hold in one of
its moves. -/
theorem crosses (run : Run step start trace final) (property : σ → Prop) (first : ¬ property start)
    (last : property final) : ∃ move ∈ trace, ¬ property move.before ∧ property move.after := by
  induction run with
  | start => exact absurd last first
  | @next trace state label final run taken ih =>
    by_cases held : property state
    · obtain ⟨move, member, crossed⟩ := ih held
      exact ⟨move, List.mem_append_left _ member, crossed⟩
    · exact ⟨⟨state, label, final⟩, by simp, held, last⟩

/-- The rule for what is handed out. If it is taken only while it is free, then it is
given back between two moves that take it. -/
theorem given_back {one two : Move σ α} (run : Run step start (first ++ one :: (trace ++ two :: last)) final)
    (takes : Move σ α → Prop) (used : σ → Prop)
    (exclusive : ∀ earlier move, Run step start earlier move.before → step move.before move.label move.after → takes move →
      ¬ used move.before ∧ used move.after)
    (one' : takes one) (two' : takes two) :
    ∃ move ∈ trace, step move.before move.label move.after ∧ used move.before ∧ ¬ used move.after := by
  obtain ⟨before, taken, after⟩ := run.at_move
  obtain ⟨between, again, -⟩ := after.at_move
  have given := (exclusive _ one before taken one').2
  have free := (exclusive _ two ((before.next taken).append between) again two').1
  obtain ⟨move, member, held, gone⟩ := between.crosses (fun state => ¬ used state) (not_not.mpr given) free
  exact ⟨move, member, between.move_taken move member, not_not.mp held, gone⟩

/-- The rule for forward simulation along a function: if every allowed move of
a valid state is a move of the abstract relation, so is every allowed run. -/
theorem simulate {abstractStep : τ → β → τ → Prop} (abstraction : σ → τ) (relabel : α → β)
    (run : Run step start trace final) (allowed : Move σ α → Prop) (only : ∀ move ∈ trace, allowed move)
    (valid : σ → Prop) (initial : valid start)
    (preserved : ∀ move, allowed move → step move.before move.label move.after →
      valid move.before → valid move.after)
    (simulated : ∀ move, allowed move → step move.before move.label move.after → valid move.before →
      abstractStep (abstraction move.before) (relabel move.label) (abstraction move.after)) :
    Run abstractStep (abstraction start)
      (trace.map fun move => ⟨abstraction move.before, relabel move.label, abstraction move.after⟩)
      (abstraction final) := by
  induction run with
  | start => exact .start
  | next run taken ih =>
    have earlier := fun move member => only move (List.mem_append_left _ member)
    have kept := run.invariant allowed earlier valid initial preserved
    have last := simulated ⟨_, _, _⟩ (only _ (by simp)) taken kept
    simpa only [List.map_append, List.map_cons, List.map_nil] using (ih earlier).next last

end Run

section compute
variable {step : σ → α → σ → Prop} {next : σ → β → Option (α × σ)}

def compute (next : σ → β → Option (α × σ)) (state : σ) : List β → Option (List (Move σ α) × σ)
  | [] => some ([], state)
  | input :: inputs =>
    match next state input with
    | none => none
    | some (label, after) => (compute next after inputs).map fun done => (⟨state, label, after⟩ :: done.1, done.2)

theorem compute_run (sound : ∀ state input label after, next state input = some (label, after) → step state label after)
    {state final : σ} {inputs : List β} {trace : List (Move σ α)} (computed : compute next state inputs = some (trace, final)) :
    Run step state trace final := by
  induction inputs generalizing state trace with
  | nil => cases computed; exact .start
  | cons input inputs ih =>
    simp only [compute] at computed
    split at computed
    next => cases computed
    next label after taken =>
      obtain ⟨done, rest, same⟩ := Option.map_eq_some_iff.mp computed
      cases same
      exact .cons (sound state input label after taken) (ih rest)

theorem compute_tested (sound : ∀ state input label after, next state input = some (label, after) → step state label after)
    (state : σ) (inputs : List β) (test : List (Move σ α) → σ → Bool)
    (passed : (compute next state inputs).any (fun done => test done.1 done.2) = true) :
    ∃ trace final, Run step state trace final ∧ test trace final = true := by
  obtain ⟨done, computed, passed⟩ := (Option.any_eq_true _ _).mp passed
  exact ⟨done.1, done.2, compute_run sound computed, passed⟩

/-- A test of one move of a run and of the moves that follow it. -/
def cutAt (place : Nat) (test : Move σ α → List (Move σ α) → Bool) (moves : List (Move σ α)) : Bool :=
  moves[place]?.any fun move => test move (moves.drop (place + 1))

theorem of_cutAt {place : Nat} {test : Move σ α → List (Move σ α) → Bool} {moves : List (Move σ α)}
    (tested : cutAt place test moves = true) :
    ∃ move last, moves = moves.take place ++ move :: last ∧ test move last = true := by
  obtain ⟨move, found, tested⟩ := (Option.any_eq_true _ _).mp tested
  obtain ⟨inside, rfl⟩ := List.getElem?_eq_some_iff.mp found
  refine ⟨_, _, ?_, tested⟩
  rw [← List.drop_eq_getElem_cons inside, List.take_append_drop]

end compute
end Transition
