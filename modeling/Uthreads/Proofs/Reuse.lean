import Uthreads.Model.Specification
import Uthreads.Proofs.Alike
import Uthreads.Proofs.Runs

/-! A thread that reuses an id. What its predecessors did shows in nothing but
the containers, so two histories that leave the same behind have the same
future. -/

namespace Uthreads
open Fallible Relational Transition

variable {ε : Type} {s s' start final one two : State ε}

/-- Two states agree on everything about the threads that are alive. -/
structure Agree (one two : State ε) : Prop where
  status : ∀ tid, one.status tid = two.status tid
  quantums : ∀ tid, one.quantums tid = two.quantums tid
  ready : one.readyTids = two.readyTids
  blocked : ∀ tid, one.live tid → (tid ∈ one.blockedTids ↔ tid ∈ two.blockedTids)
  sleepers : ∀ tid, one.live tid → one.sleepers[tid]? = two.sleepers[tid]?
  running : one.runningTid = two.runningTid
  total : one.totalQuantums = two.totalQuantums
  free : one.freeIds = two.freeIds

structure Seen where
  reply : Reply
  running : Int
  ready : List Int
  sleepers : Std.ExtTreeMap Int Int

/-- What calls let see, one after the other, and how they halt if they do. -/
def observe (s : State ε) : List (Op ε × Context ε) → List Seen × Option Halt
  | [] => ([], none)
  | (op, here) :: calls =>
    match op.call here s with
    | .error halt => ([], some halt)
    | .ok (reply, s') =>
      let (later, halt) := observe s' calls
      (⟨reply, s'.runningTid, s'.readyTids, s'.sleepers⟩ :: later, halt)

private theorem observe_alike (alike : Alike one two) {calls others : List (Op ε × Context ε)}
    (same : calls.map Prod.fst = others.map Prod.fst) : observe one calls = observe two others := by
  induction calls generalizing one two others with
  | nil =>
    rw [List.map_nil, eq_comm, List.map_eq_nil_iff] at same
    subst same
    rfl
  | cons call calls ih =>
    obtain ⟨op, here⟩ := call
    cases others with
    | nil => cases same
    | cons other others =>
      obtain ⟨_, there⟩ := other
      rw [List.map_cons, List.map_cons] at same
      obtain ⟨rfl, rest⟩ := List.cons.inj same
      simp only [observe]
      rcases (call_alike alike op here there).outcome with
        ⟨halt, first, second⟩ | ⟨⟨reply, first'⟩, ⟨_, second'⟩, first, second, rfl, alike⟩
      · rw [first, second]
      · rw [first, second]
        have running : first'.runningTid = second'.runningTid := alike.running
        have ready : first'.readyTids = second'.readyTids := alike.ready
        have sleepers : first'.sleepers = second'.sleepers := alike.sleepers
        simp only [ih alike rest, running, ready, sleepers]

/-- In well-formed states nothing is left of the dead, so agreement on the
threads that are alive is all there is. -/
private theorem Agree.alike (agree : Agree one two) (first : WellFormed one) (second : WellFormed two) :
    Alike one two := by
  have live : ∀ tid, one.live tid ↔ two.live tid := fun tid => by
    simp only [State.live_iff_status, agree.status]
  have asleep : ∀ {s : State ε}, WellFormed s → ∀ tid, ¬ s.live tid → s.sleepers[tid]? = none := by
    intro s valid tid dead
    have none := State.status_eq_none.mpr dead
    have away : tid ∉ s.sleepers := fun member => by simpa [none] using (valid.asleep tid).mp member
    simpa using away
  refine ⟨fun tid => ?_, ?_, ?_, agree.ready, agree.free, agree.total, agree.running⟩
  · have status := agree.status tid
    have quantums := agree.quantums tid
    simp only [State.status, State.quantums] at status quantums
    cases a : one.allThreads tid with
    | none =>
      cases b : two.allThreads tid with
      | none => exact .none
      | some => simp [a, b] at status
    | some =>
      cases b : two.allThreads tid with
      | none => simp [a, b] at status
      | some =>
        simp only [a, b, Option.map_some, Option.some.injEq] at status quantums
        exact .some ⟨status, quantums⟩
  · apply Std.ExtTreeMap.ext_getElem?
    intro tid
    by_cases present : one.live tid
    · exact agree.sleepers tid present
    · rw [asleep first tid present, asleep second tid fun other => present ((live tid).mpr other)]
  · ext tid
    by_cases present : one.live tid
    · exact agree.blocked tid present
    · exact iff_of_false (fun held => present (first.blockedLive tid held))
        fun held => present ((live tid).mpr (second.blockedLive tid held))

/-- Two histories in which no sleeper was terminated and which agree on the
threads alive cannot be told apart by any calls that follow, whoever had the
ids before. -/
theorem reused_ids_fresh {start' final' : State ε} {history history' : History ε} (initialized : Initialized start)
    (initialized' : Initialized start') (run : Run Takes start history final) (run' : Run Takes start' history' final')
    (spared : Sparing history) (spared' : Sparing history') (agree : Agree final final')
    {calls calls' : List (Op ε × Context ε)} (same : calls.map Prod.fst = calls'.map Prod.fst) :
    observe final calls = observe final' calls' :=
  observe_alike (agree.alike (run_wellFormed initialized.wellFormed run spared)
    (run_wellFormed initialized'.wellFormed run' spared')) same

section runs

private theorem Agree.of_range (first : Sound one) (second : Sound two)
    (status : ∀ tid ∈ allIds, one.status tid = two.status tid ∧ one.quantums tid = two.quantums tid ∧
      (one.live tid → (tid ∈ one.blockedTids ↔ tid ∈ two.blockedTids) ∧ one.sleepers[tid]? = two.sleepers[tid]?))
    (ready : one.readyTids = two.readyTids) (running : one.runningTid = two.runningTid)
    (total : one.totalQuantums = two.totalQuantums) : Agree one two := by
  have live : ∀ tid ∈ allIds, (one.live tid ↔ two.live tid) := fun tid member => by
    simp only [State.live_iff_status, (status tid member).1]
  have inside : ∀ {s : State ε}, Sound s → ∀ tid, s.live tid → tid ∈ allIds := fun sound tid present =>
    mem_allIds.mpr ((sound.ids tid).mp (.inl present))
  have outside : ∀ tid, tid ∉ allIds → ¬ one.live tid ∧ ¬ two.live tid := fun tid away =>
    ⟨fun present => away (inside first tid present), fun present => away (inside second tid present)⟩
  refine ⟨fun tid => ?_, fun tid => ?_, ready, fun tid present => ?_, fun tid present => ?_, running, total, ?_⟩
  · by_cases member : tid ∈ allIds
    · exact (status tid member).1
    · rw [State.status_eq_none.mpr (outside tid member).1, State.status_eq_none.mpr (outside tid member).2]
  · by_cases member : tid ∈ allIds
    · exact (status tid member).2.1
    · rw [State.quantums_eq_none.mpr (outside tid member).1, State.quantums_eq_none.mpr (outside tid member).2]
  · exact ((status tid (inside first tid present)).2.2 present).1
  · exact ((status tid (inside first tid present)).2.2 present).2
  · apply Std.ExtTreeSet.ext_mem
    intro tid
    rw [first.mem_freeIds, second.mem_freeIds]
    exact and_congr_right fun range => not_congr (live tid (mem_allIds.mpr range))

private def history (leaves : Op Unit) : List (Op Unit × Context Unit) :=
  [(.spawn (some ()), ⟨0, ()⟩), (.preempt, ⟨0, ()⟩), (leaves, ⟨1, ()⟩), (.terminate 1, ⟨0, ()⟩)]

private def comparable (leaves leaves' : Op Unit) (test : History Unit → History Unit → State Unit → State Unit → Bool) :
    Bool :=
  (perform booted (history leaves)).any fun first =>
    (perform booted (history leaves')).any fun second =>
      decide ((∀ tid ∈ allIds, first.2.status tid = second.2.status tid ∧ first.2.quantums tid = second.2.quantums tid ∧
          (first.2.live tid → (tid ∈ first.2.blockedTids ↔ tid ∈ second.2.blockedTids) ∧
            first.2.sleepers[tid]? = second.2.sleepers[tid]?)) ∧
        first.2.readyTids = second.2.readyTids ∧ first.2.runningTid = second.2.runningTid ∧
        first.2.totalQuantums = second.2.totalQuantums) && test first.1 second.1 first.2 second.2

private theorem of_comparable (leaves leaves' : Op Unit)
    (test : History Unit → History Unit → State Unit → State Unit → Bool)
    (passed : comparable leaves leaves' test = true) :
    ∃ history history' final final', Run Takes booted history final ∧ Run Takes booted history' final' ∧
      Agree final final' ∧ test history history' final final' = true := by
  obtain ⟨⟨history, final⟩, performed, passed⟩ := (Option.any_eq_true _ _).mp passed
  obtain ⟨⟨history', final'⟩, performed', passed⟩ := (Option.any_eq_true _ _).mp passed
  obtain ⟨agree, passed⟩ := (Bool.and_eq_true ..).mp passed
  obtain ⟨threads, ready, running, total⟩ := of_decide_eq_true agree
  have run := perform_run performed
  have run' := perform_run performed'
  exact ⟨history, history', final, final', run, run', .of_range (run_sound booted_initialized.sound run)
    (run_sound booted_initialized.sound run') threads ready running total, passed⟩

/-- The next thread 1 sleeps and wakes the same whether its predecessor was
terminated when it was blocked or when it was ready. -/
theorem reused_ids_fresh_blocked_or_ready : ∃ (history history' : History Unit) (final final' : State Unit),
    (history.map (·.label.op))[2]? = some (.block 1) ∧ (history'.map (·.label.op))[2]? = some .preempt ∧
      observe final [(.spawn (some ()), ⟨0, ()⟩), (.preempt, ⟨0, ()⟩), (.sleep 0, ⟨1, ()⟩)] =
        observe final' [(.spawn (some ()), ⟨0, ()⟩), (.preempt, ⟨0, ()⟩), (.sleep 0, ⟨1, ()⟩)] := by
  obtain ⟨history, history', final, final', run, run', agree, tested⟩ := of_comparable (.block 1)
    .preempt (fun history history' _ _ => Sparing history ∧ Sparing history' ∧
      (history.map (·.label.op))[2]? = some (.block 1) ∧ (history'.map (·.label.op))[2]? = some .preempt)
    (by decide +kernel)
  obtain ⟨spared, spared', one, two⟩ := of_decide_eq_true tested
  exact ⟨history, history', final, final', one, two,
    reused_ids_fresh booted_initialized booted_initialized run run' spared spared' agree rfl⟩

/-- The predecessor was terminated in its sleep, or when it was blocked. The end
of that sleep queues the new thread 1 a second time. -/
theorem leftover_sleeper_queued_twice : ∃ (history history' : History Unit) (final final' : State Unit),
    Run Takes booted history final ∧ Run Takes booted history' final' ∧ Agree final final' ∧
      (observe final [(.spawn (some ()), ⟨0, ()⟩), (.preempt, ⟨0, ()⟩)]).1.map
        (fun seen => (seen.reply.value, seen.running, seen.ready)) = [(some 1, 0, [1]), (none, 1, [1, 0])] ∧
      (observe final' [(.spawn (some ()), ⟨0, ()⟩), (.preempt, ⟨0, ()⟩)]).1.map
        (fun seen => (seen.reply.value, seen.running, seen.ready)) = [(some 1, 0, [1]), (none, 1, [0])] := by
  obtain ⟨history, history', final, final', run, run', agree, tested⟩ := of_comparable (.sleep 1)
    (.block 1) (fun _ _ final final' =>
      (observe final [(.spawn (some ()), ⟨0, ()⟩), (.preempt, ⟨0, ()⟩)]).1.map
        (fun seen => (seen.reply.value, seen.running, seen.ready)) = [(some 1, 0, [1]), (none, 1, [1, 0])] ∧
      (observe final' [(.spawn (some ()), ⟨0, ()⟩), (.preempt, ⟨0, ()⟩)]).1.map
        (fun seen => (seen.reply.value, seen.running, seen.ready)) = [(some 1, 0, [1]), (none, 1, [0])])
    (by decide +kernel)
  obtain ⟨one, two⟩ := of_decide_eq_true tested
  exact ⟨history, history', final, final', run, run', agree, one, two⟩

end runs
end Uthreads
