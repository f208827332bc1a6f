import Uthreads.Proofs.Allocation
import Uthreads.Proofs.PendingReads

/-! How uthreads.cpp gives out its ids, under any timing of the signal. -/

namespace Uthreads
open Issuing Transition

theorem Partitioned.leastFree {ε : Type} {s : State ε} {tid : Int} (partitioned : Partitioned s)
    (least : s.freeIds.toList.head? = some tid) : LeastFree s tid := by
  have free := Std.ExtTreeSet.mem_toList.mp (List.mem_of_head? least)
  have range := (partitioned.ids tid).mp (.inr free)
  have other : tid ≠ 0 := fun zero => partitioned.disjoint 0 partitioned.main (zero ▸ free)
  refine ⟨⟨by omega, range.2⟩, fun live => partitioned.disjoint tid live free, fun below low less => ?_⟩
  by_contra gone
  have available := ((partitioned.ids below).mpr ⟨by omega, by omega⟩).resolve_left gone
  rw [← Std.ExtTreeSet.min?_eq_head?_toList, Std.ExtTreeSet.min?_eq_some_iff_mem_and_forall] at least
  have bound := Std.isLE_compare.mp (least.2 below available)
  omega

section step
variable {start final : Machine} {timeline : Timeline}

def Issues (tid : Int) (move : Move Machine Input) : Prop :=
  move.label = .run ∧ ∃ rest, move.before.code = .body (.spawn (some ())) :: rest ∧
    move.after.code = .unblockVtAlarm :: .returns (.spawn (some ())) (.newThread tid) :: rest

def Recycles (tid : Int) (move : Move Machine Input) : Prop :=
  move.label = .run ∧ (∃ rest, move.before.code = .body (.terminate tid) :: rest) ∧ move.before.lib.live tid ∧
    ¬ move.after.lib.live tid

def numbering : Numbers Machine Input Int Code where
  used m tid := m.lib.live tid
  first := 0
  low := 1
  bound := maxThreadNum
  asks rest move := move.label = .run ∧ move.before.code = .body (.spawn (some ())) :: rest
  refuses rest move := move.after.code = .fails (.spawn (some ())) (libraryErr ++ maxThreadsErr) :: rest
  issues := Issues
  recycles := Recycles

/-- What a spawn with an entry point comes to: it is refused if every id is live, or
gets the least one that is not. -/
def Spawns (move : Move Machine Input) (rest : Code) : Prop := numbering.Grants rest move

private theorem spawns_of_steps {move : Move Machine Input} {rest : Code}
    (taken : Machine.Steps move.before move.label move.after) (partitioned : Partitioned move.before.lib)
    (label : move.label = .run) (code : move.before.code = .body (.spawn (some ())) :: rest) : Spawns move rest := by
  obtain ⟨m, input, m'⟩ := move
  dsimp only at taken partitioned label code
  subst label
  cases moves_of_step taken with
  | run same executed =>
    obtain ⟨rfl, rfl⟩ := List.cons_eq_cons.mp (code.symm.trans same)
    cases executed with
    | @body op next lib branch =>
      cases branch with
      | spawnFull full =>
        refine .refused (fun tid low high => ?_) rfl
        have none : m.lib.freeIds.toList = [] := List.head?_eq_none_iff.mp full
        refine ((partitioned.ids tid).mpr ⟨low, high⟩).resolve_right fun free => ?_
        exact List.not_mem_nil (none ▸ Std.ExtTreeSet.mem_toList.mpr free)
      | @spawn tid _ least =>
        have free := partitioned.leastFree least
        refine .given tid free ⟨rfl, rest, code, rfl⟩ ?_
        change (m.lib.enroll tid ([] : Code)).live tid
        rw [State.live_iff_status, State.status_enroll, if_pos ⟨rfl, free.free⟩]
        exact ⟨_, rfl⟩

private theorem numbering_lawful : numbering.Lawful Machine.Steps fun m => Partitioned m.lib where
  grants taken partitioned asks := spawns_of_steps taken partitioned asks.1 asks.2
  asks := by
    rintro tid move ⟨label, rest, before, after⟩
    exact ⟨rest, ⟨label, before⟩, fun fails => nomatch after.symm.trans fails⟩
  single := by
    rintro one two move ⟨-, _, -, first⟩ ⟨-, _, -, second⟩
    cases first.symm.trans second
    rfl
  recycles := by
    intro tid move taken live gone
    obtain ⟨label, rest, code, -⟩ := (moves_of_step taken).deletes live gone
    exact ⟨label, ⟨rest, code⟩, live, gone⟩

/-- In every run, wherever the signal arrives: the live and the free ids are 0 to 99,
a spawn is refused if no id is free and otherwise gets the least one, and an id that
is given out again has been given back in between. -/
theorem ids_unique (starts : start.Starts) (run : Run Machine.Steps start timeline final) :
    Partitioned final.lib ∧
    (∀ move ∈ timeline, ∀ rest, move.label = .run → move.before.code = .body (.spawn (some ())) :: rest → Spawns move rest) ∧
    ∀ first one middle two last tid, timeline = first ++ one :: (middle ++ two :: last) → Issues tid one → Issues tid two →
      ∃ move ∈ middle, Recycles tid move := by
  have partitioned : ∀ {trace m}, Run Machine.Steps start trace m → Partitioned m.lib := fun run =>
    run_partitioned starts (run.imp moves_of_step)
  exact ⟨partitioned run,
    fun move member rest label code => numbering_lawful.run_grants run partitioned move member rest ⟨label, code⟩,
    numbering_lawful.given_out_once run partitioned⟩

private def issuesOne (move : Move Machine Input) : Bool :=
  move.label = .run ∧ move.before.code = [.body (.spawn (some ()))] ∧
    move.after.code = [.unblockVtAlarm, .returns (.spawn (some ())) (.newThread 1)]

private theorem issues_of_issuesOne {move : Move Machine Input} (tested : issuesOne move = true) : Issues 1 move := by
  obtain ⟨label, before, after⟩ := of_decide_eq_true tested
  exact ⟨label, [], before, after⟩

/-- A handler has started in the middle of the switch away from main, which then
terminates thread 1 and spawns another one. -/
theorem ids_unique_reentered_switch : ∃ timeline : Timeline,
    (∃ move ∈ timeline, move.label = .deliver ∧ move.before.code = [.startRunning]) ∧ ∃ move ∈ timeline, Recycles 1 move := by
  obtain ⟨timeline, final, run, tested⟩ := Machine.booted.perform_tested
    ([.call (.spawn (some ()))] ++ .replicate 4 .run ++ [.expire, .deliver] ++ .replicate 12 .run ++ [.expire, .deliver] ++
      .replicate 17 .run ++ [.call (.terminate 1)] ++ .replicate 4 .run ++ [.call (.spawn (some ()))] ++ .replicate 4 .run)
    (fun timeline _ => (∃ move ∈ timeline, move.label = .deliver ∧ move.before.code = [.startRunning]) ∧
      cutAt 2 (fun one later => issuesOne one ∧ cutAt 42 (fun two _ => issuesOne two) later) timeline) (by decide +kernel)
  obtain ⟨reentered, cut⟩ := of_decide_eq_true tested
  obtain ⟨one, later, same, cut⟩ := of_cutAt cut
  obtain ⟨first, cut⟩ := of_decide_eq_true cut
  obtain ⟨two, last, same', second⟩ := of_cutAt cut
  obtain ⟨move, member, recycles⟩ := (ids_unique Machine.booted_starts run).2.2 _ one _ two last 1 (same' ▸ same)
    (issues_of_issuesOne first) (issues_of_issuesOne second)
  refine ⟨timeline, reentered, move, ?_, recycles⟩
  rw [same, same']
  simp [member]

end step
end Uthreads
