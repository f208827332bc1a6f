import Uthreads.Library.Issuing
import Uthreads.Nim.Proofs.Memory
import Uthreads.Proofs.Simulation

/-! The ids of nim/uthreads.cpp under any timing of the signal. `getId` searches the
table for a free one, and falls back on the last id if it finds none, which a spawn has
excluded by then. -/

namespace Uthreads.Nim
open Fallible Issuing OrderedMap Transition

/-- The smallest id that a new thread may have and no live thread has. -/
abbrev LeastFree {ε : Type} (s : State ε) (tid : Int) : Prop := Least s.live 1 maxThreadNum tid

def Issues (tid : Int) (move : Move Machine Input) : Prop :=
  (∃ choice, move.label = .run choice) ∧ ∃ rest, move.before.code = .call (.spawn ()) :: rest ∧
    move.after.code = .returns (.returns tid) :: rest

def Recycles (tid : Int) (move : Move Machine Input) : Prop :=
  (∃ choice, move.label = .run choice) ∧ (∃ rest, move.before.code = .call (.terminate tid) :: rest) ∧
    move.before.lib.live tid ∧ ¬ move.after.lib.live tid

def numbering : Numbers Machine Input Int Code where
  used m tid := m.lib.live tid
  first := 0
  low := 1
  bound := maxThreadNum
  asks rest move := (∃ choice, move.label = .run choice) ∧ move.before.code = .call (.spawn ()) :: rest
  refuses rest move := move.after.code = .returns (.fails (printErrors spawnError)) :: rest
  issues := Issues
  recycles := Recycles

/-- What a spawn comes to: it is refused if every id is live, or gets the least one
that is not. -/
def Spawns (move : Move Machine Input) (rest : Code) : Prop := numbering.Grants rest move

theorem Numbered.leastFree {ε : Type} {s : State ε} (numbered : Numbered s) (room : ¬ (s.allThreads.size : Int) + 1 > maxThreadNum) :
    LeastFree s (getId s) := by
  have found := numbered.find_free
  rw [if_neg room] at found
  obtain ⟨free, earlier, later, split, taken⟩ := List.find?_eq_some_iff_append.mp found
  have member : getId s ∈ allIds := by simp [split]
  obtain ⟨dead, -⟩ := numbered.getId_new room
  have range := mem_allIds.mp member
  have other : getId s ≠ 0 := fun zero => dead (zero ▸ numbered.main)
  refine ⟨⟨by omega, range.2⟩, dead, fun below low less => ?_⟩
  have inside : below ∈ earlier ++ getId s :: later := split ▸ mem_allIds.mpr ⟨by omega, by omega⟩
  have sorted : (earlier ++ getId s :: later).Pairwise (· < ·) := split ▸ allIds_sorted
  have before : below ∈ earlier := by
    refine (List.mem_append.mp inside).resolve_right fun after => ?_
    have above := List.pairwise_cons.mp (List.pairwise_append.mp sorted).2.1
    rcases List.mem_cons.mp after with same | after
    · omega
    · have := above.1 below after
      omega
  have present : below ∈ s.allThreads := by simpa using taken below before
  exact present

section step
variable {resumption : Resumption} {m m' : Machine} {choice : Choice} {rest : Code} {instr : Instr} {start final : Machine}
  {timeline : List (Move Machine Input)} {move : Move Machine Input} {tid : Int}

private theorem eq_of_erased {s s' : State Code} {other : Int} (erased : s'.allThreads = s.allThreads.erase other) (live : s.live tid)
    (gone : ¬ s'.live tid) : tid = other := by
  by_contra different
  rw [State.live, erased, mem_erase] at gone
  exact gone ⟨different, live⟩

private theorem Effect.forgets {lib : State Code} {op : Op Unit} (effect : Effect m.lib lib op.enter) (live : m.lib.live tid)
    (gone : ¬ lib.live tid) : op = .terminate tid := by
  generalize same : op.enter = entered at effect
  cases effect with
  | quiet quiet =>
    rw [State.live, quiet.allThreads] at gone
    exact absurd live gone
  | spawn _ _ _ _ _ _ _ allThreads =>
    rw [State.live, allThreads, mem_insert] at gone
    exact absurd (.inr live) gone
  | @terminate other _ _ _ _ _ _ _ _ allThreads =>
    obtain rfl := eq_of_erased allThreads live gone
    cases op <;> cases same
    rfl

private theorem Enters.forgets {order : List (Int × Pointer)} {op : Op Unit} {exit : Exit} {lib : State Code}
    (enters : Enters order m.lib op.enter exit lib) (live : m.lib.live tid) (gone : ¬ lib.live tid) : op = .terminate tid := by
  generalize same : op.enter = entered at enters
  cases enters with
  | @terminate other _ _ _ _ _ leaves freed =>
    obtain ⟨-, -, -, -, -, -, allThreads⟩ := terminate_pieces leaves freed
    obtain rfl := eq_of_erased allThreads live gone
    cases op <;> cases same
    rfl
  | block | mutexLock | preempt => exact absurd live gone

private theorem Moves.recycles {input : Input} (moves : Moves resumption m input m') (live : m.lib.live tid)
    (gone : ¬ m'.lib.live tid) : Recycles tid ⟨m, input, m'⟩ := by
  cases moves with
  | expire | deliver | call | sigprocmask => exact absurd live gone
  | run code executed =>
    cases executed with
    | enters enters => exact ⟨⟨_, rfl⟩, ⟨_, enters.forgets live gone ▸ code⟩, live, gone⟩
    | called _ effect => exact ⟨⟨_, rfl⟩, ⟨_, effect.forgets live gone ▸ code⟩, live, gone⟩
    | _ => exact absurd live gone

private theorem spawns_of_steps (taken : Machine.StepsResuming resumption move.before move.label move.after)
    (numbered : Numbered move.before.lib) (label : move.label = .run choice) (code : move.before.code = .call (.spawn ()) :: rest) :
    Spawns move rest := by
  obtain ⟨m, input, m'⟩ := move
  dsimp only at taken numbered label code
  subst label
  have executed := execute_of_taken taken code (by simp)
  obtain ⟨switch, enters, executed⟩ := bind_ok.mp executed
  cases enters
  obtain ⟨⟨reply, lib⟩, called, same⟩ := bind_ok.mp executed
  cases same
  simp only [Op.call, Op.enter, uthreadSpawn] at called
  split at called
  next full =>
    cases called
    exact .refused (fun tid low high => numbered.full_iff.mp full tid (mem_allIds.mpr ⟨low, high⟩)) rfl
  next room =>
    cases called
    refine .given (getId m.lib) (numbered.leastFree room) ⟨⟨choice, rfl⟩, rest, code, rfl⟩ ?_
    exact mem_insert.mpr (.inl rfl)

private theorem numbering_lawful : numbering.Lawful (Machine.StepsResuming resumption) fun m => Numbered m.lib where
  grants taken numbered asks := spawns_of_steps taken numbered asks.1.choose_spec asks.2
  asks := by
    rintro tid move ⟨runs, rest, before, after⟩
    exact ⟨rest, ⟨runs, before⟩, fun fails => nomatch after.symm.trans fails⟩
  single := by
    rintro one two move ⟨-, _, -, first⟩ ⟨-, _, -, second⟩
    cases first.symm.trans second
    rfl
  recycles taken live gone := (moves_of_step taken).recycles live gone

private theorem run_numbered (starts : start.Starts) (run : Run (Machine.StepsResuming resumption) start timeline final) :
    Numbered final.lib := by
  obtain ⟨-, ⟨_, booked⟩, -⟩ := run_booked starts run
  exact booked.filing.numbered

/-- In every run, however contexts are resumed and wherever the signal arrives: the live
ids are among 0 to 99, a spawn is refused if all of them are live and otherwise gets the
least one that is not, and an id that is given out again has left the table in between. -/
theorem ids_given_out_once (starts : start.Starts) (run : Run (Machine.StepsResuming resumption) start timeline final) :
    (∀ tid, final.lib.live tid → 0 ≤ tid ∧ tid < maxThreadNum) ∧
    (∀ move ∈ timeline, ∀ choice rest, move.label = .run choice → move.before.code = .call (.spawn ()) :: rest → Spawns move rest) ∧
    ∀ first one middle two last tid, timeline = first ++ one :: (middle ++ two :: last) → Issues tid one → Issues tid two →
      ∃ move ∈ middle, Recycles tid move := by
  refine ⟨(run_numbered starts run).ids, fun move member choice rest label code => ?_, ?_⟩
  · exact numbering_lawful.run_grants run (run_numbered starts) move member rest ⟨⟨choice, label⟩, code⟩
  · exact numbering_lawful.given_out_once run (run_numbered starts)

private def givesOne (move : Move Machine Input) : Bool :=
  move.label = .run ⟨2, []⟩ ∧ move.before.code = [.call (.spawn ())] ∧ move.after.code = [.returns (.returns 1)]

private theorem issues_of_givesOne (tested : givesOne move = true) : Issues 1 move := by
  obtain ⟨label, before, after⟩ := of_decide_eq_true tested
  exact ⟨⟨_, label⟩, [], before, after⟩

/-- Thread 1 has terminated itself, and main spawns another one. -/
theorem ids_given_out_once_self_termination : ∃ timeline : List (Move Machine Input), ∃ move ∈ timeline, Recycles 1 move := by
  obtain ⟨timeline, final, run, tested⟩ := compute_tested (next_sound .afterSwitch) started
    ([.call (.spawn ()), .run ⟨2, []⟩, .run ⟨3, []⟩] ++ expiry ++ [.call (.terminate 1)] ++ List.replicate 10 (.run ⟨3, []⟩) ++
      [.call (.spawn ()), .run ⟨2, []⟩])
    (fun timeline _ => cutAt 1 (fun one later => givesOne one ∧ cutAt 21 (fun two _ => givesOne two) later) timeline)
    (by decide +kernel)
  obtain ⟨one, later, same, cut⟩ := of_cutAt tested
  obtain ⟨first, cut⟩ := of_decide_eq_true cut
  obtain ⟨two, last, same', second⟩ := of_cutAt cut
  obtain ⟨move, member, recycles⟩ := (ids_given_out_once started_starts run).2.2 _ one _ two last 1 (same' ▸ same)
    (issues_of_givesOne first) (issues_of_givesOne second)
  refine ⟨timeline, move, ?_, recycles⟩
  rw [same, same']
  simp [member]

end step
end Uthreads.Nim
