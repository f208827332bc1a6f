import Uthreads.Library.Transition
import Uthreads.Nim.Proofs.Simulation

/-! Where the threads of nim/uthreads.cpp are. Each call is one of a few moves
of the abstract scheduler, and every move leaves everybody in one place. -/

namespace Uthreads.Nim
open RoundRobin Relational Transition

variable {ε : Type}

/-- The moves, with the value that is returned. `next` is given the mutex if it
is given up. -/
inductive Ruled (next : Option Int) (a : Guarded Int) : Op ε → Option Int → Guarded Int → Prop where
  | quiet {op value} (other : op ≠ .mutexLock ∧ op ≠ .mutexUnlock) : Ruled next a op value a
  | spawn {f id} (new : a.tasks id = none) (range : id ∈ allIds) : Ruled next a (.spawn f) (some id) (a.accept id)
  | terminate {tid} (live : (a.tasks tid).isSome) (notMain : tid ≠ 0) (other : tid ≠ a.current) :
      Ruled next a (.terminate tid) (some success) ((a.surrender tid next).drop tid)
  | terminateSelf {a' front rest} (notMain : a.current ≠ 0)
      (turn : Guarded.Dispatched ((a.surrender a.current next).drop a.current) a' front rest) :
      Ruled next a (.terminate a.current) none a'
  | block {tid} (live : (a.tasks tid).isSome) (notMain : tid ≠ 0) (other : tid ≠ a.current) :
      Ruled next a (.block tid) (some success) (a.hold tid)
  | blockSelf {a' front rest} (notMain : a.current ≠ 0) (turn : Guarded.Dispatched (a.hold a.current) a' front rest) :
      Ruled next a (.block a.current) (some success) a'
  | resume {tid} (live : (a.tasks tid).isSome) : Ruled next a (.resume tid) (some success) (a.release tid)
  | lockFree (free : a.owner = none) : Ruled next a .mutexLock (some success) { a with owner := some a.current }
  | lockAgain (owns : a.owner = some a.current) : Ruled next a .mutexLock (some fail) a
  | lockWait {owner a' front rest} (owns : a.owner = some owner) (other : owner ≠ a.current)
      (turn : Guarded.Dispatched a.wait a' front rest) : Ruled next a .mutexLock (some success) a'
  | unlock (owns : a.owner = some a.current) : Ruled next a .mutexUnlock (some success) (a.grant next)
  | unlockOther (other : a.owner ≠ some a.current) : Ruled next a .mutexUnlock (some fail) a
  | preempt {a' front rest} (turn : Guarded.Dispatched a.requeue a' front rest) : Ruled next a .preempt none a'

theorem turn_ok {a a' : Guarded Int} {value result : Option Int} (turned : turn value a = .ok (result, a')) :
    result = value ∧ ∃ front rest, Guarded.Dispatched a a' front rest := by
  unfold turn at turned
  split at turned
  next => cases turned
  next dispatched =>
    obtain ⟨rfl, rfl⟩ := Prod.mk.inj (Except.ok.inj turned)
    exact ⟨rfl, Guarded.dispatched_of_dispatch dispatched⟩

theorem ruled_of_spec {op : Op ε} {next value : Option Int} {a a' : Guarded Int}
    (specified : op.spec next a = .ok (value, a')) : Ruled next a op value a' := by
  cases op with simp only [Op.spec] at specified
  | spawn f =>
    split at specified
    next => cases specified; exact .quiet (by simp)
    next id found =>
      cases specified
      have new := List.find?_some found
      exact .spawn (Option.isNone_iff_eq_none.mp new) (List.mem_of_find?_eq_some found)
  | terminate tid =>
    split at specified
    next => cases specified; exact .quiet (by simp)
    next live =>
      have live := Option.isSome_iff_ne_none.mpr (mt Option.isNone_iff_eq_none.mpr live)
      split at specified
      next => cases specified
      next notMain =>
        split at specified
        next self =>
          subst self
          obtain ⟨rfl, front, rest, turn⟩ := turn_ok specified
          exact .terminateSelf notMain turn
        next other => cases specified; exact .terminate live notMain other
  | block tid =>
    split at specified
    next => cases specified; exact .quiet (by simp)
    next refused =>
      obtain ⟨live, notMain⟩ := not_or.mp refused
      have live := Option.isSome_iff_ne_none.mpr (mt Option.isNone_iff_eq_none.mpr live)
      split at specified
      next self =>
        subst self
        obtain ⟨rfl, front, rest, turn⟩ := turn_ok specified
        exact .blockSelf notMain turn
      next other => cases specified; exact .block live notMain other
  | resume tid =>
    split at specified
    next => cases specified; exact .quiet (by simp)
    next live =>
      cases specified
      exact .resume (Option.isSome_iff_ne_none.mpr (mt Option.isNone_iff_eq_none.mpr live))
  | getTid | getTotalQuantums => cases specified; exact .quiet (by simp)
  | getQuantums tid =>
    split at specified
    all_goals
      cases specified
      exact .quiet (by simp)
  | mutexLock =>
    split at specified
    next free => cases specified; exact .lockFree free
    next owner owns =>
      split at specified
      next same => cases specified; exact .lockAgain (same ▸ owns)
      next other =>
        obtain ⟨rfl, front, rest, turn⟩ := turn_ok specified
        exact .lockWait owns other turn
  | mutexUnlock =>
    split at specified
    next owns => cases specified; exact .unlock owns
    next other => cases specified; exact .unlockOther other
  | preempt =>
    obtain ⟨rfl, front, rest, turn⟩ := turn_ok specified
    exact .preempt turn

/-- The invariant of the abstract scheduler. Main is special: it is never held. -/
structure Sane (a : Guarded Int) : Prop where
  placed : Guarded.Placed (some a.current) a
  main : (a.tasks 0).map Task.held = some false
  ids : ∀ tid, (a.tasks tid).isSome → tid ∈ allIds

namespace Sane
variable {a b : Guarded Int} {tid : Int}

theorem main_live (sane : Sane a) : (a.tasks 0).isSome := by
  have main := congrArg Option.isSome sane.main
  simpa using main

/-- From the two facts about a turn that is over, those about the next one. -/
private theorem of_dispatched {front : Int} {rest : List Int} (turn : Guarded.Dispatched a b front rest)
    (placed : Guarded.Placed none a) (main : (a.tasks 0).map Task.held = some false)
    (ids : ∀ tid, (a.tasks tid).isSome → tid ∈ allIds) : Sane b :=
  ⟨placed.dispatch turn, (turn.held 0).trans main, fun tid live => ids tid (turn.live tid ▸ live)⟩

private theorem main_hold (sane : Sane a) (notMain : tid ≠ 0) : ((a.hold tid).tasks 0).map Task.held = some false := by
  rw [Guarded.tasks_hold, if_neg (Ne.symm notMain)]
  exact sane.main

private theorem ids_hold (sane : Sane a) (live : (a.tasks tid).isSome) :
    ∀ other, ((a.hold tid).tasks other).isSome → other ∈ allIds := by
  intro other present
  rw [Guarded.tasks_hold] at present
  split at present
  · rename_i same
    exact same ▸ sane.ids tid live
  · exact sane.ids other present

private theorem tasks_leave {next : Option Int} (other : Int) :
    ((a.surrender tid next).drop tid).tasks other = if other = tid then none else a.tasks other := by
  have dropped := (a.surrender tid next).toScheduler.tasks_drop tid other
  exact dropped.trans (by rw [Guarded.tasks_surrender])

private theorem main_leave {next : Option Int} (sane : Sane a) (notMain : tid ≠ 0) :
    (((a.surrender tid next).drop tid).tasks 0).map Task.held = some false := by
  rw [tasks_leave, if_neg (Ne.symm notMain)]
  exact sane.main

private theorem ids_leave {next : Option Int} (sane : Sane a) :
    ∀ other, (((a.surrender tid next).drop tid).tasks other).isSome → other ∈ allIds := by
  intro other present
  rw [tasks_leave] at present
  split at present
  · cases present
  · exact sane.ids other present

theorem step (sane : Sane a) {next value : Option Int} {op : Op ε} (eligible : a.Eligible next)
    (ruled : Ruled next a op value b) : Sane b := by
  cases ruled with
  | quiet | lockAgain | unlockOther => exact sane
  | @spawn f id new range =>
    have tasks := a.toScheduler.tasks_accept id
    refine ⟨sane.placed.accept new, ?_, fun tid live => ?_⟩
    · have other : (0 : Int) ≠ id := by
        rintro rfl
        have live := sane.main_live
        simp [new] at live
      exact (congrArg _ ((tasks 0).trans (if_neg other))).trans sane.main
    · by_cases same : tid = id
      · exact same ▸ range
      · exact sane.ids tid ((tasks tid).trans (if_neg same) ▸ live)
  | @terminate tid live notMain other =>
    have placed := sane.placed.surrender tid eligible |>.drop (sane.placed.surrender_owner tid eligible)
    rw [Option.filter_some, if_pos (by simpa using Ne.symm other)] at placed
    have turn : ((a.surrender tid next).drop tid).current = a.current := Guarded.current_surrender
    exact ⟨turn ▸ placed, sane.main_leave notMain, sane.ids_leave⟩
  | terminateSelf notMain turn =>
    have placed := sane.placed.surrender a.current eligible |>.drop (sane.placed.surrender_owner a.current eligible)
    rw [Option.filter_some, if_neg (by simp)] at placed
    exact of_dispatched turn placed (sane.main_leave notMain) sane.ids_leave
  | @block tid live notMain other =>
    have placed := sane.placed.hold tid
    rw [Option.filter_some, if_pos (by simpa using Ne.symm other)] at placed
    exact ⟨placed, sane.main_hold notMain, sane.ids_hold live⟩
  | blockSelf notMain turn =>
    have placed := sane.placed.hold a.current
    rw [Option.filter_some, if_neg (by simp)] at placed
    exact of_dispatched turn placed (sane.main_hold notMain) (sane.ids_hold (sane.placed.turn _ rfl).live)
  | @resume tid live =>
    refine ⟨Guarded.current_release (a := a) ▸ sane.placed.release, ?_, fun other present => ?_⟩
    · rw [Guarded.tasks_release]
      split
      · rename_i same
        have main := sane.main_live
        rw [same] at main
        obtain ⟨task, found⟩ := Option.isSome_iff_exists.mp main
        simp [found]
      · exact sane.main
    · rw [Guarded.tasks_release] at present
      split at present
      · rename_i same
        exact same ▸ sane.ids tid live
      · exact sane.ids other present
  | lockFree free => exact ⟨sane.placed.take free (sane.placed.turn _ rfl).live, sane.main, sane.ids⟩
  | lockWait owns other turn => exact of_dispatched turn (sane.placed.wait owns other) sane.main sane.ids
  | unlock =>
    have placed := sane.placed.grant eligible
    refine ⟨Guarded.current_grant (a := a) ▸ placed, ?_, ?_⟩ <;> cases next
    · exact sane.main
    · exact sane.main
    · exact sane.ids
    · exact sane.ids
  | preempt turn => exact of_dispatched turn sane.placed.requeue sane.main sane.ids

end Sane
end Uthreads.Nim
