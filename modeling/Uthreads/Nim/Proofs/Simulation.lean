import Uthreads.Nim.Proofs.Switching

/-! The calls of nim/uthreads.cpp are those of the abstract scheduler: they
answer the same, change the same and end the same way. -/

namespace Uthreads.Nim
open Fallible OrderedMap Relational RoundRobin

variable {ε : Type}

structure Valid (s : State ε) : Prop where
  filed : Filed s
  current : s.Files (abstraction s).current s.running
  placed : Guarded.Placed (some (abstraction s).current) (abstraction s)
  main : s.live 0 ∧ 0 ∉ s.blocked
  ids : ∀ tid, s.live tid → 0 ≤ tid ∧ tid < maxThreadNum

section ids
variable {s : State ε} {tid : Int}

theorem Valid.numbered (valid : Valid s) : Numbered s := ⟨valid.main.1, valid.ids⟩

theorem Filed.isNone_tasks (filed : Filed s) : ((abstraction s).tasks tid).isNone = true ↔ ¬ s.live tid := by
  rw [← filed.thread_isSome, abstraction, Option.isNone_map]
  simp

private theorem Valid.free_id (valid : Valid s) :
    (allIds.find? fun id => ((abstraction s).tasks id).isNone) =
      if (s.allThreads.size : Int) + 1 > maxThreadNum then none else some (getId s) := by
  have test : (fun id => ((abstraction s).tasks id).isNone) = fun id => decide (id ∉ s.allThreads) := by
    funext id
    rw [Bool.eq_iff_iff, valid.filed.isNone_tasks, decide_eq_true_iff]
    rfl
  rw [test]
  exact valid.numbered.find_free

end ids

section calls
variable {s : State ε} {choice : Choice} {here : Context ε} {tid : Int}

theorem Valid.block (valid : Valid s) : Valid (block s) :=
  ⟨{ valid.filed with }, valid.current, valid.placed, valid.main, valid.ids⟩

theorem Choice.Fits.block (fits : choice.Fits s) : choice.Fits (block s) := { fits with }

theorem Valid.implements (valid : Valid s) : Implements s (abstraction s) := ⟨valid.filed, rfl⟩

private theorem returned {a : Guarded Int} {reply : Reply} {value : Option Int} (implements : Implements s a)
    (current : s.Files a.current s.running) (same : reply.value = value) : Answers (reply, unblock s) (value, a) :=
  ⟨same, implements.masked, current⟩

private theorem missing (valid : Valid s) : ((abstraction s).tasks tid).isNone = true ↔ tid ∉ s.allThreads :=
  valid.filed.isNone_tasks

private theorem spawn_related (valid : Valid s) (fits : choice.Fits s) (f : ε) :
    Related Answers (uthreadSpawn f choice.address s) ((Op.spawn f).spec (choice.next s) (abstraction s)) := by
  unfold uthreadSpawn
  change Related Answers _ (Op.spec _ (choice.next (block s)) (abstraction (block s)))
  replace valid := valid.block
  replace fits := fits.block
  generalize block s = s at valid fits ⊢
  simp only [Op.spec, valid.free_id]
  by_cases full : (s.allThreads.size : Int) + 1 > maxThreadNum
  · rw [if_pos full, if_pos full]
    exact ⟨rfl, valid.implements, valid.current⟩
  · rw [if_neg full, if_neg full]
    obtain ⟨new, -⟩ := valid.numbered.getId_new full
    have enlisted := valid.implements.accept (f := f) fits.notNull fits.fresh valid.current new
    exact returned enlisted (Implements.current_enlist fits.fresh valid.current new) rfl

private theorem block_related (valid : Valid s) :
    Related Answers (uthreadBlock tid here s) ((Op.block tid : Op ε).spec (choice.next s) (abstraction s)) := by
  unfold uthreadBlock
  change Related Answers _ (Op.spec _ (choice.next (block s)) (abstraction (block s)))
  replace valid := valid.block
  generalize block s = s at valid ⊢
  simp only [Op.spec]
  cases found : s.allThreads[tid]? with
  | none =>
    have absent : tid ∉ s.allThreads := Std.ExtTreeMap.mem_iff_isSome_getElem?.not.mpr (by simp [found])
    rw [if_pos (.inl (missing valid |>.mpr absent))]
    exact returned valid.implements valid.current rfl
  | some thread =>
    have files := valid.filed.files found
    have present : ¬ ((abstraction s).tasks tid).isNone = true := fun none => missing valid |>.mp none files.live
    by_cases zero : tid = mainThread
    · rw [if_pos (.inr zero)]
      simp only [zero, if_true]
      exact returned valid.implements valid.current rfl
    · rw [if_neg (by simp [present, zero])]
      simp only [zero, if_false]
      rw [findIdeque_eq valid.filed.ready_allocated, bind_ok_left]
      have parked := valid.implements.hold files
      cases queued : (s.ready.map s.idOf).idxOf? tid with
      | some it =>
        have member : tid ∈ (abstraction s).queue := by
          rw [← List.isSome_idxOf?]
          exact Option.isSome_iff_exists.mpr ⟨it, queued⟩
        have other : tid ≠ (abstraction s).current := fun same =>
          ((valid.placed.queued tid).mp member).1 (congrArg some same.symm)
        rw [if_neg other]
        rw [State.park, State.readyWithout_of_some queued] at parked
        exact returned parked valid.current rfl
      | none =>
        rw [State.park, State.readyWithout_of_none queued] at parked
        by_cases running : s.running = thread
        · have same : tid = (abstraction s).current := files.id_inj (running ▸ valid.current)
          simp only [running, if_true]
          rw [if_pos same]
          have out : moveOut .blocked s.running s = .ok { s with blocked := s.blocked.insert tid thread } := by
            rw [moveOut, running, files.getId]
            rfl
          rw [switchThread_eq out rfl]
          exact jump_related parked valid.current.allocated rfl
        · have other : tid ≠ (abstraction s).current := fun same => running (valid.current.inj (same ▸ files))
          simp only [running, if_false]
          rw [if_neg other]
          exact returned parked valid.current rfl

private theorem resume_related (valid : Valid s) :
    Related Answers (uthreadResume tid s) ((Op.resume tid : Op ε).spec (choice.next s) (abstraction s)) := by
  unfold uthreadResume
  change Related Answers _ (Op.spec _ (choice.next (block s)) (abstraction (block s)))
  replace valid := valid.block
  generalize block s = s at valid ⊢
  simp only [Op.spec, missing valid]
  by_cases absent : tid ∉ s.allThreads
  · rw [if_pos absent, if_pos absent]
    exact returned valid.implements valid.current rfl
  · rw [if_neg absent, if_neg absent]
    cases found : s.blocked[tid]? with
    | none =>
      have free : tid ∉ s.blocked := Std.ExtTreeMap.mem_iff_isSome_getElem?.not.mpr (by simp [found])
      have idle : (abstraction s).release tid = abstraction s := by
        apply Guarded.release_eq_self
        intro task task_found
        obtain ⟨thread, -, rfl⟩ := Option.map_eq_some_iff.mp task_found
        exact decide_eq_false free
      rw [idle]
      exact returned valid.implements valid.current rfl
    | some current =>
      have woken := valid.implements.release found
      simp only [State.wake] at woken
      simp only [ite_not]
      exact returned woken (Guarded.current_release (a := abstraction s) ▸ valid.current) rfl

private theorem getTid_related (valid : Valid s) :
    Related Answers (uthreadGetTid s) ((Op.getTid : Op ε).spec (choice.next s) (abstraction s)) := by
  unfold uthreadGetTid
  change Related Answers _ (Op.spec _ (choice.next (block s)) (abstraction (block s)))
  replace valid := valid.block
  generalize block s = s at valid ⊢
  simp only [valid.current.getId]
  exact returned valid.implements valid.current rfl

private theorem getQuantums_related (valid : Valid s) :
    Related Answers (uthreadGetQuantums tid s) ((Op.getQuantums tid : Op ε).spec (choice.next s) (abstraction s)) := by
  unfold uthreadGetQuantums
  change Related Answers _ (Op.spec _ (choice.next (block s)) (abstraction (block s)))
  replace valid := valid.block
  generalize block s = s at valid ⊢
  simp only [Op.spec]
  cases found : s.allThreads[tid]? with
  | none =>
    have none : (abstraction s).tasks tid = none := by simp [abstraction, State.thread, found]
    rw [none]
    exact returned valid.implements valid.current rfl
  | some thread =>
    obtain ⟨record, stored, -⟩ := (valid.filed.files found).found
    have task : (abstraction s).tasks tid = some ⟨decide (tid ∈ s.blocked), none, record.quantums⟩ := by
      simp [abstraction, State.thread, found, stored]
    have quantums : s.getQuantum thread = .ok record.quantums := by simp [State.getQuantum, State.deref, stored]
    rw [task]
    simp only [quantums]
    exact returned valid.implements valid.current rfl

private theorem mutexLock_related (valid : Valid s) :
    Related Answers (uthreadMutexLock here s) ((Op.mutexLock : Op ε).spec (choice.next s) (abstraction s)) := by
  unfold uthreadMutexLock
  change Related Answers _ (Op.spec _ (choice.next (block s)) (abstraction (block s)))
  replace valid := valid.block
  generalize block s = s at valid ⊢
  simp only [Op.spec]
  cases taken : s.mutex.blocked with
  | false =>
    rw [owner_none taken]
    exact returned (valid.implements.take valid.current) valid.current rfl
  | true =>
    obtain ⟨holder, files, owner⟩ := valid.filed.owner taken
    rw [owner]
    simp only [if_true, files.getId, valid.current.getId, bind_ok_left]
    by_cases same : holder = (abstraction s).current
    · rw [if_pos same, if_pos same]
      exact returned valid.implements valid.current rfl
    · rw [if_neg same, if_neg same]
      have waiting := valid.implements.wait valid.current
      have again : (s.mutexBlocked.insert (abstraction s).current s.running).insert (abstraction s).current s.running =
          s.mutexBlocked.insert (abstraction s).current s.running := by
        apply insert_of_getElem?
        rw [getElem?_insert, if_pos rfl]
      generalize s.mutexBlocked.insert (abstraction s).current s.running = waiters at waiting again ⊢
      have out : moveOut .mutexBlocked s.running { s with mutexBlocked := waiters } =
          .ok { s with mutexBlocked := waiters } := by
        have id : State.getId { s with mutexBlocked := waiters } s.running = .ok (abstraction s).current :=
          valid.current.getId
        rw [moveOut, id, bind_ok_left, again]
        rfl
      rw [switchThread_eq out rfl]
      exact jump_related waiting valid.current.allocated rfl

private theorem mutexUnlock_related (valid : Valid s) (fits : choice.Fits s) :
    Related Answers (uthreadMutexUnlock choice.order s) ((Op.mutexUnlock : Op ε).spec (choice.next s) (abstraction s)) := by
  unfold uthreadMutexUnlock
  change Related Answers _ (Op.spec _ (choice.next (block s)) (abstraction (block s)))
  replace valid := valid.block
  replace fits := fits.block
  generalize block s = s at valid fits ⊢
  simp only [Op.spec]
  cases taken : s.mutex.blocked with
  | false =>
    rw [owner_none taken]
    exact returned valid.implements valid.current rfl
  | true =>
    obtain ⟨holder, files, owner⟩ := valid.filed.owner taken
    simp only [Bool.not_true, Bool.false_eq_true, if_false, files.getId, valid.current.getId, bind_ok_left, owner,
      Option.some.injEq]
    by_cases same : holder = (abstraction s).current
    · simp only [same, ne_eq, not_true, if_false, if_true]
      rcases mutexUnblockRandomThread_eq valid.filed fits with ⟨nobody, unblocked⟩ | ⟨tid, pointer, next, waits, unblocked⟩
      · rw [unblocked, nobody]
        exact returned valid.implements.giveUp valid.current rfl
      · rw [unblocked, next]
        exact returned (valid.implements.grant waits) valid.current rfl
    · simp only [Ne.symm same, same, ne_eq, not_false_eq_true, if_true, if_false]
      exact returned valid.implements valid.current rfl

theorem leaveMutex_eq (valid : Valid s) (fits : choice.Fits s) (tid : Int) :
    ∃ granted, leaveMutex tid choice.order s = .ok granted ∧
      Implements granted ((abstraction s).surrender tid (choice.next s)) ∧
      granted.allThreads = s.allThreads ∧ granted.heap = s.heap ∧ granted.running = s.running := by
  unfold leaveMutex Guarded.surrender
  cases taken : s.mutex.blocked with
  | false =>
    rw [owner_none taken]
    exact ⟨s, rfl, valid.implements, rfl, rfl, rfl⟩
  | true =>
    obtain ⟨holder, files, owner⟩ := valid.filed.owner taken
    simp only [if_true, files.getId, bind_ok_left, owner, Option.some.injEq]
    by_cases same : tid = holder
    · rw [if_pos same, if_pos same.symm]
      rcases mutexUnblockRandomThread_eq valid.filed fits with
        ⟨nobody, unblocked⟩ | ⟨next, pointer, chosen, waits, unblocked⟩
      · rw [nobody]
        exact ⟨_, unblocked, valid.implements.giveUp, rfl, rfl, rfl⟩
      · rw [chosen]
        exact ⟨_, unblocked, valid.implements.grant waits, rfl, rfl, rfl⟩
    · rw [if_neg same, if_neg (Ne.symm same)]
      exact ⟨s, rfl, valid.implements, rfl, rfl, rfl⟩

private theorem terminate_related (valid : Valid s) (fits : choice.Fits s) :
    Related Answers (uthreadTerminate tid choice.order here s)
      ((Op.terminate tid : Op ε).spec (choice.next s) (abstraction s)) := by
  unfold uthreadTerminate
  change Related Answers _ (Op.spec _ (choice.next (block s)) (abstraction (block s)))
  replace valid := valid.block
  replace fits := fits.block
  generalize block s = s at valid fits ⊢
  simp only [Op.spec, missing valid]
  by_cases absent : tid ∉ s.allThreads
  · rw [if_pos absent, if_pos absent]
    exact returned valid.implements valid.current rfl
  rw [if_neg absent, if_neg absent]
  by_cases zero : tid = mainThread
  · obtain ⟨_, freed, -⟩ := freeAllThread_ok valid.filed.null valid.filed.record
    rw [if_pos zero, if_pos zero, freed]
    rfl
  rw [if_neg zero, if_neg zero]
  obtain ⟨pointer, files⟩ := valid.filed.exists_files (not_not.mp absent)
  obtain ⟨granted, handed, implements, table, heap, running⟩ := leaveMutex_eq valid fits tid
  have placed := valid.placed.surrender tid (eligible valid.filed fits)
  have unowned := valid.placed.surrender_owner tid (eligible valid.filed fits)
  have turn : ((abstraction s).surrender tid (choice.next s)).current = (abstraction s).current := Guarded.current_surrender
  rw [handed, bind_ok_left]
  generalize (abstraction s).surrender tid (choice.next s) = a at implements placed unowned turn ⊢
  replace files : granted.Files tid pointer := ⟨table ▸ files.1, heap ▸ files.2⟩
  have current : granted.Files (abstraction s).current granted.running :=
    ⟨table ▸ running ▸ valid.current.1, heap ▸ running ▸ valid.current.2⟩
  have dropped := implements.drop placed.nodup unowned
  have gone : (granted.withdraw tid).allThreads[tid]? = none := by
    rw [State.withdraw, getElem?_erase, if_pos rfl]
  have id : (granted.withdraw tid).getId (granted.withdraw tid).running = .ok (abstraction s).current := current.getId
  rw [freeThread_eq implements.filed files, bind_ok_left]
  simp only [id, bind_ok_left]
  by_cases self : tid = (abstraction s).current
  · rw [if_pos self, if_pos self]
    have same : granted.running = pointer := current.inj (self ▸ files)
    have left : moveOut .none (granted.withdraw tid).running (granted.withdraw tid) = .ok (granted.withdraw tid) := rfl
    rw [switchThread_eq left rfl]
    exact delete_related dropped same files.2 gone
  · rw [if_neg self, if_neg self]
    have apart : ∀ other, ¬ (granted.withdraw tid).Files other pointer := by
      intro other left
      have same : other = tid := Option.some.inj (left.2.symm.trans files.2)
      cases (same ▸ left.1).symm.trans gone
    have kept : (granted.withdraw tid).Files (abstraction s).current (granted.withdraw tid).running :=
      ⟨by rw [State.withdraw, getElem?_erase, if_neg (Ne.symm self)]; exact current.1, current.2⟩
    have notNull := implements.filed.notNull files
    obtain ⟨thread, found, -⟩ := files.found
    have found : (granted.withdraw tid).heap pointer = some thread := found
    rw [delete_eq found dropped.filed.null, bind_ok_left]
    have stored := dropped.store none notNull apart kept
    have different : (granted.withdraw tid).running ≠ pointer := fun same => apart _ (same ▸ kept)
    have turned : (a.drop tid).current = (abstraction s).current := turn
    exact returned stored (turned ▸ kept.store different) rfl

private theorem preempt_related (valid : Valid s) :
    Related Answers (alarmSigHandler here s) ((Op.preempt : Op ε).spec (choice.next s) (abstraction s)) := by
  unfold alarmSigHandler
  change Related Answers _ (Op.spec _ (choice.next (block s)) (abstraction (block s)))
  replace valid := valid.block
  generalize block s = s at valid ⊢
  have queued := valid.implements.requeue valid.current
  have out : moveOut .ready s.running s = .ok { s with ready := s.ready ++ [s.running] } := rfl
  rw [switchThread_eq out rfl]
  exact jump_related queued valid.current.allocated rfl

/-- A call answers as its specification does, or ends the process or gets stuck
together with it. -/
theorem call_related (valid : Valid s) (fits : choice.Fits s) (op : Op ε) (here : Context ε) :
    Related Answers (op.call choice here s) (op.spec (choice.next s) (abstraction s)) := by
  cases op with
  | spawn f => exact spawn_related valid fits f
  | terminate tid => exact terminate_related valid fits
  | block tid => exact block_related valid
  | resume tid => exact resume_related valid
  | getTid => exact getTid_related valid
  | getQuantums tid => exact getQuantums_related valid
  | getTotalQuantums => exact returned valid.block.implements valid.current rfl
  | mutexLock => exact mutexLock_related valid
  | mutexUnlock => exact mutexUnlock_related valid fits
  | preempt => exact preempt_related valid

end calls
end Uthreads.Nim
