import Uthreads.Proofs.Statements

/-! A call that no signal interrupts is the atomic call, and a handler that no
signal interrupts is the atomic preemption. So what is proved about atomic steps
holds of the statements wherever the signal stays away. -/

namespace Uthreads
open Fallible Transition

def Proceeds (m m' : Machine) : Prop :=
  ∃ timeline, Run Machine.Steps m timeline m' ∧ ∀ move ∈ timeline, move.label = .run

section proceeds
variable {m middle final : Machine}

private theorem Proceeds.trans (first : Proceeds m middle) (last : Proceeds middle final) : Proceeds m final := by
  obtain ⟨one, run, ran⟩ := first
  obtain ⟨two, run', ran'⟩ := last
  exact ⟨one ++ two, run.append run', List.forall_mem_append.mpr ⟨ran, ran'⟩⟩

end proceeds

section switch
variable {s s' : State Code} {sp : Int} {instr : Instr} {rest : Code} {final : Machine}

private theorem proceeds_execute (executed : Machine.execute ⟨s, sp, instr :: rest, false⟩ rest instr = .ok final) :
    Proceeds ⟨s, sp, instr :: rest, false⟩ final := by
  have taken : Machine.Steps ⟨s, sp, instr :: rest, false⟩ .run final := congrArg some executed
  exact ⟨_, .single taken, by simp⟩

private theorem proceeds_loop {its : List (Int × Int)} (updated : updateSleepersFrom its s = .ok s') :
    Proceeds ⟨s, sp, .forSleepers its :: rest, false⟩ ⟨s', sp, rest, false⟩ := by
  induction its generalizing s with
  | nil =>
    cases updated
    exact proceeds_execute rfl
  | cons it next ih =>
    obtain ⟨middle, first, later⟩ := bind_ok.mp updated
    refine Proceeds.trans (proceeds_execute ?_) (ih later)
    simp only [Machine.execute, first, bind_ok_left]

private theorem proceeds_setStatus {status : Status} (updated : s.setStatus s.runningTid status = .ok s') :
    Proceeds ⟨s, sp, .setStatus status :: rest, false⟩ ⟨s', sp, rest, false⟩ :=
  proceeds_execute (by simp only [Machine.execute, updated, bind_ok_left])

private theorem proceeds_insert (inserted : insertReadyToRunning s = .ok s') :
    Proceeds ⟨s, sp, .insertReadyToRunning :: rest, false⟩ ⟨s', sp, rest, false⟩ := by
  unfold insertReadyToRunning at inserted
  split at inserted
  next queue =>
    cases inserted
    exact proceeds_execute (by simp only [Machine.execute, queue])
  next tid others queue =>
    apply Proceeds.trans (proceeds_execute (by simp only [Machine.execute, queue]; rfl))
    refine Proceeds.trans (proceeds_execute rfl) (proceeds_setStatus ?_)
    simpa only [queue, List.tail_cons] using inserted

private theorem proceeds_jump {tid : Int} {thread : UThread Code} (found : s.allThreads tid = some thread) :
    Proceeds ⟨s, sp, .siglongjmp tid :: rest, false⟩
      ⟨{ s with mask := thread.env.savedMask }, thread.env.sp, thread.env.pc, false⟩ :=
  proceeds_execute (by simp only [Machine.execute, found])

private theorem proceeds_start (started : startRunning s = .ok s') :
    ∃ env, s'.env s'.runningTid = some env ∧
      Proceeds ⟨s, sp, .startRunning :: rest, false⟩ ⟨s', env.sp, env.pc, false⟩ := by
  unfold startRunning at started
  split at started
  next => cases started
  next thread found =>
    cases started
    refine ⟨thread.env, by simp [State.env], ?_⟩
    let count := fun thread : UThread Code => { thread with numOfQuantumsRunning := thread.numOfQuantumsRunning + 1 }
    have counted := State.updateThread_live (State.live_of_thread found) count
    have charged : (s.modifyThread s.runningTid count).allThreads s.runningTid = some (count thread) := by
      simp [State.modifyThread, found]
    apply Proceeds.trans (proceeds_execute (by simp only [Machine.execute, found]; rfl))
    apply Proceeds.trans (proceeds_execute (by simp only [Machine.execute, count, counted, bind_ok_left]; rfl))
    have jump : Proceeds ⟨_, sp, [.siglongjmp s.runningTid], false⟩ _ := proceeds_jump charged
    simp only [State.modifyThread, found, Option.map_some] at jump ⊢
    exact jump

private theorem proceeds_unblock : Proceeds ⟨s, sp, .unblockVtAlarm :: rest, false⟩ ⟨unblockVtAlarm s, sp, rest, false⟩ :=
  proceeds_execute rfl

private theorem proceeds_save {tid : Int} (saved : saveEnvironment s tid ⟨sp, rest⟩ = .ok s') :
    Proceeds ⟨s, sp, .saveEnvironment tid :: rest, false⟩ ⟨unblockVtAlarm s', sp, [.startRunning], false⟩ :=
  (proceeds_execute (by simp only [Machine.execute, saved, bind_ok_left])).trans proceeds_unblock

private theorem proceeds_returns {op : Op Unit} {result : Returned} {value : Int} (read : result.eval s = .ok value) :
    Proceeds ⟨s, sp, .returns op result :: rest, false⟩ ⟨s, sp, rest, false⟩ :=
  proceeds_execute (by simp only [Machine.execute, read, bind_ok_left])

private theorem proceeds_leave {target : Status} {left chosen : State Code} (leaves : leaveRunning target s = .ok left)
    (inserted : insertReadyToRunning left = .ok chosen)
    (kept : (if target = .terminated then pure chosen.counted
      else saveEnvironment chosen.counted s.runningTid ⟨sp, rest⟩) = .ok s') :
    Proceeds ⟨s, sp, leaveCode target s.runningTid rest, false⟩ ⟨unblockVtAlarm s', sp, [.startRunning], false⟩ := by
  have saves : ∀ {rear}, target ≠ .terminated → rear = .countTotal :: .saveEnvironment s.runningTid :: rest →
      Proceeds ⟨chosen, sp, rear, false⟩ ⟨unblockVtAlarm s', sp, [.startRunning], false⟩ := by
    rintro rear other rfl
    rw [if_neg other] at kept
    exact Proceeds.trans (proceeds_execute rfl) (proceeds_save kept)
  cases target with
  | ready =>
    apply Proceeds.trans (proceeds_execute rfl)
    exact (proceeds_setStatus leaves).trans ((proceeds_insert inserted).trans (saves (by simp) rfl))
  | blocked =>
    apply Proceeds.trans (proceeds_execute rfl)
    exact (proceeds_setStatus leaves).trans ((proceeds_insert inserted).trans (saves (by simp) rfl))
  | terminated =>
    cases leaves
    cases kept
    apply (proceeds_insert inserted).trans
    exact Proceeds.trans (proceeds_execute rfl) proceeds_unblock
  | main | running | asleep =>
    cases leaves
    exact (proceeds_insert inserted).trans (saves (by simp) rfl)

/-- `switch_threads` without an interruption. -/
theorem proceeds_switch {target : Status} (switched : switchThreads target ⟨sp, rest⟩ s = .ok s') :
    ∃ env, s'.env s'.runningTid = some env ∧
      Proceeds ⟨s, sp, switchThreadsCode target ++ rest, false⟩ ⟨s', env.sp, env.pc, false⟩ := by
  obtain ⟨ticked, updated, switched⟩ := bind_ok.mp switched
  obtain ⟨left, leaves, switched⟩ := bind_ok.mp switched
  obtain ⟨chosen, inserted, switched⟩ := bind_ok.mp switched
  obtain ⟨saved, kept, started⟩ : ∃ saved, (if target = .terminated then pure chosen.counted
      else saveEnvironment chosen.counted ticked.runningTid ⟨sp, rest⟩) = .ok saved ∧
      startRunning (unblockVtAlarm saved) = .ok s' := by
    by_cases terminated : target = .terminated
    · simp only [terminated, if_true] at switched ⊢
      exact bind_ok.mp switched
    · simp only [terminated, if_false] at switched ⊢
      exact bind_ok.mp switched
  obtain ⟨env, found, jump⟩ := proceeds_start started
  refine ⟨env, found, ?_⟩
  refine Proceeds.trans (proceeds_execute rfl) ((proceeds_loop updated).trans ?_)
  exact Proceeds.trans (proceeds_execute rfl) ((proceeds_leave leaves inserted kept).trans jump)

end switch

section call
variable {s s' : State Code} {sp : Int} {op : Op Unit} {reply : Reply}

def Op.tail (op : Op Unit) : Code :=
  match op with
  | .sleep _ => [.returns op (.value success)]
  | _ => [.unblockVtAlarm, .returns op (.value success)]

theorem follow_switches (op : Op Unit) (target : Status) :
    op.follow (.switches target) = switchThreadsCode target ++ op.tail := by
  cases op <;> rfl

/-- Where control is after a call: back in the caller's code, or in the context of
the thread that runs now. -/
def Arrives (op : Op Unit) (s : State Code) (sp : Int) (m : Machine) : Prop :=
  if op.enter.switching s then ∃ env, m.lib.env m.lib.runningTid = some env ∧ m.sp = env.sp ∧ m.code = env.pc
  else m.sp = sp ∧ m.code = []

private theorem proceeds_masked (masks : op.masks = true) (taken : maskedCall op.enter ⟨sp, op.tail⟩ s = .ok (reply, s')) :
    ∃ final, Proceeds ⟨s, sp, op.code, false⟩ final ∧ final.lib = s' ∧ Arrives op s sp final := by
  obtain ⟨⟨next, middle⟩, body, taken⟩ := bind_ok.mp taken
  have begins : Proceeds ⟨s, sp, op.code, false⟩ ⟨middle, sp, op.follow next ++ [], false⟩ := by
    simp only [Op.code, masks, if_true]
    exact Proceeds.trans (proceeds_execute rfl) (proceeds_execute (by simp only [Machine.execute, body, bind_ok_left]))
  rw [List.append_nil] at begins
  cases next with
  | fails message =>
    cases taken
    refine ⟨_, begins.trans (proceeds_execute rfl), rfl, ?_⟩
    simp [Arrives, Op.switching, body]
  | finishes result =>
    obtain ⟨value, read, same⟩ := bind_ok.mp taken
    cases same
    simp only [Op.follow, masks, if_true] at begins
    refine ⟨_, begins.trans (proceeds_unblock.trans (proceeds_returns read)), rfl, ?_⟩
    simp [Arrives, Op.switching, body]
  | switches target =>
    obtain ⟨final, switched, same⟩ := bind_ok.mp taken
    cases same
    rw [follow_switches] at begins
    obtain ⟨env, found, switch⟩ := proceeds_switch switched
    refine ⟨_, begins.trans switch, rfl, ?_⟩
    simp only [Arrives, Op.switching, body, if_true]
    exact ⟨env, found, rfl, rfl⟩

/-- A call without an interruption does what the atomic call does. -/
theorem uninterrupted_call (taken : op.enter.call ⟨sp, op.tail⟩ s = .ok (reply, s')) :
    ∃ final, Proceeds ⟨s, sp, op.code, false⟩ final ∧ final.lib = s' ∧ Arrives op s sp final := by
  cases op with
  | getTid | getTotalQuantums =>
    cases taken
    refine ⟨⟨s, sp, [], false⟩, Proceeds.trans (proceeds_execute rfl) (proceeds_execute rfl), rfl, ?_⟩
    simp [Arrives, Op.enter, Op.switching, Op.body]
  | _ => exact proceeds_masked rfl taken

theorem uninterrupted_handler {m : Machine}
    (taken : Op.preempt.call ⟨m.sp, .unblockVtAlarm :: .sigreturn m.lib.mask :: m.code⟩ m.lib = .ok (reply, s')) :
    ∃ env, s'.env s'.runningTid = some env ∧ Proceeds m.deliver ⟨s', env.sp, env.pc, false⟩ := by
  obtain ⟨⟨next, middle⟩, body, taken⟩ := bind_ok.mp taken
  cases body
  obtain ⟨final, switched, same⟩ := bind_ok.mp taken
  cases same
  have idle : blockVtAlarm (blockVtAlarm m.lib) = blockVtAlarm m.lib :=
    congrArg (fun mask => { m.lib with mask }) (Finset.insert_idem ..)
  obtain ⟨env, found, switch⟩ := proceeds_switch switched
  refine ⟨env, found, Proceeds.trans (proceeds_execute rfl) ?_⟩
  rw [idle]
  exact switch

end call
end Uthreads
