import Uthreads.Library.Relational
import Uthreads.Model.Operations

/-! States that differ in nothing the scheduler looks at. The contexts, the masks
and the timer are carried along and never read, so a call answers alike in states
that are alike. -/

namespace Uthreads
open Relational

variable {ε : Type} {one two : State ε}

def Twin (one two : UThread ε) : Prop :=
  one.status = two.status ∧ one.numOfQuantumsRunning = two.numOfQuantumsRunning

/-- Two states that differ in saved contexts, masks and timers at most. -/
structure Alike (one two : State ε) : Prop where
  threads : ∀ tid, Option.Rel Twin (one.allThreads tid) (two.allThreads tid)
  sleepers : one.sleepers = two.sleepers
  blocked : one.blockedTids = two.blockedTids
  ready : one.readyTids = two.readyTids
  free : one.freeIds = two.freeIds
  total : one.totalQuantums = two.totalQuantums
  running : one.runningTid = two.runningTid

namespace Alike

theorem found (alike : Alike one two) (tid : Int) :
    one.allThreads tid = none ∧ two.allThreads tid = none ∨
      ∃ a b, one.allThreads tid = some a ∧ two.allThreads tid = some b ∧ Twin a b := by
  have threads := alike.threads tid
  generalize one.allThreads tid = first at threads
  generalize two.allThreads tid = second at threads
  cases threads with
  | none => exact .inl ⟨rfl, rfl⟩
  | some twin => exact .inr ⟨_, _, rfl, rfl, twin⟩

protected theorem refl (s : State ε) : Alike s s := by
  refine ⟨fun tid => ?_, rfl, rfl, rfl, rfl, rfl, rfl⟩
  cases s.allThreads tid with
  | none => exact .none
  | some thread => exact .some ⟨rfl, rfl⟩

protected theorem symm (alike : Alike one two) : Alike two one := by
  refine ⟨fun tid => ?_, alike.sleepers.symm, alike.blocked.symm, alike.ready.symm, alike.free.symm, alike.total.symm,
    alike.running.symm⟩
  rcases alike.found tid with ⟨first, second⟩ | ⟨a, b, first, second, twin⟩
  · rw [first, second]
    exact .none
  · rw [first, second]
    exact .some ⟨twin.1.symm, twin.2.symm⟩

protected theorem trans {three : State ε} (alike : Alike one two) (alike' : Alike two three) : Alike one three := by
  refine ⟨fun tid => ?_, alike.sleepers.trans alike'.sleepers, alike.blocked.trans alike'.blocked,
    alike.ready.trans alike'.ready, alike.free.trans alike'.free, alike.total.trans alike'.total,
    alike.running.trans alike'.running⟩
  have former := alike.threads tid
  have latter := alike'.threads tid
  generalize one.allThreads tid = first at former ⊢
  generalize two.allThreads tid = middle at former latter
  generalize three.allThreads tid = last at latter ⊢
  cases former with
  | none => exact latter
  | some twin =>
    cases latter with
    | some twin' => exact .some ⟨twin.1.trans twin'.1, twin.2.trans twin'.2⟩

theorem masked (alike : Alike one two) {mask mask' : Finset Signal} :
    Alike { one with mask } { two with mask := mask' } :=
  ⟨alike.threads, alike.sleepers, alike.blocked, alike.ready, alike.free, alike.total, alike.running⟩

theorem timed (alike : Alike one two) : Alike (resetTimer one) (resetTimer two) :=
  ⟨alike.threads, alike.sleepers, alike.blocked, alike.ready, alike.free, alike.total, alike.running⟩

theorem status (alike : Alike one two) (tid : Int) : one.status tid = two.status tid := by
  rcases alike.found tid with ⟨first, second⟩ | ⟨a, b, first, second, twin⟩
  · simp [State.status, first, second]
  · simp [State.status, first, second, twin.1]

private theorem withThreads (alike : Alike one two) (tid : Int) {a b : Option (UThread ε)}
    (twin : Option.Rel Twin a b) :
    Alike { one with allThreads := Function.update one.allThreads tid a }
      { two with allThreads := Function.update two.allThreads tid b } := by
  refine ⟨fun other => ?_, alike.sleepers, alike.blocked, alike.ready, alike.free, alike.total, alike.running⟩
  by_cases same : other = tid
  · subst same
    simpa using twin
  · simpa [same] using alike.threads other

private theorem updateThread (alike : Alike one two) (tid : Int) {f g : UThread ε → UThread ε}
    (twins : ∀ a b, Twin a b → Twin (f a) (g b)) :
    Related Alike (one.updateThread tid f) (two.updateThread tid g) := by
  unfold State.updateThread
  rcases alike.found tid with ⟨first, second⟩ | ⟨a, b, first, second, twin⟩
  · rw [first, second]
    rfl
  · rw [first, second]
    exact alike.withThreads tid (.some (twins a b twin))

private theorem setStatus (alike : Alike one two) (tid : Int) (status : Status) :
    Related Alike (one.setStatus tid status) (two.setStatus tid status) :=
  alike.updateThread tid fun _ _ twin => ⟨rfl, twin.2⟩

private theorem updateSleeper (alike : Alike one two) (it : Int × Int) :
    Related Alike (Uthreads.updateSleeper one it) (Uthreads.updateSleeper two it) := by
  unfold Uthreads.updateSleeper
  have stored : Alike { one with sleepers := one.sleepers.insert it.1 (it.2 - 1) }
      { two with sleepers := two.sleepers.insert it.1 (it.2 - 1) } :=
    { alike with sleepers := congrArg (·.insert it.1 (it.2 - 1)) alike.sleepers }
  apply Related.ite Iff.rfl
  · dsimp only
    apply Related.ite (by simp only [alike.blocked])
    · apply (stored.setStatus it.1 .ready).bind
      intro first second alike
      exact { alike with
        ready := congrArg (· ++ [it.1]) alike.ready
        sleepers := congrArg (·.erase it.1) alike.sleepers }
    · apply (stored.setStatus it.1 .blocked).bind
      intro first second alike
      exact { alike with sleepers := congrArg (·.erase it.1) alike.sleepers }
  · exact stored

theorem updateSleepers (alike : Alike one two) :
    Related Alike (Uthreads.updateSleepers one) (Uthreads.updateSleepers two) := by
  unfold Uthreads.updateSleepers
  rw [← alike.sleepers]
  generalize one.sleepers.toList = its
  induction its generalizing one two with
  | nil => exact alike
  | cons it next ih => exact (alike.updateSleeper it).bind fun first second alike => ih alike

theorem leaveRunning (alike : Alike one two) (target : Status) :
    Related Alike (Uthreads.leaveRunning target one) (Uthreads.leaveRunning target two) := by
  cases target with
  | ready =>
    have queued : Alike { one with readyTids := one.readyTids ++ [one.runningTid] }
        { two with readyTids := two.readyTids ++ [two.runningTid] } :=
      { alike with ready := by simp only [alike.ready, alike.running] }
    have changed := queued.setStatus one.runningTid .ready
    rwa [show Uthreads.leaveRunning .ready two = State.setStatus _ one.runningTid .ready by
      rw [alike.running]; rfl]
  | blocked =>
    have held : Alike { one with blockedTids := insert one.runningTid one.blockedTids }
        { two with blockedTids := insert two.runningTid two.blockedTids } :=
      { alike with blocked := by simp only [alike.blocked, alike.running] }
    have changed := held.setStatus one.runningTid .blocked
    rwa [show Uthreads.leaveRunning .blocked two = State.setStatus _ one.runningTid .blocked by
      rw [alike.running]; rfl]
  | main | running | asleep | terminated => exact alike

theorem insertReadyToRunning (alike : Alike one two) :
    Related Alike (Uthreads.insertReadyToRunning one) (Uthreads.insertReadyToRunning two) := by
  unfold Uthreads.insertReadyToRunning
  rw [← alike.ready]
  cases one.readyTids with
  | nil => exact { alike with running := rfl, ready := rfl }
  | cons tid rest =>
    have chosen : Alike { one with runningTid := tid, readyTids := rest } { two with runningTid := tid, readyTids := rest } :=
      { alike with running := rfl, ready := rfl }
    exact chosen.setStatus tid .running

theorem saveEnvironment (alike : Alike one two) (tid : Int) (here there : Context ε) :
    Related Alike (Uthreads.saveEnvironment one tid here) (Uthreads.saveEnvironment two tid there) :=
  alike.updateThread tid fun _ _ twin => twin

theorem startRunning (alike : Alike one two) :
    Related Alike (Uthreads.startRunning one) (Uthreads.startRunning two) := by
  unfold Uthreads.startRunning
  rw [← alike.running]
  rcases alike.found one.runningTid with ⟨first, second⟩ | ⟨a, b, first, second, twin⟩
  · rw [first, second]
    rfl
  · rw [first, second]
    have charged := alike.withThreads one.runningTid
      (.some (show Twin { a with numOfQuantumsRunning := a.numOfQuantumsRunning + 1 }
        { b with numOfQuantumsRunning := b.numOfQuantumsRunning + 1 } from ⟨twin.1, congrArg (· + 1) twin.2⟩))
    exact ⟨charged.threads, charged.sleepers, charged.blocked, charged.ready, charged.free, charged.total, rfl⟩

theorem switchThreads (alike : Alike one two) (target : Status) (here there : Context ε) :
    Related Alike (Uthreads.switchThreads target here one) (Uthreads.switchThreads target there two) := by
  apply alike.updateSleepers.bind
  intro one two alike
  apply (alike.leaveRunning target).bind
  intro left right parked
  apply parked.insertReadyToRunning.bind
  intro first second alike'
  have counted : Alike { first with totalQuantums := first.totalQuantums + 1 }
      { second with totalQuantums := second.totalQuantums + 1 } :=
    { alike' with total := congrArg (· + 1) alike'.total }
  dsimp only
  apply Related.ite Iff.rfl
  · exact counted.masked.startRunning
  · rw [← alike.running]
    apply (counted.saveEnvironment one.runningTid here there).bind
    exact fun _ _ alike => alike.masked.startRunning

private theorem eraseReady (alike : Alike one two) (tid : Int) :
    Related Alike (one.eraseReady tid) (two.eraseReady tid) := by
  unfold State.eraseReady
  apply Related.ite (by rw [alike.ready])
  · exact { alike with ready := congrArg (·.erase tid) alike.ready }
  · rfl

end Alike

def Onward (one two : Next × State ε) : Prop := one.1 = two.1 ∧ Alike one.2 two.2

section bodies

private theorem spawn_alike (alike : Alike one two) (entryPoint : Option ε) :
    Related Onward (uthreadSpawn entryPoint one) (uthreadSpawn entryPoint two) := by
  have least : two.freeIds.toList.head? = one.freeIds.toList.head? := by rw [alike.free]
  unfold uthreadSpawn
  rw [least]
  cases one.freeIds.toList.head? with
  | none => exact ⟨rfl, alike⟩
  | some tid =>
    cases entryPoint with
    | none => exact ⟨rfl, alike⟩
    | some entryPoint =>
      refine ⟨rfl, ?_⟩
      simp only [State.emplaceThread]
      rcases alike.found tid with ⟨first, second⟩ | ⟨a, b, first, second, -⟩
      · rw [first, second]
        have enrolled := alike.withThreads tid (.some (show Twin (.spawned tid entryPoint) _ from ⟨rfl, rfl⟩))
        exact { enrolled with ready := congrArg (· ++ [tid]) alike.ready, free := congrArg (·.erase tid) alike.free }
      · rw [first, second]
        exact { alike with ready := congrArg (· ++ [tid]) alike.ready, free := congrArg (·.erase tid) alike.free }

private theorem terminate_alike (alike : Alike one two) (tid : Int) :
    Related Onward (uthreadTerminate tid one) (uthreadTerminate tid two) := by
  unfold uthreadTerminate
  apply Related.ite Iff.rfl
  · rfl
  rcases alike.found tid with ⟨first, second⟩ | ⟨a, b, first, second, twin⟩
  · rw [first, second]
    exact ⟨rfl, alike⟩
  rw [first, second]
  have gone := alike.withThreads tid (a := none) (b := none) .none
  have removed : Alike { one with freeIds := one.freeIds.insert tid, allThreads := Function.update one.allThreads tid none }
      { two with freeIds := two.freeIds.insert tid, allThreads := Function.update two.allThreads tid none } :=
    { gone with free := congrArg (·.insert tid) alike.free }
  dsimp only
  rw [← twin.1]
  cases a.status with
  | running => exact ⟨rfl, removed.timed.masked⟩
  | ready => exact (removed.eraseReady tid).bind fun first second alike => ⟨rfl, alike⟩
  | blocked => exact ⟨rfl, { removed with blocked := congrArg (·.erase tid) removed.blocked }⟩
  | main | asleep | terminated => exact ⟨rfl, removed⟩

private theorem block_alike (alike : Alike one two) (tid : Int) :
    Related Onward (uthreadBlock tid one) (uthreadBlock tid two) := by
  unfold uthreadBlock
  apply Related.ite Iff.rfl
  · exact ⟨rfl, alike⟩
  rcases alike.found tid with ⟨first, second⟩ | ⟨a, b, first, second, twin⟩
  · rw [first, second]
    exact ⟨rfl, alike⟩
  rw [first, second]
  dsimp only
  rw [← twin.1]
  cases a.status with
  | running => exact ⟨rfl, alike.timed⟩
  | ready =>
    apply (alike.eraseReady tid).bind
    intro first second alike
    have held : Alike { first with blockedTids := insert tid first.blockedTids }
        { second with blockedTids := insert tid second.blockedTids } :=
      { alike with blocked := congrArg (insert tid) alike.blocked }
    exact (held.setStatus tid .blocked).bind fun _ _ alike => ⟨rfl, alike⟩
  | asleep => exact ⟨rfl, { alike with blocked := congrArg (insert tid) alike.blocked }⟩
  | blocked | main | terminated => exact ⟨rfl, alike⟩

private theorem resume_alike (alike : Alike one two) (tid : Int) :
    Related Onward (uthreadResume tid one) (uthreadResume tid two) := by
  unfold uthreadResume
  have again : ∀ first second : State ε, Alike first second →
      Related Onward
        (.ok (.finishes (.value success), if first.status tid = some .asleep then
          { first with blockedTids := first.blockedTids.erase tid } else first) : Except Halt (Next × State ε))
        (.ok (.finishes (.value success), if second.status tid = some .asleep then
          { second with blockedTids := second.blockedTids.erase tid } else second)) := by
    intro first second alike
    refine ⟨rfl, ?_⟩
    have same : first.status tid = second.status tid := alike.status tid
    rw [← same]
    split
    · exact { alike with blocked := congrArg (·.erase tid) alike.blocked }
    · exact alike
  rcases alike.found tid with ⟨first, second⟩ | ⟨a, b, first, second, twin⟩
  · rw [first, second]
    exact ⟨rfl, alike⟩
  rw [first, second]
  dsimp only
  apply Related.ite (by rw [twin.1])
  · have queued : Alike { one with blockedTids := one.blockedTids.erase tid, readyTids := one.readyTids ++ [tid] }
        { two with blockedTids := two.blockedTids.erase tid, readyTids := two.readyTids ++ [tid] } :=
      { alike with blocked := congrArg (·.erase tid) alike.blocked, ready := congrArg (· ++ [tid]) alike.ready }
    exact (queued.setStatus tid .ready).bind again
  · exact again one two alike

private theorem sleep_alike (alike : Alike one two) (numQuantums : Int) :
    Related Onward (uthreadSleep numQuantums one) (uthreadSleep numQuantums two) := by
  unfold uthreadSleep
  apply Related.ite (by rw [alike.running])
  · exact ⟨rfl, alike⟩
  apply Related.ite Iff.rfl
  · exact ⟨rfl, alike⟩
  rw [← alike.running]
  apply (alike.setStatus one.runningTid .asleep).bind
  intro first second alike
  refine ⟨rfl, ?_⟩
  have dozed : Alike { first with sleepers := first.sleepers.insertIfNew first.runningTid numQuantums }
      { second with sleepers := second.sleepers.insertIfNew second.runningTid numQuantums } :=
    { alike with sleepers := by simp only [alike.sleepers, alike.running] }
  exact dozed.timed

private theorem getQuantums_alike (alike : Alike one two) (tid : Int) :
    Related Onward (uthreadGetQuantums tid one) (uthreadGetQuantums tid two) := by
  unfold uthreadGetQuantums
  rcases alike.found tid with ⟨first, second⟩ | ⟨a, b, first, second, -⟩
  · rw [first, second]
    exact ⟨rfl, alike⟩
  · rw [first, second]
    exact ⟨rfl, alike⟩

theorem body_alike (alike : Alike one two) (op : Op ε) : Related Onward (op.body one) (op.body two) := by
  cases op with
  | spawn entryPoint => exact spawn_alike alike entryPoint
  | terminate tid => exact terminate_alike alike tid
  | block tid => exact block_alike alike tid
  | resume tid => exact resume_alike alike tid
  | sleep numQuantums => exact sleep_alike alike numQuantums
  | getTid => exact ⟨by rw [alike.running], alike⟩
  | getTotalQuantums => exact ⟨by rw [alike.total], alike⟩
  | getQuantums tid => exact getQuantums_alike alike tid
  | preempt => exact ⟨rfl, alike⟩

theorem eval_alike (alike : Alike one two) (result : Returned) :
    Related Eq (result.eval one) (result.eval two) := by
  cases result with
  | value => rfl
  | newThread tid =>
    dsimp only [Returned.eval]
    rcases alike.found tid with ⟨first, second⟩ | ⟨a, b, first, second, -⟩
    · rw [first, second]
      rfl
    · rw [first, second]
      rfl
  | quantumsOf tid =>
    dsimp only [Returned.eval]
    rcases alike.found tid with ⟨first, second⟩ | ⟨a, b, first, second, twin⟩
    · rw [first, second]
      rfl
    · rw [first, second]
      exact congrArg (Int.ofNat ·) twin.2

end bodies

/-- A call answers alike in states that are alike, or halts in both. -/
theorem call_alike (alike : Alike one two) (op : Op ε) (here there : Context ε) :
    Related (fun first second => first.1 = second.1 ∧ Alike first.2 second.2)
      (op.call here one) (op.call there two) := by
  have masked : Related (fun first second => first.1 = second.1 ∧ Alike first.2 second.2)
      (maskedCall op here one) (maskedCall op there two) := by
    apply (body_alike alike.masked op).bind
    rintro ⟨next, first⟩ ⟨_, second⟩ ⟨rfl, alike⟩
    cases next with
    | fails message => exact ⟨rfl, alike⟩
    | finishes result =>
      apply (eval_alike alike.masked result).bind
      rintro value _ rfl
      exact ⟨rfl, alike.masked⟩
    | switches target => exact (alike.switchThreads target here there).bind fun _ _ alike => ⟨rfl, alike⟩
  cases op with
  | getTid => exact ⟨by rw [alike.running], alike⟩
  | getTotalQuantums => exact ⟨by rw [alike.total], alike⟩
  | _ => exact masked

end Uthreads
