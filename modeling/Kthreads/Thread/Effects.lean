import Kthreads.Thread.Transitions

/-! The sections that change a thread in some other way than waking it, each cut into a
frame step and a plain write, and the rules for the places where threads are reaped. -/
namespace Kthreads

theorem unusedSlot_spec (s : KState) (p : ProcIx) (nt : Slot) (found : unusedSlot s p = some nt) :
    (s.thread nt).state = .tUnused ∧ nt.1 = p := by
  obtain ⟨i,first,rfl⟩ := Option.map_eq_some_iff.mp found
  exact ⟨by simpa using List.find?_some first,rfl⟩

section Reap
variable (s : KState) (u : Slot)

theorem freeSlot_thread (page : Page) (v : Slot) (other : v ≠ u) :
    (freeSlot s u page).thread v = s.thread v := by
  simp [freeSlot,other]

end Reap

section Mark
variable (s : KState) (t u : Slot)

theorem markSiblings_occupied :
    Occupied (markSiblings s t) u ↔ Occupied s u := by
  unfold markSiblings
  by_cases own : u.1 = t.1 <;> by_cases asleep : (s.thread u).state = .tSleeping <;>
    simp [Occupied,own,asleep]

theorem markSiblings_tid :
    ((markSiblings s t).thread u).tid = (s.thread u).tid := by
  change (if u.1 = t.1 then _ else s.thread u).tid = _
  split <;> rfl

theorem markSiblings_asleep (asleep : ((markSiblings s t).thread u).state = .tSleeping) :
    u.1 ≠ t.1 ∧ (s.thread u).state = .tSleeping := by
  by_cases own : u.1 = t.1
  · by_cases before : (s.thread u).state = .tSleeping <;> simp [markSiblings,own,before] at asleep
  · exact ⟨own,by simpa [markSiblings,own] using asleep⟩

end Mark

def retire (s : KState) (t : Slot) : KState :=
  (({s with ptableLock := some t}.setThread t
    {s.thread t with shouldDie := false, state := .tZombie}).setCpu t .sched).goto t .dead

theorem exitThread_eq (s : KState) (t : Slot) :
    exitThread s t = retire (wakeup1 s (.thread t)) t := rfl

theorem retire_others (s : KState) (t u : Slot) (other : u ≠ t) :
    (retire s t).thread u = s.thread u ∧ (retire s t).pc u = s.pc u := by
  simp [retire,other]

theorem retire_occupied (s : KState) (t u : Slot) : Occupied (retire s t) u ↔ u ≠ t ∧ Occupied s u := by
  by_cases here : u = t
  · subst u
    simp [Occupied,retire]
  · rw [Occupied,(retire_others s t u here).1,Occupied]
    simp [here]

def vanish (s : KState) (t : Slot) : KState :=
  ({buryProcess s t.1 with ptableLock := some t}.setCpu t .sched).goto t .dead

theorem vanish_thread (s : KState) (t u : Slot) : (vanish s t).thread u =
    if u.1 = t.1 ∧ (s.thread u).state ≠ .tUnused then {s.thread u with state := .tZombie}
    else s.thread u := rfl

theorem vanish_pc (s : KState) (t u : Slot) : (vanish s t).pc u = if u = t then .dead else s.pc u := by
  by_cases here : u = t <;>
    simp [vanish,buryProcess,here]

theorem vanish_occupied (s : KState) (t u : Slot) :
    Occupied (vanish s t) u ↔ u.1 ≠ t.1 ∧ Occupied s u := by
  rw [Occupied,vanish_thread,Occupied]
  by_cases own : u.1 = t.1 <;> by_cases empty : (s.thread u).state = .tUnused <;> simp [own,empty]

theorem exitFinal_eq (s : KState) (t : Slot) : ∃ m, ThreadFrame s m ∧ m.pc = s.pc ∧
    (m.fs,m.log,m.sleepLock) = (s.fs,s.log,s.sleepLock) ∧ exitFinal s t = vanish m t := by
  have parent : ThreadFrame s (wakeParent s t.1) ∧ (wakeParent s t.1).pc = s.pc ∧
      ((wakeParent s t.1).fs,(wakeParent s t.1).log,(wakeParent s t.1).sleepLock) =
        (s.fs,s.log,s.sleepLock) := by
    unfold wakeParent
    split
    · exact ⟨.refl s,rfl,rfl⟩
    · exact ⟨.wakeAll s _,rfl,rfl⟩
  have children (m : KState) : ThreadFrame m (abandonChildren m t.1) ∧
      (abandonChildren m t.1).pc = m.pc ∧ ((abandonChildren m t.1).fs,(abandonChildren m t.1).log,
        (abandonChildren m t.1).sleepLock) = (m.fs,m.log,m.sleepLock) := by
    have passed : ThreadFrame m {m with proc := fun c => if (m.proc c).parent = some t.1
        then {m.proc c with parent := some m.initproc} else m.proc c} := by
      refine ⟨fun _ => .inl rfl,?_,rfl,rfl,rfl,rfl,fun _ => .inl rfl,[],rfl,by simp⟩
      intro p
      left
      change (if _ then _ else _ : Proc).state = _
      split <;> rfl
    unfold abandonChildren
    simp only
    split
    · exact ⟨passed.trans (.wakeAll _ _),rfl,rfl⟩
    · exact ⟨passed,rfl,rfl⟩
  obtain ⟨first,pcs,files⟩ := parent
  obtain ⟨second,pcs',files'⟩ := children (wakeParent s t.1)
  exact ⟨_,first.trans second,pcs'.trans pcs,files'.trans files,rfl⟩

section Scheduler
variable (s : KState) (t : Slot)

def dispatch (s : KState) (t : Slot) : KState :=
  ((s.setProc t.1 {s.proc t.1 with state := .used}).setThread t
    {s.thread t with state := .tRunning}).setCpu t .on

theorem scheduler_plain (awake : ∀ site, s.pc t ≠ .asleep site) : scheduler s t = dispatch s t := by
  unfold scheduler
  split
  next site place => exact absurd place (awake site)
  next => rfl

theorem scheduler_dies (site : Site) (place : s.pc t = .asleep site)
    (dies : (s.thread t).shouldDie = true) :
    scheduler s t = (dispatch s t).goto t .kthreadExit := by
  simp [scheduler,place,sleepResume,dispatch,dies]

theorem scheduler_lives (site : Site) (place : s.pc t = .asleep site)
    (lives : (s.thread t).shouldDie = false) :
    scheduler s t = ({dispatch s t with
      ptableLock := if site.underPtable then some t else none}.setThread t
        {s.thread t with state := .tRunning, chan := none}).goto t site.resume := by
  simp [scheduler,place,sleepResume,dispatch,lives]

theorem resume_life (site : Site) : site.resume.life = (Pc.asleep site).life := by
  cases site <;> rfl

/-- What the scheduler does to the thread it picks, whichever way the thread goes on. -/
structure Scheduled (s' : KState) : Prop where
  others : ∀ u, u ≠ t → s'.thread u = s.thread u ∧ s'.cpu u = s.cpu u ∧ s'.pc u = s.pc u
  state : (s'.thread t).state = .tRunning
  tid : (s'.thread t).tid = (s.thread t).tid
  shouldDie : (s'.thread t).shouldDie = (s.thread t).shouldDie
  kstack : (s'.thread t).kstack = (s.thread t).kstack
  cpu : s'.cpu t = .on
  life : (s'.pc t).life = (s.pc t).life ∨ (s'.pc t).life = .plain ∧ Active s t
  proc : ∀ p, (s'.proc p).state = if p = t.1 then .used else (s.proc p).state
  rest : (s'.nexttid,s'.freelist,s'.otherPages,s'.hist,s'.fs,s'.log,s'.sleepLock) =
    (s.nexttid,s.freelist,s.otherPages,s.hist,s.fs,s.log,s.sleepLock)

theorem scheduler_scheduled : Scheduled s t (scheduler s t) := by
  have proc (m : KState) (same : m.proc = (dispatch s t).proc) (p : ProcIx) :
      (m.proc p).state = if p = t.1 then .used else (s.proc p).state := by
    rw [same]
    by_cases own : p = t.1
    · simp [dispatch,own]
    · simp [dispatch,own]
  by_cases asleep : ∃ site, s.pc t = .asleep site
  · obtain ⟨site,place⟩ := asleep
    have active : Active s t := by simp [Active,place]
    by_cases dies : (s.thread t).shouldDie = true
    · rw [scheduler_dies s t site place dies]
      refine ⟨?_,?_,?_,?_,?_,?_,.inr ⟨?_,active⟩,proc _ rfl,rfl⟩
      · intro u other
        simp [dispatch,other]
      all_goals simp [dispatch,Pc.life]
    · rw [scheduler_lives s t site place (by simpa using dies)]
      refine ⟨?_,?_,?_,?_,?_,?_,.inl ?_,proc _ rfl,rfl⟩
      · intro u other
        simp [dispatch,other]
      all_goals simp [dispatch,resume_life,place]
  · rw [scheduler_plain s t (fun site place => asleep ⟨site,place⟩)]
    refine ⟨?_,?_,?_,?_,?_,?_,.inl rfl,proc _ rfl,rfl⟩
    · intro u other
      simp [dispatch,other]
    all_goals simp [dispatch]

end Scheduler

end Kthreads
