import Kthreads.Kernel.Sections
import Kthreads.Kernel.Start

/-! How a step passes `ptable.lock` and the CPUs on. Most steps leave both alone; the lock is
taken for longer than one step only on the way into `sched` and back out of it. -/
open Function (update update_of_ne update_self)

namespace Kthreads
variable {m s : KState} {a : Action} {t : Slot} {c c₀ : Pc}

def Pc.holds : Pc → Bool
  | .sleepHold _ _ => true
  | _ => false

inductive LockStep (s : KState) : Action → KState → Prop
  | keeps {a : Action} {s' : KState} (lock : s'.ptableLock = s.ptableLock) (cpu : s'.cpu = s.cpu)
      (holds : ∀ u, (s'.pc u).holds = true → (s.pc u).holds = true) : LockStep s a s'
  | enters (t : Slot) (o : Oracle) {s' : KState} (on : s.cpu t = .on) (free : s.ptableLock = none)
      (lock : s'.ptableLock = some t) (cpu : s'.cpu = s.cpu)
      (holds : ∀ u, (s'.pc u).holds = true → u = t ∨ (s.pc u).holds = true) : LockStep s (.run t o) s'
  | leaves (t : Slot) (o : Oracle) {s' : KState} (on : s.cpu t = .on)
      (own : s.ptableLock = none ∨ s.ptableLock = some t) (lock : s'.ptableLock = none)
      (cpu : s'.cpu = s.cpu)
      (holds : ∀ u, (s'.pc u).holds = true → u ≠ t ∧ (s.pc u).holds = true) : LockStep s (.run t o) s'
  | sched (t : Slot) {a : Action} {s' : KState} (on : s.cpu t = .on)
      (own : s.ptableLock = none ∨ s.ptableLock = some t ∨ (s.pc t).holds = true)
      (lock : s'.ptableLock = some t) (cpu : s'.cpu = update s.cpu t .sched)
      (holds : ∀ u, (s'.pc u).holds = true → u ≠ t ∧ (s.pc u).holds = true) : LockStep s a s'
  | swtch (t : Slot) (inside : s.cpu t = .sched) : LockStep s (.swtch t) (swtch s t)
  | scheduler (t : Slot) {s' : KState} (free : s.ptableLock = none) (off : s.cpu t = .off)
      (runnable : (s.thread t).state = .tRunnable)
      (lock : s'.ptableLock = none ∨ s'.ptableLock = some t)
      (cpu : s'.cpu = update s.cpu t .on)
      (holds : ∀ u, (s'.pc u).holds = true → (s.pc u).holds = true) : LockStep s (.scheduler t) s'

namespace LockStep

theorem still {s' : KState}
    (same : (s'.ptableLock,s'.cpu,s'.pc) = (s.ptableLock,s.cpu,s.pc)) : LockStep s a s' := by
  obtain ⟨lock,cpu,place⟩ := by simpa only [Prod.mk.injEq] using same
  exact .keeps lock cpu (fun u held => by rw [← place]; exact held)

theorem holds_goto (t : Slot) (pc : Pc) (pcs : m.pc = s.pc) (none : pc.holds = false)
    (u : Slot) (held : ((m.goto t pc).pc u).holds = true) : u ≠ t ∧ (s.pc u).holds = true := by
  by_cases here : u = t
  · subst u
    simp [none] at held
  · exact ⟨here,by simpa [here,pcs] using held⟩

theorem moved (t : Slot) (pc : Pc) (none : pc.holds = false)
    (same : (m.ptableLock,m.cpu,m.pc) = (s.ptableLock,s.cpu,s.pc)) : LockStep s a (m.goto t pc) := by
  obtain ⟨lock,cpu,place⟩ := by simpa only [Prod.mk.injEq] using same
  exact .keeps lock cpu (fun u held => (holds_goto t pc place none u held).2)

theorem slept (t : Slot) (o : Oracle) (chan : Chan) (site : Site) (on : s.cpu t = .on)
    (free : s.ptableLock = none) (same : (m.cpu,m.pc) = (s.cpu,s.pc)) :
    LockStep s (.run t o) (sleepEnter m t chan site) := by
  obtain ⟨cpu,place⟩ := Prod.mk.inj same
  refine .enters t o on free rfl cpu ?_
  intro u held
  by_cases here : u = t
  · exact .inl here
  · exact .inr (by simpa [sleepEnter,here,place] using held)

theorem committed (t : Slot) (chan : Chan) (site : Site) (on : s.cpu t = .on)
    (own : s.ptableLock = none ∨ s.ptableLock = some t ∨ (s.pc t).holds = true) :
    LockStep s a (sleepCommit s t chan site) :=
  .sched t on own rfl rfl (holds_goto t (.asleep site) rfl rfl)

theorem walks (none : c.holds = false := by rfl)
    (same : (m.ptableLock,m.cpu,m.pc) = (s.ptableLock,s.cpu,s.pc) := by rfl) : LockStep s a (m.goto t c) :=
  .moved t c none same

theorem releases {o : Oracle} (on : s.cpu t = .on)
    (own : s.ptableLock = none ∨ s.ptableLock = some t) (none : c.holds = false := by rfl)
    (lock : m.ptableLock = Option.none := by rfl) (same : (m.cpu,m.pc) = (s.cpu,s.pc) := by rfl) :
    LockStep s (.run t o) (m.goto t c) := by
  obtain ⟨cpu,pcs⟩ := Prod.mk.inj same
  exact .leaves t o on own lock cpu (holds_goto t c pcs none)

end LockStep

theorem Walks.holds (walks : Walks s t c₀ c) : c.holds = false := by
  cases walks with
  | calls c => cases c <;> simp only [Syscall.entry] <;> (try split) <;> rfl
  | drain k i n c move => cases k <;> cases move <;> rfl
  | _ => rfl

theorem MutexWalks.holds (walks : MutexWalks c₀ c) : c.holds = false := by
  cases walks with
  | deallocRefused id k | deallocDone i id k => cases k <;> rfl
  | _ => rfl

theorem FileWalks.holds (walks : FileWalks c₀ c) : c.holds = false := by
  cases walks with
  | returns k => cases k <;> rfl
  | _ => rfl

theorem code_lock (s s' : KState) (t : Slot) (o : Oracle) (calm : s.panicked = false) (on : s.cpu t = .on)
    (taken : code s t o = some s') : LockStep s (.run t o) s' := by
  -- the thread that is being set up or dropped has a place of its own
  have twice (m : KState) (nt : Slot) (c₁ c : Pc) (first : c₁.holds = false) (second : c.holds = false)
      (same : (m.ptableLock,m.cpu,m.pc) = (s.ptableLock,s.cpu,s.pc)) :
      LockStep s (.run t o) ((m.goto nt c₁).goto t c) := by
    obtain ⟨lock,cpu,pcs⟩ := by simpa only [Prod.mk.injEq] using same
    refine .keeps lock cpu ?_
    intro u held
    obtain ⟨_,before⟩ := LockStep.holds_goto t c rfl second u held
    exact (LockStep.holds_goto nt c₁ pcs first u before).2
  cases code_sections calm taken with
  | panics => exact .still rfl
  | walk place walks => exact .walks walks.holds
  | birth p nt c births =>
    cases births with
    | create | fork => exact .walks
  | stack nt c page rest gets =>
    refine twice _ nt .user c rfl ?_ rfl
    cases gets <;> rfl
  | forkFailed nt page => exact twice _ nt .idle .retKilled rfl rfl rfl
  | exitThread place free => exact .sched t on (.inl free) rfl rfl (LockStep.holds_goto t .dead rfl rfl)
  | exitFinal place free =>
    obtain ⟨proc,thread,eq⟩ := exitFinal_rest s t
    rw [eq]
    exact .sched t on (.inl free) rfl rfl (LockStep.holds_goto t .dead rfl rfl)
  | waitPanic c =>
    obtain ⟨_,_,_,_,eq⟩ := reapThreads_rest s c
    rw [eq]
    exact .still rfl
  | waitDone c place own =>
    obtain ⟨_,_,_,_,eq⟩ := reapThreads_rest s c
    rw [eq]
    exact .releases on own
  | waitNone place own | joinDies tid place own | joinMissing tid place own | joinFound tid u place own =>
    exact .releases on own
  | sleep chan site falls own =>
    refine .committed t chan site on (own.imp_right (Or.imp_right ?_))
    intro place
    rw [place]
    rfl
  | mutex sub =>
    cases sub with
    | goes place walks => exact .walks walks.holds
    | unlocks i id place mutex =>
      obtain ⟨thread,eq⟩ := wakeSleeper_rest {s with mutex := mutex, mtableLock := none} t.1 i
      rw [eq]
      exact .walks
    | sleeps i id place free => exact .slept t o _ _ on free rfl
  | files sub =>
    cases sub with
    | stays | wakes => exact .still rfl
    | goes place walks => exact .walks walks.holds
    | sleeps place sleeps free => exact .slept t o _ _ on free rfl
  | fault | mark | drainWakes | drainFree | stackless | createRun | forkProc | forkCopied | forkRun | joinFree | kill =>
    exact .walks

theorem scheduler_lock (s : KState) (t : Slot) (free : s.ptableLock = none) (off : s.cpu t = .off)
    (runnable : (s.thread t).state = .tRunnable) : LockStep s (.scheduler t) (scheduler s t) := by
  unfold scheduler
  simp only
  split
  next site place =>
    unfold sleepResume
    split
    · refine .scheduler t free off runnable (.inl free) rfl ?_
      intro u held
      exact (LockStep.holds_goto t .kthreadExit rfl rfl u held).2
    · refine .scheduler t free off runnable ?_ rfl ?_
      · cases site <;> simp [Site.underPtable]
      · intro u held
        refine (LockStep.holds_goto t site.resume rfl ?_ u held).2
        cases site <;> rfl
  · exact .scheduler t free off runnable (.inl free) rfl (fun u held => held)

theorem step_lock (s s' : KState) (a : Action) (taken : step s a = some s') : LockStep s a s' := by
  obtain ⟨calm,taken⟩ := step_cases taken
  cases taken with
  | run t o s' on taken => exact code_lock s s' t o calm on taken
  | scheduler t free off runnable => exact scheduler_lock s t free off runnable
  | yield t free on _ quiet =>
    refine .sched t on (.inl free) rfl rfl ?_
    intro u held
    refine ⟨?_,held⟩
    rintro rfl
    cases place : s.pc u <;> simp [Kthreads.yield,place,Pc.holds,Pc.spin] at held quiet
  | swtch t inside => exact .swtch t inside
  | wakeup | spurious | ideintr | takePage | givePage => exact .still rfl

structure Locked (s : KState) : Prop where
  sched : ∀ u, s.cpu u = .sched → s.ptableLock = some u
  holds : ∀ u, (s.pc u).holds = true → s.ptableLock = some u ∧ s.cpu u = .on

namespace Locked

theorem start (init : Start s) : Locked s := by
  refine ⟨?_,?_⟩
  · intro u inside
    rcases init.slot u with ready | vacant
    · rcases ready.cpu with ⟨_,cpu⟩ | ⟨_,cpu⟩ <;> rw [cpu] at inside <;> contradiction
    · rw [vacant.cpu] at inside
      contradiction
  · intro u held
    rcases init.slot u with ready | vacant
    · simp [ready.pc,Pc.holds] at held
    · simp [vacant.pc,Pc.holds] at held

theorem owner (inv : Locked s) (t u : Slot)
    (own : s.ptableLock = none ∨ s.ptableLock = some t ∨ (s.pc t).holds = true)
    (other : s.ptableLock = some u) : u = t := by
  rcases own with free | mine | held
  · rw [free] at other
    contradiction
  · exact Option.some.inj (other.symm.trans mine)
  · exact Option.some.inj (other.symm.trans (inv.holds t held).1)

theorem step {s' : KState} (inv : Locked s) (taken : LockStep s a s') : Locked s' := by
  cases taken with
  | keeps lock cpu holds =>
    refine ⟨?_,?_⟩
    · intro u inside
      rw [cpu] at inside
      rw [lock]
      exact inv.sched u inside
    · intro u held
      rw [lock,cpu]
      exact inv.holds u (holds u held)
  | enters t o on free lock cpu holds =>
    refine ⟨?_,?_⟩
    · intro u inside
      rw [cpu] at inside
      have taken := inv.sched u inside
      rw [free] at taken
      contradiction
    · intro u held
      rcases holds u held with rfl | before
      · exact ⟨lock,cpu ▸ on⟩
      · have taken := (inv.holds u before).1
        rw [free] at taken
        contradiction
  | leaves t o on own lock cpu holds =>
    refine ⟨?_,?_⟩
    · intro u inside
      rw [cpu] at inside
      have here := inv.owner t u (own.imp_right .inl) (inv.sched u inside)
      rw [here,on] at inside
      contradiction
    · intro u held
      obtain ⟨other,before⟩ := holds u held
      exact absurd (inv.owner t u (own.imp_right .inl) (inv.holds u before).1) other
  | sched t on own lock cpu holds =>
    refine ⟨?_,?_⟩
    · intro u inside
      by_cases here : u = t
      · rw [here]
        exact lock
      · rw [cpu,update_of_ne here] at inside
        exact absurd (inv.owner t u own (inv.sched u inside)) here
    · intro u held
      obtain ⟨other,before⟩ := holds u held
      exact absurd (inv.owner t u own (inv.holds u before).1) other
  | swtch t inside =>
    have mine := inv.sched t inside
    refine ⟨?_,?_⟩
    · intro u still
      by_cases here : u = t
      · simp [swtch,here] at still
      · have also := inv.sched u (by simpa [swtch,here] using still)
        exact absurd (Option.some.inj (also.symm.trans mine)) here
    · intro u held
      obtain ⟨also,on⟩ := inv.holds u held
      rw [Option.some.inj (also.symm.trans mine),inside] at on
      contradiction
  | scheduler t free off runnable lock cpu holds =>
    refine ⟨?_,?_⟩
    · intro u inside
      by_cases here : u = t
      · rw [here,cpu,update_self] at inside
        contradiction
      · rw [cpu,update_of_ne here] at inside
        have taken := inv.sched u inside
        rw [free] at taken
        contradiction
    · intro u held
      have taken := (inv.holds u (holds u held)).1
      rw [free] at taken
      contradiction

end Locked

end Kthreads
