import Kthreads.Kernel.Sections
import Kthreads.Kernel.Start

/-! What a kernel step can do to the mutex table. Steps that leave the table, the
holders and the callers inside it alone are one case; every section of the mutex
system calls is a case of its own. -/
open Function (update update_of_ne)

namespace Kthreads
variable {s s' : KState} {t : Slot} {c : Pc}

/-- The part of a mutex call that a thread is in. `waiting` is the loop of
`kthread_mutex_lock` with its sleeps. -/
inductive Role
  | none
  | lockHold (i : MutexIx) (id : Int)
  | waiting (i : MutexIx) (id : Int)
  | unlockHold (i : MutexIx) (id : Int)
  | allocHold (i : MutexIx)
  | allocInit (i : MutexIx)
  | allocRead (i : MutexIx)
  | deallocHold (i : MutexIx) (id : Int)
  deriving DecidableEq

def Site.role : Site → Role
  | .mutex i id => .waiting i id
  | _ => .none

def Pc.role : Pc → Role
  | .lockHold i id => .lockHold i id
  | .lockTry i id => .waiting i id
  | .sleepHold _ site | .asleep site | .reacquire site => site.role
  | .unlockHold i id => .unlockHold i id
  | .allocHold i => .allocHold i
  | .allocInit i => .allocInit i
  | .allocRead i => .allocRead i
  | .deallocHold i id _ => .deallocHold i id
  | _ => .none

def Locking (s : KState) (t : Slot) (i : MutexIx) (id : Int) : Prop :=
  (s.pc t).role = .lockHold i id ∨ (s.pc t).role = .waiting i id

instance (s : KState) (t : Slot) (i : MutexIx) (id : Int) : Decidable (Locking s t i id) :=
  inferInstanceAs (Decidable (_ ∨ _))

def Role.locks : Role → Option MutexIx
  | .lockHold i _ | .waiting i _ => some i
  | _ => .none

theorem Locking.locks {i : MutexIx} {id : Int} (inside : Locking s t i id) :
    (s.pc t).role.locks = some i := by
  rcases inside with hold | wait
  · rw [hold]; rfl
  · rw [wait]; rfl

def Role.keepsMtable : Role → Bool
  | .lockHold _ _ | .unlockHold _ _ | .allocHold _ | .deallocHold _ _ => true
  | _ => false

def gotLock (t : Slot) (id : Int) (e : Event) : Bool := e == .lockRet t id 0

/-- The thread gave the mutex back, or its slot got a new thread. -/
def lostLock (t : Slot) (id : Int) (e : Event) : Bool := e == .unlockRet t id 0 || e == .created t

/-- The thread in slot `t` had a `kthread_mutex_lock(id)` return 0 and has made no
successful unlock of `id` since. -/
def Holder (s : KState) (t : Slot) (id : Int) : Prop :=
  History.since (gotLock t id) (lostLock t id) s.hist = true

instance (s : KState) (t : Slot) (id : Int) : Decidable (Holder s t id) :=
  inferInstanceAs (Decidable (_ = true))

/-- Events that neither start nor end a holding and return no mutex id. -/
def Event.neutral : Event → Bool
  | .created _ | .lockRet _ _ _ | .unlockRet _ _ _ | .allocRet _ _ | .deallocRet _ _ _ => false
  | _ => true

theorem neutral_quiet (t : Slot) (id : Int) (e : Event) (neutral : e.neutral = true) :
    lostLock t id e = false ∧ gotLock t id e = false := by
  cases e <;> simp [Event.neutral] at neutral <;> exact ⟨rfl,rfl⟩

structure MutexFrame (s s' : KState) : Prop where
  mutex : s'.mutex = s.mutex
  nextmid : s'.nextmid = s.nextmid
  mtableLock : s'.mtableLock = s.mtableLock
  pc : ∀ u, (s'.pc u).role = .none ∨ (s'.pc u).role = (s.pc u).role
  hist : ∃ new, s'.hist = new ++ s.hist ∧ ∀ e ∈ new, e.neutral = true

namespace MutexFrame

theorem refl (s : KState) : MutexFrame s s where
  mutex := rfl
  nextmid := rfl
  mtableLock := rfl
  pc _ := .inr rfl
  hist := ⟨[],rfl,by simp⟩

theorem trans {m : KState} (first : MutexFrame s m) (second : MutexFrame m s') :
    MutexFrame s s' where
  mutex := second.mutex.trans first.mutex
  nextmid := second.nextmid.trans first.nextmid
  mtableLock := second.mtableLock.trans first.mtableLock
  pc u := by
    rcases second.pc u with left | same
    · exact .inl left
    · rw [same]
      exact first.pc u
  hist := by
    obtain ⟨new₁,eq₁,quiet₁⟩ := first.hist
    obtain ⟨new₂,eq₂,quiet₂⟩ := second.hist
    refine ⟨new₂ ++ new₁,by rw [eq₂,eq₁,List.append_assoc],?_⟩
    intro e member
    rcases List.mem_append.mp member with late | early
    · exact quiet₂ e late
    · exact quiet₁ e early

theorem moved (t : Slot) (pc : Pc) (role : pc.role = .none ∨ pc.role = (s.pc t).role)
    (same : (s'.mutex,s'.nextmid,s'.mtableLock,s'.hist) = (s.mutex,s.nextmid,s.mtableLock,s.hist))
    (place : s'.pc = update s.pc t pc) : MutexFrame s s' := by
  obtain ⟨mutex,nextmid,mtableLock,hist⟩ := by simpa only [Prod.mk.injEq] using same
  refine ⟨mutex,nextmid,mtableLock,?_,[],hist,by simp⟩
  intro u
  by_cases here : u = t
  · subst u
    simpa [place] using role
  · exact .inr (by simp [place,here])

theorem still (same : (s'.mutex,s'.nextmid,s'.mtableLock,s'.pc,s'.hist) =
    (s.mutex,s.nextmid,s.mtableLock,s.pc,s.hist)) : MutexFrame s s' := by
  obtain ⟨mutex,nextmid,mtableLock,place,hist⟩ := by simpa only [Prod.mk.injEq] using same
  exact ⟨mutex,nextmid,mtableLock,fun u => .inr (by rw [place]),[],hist,by simp⟩

theorem walks {m : KState} (role : c.role = .none := by rfl)
    (same : (m.mutex,m.nextmid,m.mtableLock) = (s.mutex,s.nextmid,s.mtableLock) := by rfl)
    (hist : ∃ new, m.hist = new ++ s.hist ∧ ∀ e ∈ new, e.neutral = true := by exact ⟨[],rfl,nofun⟩)
    (pcs : ∀ u, (m.pc u).role = .none ∨ m.pc u = s.pc u := by exact fun _ => .inr rfl) :
    MutexFrame s (m.goto t c) := by
  obtain ⟨mutex,nextmid,mtableLock⟩ := by simpa only [Prod.mk.injEq] using same
  refine ⟨mutex,nextmid,mtableLock,?_,hist⟩
  intro u
  by_cases here : u = t
  · subst u
    exact .inl (by simpa using role)
  · simp only [KState.goto,update_of_ne here]
    exact (pcs u).imp_right fun eq => by rw [eq]

theorem holder (same : MutexFrame s s') (t : Slot) (id : Int) :
    Holder s' t id ↔ Holder s t id := by
  obtain ⟨new,extended,quiet⟩ := same.hist
  rw [Holder,Holder,extended,History.since_append]
  intro e member
  exact neutral_quiet t id e (quiet e member)

theorem reapThread (s : KState) (u : Slot) : MutexFrame s (reapThread s u) := by
  rcases reapThread_cases s u with eq | eq | ⟨page,_,eq⟩
  · rw [eq]
    exact refl s
  · rw [eq]
    exact still rfl
  · rw [eq]
    exact ⟨rfl,rfl,rfl,fun _ => .inr rfl,[_],rfl,by simp [Event.neutral]⟩

theorem reapThreads (s : KState) (c : ProcIx) : MutexFrame s (reapThreads s c) := by
  refine reapThreads_rule s c (refl s) ?_
  intro m i same _
  exact same.trans (reapThread m (c,i))

end MutexFrame

inductive MutexStep (s : KState) : Action → KState → Prop
  | frame {a : Action} {s' : KState} (same : MutexFrame s s') : MutexStep s a s'
  | created (t : Slot) (o : Oracle) (p : ProcIx) (nt : Slot) (k : Pc)
      (site : s.pc t = .createAlloc ∧ p = t.1 ∨ s.pc t = .forkAlloc p)
      (found : unusedSlot s p = some nt) (role : k.role = .none) :
      MutexStep s (.run t o) ((allocthread s nt).goto t k)
  | lockCall (t : Slot) (o : Oracle) (id : Int) (site : s.pc t = .lockCall id)
      (free : s.mtableLock = none) : MutexStep s (.run t o) (kthreadMutexLock s t id o.word)
  | lockGrab (t : Slot) (o : Oracle) (i : MutexIx) (id : Int) (site : s.pc t = .lockHold i id)
      (free : (s.mutex i).mutexLock = none) : MutexStep s (.run t o) (lockGrab s t i id)
  | lockTry (t : Slot) (o : Oracle) (i : MutexIx) (id : Int) (site : s.pc t = .lockTry i id)
      (able : (s.mutex i).lock = 0 ∨ s.ptableLock = none) :
      MutexStep s (.run t o) (lockTry s t i id)
  | lockAgain (t : Slot) (o : Oracle) (i : MutexIx) (id : Int)
      (site : s.pc t = .reacquire (.mutex i id)) (free : (s.mutex i).mutexLock = none) :
      MutexStep s (.run t o) (lockAgain s t i id)
  | unlockCall (t : Slot) (o : Oracle) (id : Int) (site : s.pc t = .unlockCall id)
      (free : s.mtableLock = none) : MutexStep s (.run t o) (kthreadMutexUnlock s t id)
  | unlockBody (t : Slot) (o : Oracle) (i : MutexIx) (id : Int) (site : s.pc t = .unlockHold i id)
      (free : (s.mutex i).mutexLock = none) (running : s.cpu t = .on) :
      MutexStep s (.run t o) (unlockBody s t i id o.word)
  | allocCall (t : Slot) (o : Oracle) (site : s.pc t = .allocCall)
      (free : s.mtableLock = none) : MutexStep s (.run t o) (kthreadMutexAlloc s t)
  | allocGrab (t : Slot) (o : Oracle) (i : MutexIx) (site : s.pc t = .allocHold i)
      (free : (s.mutex i).mutexLock = none) : MutexStep s (.run t o) (allocGrab s t i)
  | allocInit (t : Slot) (o : Oracle) (i : MutexIx) (site : s.pc t = .allocInit i) :
      MutexStep s (.run t o) (allocInit s t i)
  | allocRead (t : Slot) (o : Oracle) (i : MutexIx) (site : s.pc t = .allocRead i) :
      MutexStep s (.run t o) (allocRead s t i)
  | deallocCall (t : Slot) (o : Oracle) (id : Int) (k : DeallocRet)
      (site : s.pc t = .deallocCall id k) (free : s.mtableLock = none) :
      MutexStep s (.run t o) (kthreadMutexDealloc s t id k)
  | deallocBody (t : Slot) (o : Oracle) (i : MutexIx) (id : Int) (k : DeallocRet)
      (site : s.pc t = .deallocHold i id k) (free : (s.mutex i).mutexLock = none) :
      MutexStep s (.run t o) (deallocBody s t i id k)

namespace MutexFrame

theorem sleepCommit (s : KState) (t : Slot) (chan : Chan) (site : Site)
    (role : site.role = .none ∨ site.role = (s.pc t).role) :
    MutexFrame s (sleepCommit s t chan site) := moved t (.asleep site) role rfl rfl

theorem resume_role (site : Site) : site.resume.role = .none ∨ site.resume.role = site.role := by
  cases site <;> simp [Site.resume,Pc.role,Site.role]

theorem scheduler (s : KState) (t : Slot) : MutexFrame s (scheduler s t) := by
  unfold Kthreads.scheduler
  cases place : s.pc t with
  | asleep site =>
    unfold sleepResume
    simp only
    split
    · exact moved t .kthreadExit (.inl rfl) rfl rfl
    · refine moved t site.resume ?_ rfl rfl
      rw [place]
      exact resume_role site
  | _ => exact still rfl

end MutexFrame

theorem Walks.role {c₀ : Pc} (walks : Walks s t c₀ c) : c.role = .none := by
  cases walks with
  | calls c => cases c <;> simp only [Syscall.entry] <;> (try split) <;> rfl
  | drain k i n c move => cases k <;> cases move <;> rfl
  | _ => rfl

theorem FileWalks.role {c₀ : Pc} (walks : FileWalks c₀ c) : c.role = .none := by
  cases walks with
  | returns k => cases k <;> rfl
  | _ => rfl

def mutexCalls : List Fn := [.kthreadMutexLock,.kthreadMutexUnlock,.kthreadMutexAlloc,.kthreadMutexDealloc]

theorem MutexSection.fn (sub : MutexSection s t s') :
    (s.pc t).fn ∈ mutexCalls ∨ ∃ i id, s.pc t = .reacquire (.mutex i id) := by
  cases sub with
  | goes place walks =>
    rw [place]
    cases walks with
    | lockAgain i id => exact .inr ⟨i,id,rfl⟩
    | _ => exact .inl (by simp [Pc.fn,mutexCalls])
  | unlocks i id place | sleeps i id place => exact .inl (by simp [place,Pc.fn,mutexCalls])

theorem MutexStep.call {o : Oracle} (running : s.cpu t = .on)
    (inside : (s.pc t).fn ∈ mutexCalls) (taken : code s t o = some s') : MutexStep s (.run t o) s' := by
  cases place : s.pc t
  all_goals simp only [code,place,guarded_eq_some,Option.some.injEq,reduceCtorEq] at taken
  all_goals try obtain ⟨guard,rfl⟩ := taken
  case lockCall => exact .lockCall t o _ place guard
  case lockHold => exact .lockGrab t o _ _ place guard
  case lockTry => exact .lockTry t o _ _ place guard
  case unlockCall => exact .unlockCall t o _ place guard
  case unlockHold => exact .unlockBody t o _ _ place guard running
  case allocCall => exact .allocCall t o place guard
  case allocHold => exact .allocGrab t o _ place guard
  case allocInit => exact .allocInit t o _ place
  case allocRead => exact .allocRead t o _ place
  case deallocCall => exact .deallocCall t o _ _ place guard
  case deallocHold => exact .deallocBody t o _ _ _ place guard
  all_goals rw [place] at inside
  case drain k _ _ | drainFree k _ _ => cases k <;> simp [Pc.fn,Drainer.fn,mutexCalls] at inside
  all_goals simp [Pc.fn,mutexCalls] at inside

/-- A thread's section is a section of the mutex calls, the birth of a thread, or a frame step. -/
theorem code_mutex (s s' : KState) (t : Slot) (o : Oracle) (calm : s.panicked = false) (running : s.cpu t = .on)
    (taken : code s t o = some s') : MutexStep s (.run t o) s' := by
  have fresh (nt : Slot) (c : Pc) (role : c.role = .none) (u : Slot) :
      (update s.pc nt c u).role = .none ∨ update s.pc nt c u = s.pc u := by
    by_cases here : u = nt
    · exact .inl (by simpa [here] using role)
    · exact .inr (by simp [here])
  cases code_sections calm taken with
  | panics => exact .frame (.still rfl)
  | walk place walks => exact .frame (.walks walks.role)
  | birth p nt c births free found =>
    cases births with
    | create nt place => exact .created t o t.1 nt _ (.inl ⟨place,rfl⟩) found rfl
    | fork np nt place => exact .created t o p nt _ (.inr place) found rfl
  | stack nt c page rest gets =>
    refine .frame (.walks ?_ rfl ⟨[],rfl,nofun⟩ (fresh nt .user rfl))
    cases gets <;> rfl
  | drainFree | forkProc | forkRun | waitNone | joinMissing =>
    exact .frame (.walks rfl rfl ⟨[_],rfl,by simp [Event.neutral]⟩)
  | joinFree => exact .frame (.walks rfl rfl ⟨[_,_],rfl,by simp [Event.neutral]⟩)
  | forkFailed nt =>
    exact .frame (.walks rfl rfl ⟨[_],rfl,by simp [Event.neutral]⟩ (fresh nt .idle rfl))
  | exitFinal =>
    obtain ⟨proc,thread,eq⟩ := exitFinal_rest s t
    rw [eq]
    exact .frame .walks
  | waitPanic c => exact .frame (.reapThreads s c)
  | waitDone c =>
    have reaped := MutexFrame.reapThreads s c
    generalize reapThreads s c = m at reaped ⊢
    exact .frame (reaped.trans (.walks rfl rfl ⟨[_],rfl,by simp [Event.neutral]⟩))
  | sleep chan site falls =>
    refine .frame (.sleepCommit s t chan site ?_)
    cases falls with
    | hold chan site place => exact .inr (by rw [place]; rfl)
    | join | wait => exact .inl rfl
  | mutex sub =>
    rcases sub.fn with inside | ⟨i,id,place⟩
    · exact .call running inside taken
    · simp only [code,place,reacquire,guarded_eq_some] at taken
      obtain ⟨free,rfl⟩ := taken
      exact .lockAgain t o i id place free
  | files sub =>
    cases sub with
    | stays | wakes => exact .frame (.still rfl)
    | goes place walks => exact .frame (.walks walks.role)
    | sleeps place sleeps =>
      refine .frame (.walks ?_)
      cases sleeps <;> rfl
  | fault | mark | drainWakes | exitThread | stackless | createRun | forkCopied | joinDies | joinFound | kill =>
    exact .frame .walks

theorem step_mutex (s s' : KState) (a : Action) (taken : step s a = some s') : MutexStep s a s' := by
  obtain ⟨calm,taken⟩ := step_cases taken
  cases taken with
  | run t o s' running taken => exact code_mutex s s' t o calm running taken
  | scheduler t => exact .frame (.scheduler s t)
  | yield | swtch | wakeup | spurious | ideintr | takePage | givePage => exact .frame (.still rfl)

theorem MutexFrame.event (same : MutexFrame s s') (e : Event)
    (hist : s'.hist = e :: s.hist) : e.neutral = true := by
  obtain ⟨new,extended,quiet⟩ := same.hist
  have one : new = [e] := by
    have joined : new ++ s.hist = [e] ++ s.hist := extended.symm.trans hist
    exact List.append_cancel_right joined
  exact quiet e (by simp [one])

inductive Returns (s s' : KState) (t : Slot) (word : Int) : Event → Prop
  | lockMissing (id : Int) (place : s.pc t = .lockCall id) (missing : findMutex s id = none) :
      Returns s s' t word (.lockRet t id (-1))
  | lockRefused (id : Int) (i : MutexIx) (place : s.pc t = .lockCall id)
      (found : findMutex s id = some i)
      (bad : (s.mutex i).state = .uninitialized ∨ holdingTid s i word = (s.thread t).tid) :
      Returns s s' t word (.lockRet t id (-1))
  | locked (id : Int) (i : MutexIx) (place : s.pc t = .lockTry i id) (free : (s.mutex i).lock = 0)
      (done : s' = lockTry s t i id) : Returns s s' t word (.lockRet t id 0)
  | unlockMissing (id : Int) (place : s.pc t = .unlockCall id) :
      Returns s s' t word (.unlockRet t id (-1))
  | unlockRefused (id : Int) (i : MutexIx) (place : s.pc t = .unlockHold i id) :
      Returns s s' t word (.unlockRet t id (-1))
  | unlocked (id : Int) (i : MutexIx) (place : s.pc t = .unlockHold i id) (on : s.cpu t = .on)
      (closed : (s.mutex i).state = .closed) (mine : holdingTid s i word = (s.thread t).tid) :
      Returns s s' t word (.unlockRet t id 0)
  | allocFull (place : s.pc t = .allocCall) : Returns s s' t word (.allocRet t (-1))
  | allocated (i : MutexIx) (place : s.pc t = .allocRead i) (done : s' = allocRead s t i) :
      Returns s s' t word (.allocRet t (s.mutex i).mid)
  | deallocRefused (id : Int) (k : DeallocRet) (place : s.pc t = .deallocCall id k) :
      Returns s s' t word (.deallocRet t id (-1))
  | deallocated (id : Int) (i : MutexIx) (k : DeallocRet) (place : s.pc t = .deallocHold i id k) :
      Returns s s' t word (.deallocRet t id 0)

/-- An event that concerns the package and is not a birth is the return of a mutex call. -/
theorem mutex_event {a : Action} (taken : MutexStep s a s') {e : Event} (hist : s'.hist = e :: s.hist)
    (call : e.neutral = false) (unborn : ∀ nt, e ≠ .created nt) : ∃ t o, a = .run t o ∧ Returns s s' t o.word e := by
  cases taken with
  | frame same => simp [same.event e hist] at call
  | created t o p nt k site found role =>
    have same : Event.created nt = e := by
      simpa [allocthread] using hist
    exact absurd same.symm (unborn nt)
  | lockCall t o id place free =>
    refine ⟨t,o,rfl,?_⟩
    unfold kthreadMutexLock at hist
    split at hist
    next missing =>
      obtain ⟨rfl,_⟩ := List.cons.inj hist
      exact .lockMissing id place missing
    next i found =>
      split at hist
      next bad =>
        obtain ⟨rfl,_⟩ := List.cons.inj hist
        exact .lockRefused id i place found bad
      next good => simp at hist
  | lockGrab t o i id place free => simp [lockGrab] at hist
  | lockTry t o i id place able =>
    refine ⟨t,o,rfl,?_⟩
    by_cases free : (s.mutex i).lock = 0
    · have same : Event.lockRet t id 0 = e := by
        simpa [lockTry,free] using hist
      subst same
      exact .locked id i place free rfl
    · simp [lockTry,free,sleepEnter] at hist
  | lockAgain t o i id place free => simp [lockAgain] at hist
  | unlockCall t o id place free =>
    refine ⟨t,o,rfl,?_⟩
    unfold kthreadMutexUnlock at hist
    split at hist
    next missing =>
      obtain ⟨rfl,_⟩ := List.cons.inj hist
      exact .unlockMissing id place
    next i found => simp at hist
  | unlockBody t o i id place free on =>
    refine ⟨t,o,rfl,?_⟩
    unfold unlockBody at hist
    split at hist
    next bad =>
      obtain ⟨rfl,_⟩ := List.cons.inj hist
      exact .unlockRefused id i place
    next good =>
      rw [not_or,not_not,not_not] at good
      obtain ⟨rfl,_⟩ := List.cons.inj hist
      exact .unlocked id i place on good.1 good.2
  | allocCall t o place free =>
    refine ⟨t,o,rfl,?_⟩
    unfold kthreadMutexAlloc at hist
    split at hist
    next full =>
      obtain ⟨rfl,_⟩ := List.cons.inj hist
      exact .allocFull place
    next i found => simp at hist
  | allocGrab t o i place free => simp [allocGrab] at hist
  | allocInit t o i place => simp [allocInit] at hist
  | allocRead t o i place =>
    obtain ⟨rfl,_⟩ := List.cons.inj hist
    exact ⟨t,o,rfl,.allocated i place rfl⟩
  | deallocCall t o id k place free =>
    refine ⟨t,o,rfl,?_⟩
    have refused : (deallocReturn s t id (-1) k).hist = .deallocRet t id (-1) :: s.hist := by
      cases k <;> rfl
    unfold kthreadMutexDealloc at hist
    split at hist
    next missing =>
      obtain ⟨rfl,_⟩ := List.cons.inj (refused.symm.trans hist)
      exact .deallocRefused id k place
    next i found =>
      split at hist
      next busy =>
        obtain ⟨rfl,_⟩ := List.cons.inj (refused.symm.trans hist)
        exact .deallocRefused id k place
      next idle => simp at hist
  | deallocBody t o i id k place free =>
    have done : (deallocBody s t i id k).hist = .deallocRet t id 0 :: s.hist := by
      cases k <;> rfl
    obtain ⟨rfl,_⟩ := List.cons.inj (done.symm.trans hist)
    exact ⟨t,o,rfl,.deallocated id i k place⟩

end Kthreads
