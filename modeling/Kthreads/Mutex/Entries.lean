import Kthreads.Mutex.Invariant

/-! The entries of the mutex table one by one. A step leaves an entry alone or writes it in one of four
places: the end of `kthread_mutex_lock`, the end of `kthread_mutex_unlock`, the initialisation of
`kthread_mutex_alloc` and the reset of `kthread_mutex_dealloc`. Beside it, the moves of the threads that
are inside these calls and of `mtable.lock`. -/
open Function

namespace Kthreads
variable {s s' : KState} {a : Action}

def Mutex.face (m : Mutex) : Int × Int × MutexState × Option Slot × Int :=
  (m.mid,m.numOfWaiting,m.state,m.holding,m.pidHolder)

inductive EntryStep (s : KState) (i : MutexIx) : Action → Int → Mutex → Prop
  | keeps {a : Action} {n : Int} {m : Mutex} (face : m.face = (s.mutex i).face) : EntryStep s i a n m
  | lock {n : Int} {m : Mutex} (t : Slot) (o : Oracle) (id : Int) (place : s.pc t = .lockTry i id)
      (free : (s.mutex i).lock = 0)
      (face : m.face = ((s.mutex i).mid,(s.mutex i).numOfWaiting,.closed,some t,(s.mutex i).pidHolder)) :
      EntryStep s i (.run t o) n m
  | unlock {n : Int} {m : Mutex} (t : Slot) (o : Oracle) (id : Int) (place : s.pc t = .unlockHold i id)
      (closed : (s.mutex i).state = .closed)
      (face : m.face = ((s.mutex i).mid,(s.mutex i).numOfWaiting,.opened,none,(s.mutex i).pidHolder)) :
      EntryStep s i (.run t o) n m
  | alloc {m : Mutex} (t : Slot) (o : Oracle) (place : s.pc t = .allocInit i)
      (face : m.face = (s.nextmid,0,.opened,none,(s.proc t.1).pid)) :
      EntryStep s i (.run t o) (next32 s.nextmid) m
  | dealloc {n : Int} {m : Mutex} (t : Slot) (o : Oracle) (id : Int) (k : DeallocRet)
      (place : s.pc t = .deallocHold i id k)
      (face : m.face = (0,0,.uninitialized,none,0)) : EntryStep s i (.run t o) n m

inductive Moved (s : KState) (t : Slot) : Role → Option Slot → Prop
  | returns (held : (s.pc t).role.keepsMtable = true) : Moved s t .none none
  | lockHold (i : MutexIx) (id : Int) (free : s.mtableLock = none) (found : findMutex s id = some i)
      (ready : (s.mutex i).state ≠ .uninitialized) : Moved s t (.lockHold i id) (some t)
  | waiting (i : MutexIx) (id : Int) (place : s.pc t = .lockHold i id) : Moved s t (.waiting i id) none
  | unlockHold (i : MutexIx) (id : Int) (free : s.mtableLock = none) (found : findMutex s id = some i) :
      Moved s t (.unlockHold i id) (some t)
  | allocHold (i : MutexIx) (free : s.mtableLock = none) (found : freeMutex s = some i) :
      Moved s t (.allocHold i) (some t)
  | allocInit (i : MutexIx) (place : s.pc t = .allocHold i) : Moved s t (.allocInit i) none
  | allocRead (i : MutexIx) (place : s.pc t = .allocInit i) : Moved s t (.allocRead i) s.mtableLock
  | deallocHold (i : MutexIx) (id : Int) (k : DeallocRet) (place : s.pc t = .deallocCall id k)
      (free : s.mtableLock = none) (found : findMutex s id = some i)
      (passes : ¬ ((s.mutex i).state = .closed ∨ (s.mutex i).numOfWaiting ≠ 0)) :
      Moved s t (.deallocHold i id) (some t)

theorem EntryStep.at (j : MutexIx) (v : Mutex) (mutex : s'.mutex = update s.mutex j v)
    (here : EntryStep s j a s'.nextmid v) (i : MutexIx) : EntryStep s i a s'.nextmid (s'.mutex i) := by
  rw [mutex]
  by_cases same : i = j
  · subst i
    rw [update_self]
    exact here
  · rw [update_of_ne same]
    exact .keeps rfl

theorem wakeSleeper_mutex (s : KState) (p : ProcIx) (i : MutexIx) : (wakeSleeper s p i).mutex = s.mutex := by
  unfold wakeSleeper
  split <;> rfl

theorem deallocReturn_mutex (s : KState) (t : Slot) (id result : Int) (k : DeallocRet) :
    (deallocReturn s t id result k).mutex = s.mutex := by
  cases k <;> rfl

section
variable (taken : MutexStep s a s')
include taken

theorem step_entry (i : MutexIx) : EntryStep s i a s'.nextmid (s'.mutex i) := by
  have unchanged (mutex : s'.mutex = s.mutex) : EntryStep s i a s'.nextmid (s'.mutex i) := .keeps (by rw [mutex])
  cases taken with
  | frame same => exact unchanged same.mutex
  | created => exact .keeps rfl
  | lockCall t o id site free =>
    refine unchanged ?_
    unfold kthreadMutexLock
    split
    · rfl
    · split <;> rfl
  | lockGrab t o j id site free =>
    refine .at j _ rfl ?_ i
    exact .keeps rfl
  | lockTry t o j id site able =>
    unfold lockTry
    split
    · refine .at j _ rfl ?_ i
      exact .keeps rfl
    next free => exact .at j _ rfl (.lock t o id site (by simpa using free) rfl) i
  | lockAgain t o j id site free =>
    refine .at j _ rfl ?_ i
    exact .keeps rfl
  | unlockCall t o id site free =>
    refine unchanged ?_
    unfold kthreadMutexUnlock
    split <;> rfl
  | unlockBody t o j id site free running =>
    unfold unlockBody
    split
    · exact .keeps rfl
    next mine =>
      rw [not_or,not_not] at mine
      refine .at j _ (wakeSleeper_mutex _ t.1 j) ?_ i
      exact .unlock t o id site mine.1 rfl
  | allocCall t o site free =>
    refine unchanged ?_
    unfold kthreadMutexAlloc
    split <;> rfl
  | allocGrab t o j site free =>
    refine .at j _ rfl ?_ i
    exact .keeps rfl
  | allocInit t o j site => exact .at j _ rfl (.alloc t o site rfl) i
  | allocRead t o j site => exact .keeps rfl
  | deallocCall t o id k site free =>
    refine unchanged ?_
    unfold kthreadMutexDealloc
    split
    · exact deallocReturn_mutex s t id (-1) k
    · split
      · exact deallocReturn_mutex s t id (-1) k
      · rfl
  | deallocBody t o j id k site free =>
    refine .at j _ (deallocReturn_mutex _ t id 0 k) ?_ i
    exact .dealloc t o id k site rfl

theorem step_mid (i : MutexIx) : (s'.mutex i).mid = (s.mutex i).mid ∨ (s'.mutex i).mid = 0 ∨
    (s'.mutex i).mid = s.nextmid ∧ ∃ t o, a = .run t o ∧ s.pc t = .allocInit i := by
  have wrote := step_entry taken i
  generalize s'.mutex i = m at wrote
  generalize s'.nextmid = n at wrote
  cases wrote with
  | keeps face => exact .inl (congrArg Prod.fst face)
  | lock t o id place free face => exact .inl (congrArg Prod.fst face)
  | unlock t o id place closed face => exact .inl (congrArg Prod.fst face)
  | alloc t o place face => exact .inr (.inr ⟨congrArg Prod.fst face,t,o,rfl,place⟩)
  | dealloc t o id k place face => exact .inr (.inl (congrArg Prod.fst face))

/-- An entry that is not initialised was not before, or has been reset. -/
theorem step_uninitialized (i : MutexIx)
    (raw : (s'.mutex i).state = .uninitialized) : (s.mutex i).state = .uninitialized ∨
      ∃ t o id k, a = .run t o ∧ s.pc t = .deallocHold i id k := by
  have wrote := step_entry taken i
  generalize s'.mutex i = m at wrote raw
  generalize s'.nextmid = n at wrote
  cases wrote with
  | keeps face =>
    have state : m.state = (s.mutex i).state := congrArg (fun x => x.2.2.1) face
    exact .inl (state.symm.trans raw)
  | lock t o id place free face =>
    have state : m.state = .closed := congrArg (fun x => x.2.2.1) face
    rw [state] at raw
    contradiction
  | unlock t o id place closed face =>
    have state : m.state = .opened := congrArg (fun x => x.2.2.1) face
    rw [state] at raw
    contradiction
  | alloc t o place face =>
    have state : m.state = .opened := congrArg (fun x => x.2.2.1) face
    rw [state] at raw
    contradiction
  | dealloc t o id k place face => exact .inr ⟨t,o,id,k,rfl,place⟩

theorem step_nextmid :
    s'.nextmid = s.nextmid ∨ ∃ t o i, a = .run t o ∧ s.pc t = .allocInit i ∧ s'.nextmid = next32 s.nextmid := by
  cases taken with
  | frame same => exact .inl same.nextmid
  | allocInit t o i site => exact .inr ⟨t,o,i,rfl,site,rfl⟩
  | lockCall t o id =>
    unfold kthreadMutexLock
    split
    · exact .inl rfl
    · split <;> exact .inl rfl
  | lockTry t o i id =>
    unfold lockTry
    split <;> exact .inl rfl
  | unlockCall t o id =>
    unfold kthreadMutexUnlock
    split <;> exact .inl rfl
  | unlockBody t o i id =>
    unfold unlockBody wakeSleeper
    split
    · exact .inl rfl
    · split <;> exact .inl rfl
  | allocCall t o =>
    unfold kthreadMutexAlloc
    split <;> exact .inl rfl
  | deallocCall t o id k =>
    unfold kthreadMutexDealloc
    split
    · cases k <;> exact .inl rfl
    · split
      · cases k <;> exact .inl rfl
      · exact .inl rfl
  | deallocBody t o i id k => cases k <;> exact .inl rfl
  | _ => exact .inl rfl

end

inductive Shifts (s : KState) : Action → KState → Prop
  | frame {a : Action} {s' : KState} (lock : s'.mtableLock = s.mtableLock)
      (roles : ∀ u, (s'.pc u).role = .none ∨ (s'.pc u).role = (s.pc u).role) : Shifts s a s'
  | moved {s' : KState} (t : Slot) (o : Oracle) (others : ∀ u, u ≠ t → (s'.pc u).role = (s.pc u).role)
      (move : Moved s t (s'.pc t).role s'.mtableLock) : Shifts s (.run t o) s'

namespace Shifts

variable {s m : KState} (t : Slot) (o : Oracle) (pc : Pc)

theorem goto (pcs : m.pc = s.pc) (move : Moved s t pc.role m.mtableLock) : Shifts s (.run t o) (m.goto t pc) := by
  refine .moved t o ?_ ?_
  · intro u other
    simp [pcs,other]
  · simpa using move

theorem stay (pcs : m.pc = s.pc) (lock : m.mtableLock = s.mtableLock)
    (role : pc.role = .none ∨ pc.role = (s.pc t).role) : Shifts s a (m.goto t pc) := by
  refine .frame lock ?_
  intro u
  by_cases here : u = t
  · subst u
    simpa using role
  · exact .inr (by simp [pcs,here])

theorem deallocReturn (id result : Int) (k : DeallocRet) (pcs : m.pc = s.pc)
    (lock : m.mtableLock = s.mtableLock) : Shifts s a (deallocReturn m t id result k) := by
  cases k with
  | sys => exact .stay (m := m.emit _) t _ pcs lock (.inl rfl)
  | exit j => exact .stay (m := m.emit _) t _ pcs lock (.inl rfl)

end Shifts

theorem step_shifts (taken : MutexStep s a s') : Shifts s a s' := by
  cases taken with
  | frame same => exact .frame same.mtableLock same.pc
  | created t o p nt k site found role => exact .stay t k rfl rfl (.inl role)
  | lockCall t o id site free =>
    unfold kthreadMutexLock
    split
    · exact .stay (m := s.emit _) t _ rfl rfl (.inl rfl)
    next i found =>
      split
      · exact .stay (m := s.emit _) t _ rfl rfl (.inl rfl)
      next bad => exact .goto t o (.lockHold i id) rfl (.lockHold i id free found (not_or.mp bad).1)
  | lockGrab t o i id site free => exact .goto t o (.lockTry i id) rfl (.waiting i id site)
  | lockTry t o i id site able =>
    unfold lockTry
    split
    · exact .stay t (.sleepHold (.mutex i) (.mutex i id)) rfl rfl (.inr (by rw [site]; rfl))
    · exact .stay t .retKilled rfl rfl (.inl rfl)
  | lockAgain t o i id site free => exact .stay t (.lockTry i id) rfl rfl (.inr (by rw [site]; rfl))
  | unlockCall t o id site free =>
    unfold kthreadMutexUnlock
    split
    · exact .stay (m := s.emit _) t _ rfl rfl (.inl rfl)
    next i found => exact .goto t o (.unlockHold i id) rfl (.unlockHold i id free found)
  | unlockBody t o i id site free running =>
    have held : (s.pc t).role.keepsMtable = true := by rw [site]; rfl
    unfold unlockBody
    split
    · exact .goto t o .retKilled rfl (.returns held)
    · refine .goto t o .retKilled ?_ ?_
      · unfold wakeSleeper
        split <;> rfl
      · unfold wakeSleeper
        split <;> exact .returns held
  | allocCall t o site free =>
    unfold kthreadMutexAlloc
    split
    · exact .stay (m := s.emit _) t _ rfl rfl (.inl rfl)
    next i found => exact .goto t o (.allocHold i) rfl (.allocHold i free found)
  | allocGrab t o i site free => exact .goto t o (.allocInit i) rfl (.allocInit i site)
  | allocInit t o i site => exact .goto t o (.allocRead i) rfl (.allocRead i site)
  | allocRead t o i site => exact .stay (m := s.emit _) t _ rfl rfl (.inl rfl)
  | deallocCall t o id k site free =>
    unfold kthreadMutexDealloc
    split
    · exact .deallocReturn t id (-1) k rfl rfl
    next i found =>
      split
      · exact .deallocReturn t id (-1) k rfl rfl
      next passes => exact .goto t o (.deallocHold i id k) rfl (.deallocHold i id k site free found passes)
  | deallocBody t o i id k site free =>
    have held : (s.pc t).role.keepsMtable = true := by rw [site]; rfl
    cases k with
    | sys => exact .goto t o .retKilled rfl (.returns held)
    | exit j => exact .goto t o (.exitMutexes (j+1)) rfl (.returns held)

theorem Shifts.locks (shifts : Shifts s a s') (u : Slot) (i : MutexIx)
    (inside : (s'.pc u).role.locks = some i) : (s.pc u).role.locks = some i ∨
      s.mtableLock = none ∧ (s.mutex i).state ≠ .uninitialized ∧ ∃ o, a = .run u o := by
  cases shifts with
  | frame lock roles =>
    rcases roles u with outside | same
    · rw [outside] at inside
      contradiction
    · exact .inl (by rw [← same]; exact inside)
  | moved t o others move =>
    by_cases here : u = t
    · subst u
      generalize (s'.pc t).role = role at inside move
      generalize s'.mtableLock = lock at move
      cases move with
      | lockHold j id free found ready =>
        cases inside
        exact .inr ⟨free,ready,o,rfl⟩
      | waiting j id place =>
        rw [place]
        exact .inl inside
      | _ => contradiction
    · exact .inl (by rw [← others u here]; exact inside)

theorem Shifts.deallocs (shifts : Shifts s a s') (u : Slot) (i : MutexIx) (id : Int)
    (inside : (s'.pc u).role = .deallocHold i id) : (s.pc u).role = .deallocHold i id ∨
      (∃ o, a = .run u o) ∧ deallocTarget s u = some i := by
  cases shifts with
  | frame lock roles =>
    rcases roles u with outside | same
    · rw [outside] at inside
      contradiction
    · exact .inl (same.symm.trans inside)
  | moved t o others move =>
    by_cases here : u = t
    · subst u
      generalize (s'.pc t).role = role at inside move
      generalize s'.mtableLock = lock at move
      cases move with
      | deallocHold j id' k place free found passes =>
        cases inside
        refine .inr ⟨⟨o,rfl⟩,?_⟩
        simp only [not_or,not_not] at passes
        simp [deallocTarget,place,found,Option.filter,passes.1,passes.2]
      | _ => contradiction
    · exact .inl ((others u here).symm.trans inside)

def Tabled (s : KState) : Prop := ∀ t, (s.pc t).role.keepsMtable = true → s.mtableLock = some t

theorem Tabled.step (held : Tabled s) (shifts : Shifts s a s') : Tabled s' := by
  intro u keeps
  cases shifts with
  | frame lock roles =>
    rcases roles u with outside | same
    · rw [outside] at keeps
      contradiction
    · rw [same] at keeps
      exact lock.trans (held u keeps)
  | moved t o others move =>
    have apart (free : s.mtableLock = none) (other : u ≠ t) : False := by
      rw [others u other] at keeps
      rw [held u keeps] at free
      contradiction
    have gives (own : (s.pc t).role.keepsMtable = true) (other : u ≠ t) : False := by
      rw [others u other] at keeps
      exact other (Option.some.inj ((held u keeps).symm.trans (held t own)))
    by_cases here : u = t
    · subst u
      generalize (s'.pc t).role = role at keeps move
      generalize s'.mtableLock = lock at move
      cases move <;> first | rfl | contradiction
    · generalize (s'.pc t).role = role at move
      generalize s'.mtableLock = lock at move
      cases move with
      | returns own => exact (gives own here).elim
      | waiting i id place => exact (gives (by rw [place]; rfl) here).elim
      | allocInit i place => exact (gives (by rw [place]; rfl) here).elim
      | allocRead i place =>
        rw [others u here] at keeps
        exact held u keeps
      | lockHold i id free | unlockHold i id free | allocHold i free | deallocHold i id k place free =>
        exact (apart free here).elim

theorem Tabled.start (init : Start s) : Tabled s := by
  intro t keeps
  rcases init.slot t with ready | vacant
  · rw [ready.pc] at keeps
    contradiction
  · rw [vacant.pc] at keeps
    contradiction

end Kthreads
