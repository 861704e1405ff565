import Kthreads.Mutex.Exclusion

/-! Allocation and deallocation of mutexes against their users. `kthread_mutex_dealloc`
tests its slot before it takes `mutexLock`, and `numOfWaiting` is never raised;
`kthread_mutex_alloc` marks its slot only after it has let go of `mtable.lock`, and
reads the id it returns without any lock. -/
namespace Kthreads

def mutexFns : List Fn := .kthreadMutexAlloc :: .kthreadMutexDealloc :: lockFns

theorem mutexFns_invariant {s₀ s : KState} (start : Start s₀)
    (reached : Reaches (fun s a => within mutexFns s a ∧ AllocApart s a ∧ DeallocApart s a) s₀ s) :
    MutexInv s ∧ Steady s := by
  refine reached.invariant (fun s => MutexInv s ∧ Steady s) ⟨MutexInv.start start,Steady.start start⟩ ?_
  rintro before a after ⟨inv,steady⟩ ⟨allowed,alloc,dealloc⟩ taken
  refine ⟨?_,?_⟩
  · exact inv.step steady.tids alloc dealloc (birthApart_of_absent allowed (by decide) (by decide))
      (step_mutex before after a taken)
  · exact steady.step (within_mono (by decide) before a allowed) (step_thread before after a taken)

/-- Whenever `kthread_mutex_dealloc` returns 0, nobody holds the mutex or is inside
`kthread_mutex_lock` on it; whenever `kthread_mutex_lock` returns 0, its slot still
has the id asked for and belongs to the caller. -/
theorem dealloc_safety (s₀ s s' : KState) (a : Action) (start : Start s₀)
    (reached : Reaches (fun s a => within mutexFns s a ∧ AllocApart s a ∧ DeallocApart s a) s₀ s)
    (taken : step s a = some s') :
    (∀ t id, s'.hist = .deallocRet t id 0 :: s.hist →
      (∀ u, ¬ Holder s u id) ∧ ∀ u i, ¬ Locking s u i id) ∧
    (∀ t id, s'.hist = .lockRet t id 0 :: s.hist → ∃ i, Locking s t i id ∧
      (s'.mutex i).mid = id ∧ (s'.mutex i).state = .closed ∧ (s'.mutex i).holding = some t) := by
  obtain ⟨inv,_⟩ := mutexFns_invariant start reached
  refine ⟨?_,?_⟩
  · intro t id hist
    obtain ⟨u,o,_,returns⟩ := mutex_event (step_mutex s s' a taken) hist rfl (by simp)
    cases returns with
    | deallocated id i k place =>
      obtain ⟨quiet,same⟩ := inv.deallocating t i id (by rw [place]; rfl)
      have unheld := (inv.free i quiet.1).2
      -- slot 0 of the id space is that of the free slots
      have elsewhere : ∀ j, (s.mutex j).mid = id → (s.mutex j).state = .uninitialized ∨ j = i := by
        intro j mid
        rcases inv.named j with ⟨raw,_⟩ | ⟨_,positive,_⟩
        · exact .inl raw
        · exact .inr (inv.mids j i (mid.trans (same (by omega)).symm) (by omega))
      refine ⟨?_,?_⟩
      · intro u held
        obtain ⟨j,mid,owned⟩ := inv.held u id held
        rcases elsewhere j mid with raw | rfl
        · rw [(inv.free j (by rw [raw]; simp)).2] at owned
          contradiction
        · rw [unheld] at owned
          contradiction
      · intro u j inside
        obtain ⟨mid,ready⟩ := inv.locking u j id inside
        rcases elsewhere j mid with raw | rfl
        · exact ready raw
        · exact quiet.2 u id inside
  · intro t id hist
    obtain ⟨u,o,_,returns⟩ := mutex_event (step_mutex s s' a taken) hist rfl (by simp)
    cases returns with
    | locked id i place free done =>
      have inside : Locking s t i id := .inr (by rw [place]; rfl)
      refine ⟨i,inside,?_⟩
      subst done
      simp [lockTry,free,(inv.locking t i id inside).1]

/-- A mutex is given back after use and then reset, with the condition met throughout. -/
theorem dealloc_safety_after_use : ∃ s s',
    Reaches (fun s a => within mutexFns s a ∧ AllocApart s a ∧ DeallocApart s a)
      (session [(1,0),(1,1)] 1 2) s ∧
    step s (go (1,0)) = some s' ∧ s'.hist = .deallocRet (1,0) 1 0 :: s.hist ∧
    (∀ u, ¬ Holder s u 1) ∧ ∀ u i, ¬ Locking s u i 1 := by
  obtain ⟨s,s',reached,_,taken,hist⟩ := Interleave.play_shows_step step
    (fun s a => within mutexFns s a ∧ AllocApart s a ∧ DeallocApart s a) (session [(1,0),(1,1)] 1 2)
    (call (1,1) (.kthreadMutexLock 1) ++ [go (1,1),go (1,1),go (1,1)] ++ back (1,1) ++
      call (1,1) (.kthreadMutexUnlock 1) ++ [go (1,1),go (1,1)] ++ call (1,0) (.kthreadMutexDealloc 1) ++ [go (1,0)])
    (go (1,0)) (fun s s' => s'.hist = .deallocRet (1,0) 1 0 :: s.hist) (by decide +kernel)
  exact ⟨s,s',reached,taken,hist,
    (dealloc_safety _ s s' _ (session_start _ _ _ (by decide) (by decide)) reached taken).1
      _ _ hist⟩

/-- `kthread_mutex_dealloc(1)` returns 0 while `(1,1)` holds mutex 1: the test passed while
`(1,1)` was between its check and the `xchg`. And `kthread_mutex_lock(1)` returns 0 on a
slot that no longer has id 1: the slot was reset while `(1,1)` slept. -/
theorem dealloc_under_lock :
    Start (session [(1,0),(1,1)] 1 2) ∧
    (∃ s s', Reaches (within mutexFns) (session [(1,0),(1,1)] 1 2) s ∧
      within mutexFns s (go (1,0)) ∧ step s (go (1,0)) = some s' ∧
      s'.hist = .deallocRet (1,0) 1 0 :: s.hist ∧ Holder s (1,1) 1) ∧
    (∃ s s', Reaches (within mutexFns) (session [(1,0),(1,1)] 1 2) s ∧
      within mutexFns s (go (1,1)) ∧ step s (go (1,1)) = some s' ∧
      s'.hist = .lockRet (1,1) 1 0 :: s.hist ∧ Locking s (1,1) 0 1 ∧ (s'.mutex 0).mid ≠ 1) := by
  refine ⟨session_start _ _ _ (by decide) (by decide),?_,?_⟩
  · obtain ⟨s,s',reached,allowed,taken,shown⟩ := Interleave.play_shows_step step (within mutexFns)
      (session [(1,0),(1,1)] 1 2)
      (call (1,1) (.kthreadMutexLock 1) ++ [go (1,1),go (1,1)] ++ call (1,0) (.kthreadMutexDealloc 1) ++
        [go (1,0),go (1,1)])
      (go (1,0)) (fun s s' => s'.hist = .deallocRet (1,0) 1 0 :: s.hist ∧ Holder s (1,1) 1) (by decide +kernel)
    exact ⟨s,s',reached,allowed,taken,shown⟩
  · obtain ⟨s,s',reached,allowed,taken,shown⟩ := Interleave.play_shows_step step (within mutexFns)
      (session [(1,0),(1,1)] 1 2)
      (call (1,0) (.kthreadMutexLock 1) ++ [go (1,0),go (1,0),go (1,0)] ++ back (1,0) ++
        call (1,1) (.kthreadMutexLock 1) ++ [go (1,1),go (1,1),go (1,1),go (1,1),.swtch (1,1)] ++
        call (1,0) (.kthreadMutexUnlock 1) ++ [go (1,0),go (1,0)] ++ back (1,0) ++
        call (1,0) (.kthreadMutexDealloc 1) ++ [go (1,0),go (1,0),.scheduler (1,1),go (1,1)])
      (go (1,1)) (fun s s' => s'.hist = .lockRet (1,1) 1 0 :: s.hist ∧ Locking s (1,1) 0 1 ∧ (s'.mutex 0).mid ≠ 1)
      (by decide +kernel)
    exact ⟨s,s',reached,allowed,taken,shown⟩

def allocFns : List Fn := [.user,.trap,.kthreadMutexAlloc]

def Carries (s : KState) (i : MutexIx) (id : Int) : Prop :=
  (s.mutex i).mid = id ∧ (s.mutex i).state = .opened

instance (s : KState) (i : MutexIx) (id : Int) : Decidable (Carries s i id) :=
  inferInstanceAs (Decidable (_ ∧ _))

def NewId (e : Event) (earlier : List Event) : Prop :=
  ∀ t u id, e = .allocRet t id → 0 ≤ id → .allocRet u id ∉ earlier

structure AllocInv (s : KState) : Prop where
  table : MutexInv s
  reading : ∀ t i, (s.pc t).role = .allocRead i →
    (s.mutex i).state = .opened ∧ ∀ u, .allocRet u (s.mutex i).mid ∉ s.hist
  once : ∀ t u i, (s.pc t).role = .allocRead i → (s.pc u).role = .allocRead i → t = u
  returned : ∀ t id, .allocRet t id ∈ s.hist → 0 ≤ id → ∃ i, Carries s i id
  distinct : History.Each NewId s.hist

namespace AllocInv

theorem start {s : KState} (start : Start s) : AllocInv s where
  table := MutexInv.start start
  reading t i read := by
    rcases start.slot t with ready | vacant
    · simp [ready.pc,Pc.role] at read
    · simp [vacant.pc,Pc.role] at read
  once t u i read := by
    rcases start.slot t with ready | vacant
    · simp [ready.pc,Pc.role] at read
    · simp [vacant.pc,Pc.role] at read
  returned t id member := by simp [start.hist] at member
  distinct := by rw [start.hist]; trivial

section Steps
variable {s s' : KState} {t : Slot} (inv : AllocInv s)
include inv

theorem quiet (table : MutexInv s') (mutex : ∀ i, (s'.mutex i).core = (s.mutex i).core)
    (role : ∀ u i, (s'.pc u).role = .allocRead i → (s.pc u).role = .allocRead i)
    (hist : ∃ new, s'.hist = new ++ s.hist ∧ ∀ u id, .allocRet u id ∈ new → id < 0) : AllocInv s' := by
  obtain ⟨new,extended,negative⟩ := hist
  have mid (i : MutexIx) : (s'.mutex i).mid = (s.mutex i).mid := congrArg (·.1) (mutex i)
  have state (i : MutexIx) : (s'.mutex i).state = (s.mutex i).state := congrArg (·.2.2.1) (mutex i)
  have old : ∀ u id, 0 ≤ id → .allocRet u id ∈ s'.hist → .allocRet u id ∈ s.hist := by
    intro u id low member
    rw [extended,List.mem_append] at member
    rcases member with late | early
    · have high := negative u id late
      omega
    · exact early
  refine ⟨table,?_,?_,?_,?_⟩
  · intro u i read
    obtain ⟨ready,unseen⟩ := inv.reading u i (role u i read)
    refine ⟨by rw [state]; exact ready,?_⟩
    intro v member
    have low : 0 ≤ (s'.mutex i).mid := by
      rcases table.named i with ⟨_,zero⟩ | ⟨_,positive,_⟩ <;> omega
    rw [mid] at member low
    exact unseen v (old v _ low member)
  · intro u v i first second
    exact inv.once u v i (role u i first) (role v i second)
  · intro u id member low
    obtain ⟨i,same,ready⟩ := inv.returned u id (old u id low member) low
    exact ⟨i,by rw [mid]; exact same,by rw [state]; exact ready⟩
  · rw [extended]
    refine History.each_append new s.hist ?_ inv.distinct
    intro e member earlier u v id same low
    subst same
    have high := negative u id member
    omega

theorem frame (same : MutexFrame s s') : AllocInv s' := by
  refine inv.quiet (inv.table.frame same) ?_ ?_ ?_
  · intro i
    rw [same.mutex]
  · intro u i read
    rcases same.pc u with none | kept
    · simp [none] at read
    · rwa [kept] at read
  · obtain ⟨new,extended,neutral⟩ := same.hist
    refine ⟨new,extended,?_⟩
    intro u id member
    have bad := neutral _ member
    simp [Event.neutral] at bad

theorem allocCall (table : MutexInv (kthreadMutexAlloc s t)) : AllocInv (kthreadMutexAlloc s t) := by
  revert table
  unfold kthreadMutexAlloc
  split
  next full =>
    intro table
    refine inv.quiet table (fun _ => rfl) ?_ ⟨[.allocRet t (-1)],rfl,by simp⟩
    intro u i read
    rw [KState.sysret,goto_role] at read
    split at read
    · simp [Pc.role] at read
    · exact read
  next i found =>
    intro table
    refine inv.quiet table (fun _ => rfl) ?_ ⟨[],rfl,by simp⟩
    intro u j read
    rw [goto_role] at read
    split at read
    · simp [Pc.role] at read
    · exact read

theorem allocGrab (i : MutexIx) (table : MutexInv (allocGrab s t i)) :
    AllocInv (Kthreads.allocGrab s t i) := by
  refine inv.quiet table (fun j => core_spin s i j _ rfl) ?_ ⟨[],rfl,by simp⟩
  intro u j read
  rw [Kthreads.allocGrab,goto_role] at read
  split at read
  · simp [Pc.role] at read
  · exact read

theorem allocInit (i : MutexIx) (place : s.pc t = .allocInit i) (few : s.nextmid < 2^31-1) :
    AllocInv (allocInit s t i) := by
  have raw := inv.table.allocInit t i (by rw [place]; rfl)
  have table := inv.table.allocInited i place few
  have slot : ((Kthreads.allocInit s t i).mutex i).mid = s.nextmid ∧
      ((Kthreads.allocInit s t i).mutex i).state = .opened := by
    simp [Kthreads.allocInit]
  have others : ∀ j, j ≠ i → (Kthreads.allocInit s t i).mutex j = s.mutex j := by
    intro j other
    simp [Kthreads.allocInit,other]
  have role : ∀ u j, ((Kthreads.allocInit s t i).pc u).role = .allocRead j →
      u = t ∧ j = i ∨ (s.pc u).role = .allocRead j ∧ j ≠ i := by
    intro u j read
    rw [Kthreads.allocInit,goto_role] at read
    split at read
    next here => exact .inl ⟨here,(Role.allocRead.inj read).symm⟩
    next other =>
      refine .inr ⟨read,?_⟩
      rintro rfl
      have ready := (inv.reading u j read).1
      rw [raw] at ready
      contradiction
  have hist : (Kthreads.allocInit s t i).hist = s.hist := rfl
  refine ⟨table,?_,?_,?_,by rw [hist]; exact inv.distinct⟩
  · intro u j read
    rw [hist]
    rcases role u j read with ⟨_,rfl⟩ | ⟨old,other⟩
    · refine ⟨slot.2,?_⟩
      rw [slot.1]
      intro v member
      have bounds := inv.table.nextmid
      obtain ⟨k,mid,ready⟩ := inv.returned v s.nextmid member (by omega)
      rcases inv.table.named k with ⟨bad,_⟩ | ⟨_,_,high⟩
      · rw [bad] at ready
        contradiction
      · omega
    · rw [others j other]
      exact inv.reading u j old
  · intro u v j first second
    rcases role u j first with ⟨rfl,rfl⟩ | ⟨old,other⟩
    · rcases role v j second with ⟨rfl,_⟩ | ⟨_,bad⟩
      · rfl
      · contradiction
    · rcases role v j second with ⟨_,bad⟩ | ⟨older,_⟩
      · contradiction
      · exact inv.once u v j old older
  · intro u id member low
    obtain ⟨j,mid,ready⟩ := inv.returned u id member low
    have other : j ≠ i := by
      rintro rfl
      rw [raw] at ready
      contradiction
    exact ⟨j,by rw [others j other]; exact mid,by rw [others j other]; exact ready⟩

theorem allocRead (i : MutexIx) (place : s.pc t = .allocRead i) : AllocInv (allocRead s t i) := by
  have mine : (s.pc t).role = .allocRead i := by rw [place]; rfl
  obtain ⟨ready,unseen⟩ := inv.reading t i mine
  have role : ∀ u j, ((Kthreads.allocRead s t i).pc u).role = .allocRead j →
      u ≠ t ∧ (s.pc u).role = .allocRead j := by
    intro u j read
    rw [Kthreads.allocRead,KState.sysret,goto_role] at read
    split at read
    · simp [Pc.role] at read
    next other => exact ⟨other,read⟩
  have hist : (Kthreads.allocRead s t i).hist = .allocRet t (s.mutex i).mid :: s.hist := rfl
  refine ⟨inv.table.allocRead i,?_,?_,?_,?_⟩
  · intro u j read
    obtain ⟨elsewhere,old⟩ := role u j read
    refine ⟨(inv.reading u j old).1,?_⟩
    intro v member
    rw [hist,List.mem_cons] at member
    rcases member with new | early
    · have same : (s.mutex j).mid = (s.mutex i).mid := by injection new
      have nonzero : (s.mutex j).mid ≠ 0 := by
        rcases inv.table.named j with ⟨bad,_⟩ | ⟨_,positive,_⟩
        · rw [(inv.reading u j old).1] at bad
          contradiction
        · omega
      have equal := inv.table.mids j i same nonzero
      subst equal
      exact elsewhere (inv.once u t j old mine)
    · exact (inv.reading u j old).2 v early
  · intro u v j first second
    exact inv.once u v j (role u j first).2 (role v j second).2
  · intro u id member low
    rw [hist,List.mem_cons] at member
    rcases member with new | early
    · have same : id = (s.mutex i).mid := by injection new
      exact ⟨i,same.symm,ready⟩
    · exact inv.returned u id early low
  · rw [hist]
    refine ⟨?_,inv.distinct⟩
    intro u v id same _ member
    injection same with _ equal
    subst equal
    exact unseen v member

end Steps

theorem step {s s' : KState} {a : Action} (inv : AllocInv s) (steady : Steady s)
    (allowed : within allocFns s a) (alloc : AllocApart s a) (taken : MutexStep s a s') :
    AllocInv s' := by
  have table := inv.table.step steady.tids alloc (deallocApart_of_absent allowed (by decide))
    (birthApart_of_absent allowed (by decide) (by decide)) taken
  cases taken with
  | frame same => exact inv.frame same
  | allocCall t o place free => exact inv.allocCall table
  | allocGrab t o i place free => exact inv.allocGrab i table
  | allocInit t o i place => exact inv.allocInit i place (alloc.2 i place)
  | allocRead t o i place => exact inv.allocRead i place
  | created t o p nt k place =>
    rcases place with ⟨place,_⟩ | place <;> simp [within,place,Pc.fn,allocFns] at allowed
  | lockCall t o id place | lockGrab t o i id place | lockTry t o i id place
  | lockAgain t o i id place | unlockCall t o id place | unlockBody t o i id place
  | deallocCall t o id k place | deallocBody t o i id k place =>
    simp [within,place,Pc.fn,allocFns] at allowed

end AllocInv

/-- Each id that `kthread_mutex_alloc` has returned is carried by an `OPEN` slot, from the
moment of the return on, and two returned ids name different slots. -/
theorem unique_allocation (s₀ s : KState) (start : Start s₀)
    (reached : Reaches (fun s a => within allocFns s a ∧ AllocApart s a) s₀ s) :
    (∀ t id, .allocRet t id ∈ s.hist → 0 ≤ id → ∃ i, Carries s i id) ∧
    (∀ later earlier t u id id', s.hist = later ++ .allocRet t id :: earlier →
      .allocRet u id' ∈ earlier → 0 ≤ id → 0 ≤ id' →
      id ≠ id' ∧ ∃ i j, i ≠ j ∧ Carries s i id ∧ Carries s j id') := by
  have both : AllocInv s ∧ Steady s := by
    refine reached.invariant (fun s => AllocInv s ∧ Steady s) ⟨AllocInv.start start,Steady.start start⟩ ?_
    rintro before a after ⟨inv,steady⟩ ⟨allowed,alloc⟩ taken
    exact ⟨inv.step steady allowed alloc (step_mutex before after a taken),
      steady.step (within_mono (by decide) before a allowed) (step_thread before after a taken)⟩
  obtain ⟨inv,_⟩ := both
  refine ⟨inv.returned,?_⟩
  intro later earlier t u id id' hist member low low'
  have different : id ≠ id' := by
    rintro rfl
    have fresh := inv.distinct
    rw [hist] at fresh
    exact History.each_cut fresh t u id rfl low member
  obtain ⟨i,first⟩ := inv.returned t id (by rw [hist]; simp) low
  obtain ⟨j,second⟩ := inv.returned u id' (by rw [hist]; simp [member]) low'
  refine ⟨different,i,j,?_,first,second⟩
  rintro rfl
  exact different (first.1.symm.trans second.1)

/-- Two calls that overlap, the second one scanning after the first has marked its slot. -/
theorem unique_allocation_overlapping : ∃ s,
    Reaches (fun s a => within allocFns s a ∧ AllocApart s a) (session [(1,0),(1,1)] 0 2) s ∧
    s.hist = [.allocRet (1,0) 1,.allocRet (1,1) 2] ∧
    (1 : Int) ≠ 2 ∧ ∃ i j, i ≠ j ∧ Carries s i 1 ∧ Carries s j 2 := by
  obtain ⟨s,reached,hist⟩ := Interleave.play_shows step (fun s a => within allocFns s a ∧ AllocApart s a)
    (session [(1,0),(1,1)] 0 2)
    (call (1,0) .kthreadMutexAlloc ++ [go (1,0),go (1,0),go (1,0)] ++ call (1,1) .kthreadMutexAlloc ++
      [go (1,1),go (1,1),go (1,1),go (1,1),go (1,0)])
    (fun s => s.hist = [.allocRet (1,0) 1,.allocRet (1,1) 2]) (by decide +kernel)
  exact ⟨s,reached,hist,
    (unique_allocation _ s (session_start _ _ _ (by decide) (by decide)) reached).2
      [] [.allocRet (1,1) 2] (1,0) (1,1) 1 2 hist (by simp) (by decide) (by decide)⟩

/-- Both calls find slot 0, since the first one has let go of `mtable.lock` before it marks
the slot; both read the id that the second one gave it. -/
theorem double_allocation : Start (session [(1,0),(1,1)] 0 2) ∧ ∃ s,
    Reaches (within allocFns) (session [(1,0),(1,1)] 0 2) s ∧
    s.hist = [.allocRet (1,1) 2,.allocRet (1,0) 2] := by
  refine ⟨session_start _ _ _ (by decide) (by decide),?_⟩
  exact Interleave.play_shows _ _ _
    (call (1,0) .kthreadMutexAlloc ++ [go (1,0),go (1,0)] ++
      call (1,1) .kthreadMutexAlloc ++ [go (1,1),go (1,0),go (1,1),go (1,1),go (1,0),go (1,1)]) _ (by decide +kernel)

end Kthreads
