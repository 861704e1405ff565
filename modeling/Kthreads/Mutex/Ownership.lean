import Kthreads.Mutex.Invariant
import Kthreads.Thread.Exit

/-! Ownership of mutexes across the reuse of thread slots. A mutex names its holder by a
pointer to a thread slot and compares ids through it, so a thread born into the slot of a
holder that has ended passes for the holder. With a null pointer the comparison reads
whatever word lies at the address. -/
namespace Kthreads

def lockTarget (s : KState) (t : Slot) : Option MutexIx :=
  match s.pc t with
  | .lockCall id => findMutex s id
  | _ => none

abbrev NullApart (s : KState) : Action → Prop := onRun fun t o =>
  ∀ i ∈ lockTarget s t, (s.mutex i).holding = none → o.word ≠ (s.thread t).tid

abbrev OwnsApart (s : KState) (a : Action) : Prop :=
  Orderly s a ∧ AllocApart s a ∧ DeallocApart s a ∧ BirthApart s a ∧ NullApart s a

instance (s : KState) (a : Action) : Decidable (OwnsApart s a) :=
  @instDecidableAnd _ _ inferInstance (@instDecidableAnd (AllocApart s a) _ inferInstance inferInstance)

theorem tidInv_of_drained {s : KState} (inv : Ids s ∧ Drained s) : TidInv s where
  unique := inv.1.unique
  running t on := inv.2.named t (inv.2.live t on)

theorem owned_invariant {s₀ s : KState} (init : Start s₀) (reached : Reaches OwnsApart s₀ s) :
    MutexInv s ∧ Ids s ∧ Drained s := by
  refine reached.invariant (fun s => MutexInv s ∧ Ids s ∧ Drained s)
    ⟨.start init,.start init,.start init⟩ ?_
  rintro before a after ⟨mutexes,threads⟩ ⟨orderly,alloc,dealloc,birth,_⟩ taken
  refine ⟨?_,drained_step threads orderly (step_thread before after a taken)⟩
  exact mutexes.step (tidInv_of_drained threads) alloc dealloc birth (step_mutex before after a taken)

/-- A successful unlock is made by a thread that holds the mutex, and `kthread_mutex_lock`
refuses the id of an initialised mutex only to its holder. -/
theorem ownership_across_reuse (s₀ s s' : KState) (a : Action) (init : Start s₀)
    (reached : Reaches OwnsApart s₀ s) (allowed : OwnsApart s a) (taken : step s a = some s') :
    (∀ t id, s'.hist = .unlockRet t id 0 :: s.hist → Holder s t id) ∧
    (∀ t id, s'.hist = .lockRet t id (-1) :: s.hist →
      ∀ i, (s.mutex i).mid = id → (s.mutex i).state ≠ .uninitialized → Holder s t id) := by
  obtain ⟨inv,threads⟩ := owned_invariant init reached
  have tids := tidInv_of_drained threads
  refine ⟨?_,?_⟩
  · intro t id hist
    obtain ⟨u,o,_,returns⟩ := mutex_event (step_mutex s s' a taken) hist rfl (by simp)
    cases returns with
    | unlocked id i place on closed mine =>
      have owned := inv.unlocker tids on i o.word closed mine
      have same : (s.mutex i).mid = id := by
        rcases inv.unlocking t i id (by rw [place]; rfl) with same | quiet
        · exact same
        · exact absurd closed quiet.1
      exact same ▸ inv.owner i t owned
  · intro t id hist i mid ready
    obtain ⟨u,o,rfl,returns⟩ := mutex_event (step_mutex s s' a taken) hist rfl (by simp)
    have nonzero : id ≠ 0 := by
      rcases inv.named i with ⟨raw,_⟩ | ⟨_,positive,_⟩
      · exact absurd raw ready
      · omega
    cases returns with
    | lockMissing id place missing =>
      have absent := List.find?_eq_none.mp missing i (List.mem_finRange i)
      simp [mid] at absent
    | lockRefused id j place found bad =>
      have here : j = i := by
        have same : (s.mutex j).mid = id := by simpa using List.find?_some found
        exact inv.mids j i (same.trans mid.symm) (by omega)
      subst j
      have mine := bad.resolve_left ready
      cases owner : (s.mutex i).holding with
      | none =>
        -- the test read through the null pointer
        simp only [holdingTid,owner] at mine
        exact absurd mine (allowed.2.2.2.2 i (by simp [lockTarget,place,found]) owner)
      | some h =>
        simp only [holdingTid,owner] at mine
        have on := (step_run taken).2.1
        rw [← tids.unique t h mine.symm (tids.running t on)] at owner
        exact mid ▸ inv.owner i t owner

/-- A thread locks a mutex. -/
def lockScript : List Action :=
  call (1,1) (.kthreadMutexLock 1) ++ [go (1,1),go (1,1),go (1,1)] ++ back (1,1)

/-- It exits and is joined, and its sibling creates a thread in its slot. -/
def reuseScript : List Action :=
  call (1,1) .kthreadExit ++ [go (1,1),go (1,1),.swtch (1,1)] ++
    call (1,0) (.kthreadJoin 2) ++ [go (1,0),go (1,0)] ++ back (1,0) ++
    call (1,0) (.kthreadCreate 1 1) ++ [go (1,0),go (1,0),go (1,0),.scheduler (1,1)]

/-- The new thread in a slot locks a mutex and unlocks it again. -/
theorem ownership_across_reuse_unlock : ∃ s s',
    Reaches OwnsApart (session [(1,0),(1,1)] 1 2) s ∧ step s (go (1,1)) = some s' ∧
      s'.hist = .unlockRet (1,1) 1 0 :: s.hist ∧ Holder s (1,1) 1 := by
  obtain ⟨s,s',reached,allowed,taken,returned⟩ := Interleave.play_shows_step step OwnsApart (session [(1,0),(1,1)] 1 2)
    (reuseScript ++ lockScript ++ call (1,1) (.kthreadMutexUnlock 1) ++ [go (1,1)])
    (go (1,1)) (fun s s' => s'.hist = .unlockRet (1,1) 1 0 :: s.hist) (by decide +kernel)
  have init := session_start [(1,0),(1,1)] 1 2 (by decide) (by decide)
  exact ⟨s,s',reached,taken,returned,
    (ownership_across_reuse _ s s' _ init reached allowed taken).1 (1,1) 1 returned⟩

/-- The new thread in the slot of an ended holder unlocks a mutex that it never locked; and
a free mutex is refused to a thread whose id lies at the null address. -/
theorem ownership_inherited :
    (∃ s s', Reaches (within [.user,.trap,.kthreadCreate,.kthreadExit,.exitThread,.kthreadJoin,
        .kthreadMutexLock,.kthreadMutexUnlock]) (session [(1,0),(1,1)] 1 2) s ∧
      step s (go (1,1)) = some s' ∧ s'.hist = .unlockRet (1,1) 1 0 :: s.hist ∧ ¬ Holder s (1,1) 1) ∧
    ∃ s s', Reaches (within [.user,.trap,.kthreadMutexLock]) (session [(1,0)] 1 2) s ∧
      step s (.run (1,0) {word := 1}) = some s' ∧ s'.hist = .lockRet (1,0) 1 (-1) :: s.hist ∧
      (s.mutex 0).mid = 1 ∧ (s.mutex 0).state = .opened ∧ ¬ Holder s (1,0) 1 := by
  constructor
  · obtain ⟨s,s',reached,_,taken,shown⟩ := Interleave.play_shows_step step
      (within [.user,.trap,.kthreadCreate,.kthreadExit,.exitThread,.kthreadJoin,.kthreadMutexLock,.kthreadMutexUnlock])
      (session [(1,0),(1,1)] 1 2) (lockScript ++ reuseScript ++ call (1,1) (.kthreadMutexUnlock 1) ++ [go (1,1)])
      (go (1,1)) (fun s s' => s'.hist = .unlockRet (1,1) 1 0 :: s.hist ∧ ¬ Holder s (1,1) 1) (by decide +kernel)
    exact ⟨s,s',reached,taken,shown⟩
  · obtain ⟨s,s',reached,_,taken,shown⟩ := Interleave.play_shows_step step
      (within [.user,.trap,.kthreadMutexLock]) (session [(1,0)] 1 2) (call (1,0) (.kthreadMutexLock 1))
      (.run (1,0) {word := 1})
      (fun s s' => s'.hist = .lockRet (1,0) 1 (-1) :: s.hist ∧ (s.mutex 0).mid = 1 ∧
        (s.mutex 0).state = .opened ∧ ¬ Holder s (1,0) 1)
      (by decide +kernel)
    exact ⟨s,s',reached,taken,shown⟩

end Kthreads
