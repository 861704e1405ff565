import Kthreads.Thread.Steady

/-! Mutual exclusion: any interleaving of `kthread_mutex_lock` and
`kthread_mutex_unlock`, with spurious wake-ups and dying threads. -/
namespace Kthreads

def lockFns : List Fn :=
  [.user,.trap,.mark,.kill,.kthreadExit,.exitThread,.sleep,.kthreadMutexLock,.kthreadMutexUnlock]

theorem lockFns_mid {s s' : KState} {a : Action} (allowed : within lockFns s a)
    (taken : MutexStep s a s') (i : MutexIx) : (s'.mutex i).mid = (s.mutex i).mid := by
  have kept (m : KState) (j : MutexIx) (v : Mutex) (same : v.mid = (m.mutex j).mid) :
      ((m.setMutex j v).mutex i).mid = (m.mutex i).mid := by
    by_cases here : i = j
    · subst i
      simpa using same
    · simp [here]
  cases taken with
  | frame same => rw [same.mutex]
  | created t o p nt k site => rfl
  | lockCall t o id place =>
    unfold kthreadMutexLock
    split
    · rfl
    · split <;> rfl
  | lockGrab t o j id place => exact kept {s with mtableLock := none} j _ rfl
  | lockTry t o j id place =>
    unfold lockTry
    split
    · exact kept s j _ rfl
    · exact kept s j _ rfl
  | lockAgain t o j id place => exact kept s j _ rfl
  | unlockCall t o id place =>
    unfold kthreadMutexUnlock
    split <;> rfl
  | unlockBody t o j id place =>
    unfold unlockBody
    split
    · rfl
    · let v : Mutex := {s.mutex j with lock := 0, state := .opened, holding := none}
      obtain ⟨thread,woken⟩ := wakeSleeper_rest ({s with mtableLock := none}.setMutex j v) t.1 j
      rw [woken]
      exact kept {s with mtableLock := none} j v rfl
  | allocCall t o place | allocGrab t o j place | allocInit t o j place | allocRead t o j place
  | deallocCall t o id k place | deallocBody t o j id k place =>
    simp [within,place,Pc.fn,lockFns] at allowed

theorem lockFns_invariant {s₀ s : KState} (start : Start s₀) (reached : Reaches (within lockFns) s₀ s) :
    MutexInv s ∧ Steady s ∧ ∀ i, (s.mutex i).mid = (s₀.mutex i).mid := by
  refine reached.invariant (fun s => MutexInv s ∧ Steady s ∧ ∀ i, (s.mutex i).mid = (s₀.mutex i).mid)
    ⟨MutexInv.start start,Steady.start start,fun _ => rfl⟩ ?_
  rintro before a after ⟨inv,steady,mids⟩ allowed taken
  have cases := step_mutex before after a taken
  refine ⟨?_,?_,fun i => (lockFns_mid allowed cases i).trans (mids i)⟩
  · exact inv.step steady.tids (allocApart_of_absent allowed (by decide))
      (deallocApart_of_absent allowed (by decide))
      (birthApart_of_absent allowed (by decide) (by decide)) cases
  · exact steady.step (within_mono (by decide) before a allowed) (step_thread before after a taken)

/-- A mutex has at most one holder. While its spin lock is free, its fields agree
with each other, and a live holder is the thread that `holding` points to. -/
theorem mutex_exclusion (s₀ s : KState) (i : MutexIx) (id : Int) (start : Start s₀)
    (allocated : (s₀.mutex i).state = .opened) (named : (s₀.mutex i).mid = id)
    (reached : Reaches (within lockFns) s₀ s) :
    (∀ t u, Occupied s t → Occupied s u → Holder s t id → Holder s u id → t = u) ∧
    ((s.mutex i).mutexLock = none →
      ((s.mutex i).lock = 1 ↔ (s.mutex i).state = .closed) ∧
      ((s.mutex i).state = .closed ↔ (s.mutex i).holding ≠ none) ∧
      ∀ t, Occupied s t → Holder s t id → (s.mutex i).holding = some t) := by
  obtain ⟨inv,_,mids⟩ := lockFns_invariant start reached
  have mid : (s.mutex i).mid = id := (mids i).trans named
  have nonzero : id ≠ 0 := by
    obtain ⟨_,_,⟨raw,_⟩ | ⟨_,positive,_⟩⟩ := start.mutex i
    · rw [raw] at allocated
      contradiction
    · omega
  have owned : ∀ t, Holder s t id → (s.mutex i).holding = some t := by
    intro t held
    obtain ⟨j,same,owner⟩ := inv.held t id held
    rw [inv.mids i j (mid.trans same.symm) (by rw [mid]; exact nonzero)]
    exact owner
  refine ⟨?_,fun _ => ⟨?_,?_,fun t _ => owned t⟩⟩
  · intro t u _ _ first second
    exact Option.some.inj ((owned t first).symm.trans (owned u second))
  · rcases inv.settled i with ⟨lock,closed,_⟩ | ⟨lock,open_,_⟩
    · simp [lock,closed]
    · simp [lock,open_]
  · rcases inv.settled i with ⟨_,closed,holding⟩ | ⟨_,open_,holding⟩
    · simp [closed,holding]
    · simp [open_,holding]

/-- One thread holds the mutex while a thread of another process sleeps on it. -/
theorem mutex_exclusion_contended : ∃ s,
    Reaches (within lockFns) (session [(1,0),(2,0)] 1 2) s ∧
    (Holder s (1,0) 1 ∧ (s.thread (2,0)).state = .tSleeping) ∧
    (∀ t u, Occupied s t → Occupied s u → Holder s t 1 → Holder s u 1 → t = u) := by
  obtain ⟨s,reached,shown⟩ := Interleave.play_shows step (within lockFns) (session [(1,0),(2,0)] 1 2)
    (call (1,0) (.kthreadMutexLock 1) ++ [go (1,0),go (1,0),go (1,0)] ++ call (2,0) (.kthreadMutexLock 1) ++
      [go (2,0),go (2,0),go (2,0),go (2,0)])
    (fun s => Holder s (1,0) 1 ∧ (s.thread (2,0)).state = .tSleeping) (by decide +kernel)
  exact ⟨s,reached,shown,
    (mutex_exclusion _ s 0 1 (session_start _ _ _ (by decide) (by decide)) rfl rfl reached).1⟩

end Kthreads
