import Kthreads.Thread.Transitions
import Kthreads.Mutex.Invariant

/-! Runs in which threads neither come into being nor are reaped. Their ids stay
apart, and a slot without an id stays empty. -/
namespace Kthreads
variable {s s' : KState}

def steadyFns : List Fn :=
  [.user,.trap,.mark,.kill,.kthreadExit,.exitThread,.sleep,.files,
    .kthreadMutexLock,.kthreadMutexUnlock,.kthreadMutexAlloc,.kthreadMutexDealloc]

structure Steady (s : KState) : Prop where
  unique : ∀ t u, (s.thread t).tid = (s.thread u).tid → (s.thread t).tid ≠ 0 → t = u
  empty : ∀ t, (s.thread t).tid = 0 → s.cpu t = .off ∧ (s.thread t).state = .tUnused

namespace Steady

theorem tids (steady : Steady s) : TidInv s where
  unique := steady.unique
  running t on := by
    intro zero
    have off := (steady.empty t zero).1
    rw [on] at off
    contradiction

theorem start (start : Start s) : Steady s where
  unique := start.tids
  empty t zero := by
    rcases start.slot t with ready | vacant
    · have positive := ready.tid.1
      omega
    · exact ⟨vacant.cpu,vacant.state⟩

section
variable (steady : Steady s)
include steady

theorem keep (tid : ∀ u, (s'.thread u).tid = (s.thread u).tid) (same : ∀ u, (s.thread u).tid = 0 →
      s'.cpu u = s.cpu u ∧ (s'.thread u).state = (s.thread u).state) : Steady s' where
  unique t u equal nonzero := by
    rw [tid,tid] at equal
    rw [tid] at nonzero
    exact steady.unique t u equal nonzero
  empty t zero := by
    rw [tid] at zero
    rw [(same t zero).1,(same t zero).2]
    exact steady.empty t zero

theorem frame (same : ThreadFrame s s') : Steady s' := by
  refine steady.keep same.tid ?_
  intro u zero
  refine ⟨by rw [same.cpu],?_⟩
  rcases same.thread u with eq | ⟨asleep,_⟩
  · rw [eq]
  · rw [(steady.empty u zero).2] at asleep
    contradiction

theorem one (t : Slot) (born : (s.thread t).tid ≠ 0) (tid : (s'.thread t).tid = (s.thread t).tid)
    (others : ∀ u, u ≠ t → s'.cpu u = s.cpu u ∧ s'.thread u = s.thread u) : Steady s' := by
  refine steady.keep ?_ ?_
  · intro u
    by_cases here : u = t
    · rw [here,tid]
    · rw [(others u here).2]
  · intro u zero
    have elsewhere : u ≠ t := by
      rintro rfl
      exact born zero
    exact ⟨(others u elsewhere).1,by rw [(others u elsewhere).2]⟩

theorem marked (t : Slot) (pc : Pc) : Steady ((markSiblings s t).goto t pc) := by
  refine steady.keep ?_ ?_
  · intro u
    change (if u.1 = t.1 then _ else s.thread u).tid = _
    split <;> rfl
  · intro u zero
    have raw := (steady.empty u zero).2
    refine ⟨rfl,?_⟩
    change (if u.1 = t.1 then _ else s.thread u).state = _
    split
    · simp [raw]
    · rfl

theorem scheduler (t : Slot) (runnable : (s.thread t).state = .tRunnable) : Steady (scheduler s t) := by
  have born : (s.thread t).tid ≠ 0 := by
    intro zero
    rw [(steady.empty t zero).2] at runnable
    contradiction
  refine steady.one t born ?_ ?_
  · unfold Kthreads.scheduler sleepResume
    simp only
    split
    · split <;> simp
    · simp
  · intro u other
    unfold Kthreads.scheduler sleepResume
    simp only
    split
    · split <;> simp [other]
    · simp [other]

theorem step {a : Action} (allowed : within steadyFns s a) (taken : ThreadStep s a s') : Steady s' := by
  cases taken with
  | frame same => exact steady.frame same
  | scheduler t free off runnable => exact steady.scheduler t runnable
  | yield t free on running =>
    refine steady.one t (steady.tids.running t on) ?_ ?_
    · simp [Kthreads.yield]
    · intro u other
      simp [Kthreads.yield,other]
  | swtch t inside =>
    have born : (s.thread t).tid ≠ 0 := by
      intro zero
      rw [(steady.empty t zero).1] at inside
      contradiction
    refine steady.one t born rfl ?_
    intro u other
    exact ⟨by simp [Kthreads.swtch,other],rfl⟩
  | takePage | givePage => exact steady.keep (fun _ => rfl) (fun _ _ => ⟨rfl,rfl⟩)
  | sleep t o chan site on falls =>
    refine steady.one t (steady.tids.running t on) ?_ ?_
    · simp [sleepCommit]
    · intro u other
      simp [sleepCommit,other]
  | exitThread t o on place free =>
    have woken := steady.frame (.wakeAll s (· == .thread t))
    refine woken.one t (woken.tids.running t on) ?_ ?_
    · simp [Kthreads.exitThread,wakeup1]
    · intro u other
      simp [Kthreads.exitThread,wakeup1,other,wakeAll]
  | mark t o k on place free => exact steady.marked t _
  | drain t o k i n m pc on place | drainFree t o k i n page on place =>
    simp only [onRun_run,place,Pc.fn] at allowed
    cases k <;> exact absurd allowed (by decide)
  | birth t o p nt pc on births =>
    cases births with
    | create nt place | fork np nt place =>
      simp only [onRun_run,place,Pc.fn] at allowed
      exact absurd allowed (by decide)
  | stack t o nt pc page rest on gets | stackless t o nt pc on gets =>
    cases gets with
    | create place | fork place =>
      simp only [onRun_run,place,Pc.fn] at allowed
      exact absurd allowed (by decide)
  | exitFinal t o on place | createRun t o nt on place | forkProc t o np on place
  | forkCopied t o nt on place | forkFailed t o nt page on place | forkRun t o nt on place
  | waitPanic t o c on place | waitDone t o c on place | joinFound t o tid u on place
  | joinMissing t o tid on place | joinFree t o tid u page on place =>
    simp only [onRun_run,place,Pc.fn] at allowed
    exact absurd allowed (by decide)

end

end Steady

end Kthreads
