import Kthreads.Sched.Transitions
import Kthreads.Thread.Joined

/-! Kernel stacks and the CPUs that execute on them. A thread marks itself a zombie before it
has switched away from its stack, and it has `ptable.lock` until it has. A reaper that tests
the state under the lock therefore finds the stack unused; the draining loop of `exit` and
`exec` tests without it. -/
open Function (update update_of_ne)

namespace Kthreads
variable {s s' : KState} {a : Action}

def drainTarget (s : KState) (t : Slot) : Option Slot :=
  match s.pc t with
  | .drain _ i _ => if inside : i < nthread then some (t.1,⟨i,inside⟩) else none
  | _ => none

/-- The draining loop sees a zombie only while `ptable.lock` is free. -/
abbrev DrainsFree (s : KState) : Action → Prop := onRun fun t _ =>
  ∀ u ∈ drainTarget s t, (s.thread u).state = .tZombie → s.ptableLock = none

abbrev FreesApart (s : KState) (a : Action) : Prop :=
  (TidRoom s a ∧ CreatesAlive s a ∧ ForksEmpty s a) ∧ JoinsSame s a ∧ DrainsFree s a

theorem step_cpu (taken : LockStep s a s') (u : Slot)
    (busy : s'.cpu u ≠ .off) :
    s.cpu u ≠ .off ∨ a = .scheduler u ∧ (s.thread u).state = .tRunnable := by
  have wrote (t : Slot) (c : Cpu) (cpu : s'.cpu = update s.cpu t c) (other : u ≠ t) :
      s.cpu u ≠ .off := by
    rw [cpu,update_of_ne other] at busy
    exact busy
  cases taken with
  | keeps lock cpu holds => exact .inl (cpu ▸ busy)
  | enters t o on free lock cpu holds => exact .inl (cpu ▸ busy)
  | leaves t o on own lock cpu holds => exact .inl (cpu ▸ busy)
  | sched t on own lock cpu holds =>
    by_cases here : u = t
    · exact .inl (by simp [here,on])
    · exact .inl (wrote t .sched cpu here)
  | swtch t inside =>
    by_cases here : u = t
    · simp [swtch,here] at busy
    · exact .inl (wrote t .off rfl here)
  | scheduler t free off runnable lock cpu holds =>
    by_cases here : u = t
    · subst u
      exact .inr ⟨rfl,runnable⟩
    · exact .inl (wrote t .on cpu here)

structure Parked (s : KState) : Prop where
  used : ∀ u, s.cpu u ≠ .off → (s.thread u).state ≠ .tUnused
  pending : ∀ t nt, (s.pc t).life.pending = some nt → s.cpu nt = .off
  drainFree : ∀ t k i n, (s.pc t).life = .drainFree k i n → s.cpu (t.1,i) = .off
  joinFree : OfJoined s fun v => s.cpu v = .off ∧ ¬ Occupied s v

theorem run_owns {t : Slot} {o : Oracle} (taken : step s (.run t o) = some s')
    (place : s.pc t = .waitLoop ∨ ∃ tid, s.pc t = .joinLoop tid) :
    s.ptableLock = none ∨ s.ptableLock = some t := by
  have run := (step_run taken).2.2
  rcases place with place | ⟨tid,place⟩
  · simp only [code,place,guarded_eq_some] at run
    exact run.1
  · simp only [code,place,guarded_eq_some] at run
    exact run.1

/-- A zombie that is seen under `ptable.lock` has left its CPU. -/
theorem Locked.zombie (locked : Locked s) (drained : Drained s) (t u : Slot)
    (own : s.ptableLock = none ∨ s.ptableLock = some t ∧ s.cpu t = .on)
    (dead : (s.thread u).state = .tZombie) : s.cpu u = .off := by
  cases busy : s.cpu u with
  | off => rfl
  | on =>
    rw [drained.running u busy] at dead
    contradiction
  | sched =>
    have taken := locked.sched u busy
    rcases own with free | ⟨mine,on⟩
    · rw [free] at taken
      contradiction
    · rw [Option.some.inj (taken.symm.trans mine),on] at busy
      contradiction

namespace Parked

theorem start (init : Start s) : Parked s := by
  have plain (u : Slot) : (s.pc u).life.busy = false := by
    rcases init.slot u with ready | vacant
    · rw [ready.pc]; rfl
    · rw [vacant.pc]; rfl
  refine ⟨?_,?_,?_,.start init⟩
  · intro u busy unused
    rcases init.slot u with ready | vacant
    · rcases ready.cpu with ⟨state,_⟩ | ⟨state,_⟩ <;> rw [state] at unused <;> contradiction
    · exact busy vacant.cpu
  · intro t nt pending
    have idle := plain t
    rw [pending_busy _ nt pending] at idle
    contradiction
  · intro t k i n life
    have idle := plain t
    rw [life] at idle
    contradiction

theorem off (inv : Parked s) (locked : Locked s) (drained : Drained s)
    (joins : JoinsSame s a) (taken : step s a = some s') (u : Slot) (reaper : Reaper s u s' a) :
    s.cpu u = .off := by
  cases reaper with
  | drain t o k i n place here =>
    rw [here]
    exact inv.drainFree t k i n (by rw [place]; rfl)
  | join t o tid place =>
    have same : (s.thread u).tid = tid := joins (tid,u) (by simp [joined,place])
    exact ((inv.joinFree t tid u (by rw [place]; rfl)).2 same).1
  | wait t o c place on found child dead =>
    refine locked.zombie drained t u ?_ dead
    exact (run_owns taken (.inl place)).imp_right fun mine => ⟨mine,on⟩
  | stack t o pc gets => exact inv.pending t u (pending_of_blank gets.waits)
  | fork t o place => exact inv.pending t u (by rw [place]; rfl)

theorem joined (inv : Parked s) : Joined s := by
  intro t tid v life
  obtain ⟨below,found⟩ := inv.joinFree t tid v life
  exact ⟨below,fun same => (found same).2⟩

theorem orderly (inv : Parked s) (allowed : FreesApart s a) : Orderly s a :=
  inv.joined.orderly ⟨allowed.1.1,allowed.1.2.1,allowed.1.2.2,allowed.2.1⟩

section Step
variable {s s' : KState} {a : Action}

theorem stays (taken : step s a = some s') (u : Slot) (off : s.cpu u = .off)
    (ended : a ≠ .scheduler u ∨ (s.thread u).state ≠ .tRunnable) : s'.cpu u = .off := by
  by_contra busy
  rcases step_cpu (step_lock s s' a taken) u busy with before | ⟨picks,runnable⟩
  · exact before off
  · rcases ended with other | dead
    · exact other picks
    · exact dead runnable

theorem Reaper.section {u : Slot} (reaper : Reaper s u s' a) (v : Slot) : a ≠ .scheduler v := by
  cases reaper <;> simp

theorem step_used (inv : Parked s) (locked : Locked s) (drained : Drained s) (joins : JoinsSame s a) (taken : step s a = some s') (u : Slot)
    (busy : s'.cpu u ≠ .off) : (s'.thread u).state ≠ .tUnused := by
  have thread := step_thread s s' a taken
  have before := step_cpu (step_lock s s' a taken) u busy
  have old : (s.thread u).state ≠ .tUnused := by
    rcases before with on | ⟨_,runnable⟩
    · exact inv.used u on
    · simp [runnable]
  intro now
  cases step_change thread u with
  | keeps inherits => exact old (inherits.unused now)
  | emptied empty reaper =>
    rcases before with on | ⟨picks,_⟩
    · exact on (inv.off locked drained joins taken u reaper)
    · exact Reaper.section reaper u picks
  | sleeps o chan site on falls =>
    simp [sleepCommit] at now
  | marked t o k place own other => exact old ((Calm.marked s t u).unused now)
  | born t o p pc births found =>
    simp [allocthread] at now
  | stacked t o pc page rest s' gets head thread =>
    rw [thread] at now
    exact old now

theorem step_pending (inv : Parked s) (drained : Drained s) (taken : step s a = some s') (t nt : Slot)
    (pending : (s'.pc t).life.pending = some nt) : s'.cpu nt = .off := by
  have kept (before : (s.pc t).life.pending = some nt) : s'.cpu nt = .off := by
    refine stays taken nt (inv.pending t nt before) (.inr ?_)
    simp [(drained.fresh t nt before).1]
  rcases step_placed (step_thread s s' a taken) t with same | plain | arrives
  · exact kept (same ▸ pending)
  · rw [pending_busy _ nt pending] at plain
    contradiction
  · generalize (s'.pc t).life = life at pending arrives
    cases arrives with
    | birth o p new pc births found =>
      have here : new = nt := by cases births <;> simpa [Pc.life,Life.pending] using pending
      subst new
      have unused := (unusedSlot_spec s p nt found).1
      have off : s.cpu nt = .off := by
        by_contra busy
        exact inv.used nt busy unused
      exact stays taken nt off (.inr (by simp [unused]))
    | stacked o new pc gets =>
      have here : new = nt := by cases gets <;> simpa [Pc.life,Life.pending] using pending
      exact kept (pending_of_blank (here ▸ gets.waits))
    | copied o new place => exact kept (by rw [place]; exact pending)
    | _ => simp [Life.pending] at pending

theorem step_drainFree (inv : Parked s) (locked : Locked s) (drained : Drained s)
    (drains : DrainsFree s a) (taken : step s a = some s') (t : Slot) (k : Drainer) (i : Fin nthread) (n : Nat)
    (life : (s'.pc t).life = .drainFree k i n) : s'.cpu (t.1,i) = .off := by
  rcases step_placed (step_thread s s' a taken) t with same | plain | arrives
  · have before := same.symm.trans life
    have fits := drained.fits t
    rw [before] at fits
    refine stays taken (t.1,i) (inv.drainFree t k i n before) (.inr ?_)
    intro runnable
    exact fits.2.1 (by simp [Occupied,runnable])
  · rw [life] at plain
    contradiction
  · rw [life] at arrives
    generalize seen : Life.drainFree k i n = place at arrives
    cases arrives with
    | zombie o k' i' n' place dead =>
      obtain ⟨rfl,rfl,rfl⟩ := by simpa using seen
      have free : s.ptableLock = none := drains (t.1,i) (by simp [drainTarget,place]) dead
      refine stays taken (t.1,i) (locked.zombie drained t (t.1,i) (.inl free) dead) (.inr ?_)
      simp [dead]
    | birth o p nt pc births found => cases births <;> simp [Pc.life] at seen
    | stacked o nt pc gets => cases gets <;> simp [Pc.life] at seen
    | _ => simp at seen

theorem step_joinFree (inv : Parked s) (locked : Locked s) (drained : Drained s) (ids : Ids s) (room : TidRoom s a)
    (joins : JoinsSame s a) (taken : step s a = some s') : OfJoined s' fun v => s'.cpu v = .off ∧ ¬ Occupied s' v := by
  have thread := step_thread s s' a taken
  refine OfJoined.step inv.joinFree ids room thread ?_ ?_ ?_
  · rintro t o tid v rfl place dead
    have on := (step_run taken).2.1
    have own := (run_owns taken (.inr ⟨tid,place⟩)).imp_right fun mine => And.intro mine on
    exact ⟨locked.zombie drained t v own dead,fun live => live.2 dead⟩
  · rintro v _ unborn ⟨off,ended⟩
    refine ⟨stays taken v off (.inr fun runnable => ended (by simp [Occupied,runnable])),?_⟩
    intro live
    rcases drained.lives thread v live with ⟨still,_⟩ | born
    · exact ended still
    · exact unborn born
  · intro v empty reaper
    refine ⟨?_,fun live => live.1 empty⟩
    exact stays taken v (inv.off locked drained joins taken v reaper) (.inl (Reaper.section reaper v))

end Step

end Parked

/-- What a run keeps when zombies are seen and freed in an orderly way. -/
theorem parked_invariant {s₀ : KState} (init : Start s₀) (reached : Reaches FreesApart s₀ s) :
    (Ids s ∧ Drained s) ∧ Locked s ∧ Parked s := by
  induction reached with
  | refl => exact ⟨⟨.start init,.start init⟩,.start init,.start init⟩
  | @tail s s' a reached allowed taken held =>
    obtain ⟨⟨ids,drained⟩,locked,inv⟩ := held
    have thread := step_thread s s' a taken
    have orderly := inv.orderly allowed
    obtain ⟨⟨room,_,_⟩,joins,drains⟩ := allowed
    refine ⟨⟨ids.step room thread,drained.step ids orderly thread⟩,locked.step (step_lock s s' a taken),?_⟩
    exact ⟨inv.step_used locked drained joins taken,inv.step_pending drained taken,
      inv.step_drainFree locked drained drains taken,
      inv.step_joinFree locked drained ids room joins taken⟩

/-- A thread calls `exit` while its sibling goes back to the kernel and dies; `last` says
whether the sibling has left its CPU before the draining loop meets it. -/
def drainScript (last : List Action) : List Action :=
  call (1,0) .exit ++ [go (1,0)] ++ [go (1,1),go (1,1),go (1,1),go (1,1),go (1,1)] ++ last ++
    [go (1,0),go (1,0)]

end Kthreads
