import Kthreads.Mutex.Exclusion

/-! Wake-ups on a mutex. `kthread_mutex_unlock` scans only the caller's own process,
without `ptable.lock`, and wakes at most one sleeper; a woken thread may die before it
tries again. A free mutex therefore keeps an heir only if every unlock leaves one and
no heir dies while others sleep. -/
open Function (update_self)

namespace Kthreads
variable {s s' : KState} {t : Slot}

def Role.waits : Role → Option MutexIx
  | .waiting i _ => some i
  | _ => .none

def Pc.contends : Pc → Option MutexIx
  | .lockTry i _ | .asleep (.mutex i _) | .reacquire (.mutex i _) => some i
  | _ => none

/-- The mutex a thread is about to sleep on: it has released `mutexLock` and has not
yet written its state. -/
def Pc.window : Pc → Option MutexIx
  | .sleepHold (.mutex i) _ => some i
  | _ => none

def Runs (s : KState) (u : Slot) : Prop :=
  (s.thread u).state = .tRunnable ∨ (s.thread u).state = .tRunning

def Contends (s : KState) (u : Slot) (i : MutexIx) : Prop := (s.pc u).contends = some i ∧ Runs s u

def Sleeps (s : KState) (u : Slot) (i : MutexIx) : Prop :=
  (s.thread u).state = .tSleeping ∧ (s.thread u).chan = some (.mutex i)

def Blocked (s : KState) (u : Slot) (i : MutexIx) : Prop := Sleeps s u i ∨ (s.pc u).window = some i

def Stranded (s : KState) (i : MutexIx) : Prop :=
  (s.mutex i).mutexLock = none ∧ s.ptableLock = none ∧ (s.mutex i).lock = 0 ∧
    (∃ u, Sleeps s u i) ∧ ¬ ∃ u, (s.pc u).role.waits = some i ∧ Runs s u

def unlockTarget (s : KState) (t : Slot) (word : Int) : Option MutexIx :=
  match s.pc t with
  | .unlockHold i _ => if (s.mutex i).state = .closed ∧ holdingTid s i word = (s.thread t).tid
      then some i else none
  | _ => none

/-- The mutex whose wait loop a thread leaves by dying when it is resumed in `sleep`. -/
def dyingWaiter (s : KState) (t : Slot) : Option MutexIx :=
  if (s.thread t).shouldDie then
    match s.pc t with
    | .asleep (.mutex i _) => some i
    | _ => none
  else none

theorem dyingWaiter_asleep (s : KState) (t : Slot) (site : Site) (place : s.pc t = .asleep site)
    (dies : (s.thread t).shouldDie = true) : dyingWaiter s t = (Pc.asleep site).contends := by
  cases site <;> simp [dyingWaiter,dies,place,Pc.contends]

theorem resume_contends (site : Site) : site.resume.contends = (Pc.asleep site).contends := by
  cases site <;> rfl

theorem resume_window (site : Site) : site.resume.window = none := by cases site <;> rfl

/-- A successful unlock finds a sleeper of the caller's own process, or another thread
about to try, or nobody to wake; and a waiter that dies while the mutex is free
leaves another thread about to try, or nobody to wake. -/
def HeirLeft (s : KState) : Action → Prop
  | .run t o => ∀ i ∈ unlockTarget s t o.word,
      (∃ j, Sleeps s (t.1,j) i) ∨ (∃ u, Contends s u i) ∨ ∀ u, ¬ Blocked s u i
  | .scheduler t => ∀ i ∈ dyingWaiter s t, (s.mutex i).lock = 0 →
      (∃ u, u ≠ t ∧ Contends s u i) ∨ ∀ u, ¬ Blocked s u i
  | _ => True

instance (s : KState) (u : Slot) : Decidable (Runs s u) := inferInstanceAs (Decidable (_ ∨ _))

instance (s : KState) (u : Slot) (i : MutexIx) : Decidable (Contends s u i) :=
  inferInstanceAs (Decidable (_ ∧ _))

instance (s : KState) (u : Slot) (i : MutexIx) : Decidable (Sleeps s u i) :=
  inferInstanceAs (Decidable (_ ∧ _))

instance (s : KState) (u : Slot) (i : MutexIx) : Decidable (Blocked s u i) :=
  inferInstanceAs (Decidable (_ ∨ _))

instance (s : KState) (i : MutexIx) : Decidable (Stranded s i) := inferInstanceAs (Decidable (_ ∧ _))

instance (s : KState) (a : Action) : Decidable (HeirLeft s a) :=
  match a with
  | .run t o => inferInstanceAs (Decidable (∀ i ∈ unlockTarget s t o.word, _))
  | .scheduler t => inferInstanceAs (Decidable (∀ i ∈ dyingWaiter s t, _))
  | .yield _ | .swtch _ | .wakeup _ | .ideintr | .takePage | .givePage _ =>
    inferInstanceAs (Decidable True)

structure WaitInv (s : KState) : Prop where
  place : ∀ u i, Sleeps s u i → (s.pc u).contends = some i
  window : ∀ u i site, s.pc u = .sleepHold (.mutex i) site → (Pc.asleep site).contends = some i
  off : ∀ u, (s.thread u).state = .tSleeping → s.cpu u ≠ .on
  heir : ∀ i, (s.mutex i).lock = 0 → ∀ u, Blocked s u i → ∃ v, Contends s v i

/-- Threads other than `t` are at most woken. -/
structure Others (s s' : KState) (t : Slot) : Prop where
  pc : ∀ u, u ≠ t → s'.pc u = s.pc u
  cpu : ∀ u, u ≠ t → s'.cpu u = s.cpu u
  chan : ∀ u, u ≠ t → (s'.thread u).chan = (s.thread u).chan
  state : ∀ u, u ≠ t → (s'.thread u).state = (s.thread u).state ∨
    (s.thread u).state = .tSleeping ∧ (s'.thread u).state = .tRunnable

namespace Others

variable {s s' : KState} {t : Slot} (others : Others s s' t)
include others

section
variable (u : Slot) (other : u ≠ t)
include u other

theorem sleeping (asleep : (s'.thread u).state = .tSleeping) : (s.thread u).state = .tSleeping := by
  rcases others.state u other with same | ⟨old,_⟩
  · exact same.symm.trans asleep
  · exact old

theorem sleeps (i : MutexIx) (old : Sleeps s' u i) : Sleeps s u i :=
  ⟨others.sleeping u other old.1,(others.chan u other).symm.trans old.2⟩

theorem blocked (i : MutexIx) (old : Blocked s' u i) : Blocked s u i := by
  rcases old with asleep | window
  · exact .inl (others.sleeps u other i asleep)
  · exact .inr (by rwa [others.pc u other] at window)

theorem runs (old : Runs s u) : Runs s' u := by
  unfold Runs at old ⊢
  rcases others.state u other with same | ⟨asleep,_⟩
  · rwa [same]
  · rw [asleep] at old
    simp at old

theorem contends (i : MutexIx) (old : Contends s u i) : Contends s' u i :=
  ⟨by rw [others.pc u other]; exact old.1,others.runs u other old.2⟩

end

end Others

theorem Others.frame {m : KState} (t : Slot) (pc : Pc) (same : ThreadFrame s m)
    (pcs : m.pc = s.pc) : Others s (m.goto t pc) t where
  pc u other := by simp [pcs,other]
  cpu u _ := by simp [same.cpu]
  chan u _ := by
    change (m.thread u).chan = _
    rcases same.thread u with eq | ⟨_,eq⟩ <;> rw [eq]
  state u _ := by
    change (m.thread u).state = _ ∨ _ ∧ (m.thread u).state = _
    rcases same.thread u with eq | ⟨asleep,eq⟩
    · exact .inl (by rw [eq])
    · exact .inr ⟨asleep,by rw [eq]⟩

namespace WaitInv

section
variable (inv : WaitInv s) (others : Others s s' t)
include inv others

theorem keep (place : ∀ i, Sleeps s' t i → (s'.pc t).contends = some i)
    (window : ∀ i site, s'.pc t = .sleepHold (.mutex i) site → (Pc.asleep site).contends = some i)
    (off : (s'.thread t).state = .tSleeping → s'.cpu t ≠ .on)
    (heir : ∀ i, (s'.mutex i).lock = 0 → ∀ u, Blocked s' u i → ∃ v, Contends s' v i) :
    WaitInv s' where
  place u i asleep := by
    by_cases here : u = t
    · subst u
      exact place i asleep
    · rw [others.pc u here]
      exact inv.place u i (others.sleeps u here i asleep)
  window u i site hold := by
    by_cases here : u = t
    · subst u
      exact window i site hold
    · rw [others.pc u here] at hold
      exact inv.window u i site hold
  off u asleep := by
    by_cases here : u = t
    · subst u
      exact off asleep
    · rw [others.cpu u here]
      exact inv.off u (others.sleeping u here asleep)
  heir := heir

/-- The heir survives when no mutex becomes free and `t` neither blocks nor gives up. -/
theorem same_heir (i : MutexIx) (lock : (s.mutex i).lock = 0) (blocks : Blocked s' t i → Blocked s t i)
    (stays : Contends s t i → Contends s' t i) (u : Slot) (blocked : Blocked s' u i) :
    ∃ v, Contends s' v i := by
  have old : Blocked s u i := by
    by_cases here : u = t
    · subst u
      exact blocks blocked
    · exact others.blocked u here i blocked
  obtain ⟨v,runs⟩ := inv.heir i lock u old
  by_cases here : v = t
  · subst v
    exact ⟨t,stays runs⟩
  · exact ⟨v,others.contends v here i runs⟩

/-- A running thread outside the wait loops stays outside, or comes in. -/
theorem outside (lock : ∀ i, (s'.mutex i).lock = 0 → (s.mutex i).lock = 0)
    (place : (s.pc t).contends = none) (awake : (s'.thread t).state ≠ .tSleeping)
    (window : (s'.pc t).window = none) : WaitInv s' := by
  refine inv.keep others ?_ ?_ ?_ ?_
  · intro i asleep
    exact absurd asleep.1 awake
  · intro i site hold
    simp [hold,Pc.window] at window
  · intro asleep
    exact absurd asleep awake
  · intro i free
    refine inv.same_heir others i (lock i free) ?_ ?_
    · rintro (asleep | hold)
      · exact absurd asleep.1 awake
      · rw [window] at hold
        contradiction
    · intro runs
      have bad := runs.1
      rw [place] at bad
      contradiction

end

section Moves
variable {s m : KState} {t : Slot} (inv : WaitInv s) (on : s.cpu t = .on)
include inv on

theorem awake : (s.thread t).state ≠ .tSleeping := fun asleep => inv.off t asleep on

theorem own_thread (same : ThreadFrame s m) : m.thread t = s.thread t := by
  rcases same.thread t with eq | ⟨asleep,_⟩
  · exact eq
  · exact absurd asleep (inv.awake on)

theorem goto (pc : Pc) (same : ThreadFrame s m) (pcs : m.pc = s.pc)
    (lock : ∀ i, (m.mutex i).lock = 0 → (s.mutex i).lock = 0)
    (place : (s.pc t).contends = none) (window : pc.window = none) : WaitInv (m.goto t pc) := by
  refine inv.outside (.frame t pc same pcs) lock place ?_ ?_
  · change (m.thread t).state ≠ .tSleeping
    rw [inv.own_thread on same]
    exact inv.awake on
  · simpa using window

theorem marked (pc : Pc) (place : (s.pc t).contends = none) (window : pc.window = none) :
    WaitInv ((markSiblings s t).goto t pc) := by
  have thread (u : Slot) : ((markSiblings s t).thread u).chan = (s.thread u).chan ∧
      (((markSiblings s t).thread u).state = (s.thread u).state ∨
        (s.thread u).state = .tSleeping ∧ ((markSiblings s t).thread u).state = .tRunnable) := by
    unfold markSiblings
    by_cases own : u.1 = t.1
    · by_cases asleep : (s.thread u).state = .tSleeping
      · simp [own,asleep]
      · simp [own,asleep]
    · simp [own]
  refine inv.outside (t := t) ⟨?_,?_,?_,?_⟩ (fun _ old => old) place ?_ ?_
  · intro u other
    simp [markSiblings,other]
  · exact fun _ _ => rfl
  · exact fun u _ => (thread u).1
  · exact fun u _ => (thread u).2
  · change ((markSiblings s t).thread t).state ≠ .tSleeping
    rcases (thread t).2 with same | ⟨asleep,_⟩
    · rw [same]
      exact inv.awake on
    · exact absurd asleep (inv.awake on)
  · simpa using window

theorem lockTry (i : MutexIx) (id : Int) (place : s.pc t = .lockTry i id) :
    WaitInv (lockTry s t i id) := by
  -- whatever the outcome, the mutex is taken afterwards, so only the others matter
  have heirs {s' : KState} (others : Others s s' t) (mine : (s'.mutex i).lock = 1)
      (rest : ∀ j, j ≠ i → s'.mutex j = s.mutex j)
      (blocks : ∀ j, j ≠ i → ¬ Blocked s' t j) :
      ∀ j, (s'.mutex j).lock = 0 → ∀ u, Blocked s' u j → ∃ v, Contends s' v j := by
    intro j free
    have other : j ≠ i := by
      rintro rfl
      rw [mine] at free
      contradiction
    refine inv.same_heir others j (by rw [← rest j other]; exact free) ?_ ?_
    · exact fun bad => absurd bad (blocks j other)
    · intro runs
      have same := runs.1
      simp only [place,Pc.contends,Option.some.injEq] at same
      exact absurd same.symm other
  unfold Kthreads.lockTry
  split
  next taken =>
    have others : Others s (sleepEnter (s.setMutex i {s.mutex i with lock := 1, mutexLock := none})
        t (.mutex i) (.mutex i id)) t := by
      refine .frame t _ ?_ rfl
      exact .still rfl
    refine inv.keep others ?_ ?_ ?_ (heirs others ?_ ?_ ?_)
    · intro j asleep
      exact absurd asleep.1 (inv.awake on)
    · intro j site hold
      simp only [sleepEnter,KState.goto,update_self,Pc.sleepHold.injEq,Chan.mutex.injEq] at hold
      obtain ⟨rfl,rfl⟩ := hold
      rfl
    · intro asleep
      exact absurd asleep (inv.awake on)
    · simp [sleepEnter]
    · intro j other
      simp [sleepEnter,other]
    · rintro j other (asleep | hold)
      · exact absurd asleep.1 (inv.awake on)
      · simp only [sleepEnter,KState.goto,update_self,Pc.window,Option.some.injEq] at hold
        exact other hold.symm
  next free =>
    let v : Mutex := {s.mutex i with lock := 1, state := .closed, holding := some t, mutexLock := none}
    have others : Others s (((s.setMutex i v).emit (.lockRet t id 0)).sysret t) t := by
      refine .frame t _ (.emit ?_ _ rfl) rfl
      exact .still rfl
    refine inv.keep others ?_ ?_ ?_ (heirs others ?_ ?_ ?_)
    · intro j asleep
      exact absurd asleep.1 (inv.awake on)
    · intro j site hold
      simp at hold
    · intro asleep
      exact absurd asleep (inv.awake on)
    · simp
    · intro j other
      simp [other]
    · rintro j other (asleep | hold)
      · exact absurd asleep.1 (inv.awake on)
      · simp [Pc.window] at hold

theorem lockAgain (i : MutexIx) (id : Int) (place : s.pc t = .reacquire (.mutex i id)) :
    WaitInv (lockAgain s t i id) := by
  have others : Others s (Kthreads.lockAgain s t i id) t := by
    refine .frame t _ ?_ rfl
    exact .still rfl
  refine inv.keep others ?_ ?_ ?_ ?_
  · intro j asleep
    exact absurd asleep.1 (inv.awake on)
  · intro j site hold
    simp [Kthreads.lockAgain] at hold
  · intro asleep
    exact absurd asleep (inv.awake on)
  · intro j free
    refine inv.same_heir others j ?_ ?_ ?_
    · by_cases here : j = i
      · subst j
        simpa [Kthreads.lockAgain] using free
      · simpa [Kthreads.lockAgain,here] using free
    · rintro (asleep | hold)
      · exact absurd asleep.1 (inv.awake on)
      · simp [Kthreads.lockAgain,Pc.window] at hold
    · rintro ⟨loop,runs⟩
      rw [place] at loop
      exact ⟨by simpa [Kthreads.lockAgain,Pc.contends] using loop,runs⟩

/-- The first sleeper of the caller's own process is woken and will try again. -/
theorem woken (i : MutexIx) (asleep : ∃ j, Sleeps s (t.1,j) i) (thread : m.thread = s.thread) :
    ∃ j, (t.1,j) ≠ t ∧ (s.pc (t.1,j)).contends = some i ∧ Runs (wakeSleeper m t.1 i) (t.1,j) := by
  obtain ⟨j,old⟩ := asleep
  have some : (mutexSleeper m t.1 i).isSome = true := by
    rw [mutexSleeper,List.find?_isSome]
    refine ⟨j,List.mem_finRange j,?_⟩
    simp [wakes,thread,old.1,old.2]
  obtain ⟨k,found⟩ := Option.isSome_iff_exists.mp some
  have chosen := List.find?_some found
  simp only [wakes,thread,Bool.and_eq_true,beq_iff_eq,Option.any_eq_true] at chosen
  obtain ⟨state,chan,same,equal⟩ := chosen
  refine ⟨k,?_,inv.place (t.1,k) i ⟨state,by rw [same,equal]⟩,?_⟩
  · intro here
    rw [here] at state
    exact inv.awake on state
  · simp [Runs,wakeSleeper,found]

theorem unlocked (i : MutexIx) (id : Int) (place : s.pc t = .unlockHold i id)
    (heir : (∃ j, Sleeps s (t.1,j) i) ∨ (∃ u, Contends s u i) ∨ ∀ u, ¬ Blocked s u i) :
    WaitInv (((wakeSleeper ({s with mtableLock := none}.setMutex i {s.mutex i with
      lock := 0, state := .opened, holding := none}) t.1 i).emit (.unlockRet t id 0)).sysret t) := by
  let m := {s with mtableLock := none}.setMutex i {s.mutex i with
    lock := 0, state := .opened, holding := none}
  have same : ThreadFrame s ((wakeSleeper m t.1 i).emit (.unlockRet t id 0)) := by
    refine .emit (.trans ?_ (.wakeSleeper m t.1 i)) _ rfl
    exact .still rfl
  have pcs : (wakeSleeper m t.1 i).pc = s.pc := by
    obtain ⟨thread,eq⟩ := wakeSleeper_rest m t.1 i
    rw [eq]
    rfl
  have others : Others s (((wakeSleeper m t.1 i).emit (.unlockRet t id 0)).sysret t) t :=
    .frame t _ same pcs
  have own := inv.own_thread on same
  have unblocked : ∀ j, ¬ Blocked (((wakeSleeper m t.1 i).emit (.unlockRet t id 0)).sysret t) t j := by
    rintro j (asleep | hold)
    · refine inv.awake on ?_
      rw [← own]
      exact asleep.1
    · simp [Pc.window] at hold
  refine inv.keep others ?_ ?_ ?_ ?_
  · intro j asleep
    exact absurd (.inl asleep) (unblocked j)
  · intro j site hold
    simp at hold
  · intro asleep
    refine absurd ?_ (inv.awake on)
    rw [← own]
    exact asleep
  · intro j free u blocked
    by_cases here : j = i
    · subst j
      have elsewhere : u ≠ t := by
        rintro rfl
        exact unblocked i blocked
      rcases heir with asleep | ⟨v,runs⟩ | nobody
      · obtain ⟨k,other,loop,runs⟩ := inv.woken on i asleep (m := m) rfl
        exact ⟨(t.1,k),by rw [others.pc _ other]; exact loop,runs⟩
      · have other : v ≠ t := by
          rintro rfl
          have loop := runs.1
          simp [place,Pc.contends] at loop
        exact ⟨v,others.contends v other i runs⟩
      · exact absurd (others.blocked u elsewhere i blocked) (nobody u)
    · refine inv.same_heir others j ?_ (fun bad => absurd bad (unblocked j)) ?_ u blocked
      · obtain ⟨thread,eq⟩ := wakeSleeper_rest m t.1 i
        rw [eq] at free
        simpa [m,here] using free
      · rintro ⟨loop,_⟩
        simp [place,Pc.contends] at loop

end Moves

section
variable (inv : WaitInv s)
include inv

theorem sleepCommit (chan : Chan) (site : Site) (place : s.pc t = .sleepHold chan site) :
    WaitInv (sleepCommit s t chan site) := by
  have others : Others s (Kthreads.sleepCommit s t chan site) t := by
    refine ⟨?_,?_,?_,?_⟩
    all_goals
      intro u other
      simp [Kthreads.sleepCommit,other]
  have sleeps : ∀ i, Sleeps (Kthreads.sleepCommit s t chan site) t i → chan = .mutex i := by
    intro i asleep
    simpa [Sleeps,Kthreads.sleepCommit] using asleep
  refine inv.keep others ?_ ?_ ?_ ?_
  · intro i asleep
    have same := inv.window t i site (by rw [place,sleeps i asleep])
    simpa [Kthreads.sleepCommit] using same
  · intro i site' hold
    simp [Kthreads.sleepCommit] at hold
  · simp [Kthreads.sleepCommit]
  · intro i free
    refine inv.same_heir others i free ?_ ?_
    · rintro (asleep | hold)
      · exact .inr (by rw [place,sleeps i asleep]; rfl)
      · simp [Kthreads.sleepCommit,Pc.window] at hold
    · rintro ⟨loop,_⟩
      simp [place,Pc.contends] at loop

theorem exitThread (place : s.pc t = .exitThread) : WaitInv (exitThread s t) := by
  have woken := Others.frame t .dead (ThreadFrame.wakeAll s (· == .thread t)) rfl
  refine inv.outside (t := t) ⟨?_,?_,?_,?_⟩ (fun _ old => old) (by rw [place]; rfl) ?_ ?_
  · exact woken.pc
  · intro u other
    simp [Kthreads.exitThread,wakeup1,wakeAll,other]
  · intro u other
    have chan := woken.chan u other
    simpa [Kthreads.exitThread,wakeup1,other] using chan
  · intro u other
    have state := woken.state u other
    simpa [Kthreads.exitThread,wakeup1,other] using state
  · simp [Kthreads.exitThread]
  · simp [Kthreads.exitThread,Pc.window]

theorem frame (same : ThreadFrame s s') (pcs : s'.pc = s.pc) (mutex : s'.mutex = s.mutex) : WaitInv s' := by
  have sleeping : ∀ u, (s'.thread u).state = .tSleeping → s'.thread u = s.thread u := by
    intro u asleep
    rcases same.thread u with eq | ⟨_,eq⟩
    · exact eq
    · simp [eq] at asleep
  have blocked : ∀ u i, Blocked s' u i → Blocked s u i := by
    rintro u i (asleep | window)
    · exact .inl (by rw [Sleeps,← sleeping u asleep.1]; exact asleep)
    · exact .inr (by rwa [pcs] at window)
  have runs : ∀ u, Runs s u → Runs s' u := by
    intro u old
    unfold Runs at old ⊢
    rcases same.thread u with eq | ⟨asleep,_⟩
    · rwa [eq]
    · simp [asleep] at old
  constructor
  · intro u i asleep
    rw [pcs]
    exact inv.place u i (by rw [Sleeps,← sleeping u asleep.1]; exact asleep)
  · rw [pcs]
    exact inv.window
  · intro u asleep
    rw [same.cpu]
    exact inv.off u (by rw [← sleeping u asleep]; exact asleep)
  · intro i free u block
    rw [mutex] at free
    obtain ⟨v,loop,active⟩ := inv.heir i free u (blocked u i block)
    exact ⟨v,by rwa [pcs],runs v active⟩

theorem turned (others : Others s s' t) (mutex : s'.mutex = s.mutex) (runs : Runs s' t)
    (loop : ∀ i, (s.pc t).contends = some i → (s'.pc t).contends = some i)
    (window : ∀ i site, s'.pc t = .sleepHold (.mutex i) site → s.pc t = .sleepHold (.mutex i) site) :
    WaitInv s' := by
  have awake : (s'.thread t).state ≠ .tSleeping := by
    rcases runs with state | state <;> simp [state]
  refine inv.keep others ?_ ?_ ?_ ?_
  · intro i asleep
    exact absurd asleep.1 awake
  · intro i site hold
    exact inv.window t i site (window i site hold)
  · intro asleep
    exact absurd asleep awake
  · intro i free
    rw [mutex] at free
    refine inv.same_heir others i free ?_ ?_
    · rintro (asleep | hold)
      · exact absurd asleep.1 awake
      · right
        cases place : s'.pc t <;> simp only [place,Pc.window,reduceCtorEq] at hold
        case sleepHold chan site =>
          cases chan <;> simp only [reduceCtorEq,Option.some.injEq] at hold
          rw [window _ site place,← hold]
          rfl
    · rintro ⟨old,_⟩
      exact ⟨loop i old,runs⟩

theorem leaves (others : Others s s' t) (mutex : s'.mutex = s.mutex) (awake : (s'.thread t).state ≠ .tSleeping)
    (window : (s'.pc t).window = none)
    (heir : ∀ i, (s.pc t).contends = some i → (s.mutex i).lock = 0 →
      (∃ u, u ≠ t ∧ Contends s u i) ∨ ∀ u, ¬ Blocked s u i) : WaitInv s' := by
  have unblocked : ∀ i, ¬ Blocked s' t i := by
    rintro i (asleep | hold)
    · exact awake asleep.1
    · rw [window] at hold
      contradiction
  refine inv.keep others ?_ ?_ ?_ ?_
  · intro i asleep
    exact absurd asleep.1 awake
  · intro i site hold
    simp [hold,Pc.window] at window
  · intro asleep
    exact absurd asleep awake
  · intro i free u blocked
    rw [mutex] at free
    have elsewhere : u ≠ t := by
      rintro rfl
      exact unblocked i blocked
    by_cases mine : (s.pc t).contends = some i
    · rcases heir i mine free with ⟨v,other,runs⟩ | nobody
      · exact ⟨v,others.contends v other i runs⟩
      · exact absurd (others.blocked u elsewhere i blocked) (nobody u)
    · refine inv.same_heir others i free (fun bad => absurd bad (unblocked i)) ?_ u blocked
      exact fun runs => absurd runs.1 mine

theorem scheduler (heir : ∀ i ∈ dyingWaiter s t, (s.mutex i).lock = 0 →
      (∃ u, u ≠ t ∧ Contends s u i) ∨ ∀ u, ¬ Blocked s u i) : WaitInv (scheduler s t) := by
  have others : Others s (Kthreads.scheduler s t) t := by
    unfold Kthreads.scheduler sleepResume
    refine ⟨?_,?_,?_,?_⟩
    all_goals
      intro u other
      simp only
      split
      · split <;> simp [other]
      · simp [other]
  cases place : s.pc t with
  | asleep site =>
    by_cases dies : (s.thread t).shouldDie = true
    · have resumed : Kthreads.scheduler s t = KState.goto (((s.setProc t.1 {s.proc t.1 with
          state := .used}).setThread t {s.thread t with state := .tRunning}).setCpu t .on) t .kthreadExit := by
        simp [Kthreads.scheduler,place,sleepResume,dies]
      rw [resumed] at others ⊢
      refine inv.leaves others rfl ?_ ?_ ?_
      · simp
      · simp [Pc.window]
      · intro i loop
        refine heir i ?_
        rwa [dyingWaiter_asleep s t site place dies,← place]
    · have resumed : Kthreads.scheduler s t = KState.goto (KState.setThread
          {((s.setProc t.1 {s.proc t.1 with state := .used}).setThread t
            {s.thread t with state := .tRunning}).setCpu t .on with
            ptableLock := if site.underPtable then some t else none} t
          {s.thread t with state := .tRunning, chan := none}) t site.resume := by
        simp [Kthreads.scheduler,place,sleepResume,dies]
      rw [resumed] at others ⊢
      refine inv.turned others rfl ?_ ?_ ?_
      · simp [Runs]
      · intro i loop
        rw [place] at loop
        simpa only [KState.goto,update_self,resume_contends] using loop
      · intro i site' hold
        simp only [KState.goto,update_self] at hold
        have none := resume_window site
        simp [hold,Pc.window] at none
  | _ =>
    have resumed : Kthreads.scheduler s t = ((s.setProc t.1 {s.proc t.1 with state := .used}).setThread t
        {s.thread t with state := .tRunning}).setCpu t .on := by
      simp [Kthreads.scheduler,place]
    rw [resumed] at others ⊢
    refine inv.turned others rfl ?_ (fun _ old => old) (fun _ _ => id)
    simp [Runs]

/-- One section of a thread that locks, unlocks, traps or dies. -/
theorem code {o : Oracle} (on : s.cpu t = .on) (allowed : (s.pc t).fn ∈ lockFns) (heir : ∀ i ∈ unlockTarget s t o.word,
      (∃ j, Sleeps s (t.1,j) i) ∨ (∃ u, Contends s u i) ∨ ∀ u, ¬ Blocked s u i)
    (taken : code s t o = some s') : WaitInv s' := by
  have still (pc : Pc) (outside : (s.pc t).contends = none) (window : pc.window = none) :
      WaitInv (s.goto t pc) := inv.goto on pc (.refl s) rfl (fun _ old => old) outside window
  have returned (e : Event) (quiet : e.threadless = true) (outside : (s.pc t).contends = none) :
      WaitInv ((s.emit e).sysret t) :=
    inv.goto on .retKilled (.emit (.refl s) e quiet) rfl (fun _ old => old) outside rfl
  cases place : s.pc t
  all_goals simp only [Kthreads.code,place,guarded_eq_some,Option.some.injEq,reduceCtorEq] at taken
  all_goals simp only [place,Pc.contends,true_implies] at still returned
  all_goals simp only [place,Pc.fn] at allowed
  case dead =>
    subst taken
    exact inv.frame (.still rfl) rfl rfl
  all_goals try obtain ⟨guard,rfl⟩ := taken
  case user =>
    unfold trap
    split
    · exact still _ rfl
    · exact still _ rfl
    · exact inv.goto on .retKilled (.setProc s t.1 {s.proc t.1 with killed := true} rfl) rfl
        (fun _ old => old) (by rw [place]; rfl) rfl
  case trapKilled | trapShouldDie | retKilled | retShouldDie =>
    refine still _ ?_
    split <;> rfl
  case syscall =>
    refine still _ ?_
    cases o.call <;> simp only [Syscall.entry] <;> (try split) <;> rfl
  case kthreadExit =>
    unfold kthreadExit
    split
    · exact still _ rfl
    · exact still _ rfl
  case exitThread => exact inv.exitThread place
  case exitMark =>
    unfold exitMark
    split
    · exact inv.frame (.still rfl) rfl rfl
    · exact inv.marked on _ (by rw [place]; rfl) rfl
  case execMark => exact inv.marked on _ (by rw [place]; rfl) rfl
  case kill pid =>
    unfold kill
    split
    · exact still _ rfl
    next p found =>
      refine inv.goto on .retKilled (.trans (.setProc s p {s.proc p with killed := true} rfl)
        (.rouse _ p)) rfl (fun _ old => old) (by rw [place]; rfl) rfl
  case lockCall id =>
    unfold kthreadMutexLock
    split
    · exact returned _ rfl
    · split
      · exact returned _ rfl
      · refine inv.goto on _ ?_ rfl (fun _ old => old) (by rw [place]; rfl) rfl
        exact .still rfl
  case lockHold i id =>
    refine inv.goto on _ ?_ rfl ?_ (by rw [place]; rfl) rfl
    · exact .still rfl
    · intro j free
      by_cases here : j = i
      · subst j
        simpa using free
      · simpa [here] using free
  case lockTry i id => exact inv.lockTry on i id place
  case unlockCall id =>
    unfold kthreadMutexUnlock
    split
    · exact returned _ rfl
    · refine inv.goto on _ ?_ rfl (fun _ old => old) (by rw [place]; rfl) rfl
      exact .still rfl
  case unlockHold i id =>
    unfold unlockBody
    split
    · refine inv.goto on .retKilled (.emit ?_ _ rfl) rfl (fun _ old => old) (by rw [place]; rfl) rfl
      exact .still rfl
    next good =>
      rw [not_or,not_not,not_not] at good
      refine inv.unlocked on i id place (heir i ?_)
      simp [unlockTarget,place,good]
  case sleepHold chan site => exact inv.sleepCommit chan site place
  case reacquire site =>
    cases site with
    | mutex i id =>
      simp only [reacquire,guarded_eq_some] at taken
      obtain ⟨free,rfl⟩ := taken
      exact inv.lockAgain on i id place
    | join | wait => simp [reacquire] at taken
    | log | lock | disk | other =>
      simp only [reacquire,Option.some.injEq] at taken
      subst taken
      exact inv.goto on _ (.refl s) rfl (fun _ old => old) (by rw [place]; rfl) rfl
  case drain k _ _ | drainFree k _ _ => cases k <;> simp [Drainer.fn,lockFns] at allowed
  all_goals simp [lockFns] at allowed

theorem step {a : Action} (allowed : within lockFns s a)
    (heir : HeirLeft s a) (taken : step s a = some s') : WaitInv s' := by
  obtain ⟨_,taken⟩ := step_cases taken
  cases taken with
  | run t o s' on taken => exact inv.code on allowed heir taken
  | scheduler t => exact inv.scheduler heir
  | yield t =>
    refine inv.turned (t := t) ⟨?_,?_,?_,?_⟩ rfl ?_ (fun _ old => old) (fun _ _ => id)
    · exact fun _ _ => rfl
    · intro u other
      simp [yield,other]
    · intro u other
      simp [yield,other]
    · intro u other
      simp [yield,other]
    · simp [Runs,yield]
  | swtch t =>
    refine ⟨inv.place,inv.window,?_,inv.heir⟩
    intro u asleep
    by_cases here : u = t
    · simp [swtch,here]
    · simpa [swtch,here] using inv.off u asleep
  | wakeup n => exact inv.frame (.wakeAll s _) rfl rfl
  | spurious => exact inv
  | ideintr b rest => exact inv.frame (.trans (m := {s with idequeue := rest}) (.still rfl) (.wakeAll _ _)) rfl rfl
  | takePage | givePage => exact ⟨inv.place,inv.window,inv.off,inv.heir⟩

end

theorem start (start : Start s) : WaitInv s := by
  have awake : ∀ u, (s.thread u).state ≠ .tSleeping := by
    intro u
    rcases start.slot u with ready | vacant
    · rcases ready.cpu with ⟨state,_⟩ | ⟨state,_⟩ <;> simp [state]
    · simp [vacant.state]
  have window : ∀ u, (s.pc u).window = none := by
    intro u
    rcases start.slot u with ready | vacant
    · rw [ready.pc]
      rfl
    · rw [vacant.pc]
      rfl
  constructor
  · intro u i asleep
    exact absurd asleep.1 (awake u)
  · intro u i site hold
    have none := window u
    simp [hold,Pc.window] at none
  · intro u asleep
    exact absurd asleep (awake u)
  · rintro i _ u (asleep | hold)
    · exact absurd asleep.1 (awake u)
    · rw [window u] at hold
      contradiction

end WaitInv

/-- No lost wake-up, in every run in which each unlock and each death leaves an heir. -/
theorem no_lost_wakeup (s₀ s : KState) (i : MutexIx) (start : Start s₀)
    (reached : Reaches (fun s a => within lockFns s a ∧ HeirLeft s a) s₀ s) : ¬ Stranded s i := by
  have inv : WaitInv s := by
    refine reached.invariant WaitInv (WaitInv.start start) ?_
    intro before a after held allowed taken
    exact held.step allowed.1 allowed.2 taken
  rintro ⟨_,_,free,⟨u,asleep⟩,nobody⟩
  obtain ⟨v,loop,runs⟩ := inv.heir i free u (.inl asleep)
  refine nobody ⟨v,?_,runs⟩
  unfold Pc.contends at loop
  split at loop
  next place => rw [place]; exact loop
  next place => rw [place]; exact loop
  next place => rw [place]; exact loop
  next => contradiction

/-- Within one process the sleeper is found, and it will take the free mutex. -/
theorem no_lost_wakeup_sibling : ∃ s,
    Reaches (fun s a => within lockFns s a ∧ HeirLeft s a) (session [(1,0),(1,1)] 1 2) s ∧
    ((s.mutex 0).lock = 0 ∧ Contends s (1,1) 0) ∧ ¬ Stranded s 0 := by
  obtain ⟨s,reached,shown⟩ := Interleave.play_shows step (fun s a => within lockFns s a ∧ HeirLeft s a)
    (session [(1,0),(1,1)] 1 2)
    (call (1,0) (.kthreadMutexLock 1) ++ [go (1,0),go (1,0),go (1,0)] ++ back (1,0) ++
      call (1,1) (.kthreadMutexLock 1) ++ [go (1,1),go (1,1),go (1,1),go (1,1),.swtch (1,1)] ++
      call (1,0) (.kthreadMutexUnlock 1) ++ [go (1,0),go (1,0)])
    (fun s => (s.mutex 0).lock = 0 ∧ Contends s (1,1) 0) (by decide +kernel)
  exact ⟨s,reached,shown,
    no_lost_wakeup _ s 0 (session_start _ _ _ (by decide) (by decide)) reached⟩

/-- Two ways to lose a wake-up. `(2,0)`, of another process, sleeps on a mutex that
`(1,0)` gives back, and the scan does not look there. And `(1,1)`, of the same process,
has released `mutexLock` on its way to sleep when the scan passes it. -/
theorem lost_wakeup :
    (Start (session [(1,0),(2,0)] 1 2) ∧ ∃ s,
      Reaches (within lockFns) (session [(1,0),(2,0)] 1 2) s ∧ Stranded s 0) ∧
    (Start (session [(1,0),(1,1)] 1 2) ∧ ∃ s,
      Reaches (within lockFns) (session [(1,0),(1,1)] 1 2) s ∧ Stranded s 0) := by
  refine ⟨⟨session_start _ _ _ (by decide) (by decide),?_⟩,
    session_start _ _ _ (by decide) (by decide),?_⟩
  · exact Interleave.play_shows _ _ _
      (call (1,0) (.kthreadMutexLock 1) ++ [go (1,0),go (1,0),go (1,0)] ++ back (1,0) ++
        call (2,0) (.kthreadMutexLock 1) ++ [go (2,0),go (2,0),go (2,0),go (2,0),.swtch (2,0)] ++
        call (1,0) (.kthreadMutexUnlock 1) ++ [go (1,0),go (1,0)]) _ (by decide +kernel)
  · exact Interleave.play_shows _ _ _
      (call (1,0) (.kthreadMutexLock 1) ++ [go (1,0),go (1,0),go (1,0)] ++ back (1,0) ++
        call (1,1) (.kthreadMutexLock 1) ++ [go (1,1),go (1,1),go (1,1)] ++
        call (1,0) (.kthreadMutexUnlock 1) ++ [go (1,0),go (1,0),go (1,1),.swtch (1,1)]) _ (by decide +kernel)

end Kthreads
