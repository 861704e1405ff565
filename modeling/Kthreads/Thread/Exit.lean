import Kthreads.Thread.Drain

/-! Who drains, and who sleeps meanwhile. A thread starts to drain only in the marking
section, and falls asleep only in `sleep`, so two conditions on these sections keep one
drainer in a process and every thread it waits for awake. -/
namespace Kthreads
variable {s s' : KState} {a : Action}

def Draining (s : KState) (t : Slot) : Prop := (s.pc t).life.draining = true

instance (s : KState) (t : Slot) : Decidable (Draining s t) := inferInstanceAs (Decidable (_ = true))

theorem step_draining (taken : ThreadStep s a s') (u : Slot)
    (drains : Draining s' u) : Draining s u ∨ ∃ o k, a = .run u o ∧ s.cpu u = .on ∧
      s.pc u = k.marks ∧ s' = (markSiblings s u).goto u (.drain k 0 0) := by
  unfold Draining at drains
  rcases step_placed taken u with same | quiet | arrives
  · rw [same] at drains
    exact .inl drains
  · generalize (s'.pc u).life = life at drains quiet
    cases life <;> contradiction
  · generalize (s'.pc u).life = life at drains arrives
    cases arrives with
    | marks o k on place eq => exact .inr ⟨o,k,rfl,on,place,eq⟩
    | scan _ _ _ _ _ _ place | zombie _ _ _ _ place | freed _ _ _ _ place => exact .inl (by rw [Draining,place]; rfl)
    | birth o p nt pc births found => cases births <;> contradiction
    | stacked o nt pc gets => cases gets <;> contradiction
    | _ => contradiction

theorem step_asleep (taken : ThreadStep s a s') (u : Slot)
    (asleep : (s'.thread u).state = .tSleeping) : (s.thread u).state = .tSleeping ∨
      ∃ o chan site, a = .run u o ∧ s.cpu u = .on ∧ Falls s u chan site := by
  cases step_change taken u with
  | keeps inherits => exact .inl (inherits.asleep asleep)
  | emptied empty gone =>
    rw [empty.state] at asleep
    contradiction
  | sleeps o chan site on falls => exact .inr ⟨o,chan,site,rfl,on,falls⟩
  | marked t o k place own other => exact .inl (markSiblings_asleep s t u asleep).2
  | born t o p pc births found =>
    simp [allocthread] at asleep
  | stacked t o pc page rest s' gets head thread =>
    rw [thread] at asleep
    exact .inl asleep

/-- A thread is told to die only by the marking section of a sibling. -/
theorem step_dies (taken : ThreadStep s a s') (u : Slot)
    (dies : (s'.thread u).shouldDie = true) : (s.thread u).shouldDie = true ∨
      ∃ t o k, a = .run t o ∧ s.pc t = Drainer.marks k ∧ u.1 = t.1 ∧ u ≠ t := by
  cases step_change taken u with
  | keeps inherits => exact .inl (inherits.told dies)
  | emptied empty gone => exact .inl (empty.shouldDie dies)
  | sleeps o chan site on falls =>
    left
    simpa [sleepCommit] using dies
  | marked t o k place own other => exact .inr ⟨t,o,k,rfl,place,own,other⟩
  | born t o p pc births found =>
    simp [allocthread] at dies
  | stacked t o pc page rest s' gets head thread =>
    rw [thread] at dies
    exact .inl dies

theorem Drained.doomed (inv : Drained s) (t : Slot) (drains : Draining s t) : Doomed s t := by
  have fits := inv.fits t
  rw [Draining] at drains
  cases life : (s.pc t).life <;> rw [life] at fits drains <;> simp [Life.draining] at drains
  · exact fits.1
  · exact fits.1

/-- The functions that neither create a thread nor join one. -/
def closedFns : List Fn :=
  [.user,.trap,.mark,.kill,.kthreadExit,.exitThread,.exit,.exec,.wait,.sleep,.files,
    .kthreadMutexLock,.kthreadMutexUnlock,.kthreadMutexAlloc,.kthreadMutexDealloc]

theorem orderly_of_closed (allowed : within closedFns s a) : Orderly s a := by
  cases a with
  | run t o =>
    have absent (fn : Fn) (place : (s.pc t).fn = fn) (outside : fn ∉ closedFns) : False :=
      outside (place ▸ allowed)
    refine ⟨?_,?_,?_,?_⟩
    · intro nt member
      unfold birthTarget at member
      split at member
      next place => exact (absent .kthreadCreate (by rw [place]; rfl) (by decide)).elim
      next place => exact (absent .fork (by rw [place]; rfl) (by decide)).elim
      next => simp at member
    · intro place
      exact (absent .kthreadCreate (by rw [place]; rfl) (by decide)).elim
    · intro np member
      unfold forkTarget at member
      split at member
      next place => exact (absent .fork (by rw [place]; rfl) (by decide)).elim
      next => simp at member
    · intro u member
      unfold joinTarget at member
      split at member
      next place => exact (absent .kthreadJoin (by rw [place]; rfl) (by decide)).elim
      next => simp at member
  | _ => exact ⟨trivial,trivial,trivial,trivial⟩

abbrev MarksAlive (s : KState) : Action → Prop := onRun fun t _ =>
  s.pc t = .exitMark ∨ s.pc t = .execMark → (s.thread t).shouldDie = false

def OneDrainer (s : KState) : Prop := ∀ t u, Draining s t → Draining s u → t.1 = u.1 → t = u

theorem OneDrainer.step (one : OneDrainer s) (inv : Drained s)
    (alive : MarksAlive s a) (taken : ThreadStep s a s') : OneDrainer s' := by
  have starts (t u : Slot) (o : Oracle) (k : Drainer) (drains : Draining s t) (same : a = .run u o)
      (on : s.cpu u = .on) (place : s.pc u = k.marks) (own : t.1 = u.1) : t = u := by
    by_contra other
    subst same
    have lives : (s.thread u).shouldDie = false := by
      apply alive
      cases k with
      | exit => exact .inl place
      | exec => exact .inr place
    have dies := inv.doomed t drains u own.symm (fun here => other here.symm) (inv.live u on)
    rw [lives] at dies
    contradiction
  intro t u first second own
  rcases step_draining taken t first with old | ⟨o,k,eq,on,place,_⟩
  · rcases step_draining taken u second with also | ⟨o',k',eq',on',place',_⟩
    · exact one t u old also own
    · exact starts t u o' k' old eq' on' place' own
  · rcases step_draining taken u second with old | ⟨o',_,eq',_⟩
    · exact (starts u t o k old eq on place own.symm).symm
    · rw [eq] at eq'
      cases eq'
      rfl

theorem drained_step (inv : Ids s ∧ Drained s) (orderly : Orderly s a)
    (taken : ThreadStep s a s') : Ids s' ∧ Drained s' :=
  ⟨inv.1.step orderly.1 taken,inv.2.step inv.1 orderly taken⟩

/-- At most one thread of a process drains, in every run in which a thread that was told to
die does not mark its siblings. -/
theorem single_drainer {s₀ s : KState} (start : Start s₀)
    (reached : Reaches (fun s a => within closedFns s a ∧ MarksAlive s a) s₀ s) (t u : Slot)
    (own : t.1 = u.1) (first : Draining s t) (second : Draining s u) : t = u := by
  have calm (v : Slot) : ¬ Draining s₀ v := by
    rcases start.slot v with ready | vacant
    · simp [Draining,ready.pc,Pc.life,Life.draining]
    · simp [Draining,vacant.pc,Pc.life,Life.draining]
  have inv : (Ids s ∧ Drained s) ∧ OneDrainer s := by
    refine reached.invariant (fun s => (Ids s ∧ Drained s) ∧ OneDrainer s) ?_ ?_
    · exact ⟨⟨.start start,.start start⟩,fun v _ drains => absurd drains (calm v)⟩
    · intro before action after held allowed taken
      have taken := step_thread _ _ _ taken
      exact ⟨drained_step held.1 (orderly_of_closed allowed.1) taken,
        held.2.step held.1.2 allowed.2 taken⟩
  exact inv.2 t u first second own

/-- One thread exits while its sibling is in user mode. -/
theorem single_drainer_exit : ∃ s,
    Reaches (fun s a => within closedFns s a ∧ MarksAlive s a) (session [(1,0),(1,1)] 0 0) s ∧
    (Draining s (1,0) ∧ Occupied s (1,1)) ∧ ∀ u : Slot, u.1 = 1 → Draining s u → u = (1,0) := by
  obtain ⟨s,reached,shown⟩ := Interleave.play_shows step (fun s a => within closedFns s a ∧ MarksAlive s a)
    (session [(1,0),(1,1)] 0 0) (call (1,0) .exit ++ [go (1,0),go (1,1),go (1,0)])
    (fun s => Draining s (1,0) ∧ Occupied s (1,1)) (by decide +kernel)
  refine ⟨s,reached,shown,fun u own drains => ?_⟩
  exact single_drainer (session_start _ _ _ (by decide) (by decide)) reached u (1,0) own drains shown.1

/-- Two pairs of entry points. After a `kill` by `(2,0)` both threads of process 1 react to
`killed` by calling `exit`; and `(1,1)` is past the test of `exec` when `(1,0)` exits. -/
theorem two_drainers :
    (Start (session [(1,0),(1,1),(2,0)] 0 0) ∧ ∃ s,
      Reaches (within closedFns) (session [(1,0),(1,1),(2,0)] 0 0) s ∧
      Draining s (1,0) ∧ Draining s (1,1)) ∧
    (Start (session [(1,0),(1,1)] 0 0) ∧ ∃ s,
      Reaches (within closedFns) (session [(1,0),(1,1)] 0 0) s ∧
      Draining s (1,0) ∧ Draining s (1,1)) := by
  refine ⟨⟨session_start _ _ _ (by decide) (by decide),?_⟩,
    session_start _ _ _ (by decide) (by decide),?_⟩
  · exact Interleave.play_shows _ _ _
      (call (2,0) (.kill 2) ++ [go (2,0),go (1,0),go (1,0),go (1,1),go (1,1),go (1,0),go (1,1)]) _ (by decide +kernel)
  · exact Interleave.play_shows _ _ _
      (call (1,1) .exec ++ [go (1,1)] ++ call (1,0) .exit ++ [go (1,0),go (1,1)]) _ (by decide +kernel)

/-- Whether the next section of `t` puts it to sleep. `kthread_join` tests `shouldDie` itself. -/
def fallsAsleep (s : KState) (t : Slot) : Bool :=
  match s.pc t with
  | .sleepHold _ _ => true
  | .waitLoop => decide (zombieChild s t.1 = none ∧ (∃ c, (s.proc c).parent = some t.1) ∧
      (s.proc t.1).killed = false)
  | _ => false

abbrev RestsAlive (s : KState) : Action → Prop := onRun fun t _ =>
  fallsAsleep s t = true → (s.thread t).shouldDie = false

def Awake (s : KState) : Prop :=
  ∀ t u, Draining s t → u.1 = t.1 → u ≠ t → (s.thread u).state ≠ .tSleeping

theorem Awake.step (awake : Awake s) (inv : Drained s)
    (alive : RestsAlive s a) (taken : ThreadStep s a s') : Awake s' := by
  intro t u drains own other asleep
  rcases step_draining taken t drains with old | ⟨o,k,_,_,_,marked⟩
  · rcases step_asleep taken u asleep with before | ⟨o,chan,site,eq,on,falls⟩
    · exact awake t u old own other before
    · subst eq
      have lives : (s.thread u).shouldDie = false := by
        cases falls with
        | hold chan site place => exact alive (by simp [fallsAsleep,place])
        | join tid v place lives => exact lives
        | wait place none waits =>
          apply alive
          simp only [fallsAsleep,place,decide_eq_true_eq]
          exact ⟨none,waits⟩
      have dies := inv.doomed t old u own other (inv.live u on)
      rw [lives] at dies
      contradiction
  · subst marked
    exact (markSiblings_asleep s t u asleep).1 own

/-- No thread escapes the drain: while `t` drains, every other live thread of its process
is told to die and is not asleep. -/
theorem no_escape {s₀ s : KState} (start : Start s₀)
    (reached : Reaches (fun s a => Orderly s a ∧ RestsAlive s a) s₀ s) (t u : Slot)
    (drains : Draining s t) (own : u.1 = t.1) (other : u ≠ t) (live : Occupied s u) :
    (s.thread u).shouldDie = true ∧ (s.thread u).state ≠ .tSleeping := by
  have inv : (Ids s ∧ Drained s) ∧ Awake s := by
    refine reached.invariant (fun s => (Ids s ∧ Drained s) ∧ Awake s) ?_ ?_
    · refine ⟨⟨.start start,.start start⟩,?_⟩
      intro v w _ _ _ asleep
      rcases start.slot w with ready | vacant
      · rcases ready.cpu with ⟨state,_⟩ | ⟨state,_⟩ <;> simp [state] at asleep
      · simp [vacant.state] at asleep
    · intro before action after held allowed taken
      have taken := step_thread _ _ _ taken
      exact ⟨drained_step held.1 allowed.1 taken,held.2.step held.1.2 allowed.2 taken⟩
  exact ⟨inv.1.2.doomed t drains u own other live,inv.2 t u drains own other⟩

/-- A sleeper is woken and told to die when its sibling exits. -/
theorem no_escape_sleeper : ∃ s,
    Reaches (fun s a => Orderly s a ∧ RestsAlive s a) (session [(1,0),(1,1)] 0 0) s ∧
    (Draining s (1,0) ∧ Occupied s (1,1)) ∧
    ((s.thread (1,1)).shouldDie = true ∧ (s.thread (1,1)).state ≠ .tSleeping) := by
  obtain ⟨s,reached,shown⟩ := Interleave.play_shows step (fun s a => Orderly s a ∧ RestsAlive s a)
    (session [(1,0),(1,1)] 0 0)
    (call (1,1) .files ++ [.run (1,1) {op := .sleepOn 0},go (1,1),.swtch (1,1)] ++ call (1,0) .exit ++ [go (1,0)])
    (fun s => Draining s (1,0) ∧ Occupied s (1,1)) (by decide +kernel)
  exact ⟨s,reached,shown,no_escape (session_start _ _ _ (by decide) (by decide)) reached (1,0) (1,1)
    shown.1 rfl (by decide) shown.2⟩

/-- Two ways to escape. A `kthread_create` that was past the test of `trap` makes a thread
that nobody tells to die; and a thread that was in the kernel when marked goes to sleep. -/
theorem escaped_drain :
    (Start (session [(1,0),(1,1)] 0 0) ∧ ∃ s,
      Reaches (within [.user,.trap,.mark,.exit,.kthreadCreate]) (session [(1,0),(1,1)] 0 0) s ∧
      s.pc (1,0) = .drain .exit 0 0 ∧ Occupied s (1,2) ∧ (s.thread (1,2)).shouldDie = false) ∧
    (Start (session [(1,0),(1,1)] 0 0) ∧ ∃ s,
      Reaches (within [.user,.trap,.mark,.exit,.sleep,.files]) (session [(1,0),(1,1)] 0 0) s ∧
      s.pc (1,0) = .drain .exit 0 0 ∧ (s.thread (1,1)).state = .tSleeping) := by
  refine ⟨⟨session_start _ _ _ (by decide) (by decide),?_⟩,
    session_start _ _ _ (by decide) (by decide),?_⟩
  · exact Interleave.play_shows _ _ _
      (call (1,1) (.kthreadCreate 1 1) ++ call (1,0) .exit ++ [go (1,0),go (1,1)]) _ (by decide +kernel)
  · exact Interleave.play_shows _ _ _
      (call (1,1) .files ++ call (1,0) .exit ++ [go (1,0),.run (1,1) {op := .sleepOn 0},go (1,1)]) _ (by decide +kernel)

end Kthreads
