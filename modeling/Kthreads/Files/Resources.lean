import Kthreads.Files.Transitions

/-! What a dying thread leaves behind. `sleep` ends a thread that was told to die wherever it
was called from, so a thread must not be told to die, and must not take anything once it has
been told, while it is between `begin_op` and `end_op` or owns a sleep lock. -/
namespace Kthreads

abbrev MarksIdle (s : KState) : Action → Prop := onRun fun t _ =>
  s.pc t = .exitMark ∨ s.pc t = .execMark → ∀ i, (t.1,i) ≠ t → (s.fs (t.1,i)).Clean

def takes (s : KState) (t : Slot) : Bool :=
  match s.pc t with
  | .beginOp _ => decide (¬ s.log.busy)
  | .acquireSleep l _ => !(s.sleepLock l).locked
  | _ => false

abbrev TakesAlive (s : KState) : Action → Prop := onRun fun t _ =>
  takes s t = true → (s.thread t).shouldDie = false

def opened (s : KState) : Nat := Scan.total (fun u => (s.fs u).inOp = true)

section Opened
variable {s s' : KState} (t : Slot) (c : FsCtx) (files : s'.fs = Function.update s.fs t c)
include files

theorem opened_same (same : c.inOp = (s.fs t).inOp) : opened s' = opened s := by
  apply Scan.total_congr
  intro u
  by_cases here : u = t
  · subst u
    simp [files,same]
  · simp [files,here]

theorem opened_more (before : (s.fs t).inOp = false) (now : c.inOp = true) :
    opened s' = opened s + 1 := by
  refine Scan.total_mark t (by simp [before]) (by simp [files,now]) ?_
  intro u here
  simp [files,here]

theorem opened_less (before : (s.fs t).inOp = true) (now : c.inOp = false) :
    opened s = opened s' + 1 := by
  refine Scan.total_mark t (by simp [files,now]) before ?_
  intro u here
  simp [files,here]

end Opened

structure Accounted (s : KState) : Prop where
  outside : ∀ u, (s.pc u).place = .outside → (s.fs u).Clean
  begins : ∀ u, (s.pc u).place = .begins → (s.fs u).inOp = false
  doomed : ∀ u, (s.thread u).shouldDie = true → (s.fs u).Clean
  log : s.log.outstanding = opened s
  owner : ∀ l, (s.sleepLock l).locked = true → ∃ u, l ∈ (s.fs u).owns

namespace Accounted

theorem start {s : KState} (init : Start s) : Accounted s := by
  have clean (u : Slot) : (s.fs u).Clean := ⟨(init.fs u).1,(init.fs u).2.2⟩
  refine ⟨fun u _ => clean u,fun u _ => (clean u).1,fun u _ => clean u,?_,?_⟩
  · have nobody : opened s = 0 := by simp [opened,Scan.total,fun u => (clean u).1]
    rw [nobody,init.log.1]
    rfl
  · intro l locked
    rw [init.unlocked] at locked
    contradiction

theorem frame {s s' : KState} (inv : Accounted s) (same : FilesFrame s s')
    (doomed : ∀ u, (s'.thread u).shouldDie = true → (s.fs u).Clean) : Accounted s' := by
  have clean (u : Slot) (before : (s.fs u).Clean) : (s'.fs u).Clean := by
    rw [FsCtx.Clean,(same.ctx u).1,(same.ctx u).2]
    exact before
  refine ⟨?_,?_,fun u dies => clean u (doomed u dies),?_,?_⟩
  · intro u out
    rcases same.leaves u out with before | before
    · exact clean u (inv.outside u before)
    · exact clean u before
  · intro u begins
    rw [(same.ctx u).1]
    rcases same.begins u begins with before | before
    · exact inv.begins u before
    · exact before
  · have count : opened s' = opened s := Scan.total_congr fun u => by rw [(same.ctx u).1]
    rw [same.outstanding,inv.log,count]
  · intro l locked
    rw [same.sleepLock] at locked
    obtain ⟨u,owns⟩ := inv.owner l locked
    exact ⟨u,by rw [(same.ctx u).2]; exact owns⟩

theorem one {s s' : KState} (inv : Accounted s) (t : Slot) (c : FsCtx)
    (files : s'.fs = Function.update s.fs t c) (inside : (s'.pc t).place = .inside)
    (places : ∀ u, u ≠ t → s'.pc u = s.pc u)
    (doomed : ∀ u, (s'.thread u).shouldDie = true → (s.fs u).Clean)
    (told : (s'.thread t).shouldDie = true → c.Clean)
    (log : s'.log.outstanding = opened s')
    (owner : ∀ l, (s'.sleepLock l).locked = true → ∃ u, l ∈ (s'.fs u).owns) : Accounted s' := by
  have own : s'.fs t = c := by simp [files]
  have others (u : Slot) (here : u ≠ t) : s'.fs u = s.fs u := by simp [files,here]
  refine ⟨?_,?_,?_,log,owner⟩
  · intro u out
    have here : u ≠ t := by
      rintro rfl
      rw [inside] at out
      contradiction
    rw [places u here] at out
    rw [others u here]
    exact inv.outside u out
  · intro u begins
    have here : u ≠ t := by
      rintro rfl
      rw [inside] at begins
      contradiction
    rw [places u here] at begins
    rw [others u here]
    exact inv.begins u begins
  · intro u dies
    by_cases here : u = t
    · subst u
      rw [own]
      exact told dies
    · rw [others u here]
      exact doomed u dies

theorem step {s s' : KState} {a : Action} (inv : Accounted s) (marks : MarksIdle s a)
    (alive : TakesAlive s a) (taken : FilesStep s a s') (threads : ThreadStep s a s') : Accounted s' := by
  have doomed (u : Slot) (dies : (s'.thread u).shouldDie = true) : (s.fs u).Clean := by
    rcases step_dies threads u dies with before | ⟨t,o,k,rfl,place,own,other⟩
    · exact inv.doomed u before
    · have same : (t.1,u.2) = u := by rw [← own]
      rw [← same]
      refine marks ?_ u.2 (by rw [same]; exact other)
      cases k with
      | exit => exact .inl place
      | exec => exact .inr place
  cases taken with
  | frame same => exact inv.frame same doomed
  | died t site place dies =>
    refine ⟨?_,?_,doomed,inv.log,inv.owner⟩
    · intro u out
      by_cases here : u = t
      · subst u
        exact inv.doomed t dies
      · apply inv.outside u
        simpa [here,dispatch] using out
    · intro u begins
      by_cases here : u = t
      · subst u
        exact (inv.doomed t dies).1
      · apply inv.begins u
        simpa [here,dispatch] using begins
  | began t o k place free =>
    have closed : (s.fs t).inOp = false := inv.begins t (by rw [place]; rfl)
    have lives : (s.thread t).shouldDie = false := alive (by simp [takes,place,free])
    refine inv.one t _ rfl (by simp [Pc.place]) ?_ doomed ?_ ?_ ?_
    · intro u other
      simp [other]
    · intro dies
      change (s.thread t).shouldDie = true at dies
      rw [lives] at dies
      contradiction
    · rw [opened_more t _ rfl closed rfl]
      change s.log.outstanding+1 = _
      rw [inv.log]
      rfl
    · intro l locked
      obtain ⟨u,owns⟩ := inv.owner l locked
      refine ⟨u,?_⟩
      by_cases here : u = t
      · subst u
        simpa using owns
      · simpa [here] using owns
  | ended t o k c s' place opened closed files pc outstanding sleepLock =>
    have own : s'.fs t = c := by simp [files]
    have others (u : Slot) (here : u ≠ t) : s'.fs u = s.fs u := by simp [files,here]
    refine inv.one t c files (by rw [pc,place]; rfl) (fun u _ => by rw [pc]) doomed ?_ ?_ ?_
    · intro dies
      rw [(doomed t dies).1] at opened
      contradiction
    · have count := opened_less t c files opened closed.1
      rw [outstanding,inv.log,count]
      omega
    · intro l locked
      rw [sleepLock] at locked
      obtain ⟨u,owns⟩ := inv.owner l locked
      refine ⟨u,?_⟩
      by_cases here : u = t
      · subst u
        rw [own,closed.2]
        exact owns
      · rw [others u here]
        exact owns
  | acquired t o l k place free =>
    have lives : (s.thread t).shouldDie = false := alive (by simp [takes,place,free])
    refine inv.one t _ rfl (by simp [Pc.place]) ?_ doomed ?_ ?_ ?_
    · intro u other
      simp [other]
    · intro dies
      change (s.thread t).shouldDie = true at dies
      rw [lives] at dies
      contradiction
    · rw [opened_same t {s.fs t with owns := l :: (s.fs t).owns} rfl rfl]
      exact inv.log
    · intro l' locked
      by_cases same : l' = l
      · subst l'
        exact ⟨t,by simp⟩
      · obtain ⟨u,owns⟩ := inv.owner l' (by simpa [same] using locked)
        refine ⟨u,?_⟩
        by_cases here : u = t
        · subst u
          simp [owns]
        · simpa [here] using owns
  | released t o k l place =>
    refine inv.one t _ rfl (congrArg Pc.place place) (fun _ _ => rfl) doomed ?_ ?_ ?_
    · intro dies
      have clean := doomed t dies
      exact ⟨clean.1,by simp [clean.2]⟩
    · rw [opened_same t {s.fs t with owns := (s.fs t).owns.erase l} rfl rfl]
      exact inv.log
    · intro l' locked
      have same : l' ≠ l := by
        rintro rfl
        simp [releaseSleep,wakeup1,wakeAll] at locked
      obtain ⟨u,owns⟩ := inv.owner l' (by simpa [releaseSleep,wakeup1,wakeAll,same] using locked)
      refine ⟨u,?_⟩
      by_cases here : u = t
      · subst u
        simpa [releaseSleep,wakeup1,wakeAll] using (List.mem_erase_of_ne same).mpr owns
      · simpa [releaseSleep,wakeup1,wakeAll,here] using owns

end Accounted

theorem Accounted.live {s : KState} (inv : Accounted s) (drained : Drained s) (t : Slot)
    (holds : ¬ (s.fs t).Clean) : Occupied s t := by
  apply drained.occ t
  refine ⟨?_,?_⟩
  · intro place
    exact holds (inv.outside t (by rw [place]; rfl))
  · intro place
    exact holds (inv.outside t (by rw [place]; rfl))

/-- A dying thread leaves nothing behind: a thread that is ended in `sleep`, or has ended,
holds nothing; `outstanding` counts the live threads inside an operation, and every sleep
lock that is locked has a live owner. -/
theorem resources_accounted {s₀ s : KState} (start : Start s₀)
    (reached : Reaches (fun s a => within closedFns s a ∧ MarksIdle s a ∧ TakesAlive s a) s₀ s) :
    (∀ t site, s.pc t = .asleep site → (s.thread t).shouldDie = true → (s.fs t).Clean) ∧
    (∀ t, (s.thread t).state = .tZombie → (s.fs t).Clean) ∧
    s.log.outstanding = Scan.total (fun t => Occupied s t ∧ (s.fs t).inOp = true) ∧
    ∀ l, (s.sleepLock l).locked = true → ∃ t, Occupied s t ∧ l ∈ (s.fs t).owns := by
  have inv : (Ids s ∧ Drained s) ∧ Accounted s := by
    refine reached.invariant (fun s => (Ids s ∧ Drained s) ∧ Accounted s)
      ⟨⟨.start start,.start start⟩,.start start⟩ ?_
    intro before action after held allowed taken
    have threads := step_thread _ _ _ taken
    exact ⟨drained_step held.1 (orderly_of_closed allowed.1) threads,
      held.2.step allowed.2.1 allowed.2.2 (step_files allowed.1 taken) threads⟩
  obtain ⟨⟨_,drained⟩,acc⟩ := inv
  refine ⟨fun t _ _ dies => acc.doomed t dies,?_,?_,?_⟩
  · intro t zombie
    by_contra holds
    exact (acc.live drained t holds).2 zombie
  · have count : Scan.total (fun t => Occupied s t ∧ (s.fs t).inOp = true) = opened s := by
      apply Scan.total_congr
      intro t
      refine ⟨fun both => both.2,fun inOp => ⟨acc.live drained t ?_,inOp⟩⟩
      intro clean
      rw [clean.1] at inOp
      contradiction
    rw [acc.log,count]
  · intro l locked
    obtain ⟨t,owns⟩ := acc.owner l locked
    refine ⟨t,acc.live drained t ?_,owns⟩
    intro clean
    rw [clean.2] at owns
    contradiction

/-- One thread is inside an operation with a buffer locked while another one runs. -/
theorem resources_accounted_writer : ∃ s,
    Reaches (fun s a => within closedFns s a ∧ MarksIdle s a ∧ TakesAlive s a)
      (session [(1,0),(1,1)] 0 0) s ∧
    (s.log.outstanding = 1 ∧ (s.sleepLock (.buf 0)).locked = true) ∧
    s.log.outstanding = Scan.total (fun t => Occupied s t ∧ (s.fs t).inOp = true) ∧
    ∃ t, Occupied s t ∧ .buf 0 ∈ (s.fs t).owns := by
  obtain ⟨s,reached,shown⟩ := Interleave.play_shows step
    (fun s a => within closedFns s a ∧ MarksIdle s a ∧ TakesAlive s a) (session [(1,0),(1,1)] 0 0)
    (call (1,1) .files ++
      [.run (1,1) {op := .beginOp},go (1,1),.run (1,1) {op := .acquireSleep (.buf 0)},go (1,1),
      .run (1,1) {op := .iderw 0},go (1,1),go (1,1),.swtch (1,1)])
    (fun s => s.log.outstanding = 1 ∧ (s.sleepLock (.buf 0)).locked = true) (by decide +kernel)
  obtain ⟨_,_,log,owner⟩ :=
    resources_accounted (session_start _ _ _ (by decide) (by decide)) reached
  exact ⟨s,reached,shown,log,owner _ shown.2⟩

/-- A thread waits for the disk inside an operation, with a buffer locked, when its sibling
exits: it is woken, told to die and ends in `sleep`, with the operation open and the buffer
locked for ever. -/
theorem resources_left_behind : Start (session [(1,0),(1,1)] 0 0) ∧ ∃ s,
    Reaches (within closedFns) (session [(1,0),(1,1)] 0 0) s ∧
    (s.thread (1,1)).state = .tZombie ∧ ¬ (s.fs (1,1)).Clean ∧ s.log.outstanding = 1 ∧
    (∀ t, ¬ (Occupied s t ∧ (s.fs t).inOp = true)) ∧
    (s.sleepLock (.buf 0)).locked = true ∧ ∀ t, ¬ (Occupied s t ∧ .buf 0 ∈ (s.fs t).owns) := by
  refine ⟨session_start _ _ _ (by decide) (by decide),?_⟩
  exact Interleave.play_shows _ _ _
    (call (1,1) .files ++ [.run (1,1) {op := .beginOp},go (1,1),.run (1,1) {op := .acquireSleep (.buf 0)},
      go (1,1),.run (1,1) {op := .iderw 0},go (1,1),go (1,1),.swtch (1,1)] ++
      call (1,0) .exit ++ [go (1,0),.scheduler (1,1),go (1,1),go (1,1)]) _ (by decide +kernel)

end Kthreads
