import Kthreads.Thread.Effects

/-! What one step can do to one thread slot. A slot gets an id, a stack, a mark or a sleep
in one kind of step each; every other step keeps what it has or takes it away. In the same
way a thread arrives at each place that says something about other threads by one kind of step. -/
open Function (update)

namespace Kthreads
variable {s s' : KState} {a : Action}

structure Calm (v v' : Thread) : Prop where
  tid : v'.tid = v.tid
  kstack : v'.kstack = v.kstack
  unused : v'.state = .tUnused → v.state = .tUnused

structure Inherits (v v' : Thread) : Prop extends Calm v v' where
  shouldDie : v'.shouldDie = v.shouldDie ∨ v'.shouldDie = false ∧ v'.state = .tZombie
  asleep : v'.state = .tSleeping → v.state = .tSleeping

structure Emptied (v v' : Thread) : Prop where
  state : v'.state = .tUnused
  kstack : v'.kstack = none
  tid : v'.tid = v.tid ∨ v'.tid = 0
  shouldDie : v'.shouldDie = true → v.shouldDie = true

namespace Calm

theorem write (t : Slot) (v : Thread) (thread : s'.thread = update s.thread t v)
    (calm : Calm (s.thread t) v) (u : Slot) : Calm (s.thread u) (s'.thread u) := by
  by_cases here : u = t
  · subst u
    simpa [thread] using calm
  · simpa [thread,here] using ⟨rfl,rfl,fun old => old⟩

theorem marked (s : KState) (t u : Slot) : Calm (s.thread u) ((markSiblings s t).thread u) := by
  unfold markSiblings
  by_cases own : u.1 = t.1
  · by_cases asleep : (s.thread u).state = .tSleeping
    · exact ⟨by simp [own],by simp [own],by simp [own,asleep]⟩
    · exact ⟨by simp [own],by simp [own],by simp [own,asleep]⟩
  · exact ⟨by simp [own],by simp [own],by simp [own]⟩

end Calm

namespace Inherits

theorem refl (v : Thread) : Inherits v v := ⟨⟨rfl,rfl,fun old => old⟩,.inl rfl,fun old => old⟩

theorem told {v v' : Thread} (inherits : Inherits v v') (dies : v'.shouldDie = true) : v.shouldDie = true := by
  rcases inherits.shouldDie with same | ⟨lives,_⟩
  · exact same ▸ dies
  · rw [lives] at dies
    contradiction

theorem state {v v' : Thread} (same : (v'.tid,v'.shouldDie,v'.kstack) = (v.tid,v.shouldDie,v.kstack))
    (moved : v'.state = .tRunnable ∨ v'.state = .tRunning ∨ v'.state = .tZombie) : Inherits v v' := by
  obtain ⟨tid,shouldDie,kstack⟩ := by simpa only [Prod.mk.injEq] using same
  refine ⟨⟨tid,kstack,?_⟩,.inl shouldDie,?_⟩
  · intro old
    simp [old] at moved
  · intro old
    simp [old] at moved

theorem frame (same : ThreadFrame s s') (u : Slot) : Inherits (s.thread u) (s'.thread u) := by
  rcases same.thread u with eq | ⟨_,eq⟩
  · rw [eq]
    exact refl _
  · rw [eq]
    exact state rfl (by simp)

theorem after {m : KState} {u : Slot} {v : Thread} (same : ThreadFrame s m) (later : Inherits (m.thread u) v) :
    Inherits (s.thread u) v := by
  rcases same.thread u with eq | ⟨asleep,eq⟩
  · rwa [eq] at later
  · rw [eq] at later
    exact ⟨⟨later.tid,later.kstack,fun old => absurd (later.unused old) (by simp)⟩,later.shouldDie,fun _ => asleep⟩

theorem write (t : Slot) (v : Thread) (thread : s'.thread = update s.thread t v)
    (inherits : Inherits (s.thread t) v) (u : Slot) : Inherits (s.thread u) (s'.thread u) := by
  by_cases here : u = t
  · subst u
    simpa [thread] using inherits
  · simpa [thread,here] using refl _

theorem scheduler (s : KState) (t u : Slot) : Inherits (s.thread u) ((scheduler s t).thread u) := by
  have done := scheduler_scheduled s t
  by_cases here : u = t
  · subst u
    refine state ?_ (by simp [done.state])
    rw [done.tid,done.shouldDie,done.kstack]
  · rw [(done.others u here).1]
    exact refl _

theorem exitThread (s : KState) (t u : Slot) : Inherits (s.thread u) ((exitThread s t).thread u) := by
  have woken : ThreadFrame s (wakeup1 s (.thread t)) := .wakeAll s _
  refine after woken (write t _ rfl ?_ u)
  exact ⟨⟨rfl,rfl,by simp⟩,.inr ⟨rfl,rfl⟩,by simp⟩

theorem exitFinal (s : KState) (t u : Slot) : Inherits (s.thread u) ((exitFinal s t).thread u) := by
  obtain ⟨m,same,_,_,eq⟩ := exitFinal_eq s t
  refine after same ?_
  rw [eq,vanish_thread]
  split
  · exact state rfl (by simp)
  · exact refl _

/-- The marking section gives no mark to its own thread and none to other processes. -/
theorem spared (s : KState) (t u : Slot) (spared : ¬ (u.1 = t.1 ∧ u ≠ t)) :
    Inherits (s.thread u) ((markSiblings s t).thread u) := by
  refine ⟨Calm.marked s t u,.inl ?_,fun asleep => (markSiblings_asleep s t u asleep).2⟩
  by_cases own : u.1 = t.1
  · have here : u = t := by
      by_contra other
      exact spared ⟨own,other⟩
    subst u
    simp [markSiblings]
  · simp [markSiblings,own]

end Inherits

namespace Emptied

theorem reset (v v' : Thread) (state : v'.state = .tUnused) (kstack : v'.kstack = none)
    (tid : v'.tid = v.tid ∨ v'.tid = 0) (shouldDie : v'.shouldDie = v.shouldDie ∨ v'.shouldDie = false) :
    Emptied v v' := by
  refine ⟨state,kstack,tid,?_⟩
  intro dies
  rcases shouldDie with same | lives
  · rw [← same]
    exact dies
  · rw [lives] at dies
    contradiction

theorem write (w : Slot) (v : Thread) (thread : s'.thread = update s.thread w v)
    (empty : Emptied (s.thread w) v) (u : Slot) :
    s'.thread u = s.thread u ∨ Emptied (s.thread u) (s'.thread u) := by
  by_cases here : u = w
  · subst u
    exact .inr (by simpa [thread] using empty)
  · exact .inl (by simp [thread,here])

theorem freeSlot (s : KState) (w : Slot) (page : Page) (u : Slot) :
    (freeSlot s w page).thread u = s.thread u ∨ Emptied (s.thread u) ((freeSlot s w page).thread u) := by
  refine write w _ rfl ?_ u
  exact reset _ _ rfl rfl (.inr rfl) (.inl rfl)

/-- The loop of `wait` resets the slots of zombies. A slot that it still finds a zombie has not been touched
before. -/
theorem reapThreads (s : KState) (c : ProcIx) (u : Slot) : (reapThreads s c).thread u = s.thread u ∨
    Emptied (s.thread u) ((reapThreads s c).thread u) ∧ ((reapThreads s c).thread u).tid = 0 ∧ u.1 = c ∧
      (s.thread u).state = .tZombie ∧ (s.thread u).kstack ≠ none := by
  refine reapThreads_rule s c (P := fun m => m.thread u = s.thread u ∨ Emptied (s.thread u) (m.thread u) ∧
    (m.thread u).tid = 0 ∧ u.1 = c ∧ (s.thread u).state = .tZombie ∧ (s.thread u).kstack ≠ none) (.inl rfl) ?_
  intro m i before zombie
  rcases reapThread_cases m (c,i) with eq | eq | ⟨page,owned,eq⟩
  · rw [eq]
    exact before
  · rw [eq]
    exact before
  · rw [eq]
    by_cases here : u = (c,i)
    · subst u
      rcases before with same | ⟨empty,_⟩
      · have freed : (Kthreads.freeSlot m (c,i) page).thread (c,i) =
            {s.thread (c,i) with kstack := none, tid := 0, state := .tUnused} := by
          simp [Kthreads.freeSlot,same]
        rw [freed]
        exact .inr ⟨reset _ _ rfl rfl (.inr rfl) (.inl rfl),rfl,rfl,same ▸ zombie,by simp [← same,owned]⟩
      · rw [empty.state] at zombie
        contradiction
    · rw [freeSlot_thread m (c,i) page u here]
      exact before

end Emptied

inductive Released (s s' : KState) (u : Slot) : Prop
  | create (t : Slot) (place : s.pc t = .createRun u) (back : s'.pc t = .retKilled) : Released s s' u
  | fork (t : Slot) (place : s.pc t = .forkRun u) (back : s'.pc t = .retKilled) : Released s s' u

theorem Released.pending {u : Slot} (released : Released s s' u) :
    ∃ t, (s.pc t).life.pending = some u ∧ s'.pc t = .retKilled := by
  cases released with
  | create t place back | fork t place back => exact ⟨t,by rw [place]; rfl,back⟩

/-- The state of a slot that keeps its thread. -/
inductive Moves (s : KState) (u : Slot) (s' : KState) : Prop
  | same (state : (s'.thread u).state = (s.thread u).state) : Moves s u s'
  | wakes (before : (s.thread u).state = .tSleeping) (state : (s'.thread u).state = .tRunnable) : Moves s u s'
  | runs (before : (s.thread u).state = .tRunnable) (state : (s'.thread u).state = .tRunning) : Moves s u s'
  | yields (before : (s.thread u).state = .tRunning) (state : (s'.thread u).state = .tRunnable)
      (off : s'.cpu u ≠ .on) : Moves s u s'
  | ends (on : s.cpu u = .on) (state : (s'.thread u).state = .tZombie) (off : s'.cpu u ≠ .on)
      (dead : s'.pc u = .dead) (place : s.pc u = .exitThread) : Moves s u s'
  | buried (t : Slot) (on : s.cpu t = .on) (place : s.pc t = .exitFinal) (own : u.1 = t.1)
      (used : (s.thread u).state ≠ .tUnused) (state : (s'.thread u).state = .tZombie)
      (dead : u = t → s'.cpu u ≠ .on ∧ s'.pc u = .dead) (zombie : (s'.proc u.1).state = .zombie) : Moves s u s'
  | started (released : Released s s' u) (state : (s'.thread u).state = .tRunnable) : Moves s u s'

namespace Moves

theorem frame (same : ThreadFrame s s') (u : Slot) : Moves s u s' := by
  rcases same.thread u with eq | ⟨asleep,eq⟩
  · exact .same (by rw [eq])
  · exact .wakes asleep (by rw [eq])

theorem spared (t u : Slot) (thread : s'.thread = (markSiblings s t).thread) : Moves s u s' := by
  by_cases own : u.1 = t.1
  · by_cases asleep : (s.thread u).state = .tSleeping
    · exact .wakes asleep (by simp [thread,markSiblings,own,asleep])
    · exact .same (by simp [thread,markSiblings,own,asleep])
  · exact .same (by simp [thread,markSiblings,own])

theorem exitFinal (t u : Slot) (on : s.cpu t = .on) (place : s.pc t = .exitFinal) :
    Moves s u (exitFinal s t) := by
  obtain ⟨m,same,_,_,eq⟩ := exitFinal_eq s t
  rw [eq]
  by_cases buried : u.1 = t.1 ∧ (m.thread u).state ≠ .tUnused
  · refine .buried t on place buried.1 ?_ (by rw [vanish_thread,if_pos buried]) ?_
      (by simp [vanish,buryProcess,buried.1])
    · rcases same.thread u with eq | ⟨asleep,_⟩
      · exact eq ▸ buried.2
      · simp [asleep]
    · rintro rfl
      simp [vanish]
  · have still : (vanish m t).thread u = m.thread u := by rw [vanish_thread,if_neg buried]
    rcases same.thread u with eq | ⟨asleep,eq⟩
    · exact .same (by rw [still,eq])
    · exact .wakes asleep (by rw [still,eq])

end Moves

/-- The sections that free a slot. A creation that fails leaves the id there. -/
inductive Reaper (s : KState) (u : Slot) (s' : KState) : Action → Prop
  | drain (t : Slot) (o : Oracle) (k : Drainer) (i : Fin nthread) (n : Nat) (place : s.pc t = .drainFree k i n)
      (here : u = (t.1,i)) (tid : (s'.thread u).tid = 0) (owned : (s.thread u).kstack ≠ none) :
      Reaper s u s' (.run t o)
  | join (t : Slot) (o : Oracle) (tid : Int) (place : s.pc t = .joinFree tid u) (tid : (s'.thread u).tid = 0)
      (owned : (s.thread u).kstack ≠ none) : Reaper s u s' (.run t o)
  | wait (t : Slot) (o : Oracle) (c : ProcIx) (place : s.pc t = .waitLoop) (on : s.cpu t = .on)
      (found : zombieChild s t.1 = some c) (child : u.1 = c) (dead : (s.thread u).state = .tZombie)
      (tid : (s'.thread u).tid = 0) (owned : (s.thread u).kstack ≠ none) : Reaper s u s' (.run t o)
  | stack (t : Slot) (o : Oracle) (pc : Pc) (gets : GetsStack s t u pc) (empty : s.freelist = [])
      (back : s'.pc = update s.pc t .retKilled) (unused : (s'.proc u.1).state = .unused) : Reaper s u s' (.run t o)
  | fork (t : Slot) (o : Oracle) (place : s.pc t = .forkCopy u) (short : o.copied = false)
      (back : s'.pc = update (update s.pc u .idle) t .retKilled) (owned : (s.thread u).kstack ≠ none)
      (unused : (s'.proc u.1).state = .unused) : Reaper s u s' (.run t o)

inductive Born (s : KState) (u : Slot) : Action → KState → Prop
  | mk (t : Slot) (o : Oracle) (p : ProcIx) (pc : Pc) (on : s.cpu t = .on) (births : Births s t p u pc)
      (found : unusedSlot s p = some u) : Born s u (.run t o) ((allocthread s u).goto t pc)

inductive Change (s : KState) (u : Slot) : Action → KState → Prop
  | keeps {a : Action} {s' : KState} (inherits : Inherits (s.thread u) (s'.thread u))
      (moves : Moves s u s') : Change s u a s'
  | emptied {a : Action} {s' : KState} (empty : Emptied (s.thread u) (s'.thread u)) (reaper : Reaper s u s' a) :
      Change s u a s'
  | sleeps (o : Oracle) (chan : Chan) (site : Site) (on : s.cpu u = .on) (falls : Falls s u chan site) :
      Change s u (.run u o) (sleepCommit s u chan site)
  | marked (t : Slot) (o : Oracle) (k : Drainer) (place : s.pc t = k.marks) (own : u.1 = t.1)
      (other : u ≠ t) : Change s u (.run t o) ((markSiblings s t).goto t (.drain k 0 0))
  | born (t : Slot) (o : Oracle) (p : ProcIx) (pc : Pc) (births : Births s t p u pc)
      (found : unusedSlot s p = some u) (on : s.cpu t = .on) : Change s u (.run t o) ((allocthread s u).goto t pc)
  | stacked (t : Slot) (o : Oracle) (pc : Pc) (page : Page) (rest : List Page) (s' : KState)
      (gets : GetsStack s t u pc) (head : s.freelist = page :: rest)
      (thread : s'.thread u = {s.thread u with kstack := some page}) (after : s'.pc t = pc) : Change s u (.run t o) s'

theorem Change.same {u : Slot} (thread : s'.thread u = s.thread u) :
    Change s u a s' := by
  refine keeps ?_ (.same (by rw [thread]))
  rw [thread]
  exact .refl _

theorem Change.write {u : Slot} (w : Slot) (v : Thread) (thread : s'.thread = update s.thread w v)
    (inherits : Inherits (s.thread w) v) (moves : s'.thread w = v → Moves s w s') : Change s u a s' := by
  by_cases here : u = w
  · subst u
    exact .keeps (by simpa [thread] using inherits) (moves (by simp [thread]))
  · exact .same (by simp [thread,here])

theorem Change.reset {u : Slot} (w : Slot) (v : Thread)
    (thread : s'.thread = update s.thread w v) (empty : Emptied (s.thread w) v)
    (reaper : s'.thread w = v → Reaper s w s' a) : Change s u a s' := by
  by_cases here : u = w
  · subst u
    exact .emptied (by simpa [thread] using empty) (reaper (by simp [thread]))
  · exact .same (by simp [thread,here])

theorem Change.reaped {u : Slot} {m : KState} {t : Slot} {o : Oracle} {c : ProcIx} (thread : s'.thread = m.thread)
    (on : s.cpu t = .on) (place : s.pc t = .waitLoop) (found : zombieChild s t.1 = some c)
    (reaped : m.thread u = s.thread u ∨ Emptied (s.thread u) (m.thread u) ∧ (m.thread u).tid = 0 ∧ u.1 = c ∧
      (s.thread u).state = .tZombie ∧ (s.thread u).kstack ≠ none) : Change s u (.run t o) s' := by
  rw [← thread] at reaped
  rcases reaped with same | ⟨empty,tid,child,dead,owned⟩
  · exact .same same
  · exact .emptied empty (.wait t o c place on found child dead tid owned)

theorem step_change (taken : ThreadStep s a s') (u : Slot) :
    Change s u a s' := by
  cases taken with
  | frame same => exact .keeps (.frame same u) (.frame same u)
  | scheduler t free off runnable =>
    by_cases here : u = t
    · subst u
      exact .keeps (.scheduler s t t) (.runs runnable (scheduler_scheduled s t).state)
    · exact .same ((scheduler_scheduled s t).others u here).1
  | swtch | takePage | givePage | forkProc | forkCopied | joinFound | joinMissing => exact .same rfl
  | yield t free on running =>
    exact .write t _ rfl (.state rfl (by simp)) fun eq => .yields running (by rw [eq]) (by simp [yield])
  | sleep t o chan site on falls =>
    by_cases here : u = t
    · subst u
      exact .sleeps o chan site on falls
    · exact .same (by simp [sleepCommit,here])
  | exitThread t o on place free =>
    refine .keeps (.exitThread s t u) ?_
    by_cases here : u = t
    · subst u
      exact .ends on (by simp [exitThread]) (by simp [exitThread]) (by simp [exitThread]) place
    · have woken : ThreadFrame s (wakeup1 s (.thread t)) := .wakeAll s _
      have still := (retire_others (wakeup1 s (.thread t)) t u here).1
      rw [exitThread_eq]
      rcases woken.thread u with eq | ⟨asleep,eq⟩
      · exact .same (by rw [still,eq])
      · exact .wakes asleep (by rw [still,eq])
  | mark t o k on place free =>
    by_cases same : u.1 = t.1 ∧ u ≠ t
    · exact .marked t o k place same.1 same.2
    · exact .keeps (.spared s t u same) (.spared t u rfl)
  | drain t o k i n m pc on place same pcs move =>
    rcases same.thread u with eq | ⟨asleep,eq⟩
    · exact .same eq
    · exact .keeps (.frame same u) (.wakes asleep (congrArg Thread.state eq))
  | drainFree t o k i n page on place owned =>
    refine .reset (t.1,i) _ rfl ?_ fun freed => .drain t o k i n place rfl (by rw [freed]) (by simp [owned])
    exact .reset _ _ rfl rfl (.inr rfl) (.inl rfl)
  | exitFinal t o on place free => exact .keeps (.exitFinal s t u) (.exitFinal t u on place)
  | birth t o p nt pc on births free found =>
    by_cases here : u = nt
    · subst u
      exact .born t o p pc births found on
    · exact .same (by simp [allocthread,here])
  | stack t o nt pc page rest on gets head =>
    by_cases here : u = nt
    · subst u
      exact .stacked t o pc page rest _ gets head (by simp) (by simp)
    · exact .same (by simp [here])
  | stackless t o nt pc on gets empty =>
    refine .reset nt _ rfl ?_ fun _ => .stack t o pc gets empty rfl (by simp)
    exact .reset _ _ rfl rfl (.inl rfl) (.inl rfl)
  | forkFailed t o nt page on place owned short =>
    refine .reset nt _ rfl ?_ fun _ => .fork t o place short rfl (by simp [owned]) (by simp)
    exact .reset _ _ rfl rfl (.inl rfl) (.inl rfl)
  | createRun t o nt on place free =>
    refine .write nt _ rfl (.state rfl (by simp)) fun eq => .started (.create t place ?_) (by rw [eq])
    simp [createRun]
  | forkRun t o nt on place free =>
    refine .write nt _ rfl (.state rfl (by simp)) fun eq => .started (.fork t place ?_) (by rw [eq])
    simp [forkRun]
  | waitPanic t o c on place found => exact .reaped rfl on place found (Emptied.reapThreads s c u)
  | waitDone t o c on place found =>
    have reaped := Emptied.reapThreads s c u
    generalize reapThreads s c = m at reaped ⊢
    exact .reaped rfl on place found reaped
  | joinFree t o tid v page on place owned =>
    refine .reset v {s.thread v with
      kstack := none, tid := 0, state := .tUnused, shouldDie := false} ?_ ?_
      fun freed => .join t o tid place (by rw [freed]) (by simp [owned])
    · simp [freeSlot]
    · exact .reset _ _ rfl rfl (.inr rfl) (.inr rfl)

theorem pending_of_blank {life : Life} {nt : Slot} (blank : life.blank = some nt) : life.pending = some nt := by
  cases life <;> simp [Life.blank] at blank <;> simpa [Life.pending] using blank

theorem pending_busy (life : Life) (nt : Slot) (pending : life.pending = some nt) : life.busy = true := by
  cases life <;> simp [Life.pending] at pending <;> rfl

theorem GetsStack.waits {t nt : Slot} {pc : Pc} (gets : GetsStack s t nt pc) : (s.pc t).life.blank = some nt := by
  cases gets with
  | create place | fork place => rw [place]; rfl

def Life.draining : Life → Bool
  | .drain _ _ _ | .drainFree _ _ _ => true
  | _ => false

/-- The ways in which thread `t` arrives at a place that says something about other threads. -/
inductive Arrives (s : KState) (t : Slot) (s' : KState) : Action → Life → Prop
  | marks (o : Oracle) (k : Drainer) (on : s.cpu t = .on) (place : s.pc t = k.marks)
      (eq : s' = (markSiblings s t).goto t (.drain k 0 0)) : Arrives s t s' (.run t o) (.drain k 0 0)
  | scan (o : Oracle) (k : Drainer) (i n i₀ n₀ : Nat) (place : s.pc t = .drain k i₀ n₀)
      (move : DrainMove s t k i₀ n₀ (.drain k i n)) : Arrives s t s' (.run t o) (.drain k i n)
  | freed (o : Oracle) (k : Drainer) (i : Fin nthread) (n : Nat) (place : s.pc t = .drainFree k i n) :
      Arrives s t s' (.run t o) (.drain k (i.val+1) n)
  | zombie (o : Oracle) (k : Drainer) (i : Fin nthread) (n : Nat) (place : s.pc t = .drain k i.val n)
      (dead : (s.thread (t.1,i)).state = .tZombie) : Arrives s t s' (.run t o) (.drainFree k i n)
  | tail (o : Oracle) (i n : Nat) (place : s.pc t = .drain .exit i n) (past : nthread ≤ i) (few : n ≤ 1) :
      Arrives s t s' (.run t o) .tail
  | birth (o : Oracle) (p : ProcIx) (nt : Slot) (pc : Pc) (births : Births s t p nt pc)
      (found : unusedSlot s p = some nt) (eq : s' = (allocthread s nt).goto t pc) : Arrives s t s' (.run t o) pc.life
  | stacked (o : Oracle) (nt : Slot) (pc : Pc) (gets : GetsStack s t nt pc) :
      Arrives s t s' (.run t o) pc.life
  | fork (o : Oracle) (np : ProcIx) (unused : (s.proc np).state = .unused) :
      Arrives s t s' (.run t o) (.forkAlloc np)
  | copied (o : Oracle) (nt : Slot) (place : s.pc t = .forkCopy nt) : Arrives s t s' (.run t o) (.forkRun nt)
  | found (o : Oracle) (tid : Int) (v : Slot) (place : s.pc t = .joinLoop tid)
      (found : findThread s tid = some v) (dead : (s.thread v).state = .tZombie) :
      Arrives s t s' (.run t o) (.joinFree tid v)

/-- A thread becomes active only when it gets its stack. -/
inductive Placed (s : KState) (u : Slot) (a : Action) (s' : KState) : Prop
  | same (life : (s'.pc u).life = (s.pc u).life) : Placed s u a s'
  | rests (plain : (s'.pc u).life = .plain) (active : Active s u) : Placed s u a s'
  | starts (t : Slot) (pc : Pc) (gets : GetsStack s t u pc) (plain : (s'.pc u).life = .plain)
      (after : s'.pc t = pc) : Placed s u a s'
  | leaves (gone : ¬ Active s' u) : Placed s u a s'
  | arrives (on : s.cpu u = .on) (arrives : Arrives s u s' a (s'.pc u).life) : Placed s u a s'

namespace Placed

theorem frame (same : ThreadFrame s s') (u : Slot) : Placed s u a s' := by
  rcases same.pc u with eq | ⟨plain,active⟩
  · exact .same eq
  · exact .rests plain active

theorem moved (t : Slot) (pc : Pc) (place : s'.pc = update s.pc t pc)
    (here : s'.pc t = pc → Placed s t a s') (u : Slot) : Placed s u a s' := by
  by_cases own : u = t
  · subst u
    exact here (by simp [place])
  · exact .same (by simp [place,own])

theorem returns (t : Slot) (place : s'.pc = update s.pc t .retKilled) (active : Active s t) (u : Slot) :
    Placed s u a s' :=
  moved t .retKilled place (fun eq => .rests (by rw [eq]; rfl) active) u

theorem arriving (t : Slot) (pc : Pc) (place : s'.pc = update s.pc t pc) (on : s.cpu t = .on)
    (arrives : Arrives s t s' a pc.life) (u : Slot) : Placed s u a s' :=
  moved t pc place (fun eq => .arrives on (by rw [eq]; exact arrives)) u

end Placed

theorem step_places (taken : ThreadStep s a s') (u : Slot) : Placed s u a s' := by
  cases taken with
  | frame same => exact .frame same u
  | scheduler t free off runnable =>
    have done := scheduler_scheduled s t
    by_cases here : u = t
    · subst u
      rcases done.life with same | ⟨plain,active⟩
      · exact .same same
      · exact .rests plain active
    · exact .same (by rw [(done.others u here).2.2])
  | yield | swtch | takePage | givePage => exact .same rfl
  | sleep t o chan site on falls =>
    refine .moved t (.asleep site) rfl (fun eq => .same ?_) u
    rw [eq]
    cases falls with
    | hold chan site place | join tid u place | wait place => rw [place]; rfl
  | exitThread t o on place free =>
    exact .moved t .dead rfl (fun eq => .leaves fun active => active.2 eq) u
  | mark t o k on place free => exact .arriving t (.drain k 0 0) rfl on (.marks o k on place rfl) u
  | drain t o k i n m pc on place same pcs move =>
    have back : (m.goto t pc).pc = update s.pc t pc := by rw [← pcs]; rfl
    cases move with
    | zombie inside dead => exact .arriving t _ back on (.zombie o k ⟨i,inside⟩ n place dead) u
    | unused inside empty => exact .arriving t _ back on (.scan o k _ _ i n place (.unused inside empty)) u
    | counted inside used => exact .arriving t _ back on (.scan o k _ _ i n place (.counted inside used)) u
    | again past many => exact .arriving t _ back on (.scan o k _ _ i n place (.again past many)) u
    | done past few =>
      cases k with
      | exit => exact .arriving t _ back on (.tail o i n place past few) u
      | exec => exact .moved t _ back (fun eq => .rests (by rw [eq]; rfl) (by simp [Active,place])) u
  | drainFree t o k i n page on place owned => exact .arriving t _ rfl on (.freed o k i n place) u
  | exitFinal t o on place free =>
    obtain ⟨_,_,eq⟩ := exitFinal_rest s t
    rw [eq]
    exact .moved t .dead rfl (fun eq => .leaves fun active => active.2 eq) u
  | birth t o p nt pc on births free found => exact .arriving t pc rfl on (.birth o p nt pc births found rfl) u
  | stack t o nt pc page rest on gets head =>
    by_cases here : u = t
    · subst u
      exact .arrives on (by simpa using .stacked o nt pc gets)
    · by_cases new : u = nt
      · subst u
        exact .starts t pc gets (by simp [here,Pc.life]) (by simp)
      · exact .same (by simp [here,new])
  | stackless t o nt pc on gets empty =>
    refine .returns t rfl ?_ u
    cases gets with
    | create place | fork place => simp [Active,place]
  | forkProc t o np on place free unused => exact .arriving t _ rfl on (.fork o np unused) u
  | forkCopied t o nt on place => exact .arriving t _ rfl on (.copied o nt place) u
  | forkFailed t o nt page on place owned =>
    by_cases here : u = t
    · subst u
      exact .rests (by simp [Pc.life]) (by simp [Active,place])
    · by_cases new : u = nt
      · subst u
        exact .leaves (by simp [Active,here])
      · exact .same (by simp [here,new])
  | createRun t o nt on place free | forkRun t o nt on place free | joinMissing t o tid on place missing
  | joinFree t o tid v page on place owned => exact .returns t rfl (by simp [Active,place]) u
  | waitPanic t o c on place found => exact .same (by rw [reapThreads_pc])
  | waitDone t o c on place found =>
    obtain ⟨_,_,_,_,eq⟩ := reapThreads_rest s c
    rw [eq]
    exact .returns t rfl (by simp [Active,place]) u
  | joinFound t o tid v on place found dead => exact .arriving t _ rfl on (.found o tid v place found dead) u

theorem step_placed (taken : ThreadStep s a s') (u : Slot) :
    (s'.pc u).life = (s.pc u).life ∨ (s'.pc u).life.busy = false ∨ Arrives s u s' a (s'.pc u).life := by
  cases step_places taken u with
  | same life => exact .inl life
  | rests plain | starts t pc gets plain => exact .inr (.inl (by rw [plain]; rfl))
  | leaves gone =>
    rw [active_iff] at gone
    refine .inr (.inl ?_)
    generalize (s'.pc u).life = life at gone
    cases life <;> simp at gone <;> rfl
  | arrives on arrives => exact .inr (.inr arrives)

/-- Only `allocthread` makes a thread wait for a stack. -/
theorem waits_before {t u : Slot} (taken : ThreadStep s a s') (waits : (s'.pc t).life.blank = some u) :
    (s.pc t).life.blank = some u ∨ (∃ o, a = .run t o) ∧ (s.thread u).state = .tUnused ∧
      (s'.thread u).kstack = (s.thread u).kstack ∧ (s'.thread u).state = .tEmbryo ∧ (s'.thread u).tid = s.nexttid := by
  rcases step_placed taken t with same | quiet | arrives
  · rw [same] at waits
    exact .inl waits
  · have busy := pending_busy _ u (pending_of_blank waits)
    rw [quiet] at busy
    contradiction
  · generalize (s'.pc t).life = life at waits arrives
    cases arrives with
    | birth o p nt pc births found eq =>
      obtain rfl : nt = u := by cases births <;> exact Option.some.inj waits
      subst eq
      exact .inr ⟨⟨o,rfl⟩,(unusedSlot_spec s p nt found).1,by simp [allocthread],by simp [allocthread],by simp [allocthread]⟩
    | stacked o nt pc gets => cases gets <;> contradiction
    | _ => contradiction

/-- A thread gets onto a CPU only by the scheduler. -/
theorem step_on (taken : ThreadStep s a s') (u : Slot) (on : s'.cpu u = .on) :
    s.cpu u = .on ∨ (s'.thread u).state = .tRunning := by
  have wrote (t : Slot) (c : Cpu) (off : c ≠ .on) (cpu : s'.cpu = update s.cpu t c) : s.cpu u = .on := by
    by_cases here : u = t
    · simp [cpu,here,off] at on
    · simpa [cpu,here] using on
  cases taken with
  | frame same | drain _ _ _ _ _ _ _ _ _ same => exact .inl (same.cpu ▸ on)
  | scheduler t =>
    have done := scheduler_scheduled s t
    by_cases here : u = t
    · exact .inr (here ▸ done.state)
    · exact .inl ((done.others u here).2.1 ▸ on)
  | yield t | swtch t | sleep t => exact .inl (wrote t _ (by simp) rfl)
  | exitThread t => exact .inl (wrote t .sched (by simp) rfl)
  | exitFinal t =>
    obtain ⟨_,_,eq⟩ := exitFinal_rest s t
    rw [eq] at on wrote
    exact .inl (wrote t .sched (by simp) rfl)
  | waitPanic t o c | waitDone t o c =>
    obtain ⟨_,_,_,_,eq⟩ := reapThreads_rest s c
    rw [eq] at on
    exact .inl on
  | _ => exact .inl on

end Kthreads
