import Kthreads.Thread.Effects

/-! What a kernel step can do to the process table: to ids, parents and states of processes, to
the creations that are under way, and to the threads that sleep in `wait`. Most steps leave all of
this as it is. -/
open Function (update update_comm update_self)

namespace Kthreads
variable {m s s' : KState} {t : Slot} {c c₀ : Pc}

def Life.forks : Life → Option ProcIx
  | .forkAlloc np => some np
  | .forkStack nt | .forkCopy nt | .forkRun nt => some nt.1
  | _ => none

def Life.child : Life → Option Slot
  | .forkStack nt | .forkCopy nt | .forkRun nt => some nt
  | _ => none

def Life.linked : Life → Bool
  | .forkRun _ => true
  | _ => false

def Life.exits : Life → Bool
  | .drain .exit _ _ | .drainFree .exit _ _ | .tail => true
  | _ => false

/-- The places of a sleep in `wait`. It goes to sleep in the section that made the scan, so the
first of them is never taken. -/
def Pc.waits : Pc → Bool
  | .sleepHold _ .wait | .asleep .wait => true
  | _ => false

def Waits (s : KState) (u : Slot) : Prop := (s.thread u).state = .tSleeping ∧ s.pc u = .asleep .wait

def Event.waited : Event → Option Int
  | .waitRet _ pid => if pid = -1 then none else some pid
  | _ => none

def Event.kinless : Event → Bool
  | .forkBegin _ | .forkDone _ => false
  | e => e.waited.isNone

/-- A place that belongs to no creation, to no `exit` and to no sleep in `wait`. -/
def Pc.kinless (pc : Pc) : Prop := pc.life.forks = none ∧ pc.life.exits = false ∧ pc.waits = false

theorem Walks.awake (walks : Walks s t c₀ c) : c.waits = false := by
  cases walks with
  | calls c => cases c <;> simp only [Syscall.entry] <;> (try split) <;> rfl
  | drain k i n c move => cases move <;> cases k <;> rfl
  | _ => rfl

theorem MutexWalks.awake (walks : MutexWalks c₀ c) : c.waits = false := by
  cases walks with
  | deallocRefused id k | deallocDone i id k => cases k <;> rfl
  | _ => rfl

theorem FileWalks.awake (walks : FileWalks c₀ c) : c.waits = false := by
  cases walks with
  | returns k => cases k <;> rfl
  | _ => rfl

structure KinFrame (s s' : KState) : Prop where
  kin : ∀ p, ((s'.proc p).parent,(s'.proc p).pid) = ((s.proc p).parent,(s.proc p).pid)
  state : ∀ p, (s'.proc p).state = (s.proc p).state ∨ (s'.proc p).state = .used ∧ ∃ i, Occupied s (p,i)
  ids : (s'.nextpid,s'.initproc) = (s.nextpid,s.initproc)
  live : ∀ u, Occupied s' u → Occupied s u
  waits : ∀ u, Waits s' u → Waits s u ∧ (s'.thread u).chan = (s.thread u).chan
  holds : ∀ u chan, s'.pc u = .sleepHold chan .wait → s.pc u = .sleepHold chan .wait
  forks : ∀ u np, (s'.pc u).life.forks = some np → (s.pc u).life.forks = some np ∧
    (s'.pc u).life.child = (s.pc u).life.child ∧ (s'.pc u).life.linked = (s.pc u).life.linked
  exits : ∀ u, (s'.pc u).life.exits = true → (s.pc u).life.exits = true ∨ u.1 ≠ s.initproc
  hist : ∃ new, s'.hist = new ++ s.hist ∧ ∀ e ∈ new, e.kinless = true

namespace KinFrame

theorem refl (s : KState) : KinFrame s s where
  kin _ := rfl
  state _ := .inl rfl
  ids := rfl
  live _ occupied := occupied
  waits _ waits := ⟨waits,rfl⟩
  holds _ _ holds := holds
  forks _ _ forks := ⟨forks,rfl,rfl⟩
  exits _ exits := .inl exits
  hist := ⟨[],rfl,by simp⟩

theorem trans (first : KinFrame s m) (second : KinFrame m s') : KinFrame s s' where
  kin p := (second.kin p).trans (first.kin p)
  state p := by
    rcases second.state p with same | ⟨used,i,occupied⟩
    · rw [same]
      exact first.state p
    · exact .inr ⟨used,i,first.live (p,i) occupied⟩
  ids := second.ids.trans first.ids
  live u occupied := first.live u (second.live u occupied)
  waits u waits := by
    obtain ⟨middle,chan⟩ := second.waits u waits
    obtain ⟨before,chan'⟩ := first.waits u middle
    exact ⟨before,chan.trans chan'⟩
  holds u chan holds := first.holds u chan (second.holds u chan holds)
  forks u np forks := by
    obtain ⟨middle,child,linked⟩ := second.forks u np forks
    obtain ⟨before,child',linked'⟩ := first.forks u np middle
    exact ⟨before,child.trans child',linked.trans linked'⟩
  exits u exits := by
    rcases second.exits u exits with middle | other
    · exact first.exits u middle
    · rw [(Prod.mk.inj first.ids).2] at other
      exact .inr other
  hist := by
    obtain ⟨new,eq,quiet⟩ := first.hist
    obtain ⟨new',eq',quiet'⟩ := second.hist
    refine ⟨new' ++ new,by rw [eq',eq,List.append_assoc],?_⟩
    intro e member
    rcases List.mem_append.mp member with late | early
    · exact quiet' e late
    · exact quiet e early

theorem still (same : (s'.proc,s'.thread,s'.nextpid,s'.initproc,s'.pc,s'.hist) =
    (s.proc,s.thread,s.nextpid,s.initproc,s.pc,s.hist)) : KinFrame s s' := by
  obtain ⟨proc,thread,nextpid,initproc,pc,hist⟩ := by simpa only [Prod.mk.injEq] using same
  refine ⟨?_,?_,?_,?_,?_,?_,?_,?_,[],hist,by simp⟩
  · intro p
    rw [proc]
  · intro p
    rw [proc]
    exact .inl rfl
  · rw [nextpid,initproc]
  · intro u occupied
    rwa [Occupied,thread] at occupied
  · intro u waits
    rw [Waits,thread,pc] at waits
    rw [thread]
    exact ⟨waits,rfl⟩
  · intro u chan holds
    rwa [pc] at holds
  · intro u np forks
    rw [pc] at forks ⊢
    exact ⟨forks,rfl,rfl⟩
  · intro u exits
    rw [pc] at exits
    exact .inl exits

section
variable (same : KinFrame s m)
include same

theorem moves (t : Slot) (pc : Pc) (awake : pc.waits = false)
    (forks : ∀ np, pc.life.forks = some np → (m.pc t).life.forks = some np ∧
      pc.life.child = (m.pc t).life.child ∧ pc.life.linked = (m.pc t).life.linked)
    (exits : pc.life.exits = true → (m.pc t).life.exits = true ∨ t.1 ≠ m.initproc) :
    KinFrame s (m.goto t pc) := by
  refine same.trans ⟨fun _ => rfl,fun _ => .inl rfl,rfl,fun _ occupied => occupied,?_,?_,?_,?_,[],rfl,by simp⟩
  · intro u waits
    by_cases here : u = t
    · subst u
      have place := waits.2
      simp only [KState.goto,update_self] at place
      simp [place,Pc.waits] at awake
    · refine ⟨⟨waits.1,?_⟩,rfl⟩
      simpa [here] using waits.2
  · intro u chan holds
    by_cases here : u = t
    · subst u
      simp only [KState.goto,update_self] at holds
      simp [holds,Pc.waits] at awake
    · simpa [here] using holds
  · intro u np
    by_cases here : u = t
    · subst u
      simpa only [KState.goto,update_self] using forks np
    · intro forks
      simpa [here] using forks
  · intro u
    by_cases here : u = t
    · subst u
      simpa only [KState.goto,update_self] using exits
    · intro exits
      exact .inl (by simpa [here] using exits)

theorem goto (t : Slot) (pc : Pc) (plain : pc.kinless) : KinFrame s (m.goto t pc) := by
  refine same.moves t pc plain.2.2 ?_ ?_
  · intro np forks
    rw [plain.1] at forks
    contradiction
  · intro exits
    rw [plain.2.1] at exits
    contradiction

theorem sysret (t : Slot) : KinFrame s (m.sysret t) :=
  same.goto t .retKilled ⟨rfl,rfl,rfl⟩

theorem onward (t : Slot) (pc : Pc) (awake : pc.waits = false)
    (life : pc.life = (m.pc t).life) : KinFrame s (m.goto t pc) := by
  refine same.moves t pc awake ?_ ?_
  · intro np forks
    rw [life] at forks ⊢
    exact ⟨forks,rfl,rfl⟩
  · intro exits
    rw [life] at exits
    exact .inl exits

theorem follows (place : s.pc t = c₀) (pcs : m.pc = s.pc)
    (onward : Onward c₀ c) (awake : c.waits = false) : KinFrame s (m.goto t c) := by
  rcases onward.1 with life | plain
  · exact same.onward t c awake (by rw [life,pcs,place])
  · refine same.goto t c ⟨?_,?_,awake⟩
    · rw [plain]
      rfl
    · rw [plain]
      rfl

theorem emit (e : Event) (quiet : e.kinless = true) : KinFrame s (m.emit e) :=
  same.trans ⟨fun _ => rfl,fun _ => .inl rfl,rfl,fun _ occupied => occupied,fun _ waits => ⟨waits,rfl⟩,
    fun _ _ holds => holds,fun _ _ forks => ⟨forks,rfl,rfl⟩,fun _ exits => .inl exits,[e],rfl,by simpa using quiet⟩

end

theorem threads (thread : ∀ u, s'.thread u = s.thread u ∨ (s'.thread u).state ≠ .tSleeping ∧
      (Occupied s' u → Occupied s u))
    (kin : ∀ p, ((s'.proc p).parent,(s'.proc p).pid) = ((s.proc p).parent,(s.proc p).pid))
    (state : ∀ p, (s'.proc p).state = (s.proc p).state ∨ (s'.proc p).state = .used ∧ ∃ i, Occupied s (p,i))
    (same : (s'.nextpid,s'.initproc,s'.pc) = (s.nextpid,s.initproc,s.pc))
    (hist : ∃ new, s'.hist = new ++ s.hist ∧ ∀ e ∈ new, e.kinless = true) : KinFrame s s' := by
  obtain ⟨nextpid,initproc,pc⟩ := by simpa only [Prod.mk.injEq] using same
  refine ⟨kin,state,by rw [nextpid,initproc],?_,?_,?_,?_,?_,hist⟩
  · intro u occupied
    rcases thread u with eq | ⟨_,old⟩
    · rwa [Occupied,eq] at occupied
    · exact old occupied
  · intro u waits
    rcases thread u with eq | ⟨awake,_⟩
    · rw [Waits,eq,pc] at waits
      rw [eq]
      exact ⟨waits,rfl⟩
    · exact absurd waits.1 awake
  · intro u chan holds
    rwa [pc] at holds
  · intro u np forks
    rw [pc] at forks ⊢
    exact ⟨forks,rfl,rfl⟩
  · intro u exits
    rw [pc] at exits
    exact .inl exits

theorem wakeAll (s : KState) (chans : Chan → Bool) : KinFrame s (wakeAll s chans) := by
  refine threads ?_ ?_ ?_ rfl ⟨[],rfl,by simp⟩
  · intro u
    rcases (ThreadFrame.wakeAll s chans).thread u with eq | ⟨asleep,eq⟩
    · exact .inl eq
    · refine .inr ⟨by simp [eq],fun _ => ?_⟩
      simp [Occupied,asleep]
  · intro p
    simp only [Kthreads.wakeAll]
    split <;> rfl
  · intro p
    simp only [Kthreads.wakeAll]
    split
    next woken =>
      obtain ⟨i,hit⟩ := woken
      refine .inr ⟨rfl,i,?_⟩
      simp only [wakes,Bool.and_eq_true,beq_iff_eq] at hit
      simp [Occupied,hit.1]
    next => exact .inl rfl

theorem rouse (s : KState) (p : ProcIx) : KinFrame s (rouse s p) := by
  refine threads ?_ (fun _ => rfl) (fun _ => .inl rfl) rfl ⟨[],rfl,by simp⟩
  intro u
  rcases (ThreadFrame.rouse s p).thread u with eq | ⟨asleep,eq⟩
  · exact .inl eq
  · refine .inr ⟨by simp [eq],fun _ => ?_⟩
    simp [Occupied,asleep]

theorem setThread (s : KState) (t : Slot) (v : Thread) (awake : v.state ≠ .tSleeping)
    (live : v.state ≠ .tUnused → v.state ≠ .tZombie → Occupied s t) : KinFrame s (s.setThread t v) := by
  refine threads ?_ (fun _ => rfl) (fun _ => .inl rfl) rfl ⟨[],rfl,by simp⟩
  intro u
  by_cases here : u = t
  · subst u
    refine .inr ⟨by simpa using awake,?_⟩
    intro occupied
    refine live ?_ ?_
    · simpa using occupied.1
    · simpa using occupied.2
  · exact .inl (by simp [here])

theorem setProc (s : KState) (p : ProcIx) (v : Proc)
    (same : (v.parent,v.pid,v.state) = ((s.proc p).parent,(s.proc p).pid,(s.proc p).state)) :
    KinFrame s (s.setProc p v) := by
  obtain ⟨parent,pid,state⟩ := by simpa only [Prod.mk.injEq] using same
  refine threads (fun _ => .inl rfl) ?_ ?_ rfl ⟨[],rfl,by simp⟩
  · intro q
    by_cases here : q = p
    · subst q
      simp [parent,pid]
    · simp [here]
  · intro q
    by_cases here : q = p
    · subst q
      exact .inl (by simpa using state)
    · exact .inl (by simp [here])

theorem freeSlot (s : KState) (u : Slot) (page : Page) : KinFrame s (freeSlot s u page) := by
  refine emit ?_ _ rfl
  refine trans (m := {s with freelist := page :: s.freelist}) (still rfl) ?_
  exact setThread _ u _ (by simp) (by simp)

theorem reapThread (s : KState) (u : Slot) : KinFrame s (reapThread s u) := by
  rcases reapThread_cases s u with eq | eq | ⟨page,_,eq⟩
  · rw [eq]
    exact refl s
  · rw [eq]
    exact still rfl
  · rw [eq]
    exact freeSlot s u page

theorem reapThreads (s : KState) (c : ProcIx) : KinFrame s (reapThreads s c) := by
  refine reapThreads_rule s c (refl s) ?_
  intro m i same _
  exact same.trans (reapThread m (c,i))

end KinFrame

inductive KinStep (s : KState) : Action → KState → Prop
  | frame {a : Action} {s' : KState} (same : KinFrame s s') : KinStep s a s'
  | sleep (t : Slot) (o : Oracle) (chan : Chan) (site : Site) (on : s.cpu t = .on)
      (falls : Falls s t chan site) : KinStep s (.run t o) (sleepCommit s t chan site)
  | birth (t : Slot) (o : Oracle) (p : ProcIx) (nt : Slot) (pc : Pc) (on : s.cpu t = .on)
      (births : Births s t p nt pc) (found : unusedSlot s p = some nt) :
      KinStep s (.run t o) ((allocthread s nt).goto t pc)
  | createRun (t : Slot) (o : Oracle) (nt : Slot) (place : s.pc t = .createRun nt) :
      KinStep s (.run t o) (createRun s t nt)
  | stackless (t : Slot) (o : Oracle) (nt : Slot) (place : s.pc t = .createStack nt)
      (empty : s.freelist = []) :
      KinStep s (.run t o) (((s.setProc nt.1 {s.proc nt.1 with state := .unused}).setThread nt
        {s.thread nt with kstack := none, state := .tUnused}).sysret t)
  | forkProc (t : Slot) (o : Oracle) (np : ProcIx) (on : s.cpu t = .on) (place : s.pc t = .forkProc)
      (unused : (s.proc np).state = .unused) :
      KinStep s (.run t o) ((({s with nextpid := next32 s.nextpid}.setProc np
        {s.proc np with state := .used, pid := s.nextpid}).emit (.forkBegin np)).goto t (.forkAlloc np))
  | forkDrop (t : Slot) (o : Oracle) (nt : Slot) (s' : KState)
      (place : s.pc t = .forkStack nt ∨ s.pc t = .forkCopy nt ∧ o.copied = false)
      (proc : s'.proc = update s.proc nt.1 {s.proc nt.1 with state := .unused})
      (thread : s'.thread = update s.thread nt {s.thread nt with kstack := none, state := .tUnused})
      (own : s'.pc t = .retKilled) (pc : ∀ u, u ≠ t → s'.pc u = s.pc u ∨ s'.pc u = .idle)
      (ids : (s'.nextpid,s'.initproc) = (s.nextpid,s.initproc))
      (hist : ∃ new, s'.hist = new ++ s.hist ∧ ∀ e ∈ new, e.kinless = true) : KinStep s (.run t o) s'
  | forkCopied (t : Slot) (o : Oracle) (nt : Slot) (on : s.cpu t = .on) (place : s.pc t = .forkCopy nt)
      (copied : o.copied = true) :
      KinStep s (.run t o) ((s.setProc nt.1 {s.proc nt.1 with parent := some t.1}).goto t (.forkRun nt))
  | forkRun (t : Slot) (o : Oracle) (nt : Slot) (on : s.cpu t = .on) (place : s.pc t = .forkRun nt) :
      KinStep s (.run t o) (forkRun s t nt)
  | exitFinal (t : Slot) (o : Oracle) (on : s.cpu t = .on) (place : s.pc t = .exitFinal) :
      KinStep s (.run t o) (exitFinal s t)
  | waitDone (t : Slot) (o : Oracle) (c : ProcIx) (found : zombieChild s t.1 = some c) :
      KinStep s (.run t o) (waitDone s (reapThreads s c) t c)

namespace KinFrame

theorem markSiblings (s : KState) (t : Slot) : KinFrame s (markSiblings s t) := by
  refine threads ?_ (fun _ => rfl) (fun _ => .inl rfl) rfl ⟨[],rfl,by simp⟩
  intro u
  by_cases own : u.1 = t.1
  · refine .inr ⟨?_,(markSiblings_occupied s t u).mp⟩
    intro asleep
    exact (markSiblings_asleep s t u asleep).1 own
  · exact .inl (by simp [Kthreads.markSiblings,own])

theorem wakeSleeper (s : KState) (p : ProcIx) (i : MutexIx) : KinFrame s (wakeSleeper s p i) := by
  unfold Kthreads.wakeSleeper
  split
  next => exact refl s
  next j found =>
    refine setThread s (p,j) _ (by simp) (fun _ _ => ?_)
    have chosen := List.find?_some found
    simp only [wakes,Bool.and_eq_true,beq_iff_eq] at chosen
    simp [Occupied,chosen.1]

theorem dispatch (s : KState) (t : Slot) (runnable : (s.thread t).state = .tRunnable) : KinFrame s (dispatch s t) := by
  have occupied : Occupied s t := by simp [Occupied,runnable]
  refine threads ?_ ?_ ?_ rfl ⟨[],rfl,by simp⟩
  · intro u
    by_cases here : u = t
    · subst u
      exact .inr ⟨by simp [Kthreads.dispatch],fun _ => occupied⟩
    · exact .inl (by simp [Kthreads.dispatch,here])
  · intro p
    by_cases own : p = t.1
    · subst p
      simp [Kthreads.dispatch]
    · simp [Kthreads.dispatch,own]
  · intro p
    by_cases own : p = t.1
    · subst p
      exact .inr ⟨by simp [Kthreads.dispatch],t.2,occupied⟩
    · exact .inl (by simp [Kthreads.dispatch,own])

theorem scheduler (s : KState) (t : Slot) (runnable : (s.thread t).state = .tRunnable) :
    KinFrame s (scheduler s t) := by
  by_cases asleep : ∃ site, s.pc t = .asleep site
  · obtain ⟨site,place⟩ := asleep
    have picked := dispatch s t runnable
    by_cases dies : (s.thread t).shouldDie = true
    · rw [scheduler_dies s t site place dies]
      exact picked.goto t .kthreadExit ⟨rfl,rfl,rfl⟩
    · rw [scheduler_lives s t site place (by simpa using dies)]
      have tidied : KinFrame s ({Kthreads.dispatch s t with
          ptableLock := if site.underPtable then some t else none}.setThread t
            {s.thread t with state := .tRunning, chan := none}) := by
        have freed : KinFrame s {Kthreads.dispatch s t with
            ptableLock := if site.underPtable then some t else none} := picked.trans (still rfl)
        refine freed.trans (setThread _ t {s.thread t with state := .tRunning, chan := none} (by simp) ?_)
        intro _ _
        simp [Occupied,Kthreads.dispatch]
      refine tidied.onward t site.resume ?_ ?_
      · cases site <;> rfl
      · rw [resume_life]
        change _ = (s.pc t).life
        rw [place]
  · rw [scheduler_plain s t (fun site place => asleep ⟨site,place⟩)]
    exact dispatch s t runnable

theorem yield (s : KState) (t : Slot) (running : (s.thread t).state = .tRunning) : KinFrame s (yield s t) := by
  have occupied : Occupied s t := by simp [Occupied,running]
  refine threads ?_ ?_ ?_ rfl ⟨[],rfl,by simp⟩
  · intro u
    by_cases here : u = t
    · subst u
      exact .inr ⟨by simp [Kthreads.yield],fun _ => occupied⟩
    · exact .inl (by simp [Kthreads.yield,here])
  · intro p
    by_cases own : p = t.1
    · subst p
      simp [Kthreads.yield]
    · simp [Kthreads.yield,own]
  · intro p
    by_cases own : p = t.1
    · subst p
      exact .inr ⟨by simp [Kthreads.yield],t.2,occupied⟩
    · exact .inl (by simp [Kthreads.yield,own])

theorem exitThread (s : KState) (t : Slot) : KinFrame s (exitThread s t) := by
  have woken : KinFrame s (wakeup1 s (.thread t)) := wakeAll s _
  have held : KinFrame s {wakeup1 s (.thread t) with ptableLock := some t} := woken.trans (still rfl)
  have ended := held.trans (setThread _ t {(wakeup1 s (.thread t)).thread t with
    shouldDie := false, state := .tZombie} (by simp) (by simp))
  exact (ended.trans (still rfl) : KinFrame s (KState.setCpu _ t .sched)).goto t .dead ⟨rfl,rfl,rfl⟩

theorem kstack (s : KState) (u : Slot) (page : Option Page) :
    KinFrame s (s.setThread u {s.thread u with kstack := page}) := by
  have same (v : Slot) : (update s.thread u {s.thread u with kstack := page} v).state = (s.thread v).state ∧
      (update s.thread u {s.thread u with kstack := page} v).chan = (s.thread v).chan := by
    by_cases here : v = u <;> simp [here]
  refine ⟨fun _ => rfl,fun _ => .inl rfl,rfl,?_,?_,fun _ _ holds => holds,fun _ _ forks => ⟨forks,rfl,rfl⟩,
    fun _ exits => .inl exits,[],rfl,by simp⟩
  · intro v occupied
    simpa only [Occupied,KState.setThread,(same v).1] using occupied
  · intro v waits
    refine ⟨?_,(same v).2⟩
    simpa only [Waits,KState.setThread,(same v).1] using waits

/-- The new thread gets its stack and its first context, and the creator goes on. -/
theorem stack (s : KState) (t nt : Slot) (pc : Pc) (page : Page) (rest : List Page) (gets : GetsStack s t nt pc) :
    KinFrame s (((({s with freelist := rest}.setThread nt {s.thread nt with kstack := some page}).setProc nt.1
      {s.proc nt.1 with numOfThread := (s.proc nt.1).numOfThread+1}).goto nt .user).goto t pc) := by
  let m : KState := ({s with freelist := rest}.setThread nt {s.thread nt with kstack := some page}).setProc nt.1
    {s.proc nt.1 with numOfThread := (s.proc nt.1).numOfThread+1}
  have owned : KinFrame s m := by
    refine trans (m := {s with freelist := rest}) (still rfl) ((kstack _ nt (some page)).trans ?_)
    exact setProc _ nt.1 {s.proc nt.1 with numOfThread := (s.proc nt.1).numOfThread+1} rfl
  have goes : KinFrame s (m.goto t pc) := by
    refine owned.moves t pc (by cases gets <;> rfl) ?_ ?_
    · intro np forks
      cases gets with
      | create place => contradiction
      | fork place =>
        rw [show m.pc t = _ from place]
        exact ⟨forks,rfl,rfl⟩
    · intro exits
      cases gets <;> contradiction
  change KinFrame s ((m.goto nt .user).goto t pc)
  by_cases here : nt = t
  · have same : (m.goto nt .user).goto t pc = m.goto t pc := by simp [KState.goto,here]
    rw [same]
    exact goes
  · have swap : (m.goto nt .user).goto t pc = (m.goto t pc).goto nt .user := by
      simp only [KState.goto]
      rw [update_comm here]
    rw [swap]
    exact goes.goto nt .user ⟨rfl,rfl,rfl⟩

theorem mutex (sub : MutexSection s t s') : KinFrame s s' := by
  cases sub with
  | goes place walks mutex nextmid mtableLock new quiet =>
    refine follows ?_ place rfl walks.onward walks.awake
    refine threads (fun _ => .inl rfl) (fun _ => rfl) (fun _ => .inl rfl) rfl ⟨new,rfl,?_⟩
    intro e member
    have returns := quiet e member
    cases e <;> first | contradiction | rfl
  | unlocks i id place mutex =>
    refine sysret (emit (trans ?_ (wakeSleeper _ t.1 i)) _ rfl) t
    exact still rfl
  | sleeps i id place free mutex =>
    refine follows ?_ place rfl ⟨.inl rfl,nofun,nofun⟩ rfl
    exact still rfl

theorem files (sub : FileSection s t s') : KinFrame s s' := by
  cases sub with
  | stays => exact still rfl
  | wakes =>
    refine trans ?_ (wakeAll _ _)
    exact still rfl
  | goes place walks =>
    refine follows ?_ place rfl walks.onward walks.awake
    exact still rfl
  | sleeps place sleeps =>
    refine follows ?_ place rfl (c := .sleepHold _ _) ?_ ?_
    · exact still rfl
    · cases sleeps <;> exact ⟨.inl rfl,nofun,nofun⟩
    · cases sleeps <;> rfl

end KinFrame

theorem DrainMove.exits {k : Drainer} {i n : Nat} (move : DrainMove s t k i n c) :
    c.waits = false ∧ c.life.forks = none ∧ (c.life.exits = true → k = .exit) := by
  cases k with
  | exit => cases move <;> exact ⟨rfl,rfl,fun _ => rfl⟩
  | exec => cases move <;> exact ⟨rfl,rfl,nofun⟩

/-- A thread's section changes the process table in one of the listed ways. -/
theorem code_kin (s s' : KState) (t : Slot) (o : Oracle) (calm : s.panicked = false) (on : s.cpu t = .on)
    (taken : code s t o = some s') : KinStep s (.run t o) s' := by
  have drains (m : KState) (same : KinFrame s m) (pcs : m.pc t = s.pc t) (k : Drainer) (i n : Nat) (c : Pc)
      (exits : (s.pc t).life.exits = true ∨ k = .exec) (move : DrainMove s t k i n c) :
      KinStep s (.run t o) (m.goto t c) := by
    obtain ⟨awake,forks,leaves⟩ := move.exits
    refine .frame (same.moves t c awake (fun np creates => absurd (forks.symm.trans creates) nofun) ?_)
    intro exit
    rw [pcs]
    rcases exits with inside | rfl
    · exact .inl inside
    · cases leaves exit
  cases code_sections calm taken with
  | panics => exact .frame (.still rfl)
  | walk place walks =>
    rcases walks.onward with ⟨k,i,n,rfl,move⟩ | onward
    · refine drains s (.refl s) rfl k i n _ ?_ move
      rw [place]
      cases k with
      | exit => exact .inl rfl
      | exec => exact .inr rfl
    · exact .frame ((KinFrame.refl s).follows place rfl onward walks.awake)
  | fault place =>
    exact .frame (.goto (.setProc s t.1 {s.proc t.1 with killed := true} rfl) t .retKilled ⟨rfl,rfl,rfl⟩)
  | mark k place free other =>
    refine .frame ((KinFrame.markSiblings s t).moves t _ rfl (fun np forks => by contradiction) ?_)
    intro exits
    cases k with
    | exit => exact .inr (other rfl)
    | exec => contradiction
  | drainWakes i n inside place asleep =>
    have occupied : Occupied s (t.1,⟨i,inside⟩) := by simp [Occupied,asleep]
    exact drains _ (.setThread s _ _ (by simp) fun _ _ => occupied) rfl .exec i n _ (.inr rfl)
      (.counted inside occupied.1)
  | drainFree k i n page place owned =>
    have freed := (KinFrame.freeSlot s (t.1,i) page).trans (.setProc _ t.1 {s.proc t.1 with
      numOfThread := (s.proc t.1).numOfThread-1} rfl)
    refine .frame (freed.moves t (.drain k (i.val+1) n) rfl (fun np forks => by contradiction) ?_)
    intro exits
    left
    change (s.pc t).life.exits = true
    rw [place]
    cases k with
    | exit => rfl
    | exec => contradiction
  | exitThread place free => exact .frame (.exitThread s t)
  | exitFinal place free => exact .exitFinal t o on place
  | birth p nt c births free found => exact .birth t o p nt c on births found
  | stack nt c page rest gets head => exact .frame (.stack s t nt c page rest gets)
  | stackless nt c gets empty =>
    cases gets with
    | create place => exact .stackless t o nt place empty
    | fork place =>
      refine .forkDrop t o nt _ (.inl place) rfl rfl ?_ ?_ rfl ⟨[],rfl,by simp⟩
      · simp
      · intro u other
        exact .inl (by simp [other])
  | createRun nt place free => exact .createRun t o nt place
  | forkProc np place free unused => exact .forkProc t o np on place unused
  | forkCopied nt place copied => exact .forkCopied t o nt on place copied
  | forkFailed nt page place short owned =>
    refine .forkDrop t o nt _ (.inr ⟨place,short⟩) rfl rfl ?_ ?_ rfl ⟨[_],rfl,by simp [Event.kinless,Event.waited]⟩
    · simp
    · intro u other
      by_cases new : u = nt
      · subst u
        exact .inr (by simp [other])
      · exact .inl (by simp [other,new])
  | forkRun nt place free => exact .forkRun t o nt on place
  | waitPanic c place found => exact .frame (.reapThreads s c)
  | waitDone c place own found => exact .waitDone t o c found
  | waitNone place own =>
    have freed : KinFrame s {s with ptableLock := none} := .still rfl
    exact .frame ((freed.emit _ rfl).sysret t)
  | joinDies tid place own =>
    have freed : KinFrame s {s with ptableLock := none} := .still rfl
    exact .frame (freed.goto t _ ⟨rfl,rfl,rfl⟩)
  | joinMissing tid place own missing =>
    have freed : KinFrame s {s with ptableLock := none} := .still rfl
    exact .frame ((freed.emit _ rfl).sysret t)
  | joinFound tid u place own found zombie =>
    have freed : KinFrame s {s with ptableLock := none} := .still rfl
    exact .frame (freed.goto t _ ⟨rfl,rfl,rfl⟩)
  | joinFree tid u page place owned =>
    exact .frame (.sysret (.emit ((KinFrame.freeSlot s u page).trans (.setThread _ u _ (by simp) (by simp))) _ rfl) t)
  | sleep chan site falls own => exact .sleep t o chan site on falls
  | kill pid p place found =>
    exact .frame (((KinFrame.setProc s p {s.proc p with killed := true} rfl).trans (.rouse _ p)).sysret t)
  | mutex sub => exact .frame (.mutex sub)
  | files sub => exact .frame (.files sub)

theorem step_kin (s s' : KState) (a : Action) (taken : step s a = some s') : KinStep s a s' := by
  obtain ⟨calm,taken⟩ := step_cases taken
  cases taken with
  | run t o s' on taken => exact code_kin s s' t o calm on taken
  | scheduler t free off runnable => exact .frame (.scheduler s t runnable)
  | yield t free on running => exact .frame (.yield s t running)
  | wakeup n => exact .frame (.wakeAll s _)
  | ideintr b rest => exact .frame (.trans (m := {s with idequeue := rest}) (.still rfl) (.wakeAll _ _))
  | swtch | spurious | takePage | givePage => exact .frame (.still rfl)

end Kthreads
