import Kthreads.Kernel.Sections
import Kthreads.Kernel.Start

/-! What a kernel step can do to the thread tables. Most sections at most make
sleepers runnable; those that change a thread in any other way are the remaining
cases. -/
namespace Kthreads
variable {m s s' : KState} {t : Slot} {c c₀ : Pc}

/-- The part of a thread's life that a place belongs to. -/
inductive Life
  | idle | dead | plain
  | drain (k : Drainer) (i numthread : Nat)
  | drainFree (k : Drainer) (i : Fin nthread) (numthread : Nat)
  | tail
  | createStack (nt : Slot)
  | createRun (nt : Slot)
  | forkAlloc (np : ProcIx)
  | forkStack (nt : Slot)
  | forkCopy (nt : Slot)
  | forkRun (nt : Slot)
  | joinFree (tid : Int) (u : Slot)
  deriving DecidableEq

def Life.busy : Life → Bool
  | .idle | .dead | .plain => false
  | _ => true

def Life.pending : Life → Option Slot
  | .createStack nt | .createRun nt | .forkStack nt | .forkCopy nt | .forkRun nt => some nt
  | _ => none

def Life.blank : Life → Option Slot
  | .createStack nt | .forkStack nt => some nt
  | _ => none

def FsRet.life : FsRet → Life
  | .exit => .tail
  | _ => .plain

def DeallocRet.life : DeallocRet → Life
  | .exit _ => .tail
  | .sys => .plain

def Site.life : Site → Life
  | .log k | .lock _ k | .disk _ k | .other _ k => k.life
  | _ => .plain

def Pc.life : Pc → Life
  | .idle => .idle
  | .dead => .dead
  | .drain k i n => .drain k i n
  | .drainFree k i n => .drainFree k i n
  | .exitMutexes _ | .exitFinal => .tail
  | .deallocCall _ k | .deallocHold _ _ k => k.life
  | .createStack nt => .createStack nt
  | .createRun nt => .createRun nt
  | .forkAlloc np => .forkAlloc np
  | .forkStack nt => .forkStack nt
  | .forkCopy nt => .forkCopy nt
  | .forkRun nt => .forkRun nt
  | .joinFree tid u => .joinFree tid u
  | .sleepHold _ site | .asleep site | .reacquire site => site.life
  | .fs k | .beginOp k | .acquireSleep _ k | .ideWait _ k => k.life
  | _ => .plain

def Active (s : KState) (t : Slot) : Prop := s.pc t ≠ .idle ∧ s.pc t ≠ .dead

instance (s : KState) (t : Slot) : Decidable (Active s t) := inferInstanceAs (Decidable (_ ∧ _))

theorem Pc.life_ends (c : Pc) : (c.life = .idle → c = .idle) ∧ (c.life = .dead → c = .dead) := by
  cases c <;> simp [Pc.life]
  case deallocCall k | deallocHold k => cases k <;> simp [DeallocRet.life]
  case sleepHold site | asleep site | reacquire site =>
    cases site <;> simp [Site.life] <;> rename_i k <;> cases k <;> simp [FsRet.life]
  case fs k | beginOp k | acquireSleep k | ideWait k => cases k <;> simp [FsRet.life]

theorem active_iff (s : KState) (t : Slot) :
    Active s t ↔ (s.pc t).life ≠ .idle ∧ (s.pc t).life ≠ .dead := by
  have idle : s.pc t = .idle ↔ (s.pc t).life = .idle := ⟨fun same => by rw [same]; rfl,(s.pc t).life_ends.1⟩
  have dead : s.pc t = .dead ↔ (s.pc t).life = .dead := ⟨fun same => by rw [same]; rfl,(s.pc t).life_ends.2⟩
  rw [Active,Ne,Ne,idle,dead]

def Event.threadless : Event → Bool
  | .created _ | .joinRet _ _ _ | .kfree _ _ | .forkBegin _ | .forkDone _ => false
  | _ => true

structure ThreadFrame (s s' : KState) : Prop where
  thread : ∀ u, s'.thread u = s.thread u ∨ (s.thread u).state = .tSleeping ∧
    s'.thread u = {s.thread u with state := .tRunnable}
  proc : ∀ p, (s'.proc p).state = (s.proc p).state ∨
    (s'.proc p).state = .used ∧ ∃ i, Occupied s' (p,i)
  cpu : s'.cpu = s.cpu
  nexttid : s'.nexttid = s.nexttid
  freelist : s'.freelist = s.freelist
  otherPages : s'.otherPages = s.otherPages
  pc : ∀ u, (s'.pc u).life = (s.pc u).life ∨ (s'.pc u).life = .plain ∧ Active s u
  hist : ∃ new, s'.hist = new ++ s.hist ∧ ∀ e ∈ new, e.threadless = true

namespace ThreadFrame

section Facts
variable {s s' : KState} (same : ThreadFrame s s') (u : Slot)
include same

theorem tid : (s'.thread u).tid = (s.thread u).tid := by
  rcases same.thread u with eq | ⟨_,eq⟩ <;> rw [eq]

theorem shouldDie : (s'.thread u).shouldDie = (s.thread u).shouldDie := by
  rcases same.thread u with eq | ⟨_,eq⟩ <;> rw [eq]

theorem occupied : Occupied s' u ↔ Occupied s u := by
  rcases same.thread u with eq | ⟨asleep,eq⟩
  · simp [Occupied,eq]
  · simp [Occupied,eq,asleep]

theorem active : Active s' u ↔ Active s u := by
  rcases same.pc u with eq | ⟨plain,active⟩
  · rw [active_iff,active_iff,eq]
  · simp [active_iff s' u,plain,active]

end Facts

theorem refl (s : KState) : ThreadFrame s s where
  thread _ := .inl rfl
  proc _ := .inl rfl
  cpu := rfl
  nexttid := rfl
  freelist := rfl
  otherPages := rfl
  pc _ := .inl rfl
  hist := ⟨[],rfl,by simp⟩

theorem trans (first : ThreadFrame s m) (second : ThreadFrame m s') :
    ThreadFrame s s' where
  thread u := by
    rcases second.thread u with eq | ⟨asleep,eq⟩
    · rw [eq]
      exact first.thread u
    · rcases first.thread u with old | ⟨_,old⟩
      · rw [eq,old]
        exact .inr ⟨by rw [← old]; exact asleep,rfl⟩
      · simp [old] at asleep
  proc p := by
    rcases second.proc p with eq | later
    · rw [eq]
      rcases first.proc p with old | ⟨used,i,occupied⟩
      · exact .inl old
      · exact .inr ⟨used,i,(second.occupied (p,i)).mpr occupied⟩
    · exact .inr later
  cpu := second.cpu.trans first.cpu
  nexttid := second.nexttid.trans first.nexttid
  freelist := second.freelist.trans first.freelist
  otherPages := second.otherPages.trans first.otherPages
  pc u := by
    rcases second.pc u with eq | ⟨plain,active⟩
    · rw [eq]
      exact first.pc u
    · exact .inr ⟨plain,(first.active u).mp active⟩
  hist := by
    obtain ⟨new₁,eq₁,quiet₁⟩ := first.hist
    obtain ⟨new₂,eq₂,quiet₂⟩ := second.hist
    refine ⟨new₂ ++ new₁,by rw [eq₂,eq₁,List.append_assoc],?_⟩
    intro e member
    rcases List.mem_append.mp member with late | early
    · exact quiet₂ e late
    · exact quiet₁ e early

theorem still (same :
    (s'.thread,s'.proc,s'.cpu,s'.nexttid,s'.freelist,s'.otherPages,s'.pc,s'.hist) =
      (s.thread,s.proc,s.cpu,s.nexttid,s.freelist,s.otherPages,s.pc,s.hist)) : ThreadFrame s s' := by
  obtain ⟨thread,proc,cpu,nexttid,freelist,otherPages,place,hist⟩ := by
    simpa only [Prod.mk.injEq] using same
  exact ⟨fun u => .inl (by rw [thread]),fun p => .inl (by rw [proc]),cpu,nexttid,freelist,
    otherPages,fun u => .inl (by rw [place]),[],hist,by simp⟩

theorem goto (same : ThreadFrame s m) (t : Slot) (pc : Pc)
    (life : pc.life = (m.pc t).life ∨ pc.life = .plain ∧ Active s t) :
    ThreadFrame s (m.goto t pc) := by
  refine same.trans ⟨fun _ => .inl rfl,fun _ => .inl rfl,rfl,rfl,rfl,rfl,?_,⟨[],rfl,by simp⟩⟩
  intro u
  by_cases here : u = t
  · subst u
    rcases life with equal | ⟨plain,active⟩
    · exact .inl (by simpa using equal)
    · exact .inr ⟨by simpa using plain,(same.active t).mpr active⟩
  · exact .inl (by simp [here])

theorem emit (same : ThreadFrame s m) (e : Event) (quiet : e.threadless = true) :
    ThreadFrame s (m.emit e) :=
  same.trans ⟨fun _ => .inl rfl,fun _ => .inl rfl,rfl,rfl,rfl,rfl,fun _ => .inl rfl,
    ⟨[e],rfl,by simpa using quiet⟩⟩

theorem sysret (same : ThreadFrame s m) (t : Slot) (active : Active s t) :
    ThreadFrame s (m.sysret t) := same.goto t .retKilled (.inr ⟨rfl,active⟩)

theorem wakeAll (s : KState) (chans : Chan → Bool) : ThreadFrame s (wakeAll s chans) where
  thread u := by
    by_cases woken : wakes chans (s.thread u) = true
    · have asleep : (s.thread u).state = .tSleeping := by
        simp only [wakes,Bool.and_eq_true,beq_iff_eq] at woken
        exact woken.1
      exact .inr ⟨asleep,by simp [Kthreads.wakeAll,woken]⟩
    · exact .inl (by simp [Kthreads.wakeAll,woken])
  proc p := by
    by_cases woken : ∃ i, wakes chans (s.thread (p,i)) = true
    · obtain ⟨i,hit⟩ := woken
      refine .inr ⟨by simp only [Kthreads.wakeAll]; rw [if_pos ⟨i,hit⟩],i,?_⟩
      simp [Occupied,Kthreads.wakeAll,hit]
    · exact .inl (by simp only [Kthreads.wakeAll]; rw [if_neg woken])
  cpu := rfl
  nexttid := rfl
  freelist := rfl
  otherPages := rfl
  pc _ := .inl rfl
  hist := ⟨[],rfl,by simp⟩

theorem wakeOne (s : KState) (u : Slot) (asleep : (s.thread u).state = .tSleeping) :
    ThreadFrame s (s.setThread u {s.thread u with state := .tRunnable}) where
  thread v := by
    by_cases same : v = u
    · subst v
      exact .inr ⟨asleep,by simp⟩
    · exact .inl (by simp [same])
  proc _ := .inl rfl
  cpu := rfl
  nexttid := rfl
  freelist := rfl
  otherPages := rfl
  pc _ := .inl rfl
  hist := ⟨[],rfl,by simp⟩

theorem rouse (s : KState) (p : ProcIx) : ThreadFrame s (rouse s p) where
  thread u := by
    by_cases asleep : u.1 = p ∧ (s.thread u).state = .tSleeping
    · exact .inr ⟨asleep.2,by simp [Kthreads.rouse,asleep]⟩
    · exact .inl (by simp only [Kthreads.rouse]; rw [if_neg asleep])
  proc _ := .inl rfl
  cpu := rfl
  nexttid := rfl
  freelist := rfl
  otherPages := rfl
  pc _ := .inl rfl
  hist := ⟨[],rfl,by simp⟩

theorem setProc (s : KState) (p : ProcIx) (v : Proc) (state : v.state = (s.proc p).state) :
    ThreadFrame s (s.setProc p v) where
  thread _ := .inl rfl
  proc q := by
    by_cases same : q = p
    · subst q
      exact .inl (by simpa using state)
    · exact .inl (by simp [same])
  cpu := rfl
  nexttid := rfl
  freelist := rfl
  otherPages := rfl
  pc _ := .inl rfl
  hist := ⟨[],rfl,by simp⟩

end ThreadFrame

inductive ThreadStep (s : KState) : Action → KState → Prop
  | frame {a : Action} {s' : KState} (same : ThreadFrame s s') : ThreadStep s a s'
  | scheduler (t : Slot) (free : s.ptableLock = none) (off : s.cpu t = .off)
      (runnable : (s.thread t).state = .tRunnable) : ThreadStep s (.scheduler t) (scheduler s t)
  | yield (t : Slot) (free : s.ptableLock = none) (on : s.cpu t = .on)
      (running : (s.thread t).state = .tRunning) : ThreadStep s (.yield t) (yield s t)
  | swtch (t : Slot) (inside : s.cpu t = .sched) : ThreadStep s (.swtch t) (swtch s t)
  | takePage (page : Page) (rest : List Page) (head : s.freelist = page :: rest) :
      ThreadStep s .takePage {s with freelist := rest, otherPages := page :: s.otherPages}
  | givePage (page : Page) (member : page ∈ s.otherPages) :
      ThreadStep s (.givePage page)
        {s with freelist := page :: s.freelist, otherPages := s.otherPages.erase page}
  | sleep (t : Slot) (o : Oracle) (chan : Chan) (site : Site) (on : s.cpu t = .on)
      (falls : Falls s t chan site) : ThreadStep s (.run t o) (sleepCommit s t chan site)
  | exitThread (t : Slot) (o : Oracle) (on : s.cpu t = .on) (place : s.pc t = .exitThread)
      (free : s.ptableLock = none) : ThreadStep s (.run t o) (exitThread s t)
  | mark (t : Slot) (o : Oracle) (k : Drainer) (on : s.cpu t = .on) (place : s.pc t = k.marks)
      (free : s.ptableLock = none) :
      ThreadStep s (.run t o) ((markSiblings s t).goto t (.drain k 0 0))
  | drain (t : Slot) (o : Oracle) (k : Drainer) (i n : Nat) (m : KState) (pc : Pc)
      (on : s.cpu t = .on) (place : s.pc t = .drain k i n) (same : ThreadFrame s m)
      (pcs : m.pc = s.pc) (move : DrainMove s t k i n pc) : ThreadStep s (.run t o) (m.goto t pc)
  | drainFree (t : Slot) (o : Oracle) (k : Drainer) (i : Fin nthread) (n : Nat) (page : Page)
      (on : s.cpu t = .on) (place : s.pc t = .drainFree k i n)
      (owned : (s.thread (t.1,i)).kstack = some page) :
      ThreadStep s (.run t o) (((freeSlot s (t.1,i) page).setProc t.1 {s.proc t.1 with
        numOfThread := (s.proc t.1).numOfThread-1}).goto t (.drain k (i.val+1) n))
  | exitFinal (t : Slot) (o : Oracle) (on : s.cpu t = .on) (place : s.pc t = .exitFinal)
      (free : s.ptableLock = none) : ThreadStep s (.run t o) (exitFinal s t)
  | birth (t : Slot) (o : Oracle) (p : ProcIx) (nt : Slot) (pc : Pc) (on : s.cpu t = .on)
      (births : Births s t p nt pc) (free : s.ptableLock = none)
      (found : unusedSlot s p = some nt) : ThreadStep s (.run t o) ((allocthread s nt).goto t pc)
  | stack (t : Slot) (o : Oracle) (nt : Slot) (pc : Pc) (page : Page) (rest : List Page)
      (on : s.cpu t = .on) (gets : GetsStack s t nt pc) (head : s.freelist = page :: rest) :
      ThreadStep s (.run t o) (((({s with freelist := rest}.setThread nt
        {s.thread nt with kstack := some page}).setProc nt.1
          {s.proc nt.1 with numOfThread := (s.proc nt.1).numOfThread+1}).goto nt .user).goto t pc)
  | stackless (t : Slot) (o : Oracle) (nt : Slot) (pc : Pc) (on : s.cpu t = .on)
      (gets : GetsStack s t nt pc) (empty : s.freelist = []) :
      ThreadStep s (.run t o) (((s.setProc nt.1 {s.proc nt.1 with state := .unused}).setThread nt
        {s.thread nt with kstack := none, state := .tUnused}).sysret t)
  | createRun (t : Slot) (o : Oracle) (nt : Slot) (on : s.cpu t = .on)
      (place : s.pc t = .createRun nt) (free : s.ptableLock = none) :
      ThreadStep s (.run t o) (createRun s t nt)
  | forkProc (t : Slot) (o : Oracle) (np : ProcIx) (on : s.cpu t = .on) (place : s.pc t = .forkProc)
      (free : s.ptableLock = none) (unused : (s.proc np).state = .unused) :
      ThreadStep s (.run t o) ((({s with nextpid := next32 s.nextpid}.setProc np
        {s.proc np with state := .used, pid := s.nextpid}).emit (.forkBegin np)).goto t (.forkAlloc np))
  | forkCopied (t : Slot) (o : Oracle) (nt : Slot) (on : s.cpu t = .on)
      (place : s.pc t = .forkCopy nt) :
      ThreadStep s (.run t o)
        ((s.setProc nt.1 {s.proc nt.1 with parent := some t.1}).goto t (.forkRun nt))
  | forkFailed (t : Slot) (o : Oracle) (nt : Slot) (page : Page) (on : s.cpu t = .on)
      (place : s.pc t = .forkCopy nt) (owned : (s.thread nt).kstack = some page) (short : o.copied = false) :
      ThreadStep s (.run t o) ((((({s with freelist := page :: s.freelist}.setThread nt
        {s.thread nt with kstack := none, state := .tUnused}).setProc nt.1
          {s.proc nt.1 with state := .unused}).emit (.kfree (s.thread nt).tid page)).goto nt .idle).sysret t)
  | forkRun (t : Slot) (o : Oracle) (nt : Slot) (on : s.cpu t = .on)
      (place : s.pc t = .forkRun nt) (free : s.ptableLock = none) :
      ThreadStep s (.run t o) (forkRun s t nt)
  | waitPanic (t : Slot) (o : Oracle) (c : ProcIx) (on : s.cpu t = .on) (place : s.pc t = .waitLoop)
      (found : zombieChild s t.1 = some c) : ThreadStep s (.run t o) (reapThreads s c)
  | waitDone (t : Slot) (o : Oracle) (c : ProcIx) (on : s.cpu t = .on) (place : s.pc t = .waitLoop)
      (found : zombieChild s t.1 = some c) :
      ThreadStep s (.run t o) (waitDone s (reapThreads s c) t c)
  | joinFound (t : Slot) (o : Oracle) (tid : Int) (u : Slot) (on : s.cpu t = .on)
      (place : s.pc t = .joinLoop tid) (found : findThread s tid = some u)
      (zombie : (s.thread u).state = .tZombie) :
      ThreadStep s (.run t o) ({s with ptableLock := none}.goto t (.joinFree tid u))
  | joinMissing (t : Slot) (o : Oracle) (tid : Int) (on : s.cpu t = .on)
      (place : s.pc t = .joinLoop tid) (missing : findThread s tid = none) :
      ThreadStep s (.run t o) (({s with ptableLock := none}.emit (.joinRet t tid (-1))).sysret t)
  | joinFree (t : Slot) (o : Oracle) (tid : Int) (u : Slot) (page : Page) (on : s.cpu t = .on)
      (place : s.pc t = .joinFree tid u) (owned : (s.thread u).kstack = some page) :
      ThreadStep s (.run t o) ((((freeSlot s u page).setThread u {s.thread u with
        kstack := none, tid := 0, state := .tUnused, shouldDie := false}).emit
          (.joinRet t tid 0)).sysret t)

def Onward (c₀ c : Pc) : Prop := (c.life = c₀.life ∨ c.life = .plain) ∧ c₀ ≠ .idle ∧ c₀ ≠ .dead

theorem entry_life (c : Syscall) : c.entry.life = .plain := by
  cases c <;> simp only [Syscall.entry] <;> (try split) <;> rfl

theorem Walks.onward (walks : Walks s t c₀ c) :
    (∃ k i n, c₀ = .drain k i n ∧ DrainMove s t k i n c) ∨ Onward c₀ c := by
  cases walks with
  | drain k i n c move => exact .inl ⟨k,i,n,rfl,move⟩
  | calls c => exact .inr ⟨.inr (entry_life c),nofun,nofun⟩
  | owned | skipped | swept | logWoken | lockWoken | diskWoken | otherWoken =>
    exact .inr ⟨.inl rfl,nofun,nofun⟩
  | _ => exact .inr ⟨.inr rfl,nofun,nofun⟩

theorem MutexWalks.onward (walks : MutexWalks c₀ c) : Onward c₀ c := by
  cases walks with
  | deallocRefused id k | deallocDone i id k =>
    cases k with
    | sys => exact ⟨.inr rfl,nofun,nofun⟩
    | exit j => exact ⟨.inl rfl,nofun,nofun⟩
  | _ => exact ⟨.inl rfl,nofun,nofun⟩

theorem FileWalks.onward (walks : FileWalks c₀ c) : Onward c₀ c := by
  cases walks with
  | returns k =>
    cases k with
    | exit => exact ⟨.inl rfl,nofun,nofun⟩
    | sys | exec => exact ⟨.inr rfl,nofun,nofun⟩
  | _ => exact ⟨.inl rfl,nofun,nofun⟩

namespace ThreadFrame

theorem goes (same : ThreadFrame s m) (place : s.pc t = c₀) (pcs : m.pc = s.pc)
    (onward : Onward c₀ c) : ThreadFrame s (m.goto t c) := by
  subst place
  obtain ⟨life,active⟩ := onward
  rw [← pcs] at life
  exact same.goto t c (life.imp_right fun plain => ⟨plain,active⟩)

theorem wakeSleeper (s : KState) (p : ProcIx) (i : MutexIx) : ThreadFrame s (wakeSleeper s p i) := by
  unfold Kthreads.wakeSleeper
  split
  next none => exact refl s
  next j found =>
    refine wakeOne s (p,j) ?_
    have chosen := List.find?_some found
    simp only [wakes,Bool.and_eq_true,beq_iff_eq] at chosen
    exact chosen.1

theorem mutex (sub : MutexSection s t s') : ThreadFrame s s' := by
  cases sub with
  | goes place walks mutex nextmid mtableLock new quiet =>
    refine goes ?_ place rfl walks.onward
    refine ⟨fun _ => .inl rfl,fun _ => .inl rfl,rfl,rfl,rfl,rfl,fun _ => .inl rfl,new,rfl,?_⟩
    intro e member
    have returns := quiet e member
    cases e <;> first | contradiction | rfl
  | unlocks i id place mutex =>
    refine sysret (emit (trans ?_ (wakeSleeper _ t.1 i)) _ rfl) t ⟨by simp [place],by simp [place]⟩
    exact still rfl
  | sleeps i id place free mutex =>
    refine goes ?_ place rfl ⟨.inl rfl,nofun,nofun⟩
    exact still rfl

theorem files (sub : FileSection s t s') : ThreadFrame s s' := by
  cases sub with
  | stays => exact still rfl
  | wakes =>
    refine trans ?_ (wakeAll _ _)
    exact still rfl
  | goes place walks =>
    refine goes ?_ place rfl walks.onward
    exact still rfl
  | sleeps place sleeps =>
    refine goes ?_ place rfl ?_
    · exact still rfl
    · cases sleeps <;> exact ⟨.inl rfl,nofun,nofun⟩

end ThreadFrame

/-- A thread's section changes the thread tables in one of the listed ways. -/
theorem code_thread (s s' : KState) (t : Slot) (o : Oracle) (calm : s.panicked = false)
    (on : s.cpu t = .on) (taken : code s t o = some s') : ThreadStep s (.run t o) s' := by
  cases code_sections calm taken with
  | panics => exact .frame (.still rfl)
  | walk place walks =>
    rcases walks.onward with ⟨k,i,n,rfl,move⟩ | onward
    · exact .drain t o k i n s _ on place (.refl s) rfl move
    · exact .frame ((ThreadFrame.refl s).goes place rfl onward)
  | fault place =>
    exact .frame (.goes (.setProc s t.1 {s.proc t.1 with killed := true} rfl) place rfl ⟨.inr rfl,nofun,nofun⟩)
  | mark k place free other => exact .mark t o k on place free
  | drainWakes i n inside place asleep =>
    exact .drain t o .exec i n _ _ on place (.wakeOne s _ asleep) rfl (.counted inside (by simp [asleep]))
  | drainFree k i n page place owned => exact .drainFree t o k i n page on place owned
  | exitThread place free => exact .exitThread t o on place free
  | exitFinal place free => exact .exitFinal t o on place free
  | birth p nt c births free found => exact .birth t o p nt c on births free found
  | stack nt c page rest gets head => exact .stack t o nt c page rest on gets head
  | stackless nt c gets empty => exact .stackless t o nt c on gets empty
  | createRun nt place free => exact .createRun t o nt on place free
  | forkProc np place free unused => exact .forkProc t o np on place free unused
  | forkCopied nt place copied => exact .forkCopied t o nt on place
  | forkFailed nt page place short owned => exact .forkFailed t o nt page on place owned short
  | forkRun nt place free => exact .forkRun t o nt on place free
  | waitPanic c place found => exact .waitPanic t o c on place found
  | waitDone c place own found => exact .waitDone t o c on place found
  | waitNone place own =>
    refine .frame (.sysret (.emit ?_ _ rfl) t ⟨by simp [place],by simp [place]⟩)
    exact .still rfl
  | joinDies tid place own =>
    refine .frame (.goes ?_ place rfl ⟨.inl rfl,nofun,nofun⟩)
    exact .still rfl
  | joinMissing tid place own missing => exact .joinMissing t o tid on place missing
  | joinFound tid u place own found zombie => exact .joinFound t o tid u on place found zombie
  | joinFree tid u page place owned => exact .joinFree t o tid u page on place owned
  | sleep chan site falls own => exact .sleep t o chan site on falls
  | kill pid p place found =>
    refine .frame (.sysret ?_ t ⟨by simp [place],by simp [place]⟩)
    exact (ThreadFrame.setProc s p {s.proc p with killed := true} rfl).trans (.rouse _ p)
  | mutex sub => exact .frame (.mutex sub)
  | files sub => exact .frame (.files sub)

theorem step_thread (s s' : KState) (a : Action) (taken : step s a = some s') : ThreadStep s a s' := by
  obtain ⟨calm,taken⟩ := step_cases taken
  cases taken with
  | run t o s' on taken => exact code_thread s s' t o calm on taken
  | scheduler t free off runnable => exact .scheduler t free off runnable
  | yield t free on running => exact .yield t free on running
  | swtch t inside => exact .swtch t inside
  | wakeup n => exact .frame (.wakeAll s _)
  | spurious => exact .frame (.refl s)
  | ideintr b rest => exact .frame (.trans (m := {s with idequeue := rest}) (.still rfl) (.wakeAll _ _))
  | takePage page rest head => exact .takePage page rest head
  | givePage page member => exact .givePage page member

end Kthreads
