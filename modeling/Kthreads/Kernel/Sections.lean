import Kthreads.Kernel.Step

/-! What a section of a thread can be. The cases of the process and thread tables are told apart; a section of
a mutex call or of the file system is described by what it leaves alone. -/
namespace Kthreads

def Drainer.marks : Drainer → Pc
  | .exit => .exitMark
  | .exec => .execMark

inductive Falls (s : KState) (t : Slot) : Chan → Site → Prop
  | hold (chan : Chan) (site : Site) (place : s.pc t = .sleepHold chan site) : Falls s t chan site
  | join (tid : Int) (u : Slot) (place : s.pc t = .joinLoop tid)
      (lives : (s.thread t).shouldDie = false) : Falls s t (.thread u) (.join tid)
  | wait (place : s.pc t = .waitLoop) (none : zombieChild s t.1 = none)
      (waits : (∃ c, (s.proc c).parent = some t.1) ∧ (s.proc t.1).killed = false) :
      Falls s t (.thread t) .wait

/-- What the draining loop does with one entry, or at the end of a scan. -/
inductive DrainMove (s : KState) (t : Slot) (k : Drainer) (i n : Nat) : Pc → Prop
  | zombie (inside : i < nthread) (dead : (s.thread (t.1,⟨i,inside⟩)).state = .tZombie) :
      DrainMove s t k i n (.drainFree k ⟨i,inside⟩ n)
  | unused (inside : i < nthread) (empty : (s.thread (t.1,⟨i,inside⟩)).state = .tUnused) :
      DrainMove s t k i n (.drain k (i+1) n)
  | counted (inside : i < nthread) (used : (s.thread (t.1,⟨i,inside⟩)).state ≠ .tUnused) :
      DrainMove s t k i n (.drain k (i+1) (n+1))
  | again (past : nthread ≤ i) (many : 1 < n) : DrainMove s t k i n (.drain k 0 0)
  | done (past : nthread ≤ i) (few : n ≤ 1) : DrainMove s t k i n k.next

inductive Births (s : KState) (t : Slot) : ProcIx → Slot → Pc → Prop
  | create (nt : Slot) (place : s.pc t = .createAlloc) : Births s t t.1 nt (.createStack nt)
  | fork (np : ProcIx) (nt : Slot) (place : s.pc t = .forkAlloc np) : Births s t np nt (.forkStack nt)

inductive GetsStack (s : KState) (t nt : Slot) : Pc → Prop
  | create (place : s.pc t = .createStack nt) : GetsStack s t nt (.createRun nt)
  | fork (place : s.pc t = .forkStack nt) : GetsStack s t nt (.forkCopy nt)

/-- `kfree(t->kstack); t->kstack = 0; t->tid = 0; t->state = T_UNUSED`, of a stack that is there. -/
def freeSlot (s : KState) (u : Slot) (page : Page) : KState :=
  ({s with freelist := page :: s.freelist}.setThread u
    {s.thread u with kstack := none, tid := 0, state := .tUnused}).emit (.kfree (s.thread u).tid page)

def waitDone (s freed : KState) (t : Slot) (c : ProcIx) : KState :=
  (({freed with ptableLock := none}.setProc c {freed.proc c with
    pid := 0, parent := none, killed := false, state := .unused}).emit
      (.waitRet t (s.proc c).pid)).sysret t

section
variable (s : KState)
include s

theorem reapThread_none (u : Slot) (calm : s.panicked = false)
    (none : (s.thread u).kstack = none) : reapThread s u = s.panic := by
  simp [reapThread,calm,none]

theorem reapThread_some (u : Slot) (page : Page) (calm : s.panicked = false)
    (owned : (s.thread u).kstack = some page) : reapThread s u = freeSlot s u page := by
  unfold reapThread
  rw [if_neg (by simp [calm]),owned]
  rfl

theorem reapThread_cases (u : Slot) : reapThread s u = s ∨ reapThread s u = s.panic ∨
    ∃ page, (s.thread u).kstack = some page ∧ reapThread s u = freeSlot s u page := by
  unfold reapThread
  split
  · exact .inl rfl
  · split
    · exact .inr (.inl rfl)
    next page owned => exact .inr (.inr ⟨page,owned,rfl⟩)

/-- The loop of `wait` keeps what the freeing of each zombie keeps. -/
theorem reapThreads_rule {P : KState → Prop} (c : ProcIx) (start : P s)
    (keeps : ∀ m i, P m → (m.thread (c,i)).state = .tZombie → P (reapThread m (c,i))) :
    P (reapThreads s c) := by
  unfold reapThreads
  induction List.finRange nthread generalizing s with
  | nil => exact start
  | cons i rest ih =>
    rw [List.foldl_cons]
    apply ih
    split
    next zombie => exact keeps s i start zombie
    next other => exact start

/-- The loop of `wait` writes threads, pages and the history, or panics. -/
theorem reapThreads_rest (c : ProcIx) : ∃ thread freelist hist panicked, reapThreads s c =
    {s with thread := thread, freelist := freelist, hist := hist, panicked := panicked} := by
  refine reapThreads_rule s (P := fun m => ∃ thread freelist hist panicked, m =
    {s with thread := thread, freelist := freelist, hist := hist, panicked := panicked}) c ⟨_,_,_,_,rfl⟩ ?_
  rintro m i ⟨thread,freelist,hist,panicked,rfl⟩ _
  rcases reapThread_cases _ (c,i) with eq | eq | ⟨page,_,eq⟩
  all_goals rw [eq]; exact ⟨_,_,_,_,rfl⟩

theorem reapThreads_pc (c : ProcIx) : (reapThreads s c).pc = s.pc := by
  obtain ⟨_,_,_,_,eq⟩ := reapThreads_rest s c
  rw [eq]

theorem exitFinal_rest (t : Slot) : ∃ proc thread, exitFinal s t =
    ({s with proc := proc, thread := thread, ptableLock := some t}.setCpu t .sched).goto t .dead := by
  unfold exitFinal buryProcess abandonChildren wakeParent
  simp only
  split <;> split <;> exact ⟨_,_,rfl⟩

theorem wakeSleeper_rest (p : ProcIx) (i : MutexIx) : ∃ thread, wakeSleeper s p i = {s with thread := thread} := by
  unfold wakeSleeper
  split <;> exact ⟨_,rfl⟩

end

/-- Sections in which only the place of the thread changes. -/
inductive Walks (s : KState) (t : Slot) : Pc → Pc → Prop
  | trap : Walks s t .user .trapKilled
  | interrupt : Walks s t .user .retKilled
  | trapKilled : Walks s t .trapKilled .exitMark
  | trapAlive : Walks s t .trapKilled .trapShouldDie
  | trapDies : Walks s t .trapShouldDie .kthreadExit
  | trapCalls : Walks s t .trapShouldDie .syscall
  | calls (c : Syscall) : Walks s t .syscall c.entry
  | retKilled : Walks s t .retKilled .exitMark
  | retAlive : Walks s t .retKilled .retShouldDie
  | retDies : Walks s t .retShouldDie .kthreadExit
  | retUser : Walks s t .retShouldDie .user
  | endsThread : Walks s t .kthreadExit .exitThread
  | endsProcess : Walks s t .kthreadExit .exitMark
  | execDies : Walks s t .execCheck .kthreadExit
  | execMarks : Walks s t .execCheck .execMark
  | drain (k : Drainer) (i n : Nat) (c : Pc) (move : DrainMove s t k i n c) : Walks s t (.drain k i n) c
  | owned (j : MutexIx) (own : (s.mutex j).pidHolder = (s.proc t.1).pid) :
      Walks s t (.exitMutexes j.val) (.deallocCall (s.mutex j).mid (.exit j.val))
  | skipped (j : MutexIx) (other : (s.mutex j).pidHolder ≠ (s.proc t.1).pid) :
      Walks s t (.exitMutexes j.val) (.exitMutexes (j.val+1))
  | swept (j : Nat) (past : maxMutexes ≤ j) : Walks s t (.exitMutexes j) (.fs .exit)
  | createFull : Walks s t .createAlloc .retKilled
  | forkFull : Walks s t .forkProc .retKilled
  | forkNone (np : ProcIx) : Walks s t (.forkAlloc np) .retKilled
  | killNone (pid : Int) : Walks s t (.kill pid) .retKilled
  | logWoken (k : FsRet) : Walks s t (.reacquire (.log k)) (.beginOp k)
  | lockWoken (l : LockIx) (k : FsRet) : Walks s t (.reacquire (.lock l k)) (.acquireSleep l k)
  | diskWoken (b : Fin nbuf) (k : FsRet) : Walks s t (.reacquire (.disk b k)) (.ideWait b k)
  | otherWoken (n : Nat) (k : FsRet) : Walks s t (.reacquire (.other n k)) (.fs k)

def DeallocRet.next : DeallocRet → Pc
  | .sys => .retKilled
  | .exit j => .exitMutexes (j+1)

theorem deallocReturn_eq (s : KState) (t : Slot) (id result : Int) (k : DeallocRet) :
    deallocReturn s t id result k = (s.emit (.deallocRet t id result)).goto t k.next := by
  cases k <;> rfl

inductive MutexWalks : Pc → Pc → Prop
  | lockRefused (id : Int) : MutexWalks (.lockCall id) .retKilled
  | lockFound (i : MutexIx) (id : Int) : MutexWalks (.lockCall id) (.lockHold i id)
  | lockGrabbed (i : MutexIx) (id : Int) : MutexWalks (.lockHold i id) (.lockTry i id)
  | locked (i : MutexIx) (id : Int) : MutexWalks (.lockTry i id) .retKilled
  | lockAgain (i : MutexIx) (id : Int) : MutexWalks (.reacquire (.mutex i id)) (.lockTry i id)
  | unlockRefused (id : Int) : MutexWalks (.unlockCall id) .retKilled
  | unlockFound (i : MutexIx) (id : Int) : MutexWalks (.unlockCall id) (.unlockHold i id)
  | unlockDone (i : MutexIx) (id : Int) : MutexWalks (.unlockHold i id) .retKilled
  | allocFull : MutexWalks .allocCall .retKilled
  | allocFound (i : MutexIx) : MutexWalks .allocCall (.allocHold i)
  | allocGrabbed (i : MutexIx) : MutexWalks (.allocHold i) (.allocInit i)
  | allocInited (i : MutexIx) : MutexWalks (.allocInit i) (.allocRead i)
  | allocDone (i : MutexIx) : MutexWalks (.allocRead i) .retKilled
  | deallocRefused (id : Int) (k : DeallocRet) : MutexWalks (.deallocCall id k) k.next
  | deallocFound (i : MutexIx) (id : Int) (k : DeallocRet) : MutexWalks (.deallocCall id k) (.deallocHold i id k)
  | deallocDone (i : MutexIx) (id : Int) (k : DeallocRet) : MutexWalks (.deallocHold i id k) k.next

def Event.ofMutex : Event → Bool
  | .lockRet _ _ _ | .unlockRet _ _ _ | .allocRet _ _ | .deallocRet _ _ _ => true
  | _ => false

inductive MutexSection (s : KState) (t : Slot) : KState → Prop
  | goes {c₀ c : Pc} (place : s.pc t = c₀) (walks : MutexWalks c₀ c) (mutex : MutexIx → Mutex) (nextmid : Int)
      (mtableLock : Option Slot) (new : List Event)
      (quiet : ∀ e ∈ new, e.ofMutex = true := by simp [Event.ofMutex]) : MutexSection s t
        ({s with mutex := mutex, nextmid := nextmid, mtableLock := mtableLock, hist := new ++ s.hist}.goto t c)
  | unlocks (i : MutexIx) (id : Int) (place : s.pc t = .unlockHold i id) (mutex : MutexIx → Mutex) : MutexSection s t
      (((wakeSleeper {s with mutex := mutex, mtableLock := none} t.1 i).emit (.unlockRet t id 0)).sysret t)
  | sleeps (i : MutexIx) (id : Int) (place : s.pc t = .lockTry i id) (free : s.ptableLock = none)
      (mutex : MutexIx → Mutex) : MutexSection s t (sleepEnter {s with mutex := mutex} t (.mutex i) (.mutex i id))

inductive FileWalks : Pc → Pc → Prop
  | begins (k : FsRet) : FileWalks (.fs k) (.beginOp k)
  | acquires (l : LockIx) (k : FsRet) : FileWalks (.fs k) (.acquireSleep l k)
  | queued (b : Fin nbuf) (k : FsRet) : FileWalks (.fs k) (.ideWait b k)
  | returns (k : FsRet) : FileWalks (.fs k) k.next
  | began (k : FsRet) : FileWalks (.beginOp k) (.fs k)
  | acquired (l : LockIx) (k : FsRet) : FileWalks (.acquireSleep l k) (.fs k)
  | done (b : Fin nbuf) (k : FsRet) : FileWalks (.ideWait b k) (.fs k)

inductive FileSleeps : Pc → Chan → Site → Prop
  | log (k : FsRet) : FileSleeps (.beginOp k) .log (.log k)
  | lock (l : LockIx) (k : FsRet) : FileSleeps (.acquireSleep l k) (.lock l) (.lock l k)
  | disk (b : Fin nbuf) (k : FsRet) : FileSleeps (.ideWait b k) (.disk b) (.disk b k)
  | other (n : Nat) (k : FsRet) : FileSleeps (.fs k) (.other n) (.other n k)

inductive FileSection (s : KState) (t : Slot) : KState → Prop
  | stays (k : FsRet) (place : s.pc t = .fs k) (log : Log) (fs : Slot → FsCtx) (panicked : Bool) :
      FileSection s t {s with log := log, fs := fs, panicked := panicked}
  | wakes (k : FsRet) (place : s.pc t = .fs k) (log : Log) (fs : Slot → FsCtx) (sleepLock : LockIx → SleepLock)
      (chan : Chan) : FileSection s t (wakeup1 {s with log := log, fs := fs, sleepLock := sleepLock} chan)
  | goes {c₀ c : Pc} (place : s.pc t = c₀) (walks : FileWalks c₀ c) (log : Log) (fs : Slot → FsCtx)
      (sleepLock : LockIx → SleepLock) (idequeue : List (Fin nbuf)) : FileSection s t
        ({s with log := log, fs := fs, sleepLock := sleepLock, idequeue := idequeue}.goto t c)
  | sleeps {c : Pc} {chan : Chan} {site : Site} (place : s.pc t = c) (sleeps : FileSleeps c chan site)
      (free : s.ptableLock = none) : FileSection s t (sleepEnter s t chan site)

inductive Sections (s : KState) (t : Slot) (o : Oracle) : KState → Prop
  | panics : Sections s t o s.panic
  | walk {c₀ c : Pc} (place : s.pc t = c₀) (walks : Walks s t c₀ c) : Sections s t o (s.goto t c)
  | fault (place : s.pc t = .user) :
      Sections s t o ((s.setProc t.1 {s.proc t.1 with killed := true}).goto t .retKilled)
  | mark (k : Drainer) (place : s.pc t = k.marks) (free : s.ptableLock = none)
      (other : k = .exit → t.1 ≠ s.initproc) : Sections s t o ((markSiblings s t).goto t (.drain k 0 0))
  | drainWakes (i n : Nat) (inside : i < nthread) (place : s.pc t = .drain .exec i n)
      (asleep : (s.thread (t.1,⟨i,inside⟩)).state = .tSleeping) :
      Sections s t o ((s.setThread (t.1,⟨i,inside⟩) {s.thread (t.1,⟨i,inside⟩) with state := .tRunnable}).goto t
        (.drain .exec (i+1) (n+1)))
  | drainFree (k : Drainer) (i : Fin nthread) (n : Nat) (page : Page) (place : s.pc t = .drainFree k i n)
      (owned : (s.thread (t.1,i)).kstack = some page) :
      Sections s t o (((freeSlot s (t.1,i) page).setProc t.1 {s.proc t.1 with
        numOfThread := (s.proc t.1).numOfThread-1}).goto t (.drain k (i.val+1) n))
  | exitThread (place : s.pc t = .exitThread) (free : s.ptableLock = none) : Sections s t o (exitThread s t)
  | exitFinal (place : s.pc t = .exitFinal) (free : s.ptableLock = none) : Sections s t o (exitFinal s t)
  | birth (p : ProcIx) (nt : Slot) (c : Pc) (births : Births s t p nt c) (free : s.ptableLock = none)
      (found : unusedSlot s p = some nt) : Sections s t o ((allocthread s nt).goto t c)
  | stack (nt : Slot) (c : Pc) (page : Page) (rest : List Page) (gets : GetsStack s t nt c)
      (head : s.freelist = page :: rest) : Sections s t o (((({s with freelist := rest}.setThread nt
        {s.thread nt with kstack := some page}).setProc nt.1
          {s.proc nt.1 with numOfThread := (s.proc nt.1).numOfThread+1}).goto nt .user).goto t c)
  | stackless (nt : Slot) (c : Pc) (gets : GetsStack s t nt c) (empty : s.freelist = []) :
      Sections s t o (((s.setProc nt.1 {s.proc nt.1 with state := .unused}).setThread nt
        {s.thread nt with kstack := none, state := .tUnused}).sysret t)
  | createRun (nt : Slot) (place : s.pc t = .createRun nt) (free : s.ptableLock = none) :
      Sections s t o (createRun s t nt)
  | forkProc (np : ProcIx) (place : s.pc t = .forkProc) (free : s.ptableLock = none)
      (unused : (s.proc np).state = .unused) :
      Sections s t o ((({s with nextpid := next32 s.nextpid}.setProc np
        {s.proc np with state := .used, pid := s.nextpid}).emit (.forkBegin np)).goto t (.forkAlloc np))
  | forkCopied (nt : Slot) (place : s.pc t = .forkCopy nt) (copied : o.copied = true) :
      Sections s t o ((s.setProc nt.1 {s.proc nt.1 with parent := some t.1}).goto t (.forkRun nt))
  | forkFailed (nt : Slot) (page : Page) (place : s.pc t = .forkCopy nt) (short : o.copied = false)
      (owned : (s.thread nt).kstack = some page) :
      Sections s t o ((((({s with freelist := page :: s.freelist}.setThread nt
        {s.thread nt with kstack := none, state := .tUnused}).setProc nt.1
          {s.proc nt.1 with state := .unused}).emit (.kfree (s.thread nt).tid page)).goto nt .idle).sysret t)
  | forkRun (nt : Slot) (place : s.pc t = .forkRun nt) (free : s.ptableLock = none) :
      Sections s t o (forkRun s t nt)
  | waitPanic (c : ProcIx) (place : s.pc t = .waitLoop) (found : zombieChild s t.1 = some c) :
      Sections s t o (reapThreads s c)
  | waitDone (c : ProcIx) (place : s.pc t = .waitLoop) (own : s.ptableLock = none ∨ s.ptableLock = some t)
      (found : zombieChild s t.1 = some c) : Sections s t o (waitDone s (reapThreads s c) t c)
  | waitNone (place : s.pc t = .waitLoop) (own : s.ptableLock = none ∨ s.ptableLock = some t) :
      Sections s t o (({s with ptableLock := none}.emit (.waitRet t (-1))).sysret t)
  | joinDies (tid : Int) (place : s.pc t = .joinLoop tid) (own : s.ptableLock = none ∨ s.ptableLock = some t) :
      Sections s t o ({s with ptableLock := none}.goto t .kthreadExit)
  | joinMissing (tid : Int) (place : s.pc t = .joinLoop tid) (own : s.ptableLock = none ∨ s.ptableLock = some t)
      (missing : findThread s tid = none) :
      Sections s t o (({s with ptableLock := none}.emit (.joinRet t tid (-1))).sysret t)
  | joinFound (tid : Int) (u : Slot) (place : s.pc t = .joinLoop tid)
      (own : s.ptableLock = none ∨ s.ptableLock = some t) (found : findThread s tid = some u)
      (zombie : (s.thread u).state = .tZombie) : Sections s t o ({s with ptableLock := none}.goto t (.joinFree tid u))
  | joinFree (tid : Int) (u : Slot) (page : Page) (place : s.pc t = .joinFree tid u)
      (owned : (s.thread u).kstack = some page) :
      Sections s t o ((((freeSlot s u page).setThread u {s.thread u with
        kstack := none, tid := 0, state := .tUnused, shouldDie := false}).emit (.joinRet t tid 0)).sysret t)
  | sleep (chan : Chan) (site : Site) (falls : Falls s t chan site)
      (own : s.ptableLock = none ∨ s.ptableLock = some t ∨ s.pc t = .sleepHold chan site) :
      Sections s t o (sleepCommit s t chan site)
  | kill (pid : Int) (p : ProcIx) (place : s.pc t = .kill pid)
      (found : (List.finRange nproc).find? (fun p => (s.proc p).pid == pid) = some p) :
      Sections s t o ((rouse (s.setProc p {s.proc p with killed := true}) p).sysret t)
  | mutex {s' : KState} (sub : MutexSection s t s') : Sections s t o s'
  | files {s' : KState} (sub : FileSection s t s') : Sections s t o s'

section Calls
variable {s : KState} {t : Slot} (o : Oracle)

theorem drain_sections (k : Drainer) (i n : Nat) (place : s.pc t = .drain k i n) :
    Sections s t o (drain s t k i n) := by
  unfold drain
  split
  next inside =>
    simp only
    split
    next dead => exact .walk place (.drain k i n _ (.zombie inside dead))
    next empty => exact .walk place (.drain k i n _ (.unused inside empty))
    next asleep =>
      cases k with
      | exit => exact .walk place (.drain .exit i n _ (.counted inside (by simp [asleep])))
      | exec => exact .drainWakes i n inside place asleep
    next dead empty asleep => exact .walk place (.drain k i n _ (.counted inside empty))
  next past =>
    split
    next many => exact .walk place (.drain k i n _ (.again (by omega) many))
    next few => exact .walk place (.drain k i n _ (.done (by omega) (by omega)))

theorem drainFree_sections (k : Drainer) (i : Fin nthread) (n : Nat) (place : s.pc t = .drainFree k i n)
    (calm : s.panicked = false) : Sections s t o (drainFree s t k i n) := by
  unfold drainFree
  cases owned : (s.thread (t.1,i)).kstack with
  | none =>
    rw [reapThread_none s _ calm owned]
    exact .panics
  | some page =>
    rw [reapThread_some s _ page calm owned,if_neg (fun bad => by simp [freeSlot,calm] at bad)]
    exact .drainFree k i n page place owned

theorem joinFree_sections (tid : Int) (u : Slot) (place : s.pc t = .joinFree tid u) (calm : s.panicked = false) :
    Sections s t o (joinFree s t tid u) := by
  unfold joinFree
  cases owned : (s.thread u).kstack with
  | none =>
    rw [reapThread_none s _ calm owned]
    exact .panics
  | some page =>
    rw [reapThread_some s u page calm owned,if_neg (fun bad => by simp [freeSlot,calm] at bad)]
    have done := Sections.joinFree (o := o) tid u page place owned
    have slot : (freeSlot s u page).thread u = {s.thread u with kstack := none, tid := 0, state := .tUnused} := by
      simp [freeSlot]
    simpa only [slot] using done

theorem allocStack_sections (nt : Slot) (c : Pc) (gets : GetsStack s t nt c) :
    Sections s t o (allocStack s t nt c) := by
  unfold allocStack
  split
  next empty => exact .stackless nt c gets empty
  next page rest head => exact .stack nt c page rest gets head

theorem wait_sections (place : s.pc t = .waitLoop) (own : s.ptableLock = none ∨ s.ptableLock = some t) :
    Sections s t o (wait s t) := by
  unfold wait
  split
  next c found =>
    simp only
    split
    · exact .waitPanic c place found
    · exact .waitDone c place own found
  next none =>
    split
    · exact .waitNone place own
    next waits => exact .sleep _ _ (.wait place none (by simpa using waits)) (own.imp_right .inl)

theorem kthreadJoin_sections (tid : Int) (place : s.pc t = .joinLoop tid)
    (own : s.ptableLock = none ∨ s.ptableLock = some t) : Sections s t o (kthreadJoin s t tid) := by
  unfold kthreadJoin
  split
  · exact .joinDies tid place own
  next lives =>
    split
    next missing => exact .joinMissing tid place own missing
    next u found =>
      split
      · exact .panics
      next zombie => exact .joinFound tid u place own found zombie
      · exact .sleep _ _ (.join tid u place (by simpa using lives)) (own.imp_right .inl)

theorem fsCode_section (k : FsRet) (op : FsOp) (place : s.pc t = .fs k)
    (free : op.takesPtable = true → s.ptableLock = none) : FileSection s t (fsCode s t k op) := by
  cases op with
  | beginOp => exact .goes place (.begins k) _ _ _ _
  | endOp =>
    unfold fsCode endOp
    simp only
    split
    · exact .stays k place _ _ _
    · split
      · exact .stays k place _ _ _
      · exact .wakes k place _ _ _ _
  | commitEnd => exact .wakes k place _ _ _ _
  | logWrite block =>
    unfold fsCode logWrite
    simp only
    split
    · exact .stays k place _ _ _
    · split
      · exact .stays k place _ _ _
      · split
        · exact .stays k place _ _ _
        · exact .stays k place _ _ _
  | acquireSleep l => exact .goes place (.acquires l k) _ _ _ _
  | releaseSleep l => exact .wakes k place _ _ _ _
  | iderw b =>
    unfold fsCode iderw
    simp only
    split
    · exact .goes place (.queued b k) _ _ _ _
    · exact .stays k place _ _ _
  | sleepOn n => exact .sleeps place (.other n k) (free rfl)
  | ret => exact .goes place (.returns k) _ _ _ _

theorem deallocReturn_section {c₀ : Pc} {id result : Int} {k : DeallocRet} {mutex : MutexIx → Mutex}
    {mtableLock : Option Slot} (place : s.pc t = c₀) (walks : MutexWalks c₀ k.next) : MutexSection s t
      (deallocReturn {s with mutex := mutex, mtableLock := mtableLock} t id result k) := by
  rw [deallocReturn_eq]
  exact .goes place walks _ _ _ [.deallocRet t id result]

end Calls

theorem code_sections {s s' : KState} {t : Slot} {o : Oracle} (calm : s.panicked = false)
    (taken : code s t o = some s') : Sections s t o s' := by
  cases place : s.pc t
  all_goals simp only [code,place,guarded_eq_some,Option.some.injEq,reduceCtorEq] at taken
  all_goals try obtain ⟨guard,rfl⟩ := taken
  case dead => exact .panics
  case user =>
    unfold trap
    split
    · exact .walk place .trap
    · exact .walk place .interrupt
    · exact .fault place
  case trapKilled =>
    unfold testKilled
    split
    · exact .walk place .trapKilled
    · exact .walk place .trapAlive
  case trapShouldDie =>
    unfold testShouldDie
    split
    · exact .walk place .trapDies
    · exact .walk place .trapCalls
  case syscall => exact .walk place (.calls o.call)
  case retKilled =>
    unfold testKilled
    split
    · exact .walk place .retKilled
    · exact .walk place .retAlive
  case retShouldDie =>
    unfold testShouldDie
    split
    · exact .walk place .retDies
    · exact .walk place .retUser
  case kthreadExit =>
    unfold kthreadExit
    split
    · exact .walk place .endsThread
    · exact .walk place .endsProcess
  case exitThread => exact .exitThread place guard
  case exitMark =>
    unfold exitMark
    split
    · exact .panics
    next other => exact .mark .exit place guard fun _ => other
  case drain k i n => exact drain_sections o k i n place
  case drainFree k i n => exact drainFree_sections o k i n place calm
  case exitMutexes j =>
    unfold exitMutexes
    split
    next inside =>
      split
      next own => exact .walk place (.owned ⟨j,inside⟩ own)
      next other => exact .walk place (.skipped ⟨j,inside⟩ other)
    next past => exact .walk place (.swept j (by omega))
  case exitFinal => exact .exitFinal place guard
  case execCheck =>
    unfold execCheck
    split
    · exact .walk place .execDies
    · exact .walk place .execMarks
  case execMark => exact .mark .exec place guard (by rintro ⟨⟩)
  case createAlloc =>
    unfold kthreadCreate
    split
    · exact .walk place .createFull
    next nt found => exact .birth t.1 nt _ (.create nt place) guard found
  case createStack nt => exact allocStack_sections o nt _ (.create place)
  case createRun nt => exact .createRun nt place guard
  case forkProc =>
    unfold forkProc
    split
    · exact .walk place .forkFull
    next np found => exact .forkProc np place guard (by simpa using List.find?_some found)
  case forkAlloc np =>
    unfold forkAlloc
    split
    · exact .walk place (.forkNone np)
    next nt found => exact .birth np nt _ (.fork np nt place) guard found
  case forkStack nt => exact allocStack_sections o nt _ (.fork place)
  case forkCopy nt =>
    unfold forkCopy
    split
    next copied => exact .forkCopied nt place copied
    next short =>
      split
      · exact .panics
      next page owned => exact .forkFailed nt page place (by simpa using short) owned
  case forkRun nt => exact .forkRun nt place guard
  case waitLoop => exact wait_sections o place guard
  case joinLoop tid => exact kthreadJoin_sections o tid place guard
  case joinFree tid u => exact joinFree_sections o tid u place calm
  case kill pid =>
    unfold kill
    split
    · exact .walk place (.killNone pid)
    next p found => exact .kill pid p place found
  case lockCall id =>
    unfold kthreadMutexLock
    split
    · exact .mutex (.goes place (.lockRefused id) _ _ _ [.lockRet t id (-1)])
    next i _ =>
      split
      · exact .mutex (.goes place (.lockRefused id) _ _ _ [.lockRet t id (-1)])
      · exact .mutex (.goes place (.lockFound i id) _ _ _ [])
  case lockHold i id => exact .mutex (.goes place (.lockGrabbed i id) _ _ _ [])
  case lockTry i id =>
    unfold lockTry
    split
    next held => exact .mutex (.sleeps i id place (guard.resolve_left held) _)
    · exact .mutex (.goes place (.locked i id) _ _ _ [.lockRet t id 0])
  case unlockCall id =>
    unfold kthreadMutexUnlock
    split
    · exact .mutex (.goes place (.unlockRefused id) _ _ _ [.unlockRet t id (-1)])
    next i _ => exact .mutex (.goes place (.unlockFound i id) _ _ _ [])
  case unlockHold i id =>
    unfold unlockBody
    split
    · exact .mutex (.goes place (.unlockDone i id) _ _ _ [.unlockRet t id (-1)])
    · exact .mutex (.unlocks i id place _)
  case allocCall =>
    unfold kthreadMutexAlloc
    split
    · exact .mutex (.goes place .allocFull _ _ _ [.allocRet t (-1)])
    next i _ => exact .mutex (.goes place (.allocFound i) _ _ _ [])
  case allocHold i => exact .mutex (.goes place (.allocGrabbed i) _ _ _ [])
  case allocInit i => exact .mutex (.goes place (.allocInited i) _ _ _ [])
  case allocRead i =>
    exact .mutex (.goes place (.allocDone i) _ _ _ [.allocRet t (s.mutex i).mid])
  case deallocCall id k =>
    unfold kthreadMutexDealloc
    split
    · exact .mutex (deallocReturn_section place (.deallocRefused id k))
    next i _ =>
      split
      · exact .mutex (deallocReturn_section place (.deallocRefused id k))
      · exact .mutex (.goes place (.deallocFound i id k) _ _ _ [])
  case deallocHold i id k => exact .mutex (deallocReturn_section place (.deallocDone i id k))
  case sleepHold chan site => exact .sleep chan site (.hold chan site place) (.inr (.inr place))
  case reacquire site =>
    cases site <;> simp only [reacquire,guarded_eq_some,Option.some.injEq,reduceCtorEq] at taken
    case mutex i id =>
      obtain ⟨_,rfl⟩ := taken
      exact .mutex (.goes place (.lockAgain i id) _ _ _ [])
    case log k =>
      subst taken
      exact .walk place (.logWoken k)
    case lock l k =>
      subst taken
      exact .walk place (.lockWoken l k)
    case disk b k =>
      subst taken
      exact .walk place (.diskWoken b k)
    case other n k =>
      subst taken
      exact .walk place (.otherWoken n k)
  case fs k => exact .files (fsCode_section k o.op place guard.2)
  case beginOp k =>
    unfold beginOp
    split
    next busy => exact .files (.sleeps place (.log k) (guard.resolve_left fun idle => idle busy))
    · exact .files (.goes place (.began k) _ _ _ _)
  case acquireSleep l k =>
    unfold acquireSleep
    split
    next locked => exact .files (.sleeps place (.lock l k) (guard.resolve_left (by simp [locked])))
    · exact .files (.goes place (.acquired l k) _ _ _ _)
  case ideWait b k =>
    unfold ideWait
    split
    next queued => exact .files (.sleeps place (.disk b k) (guard.resolve_left fun done => done queued))
    · exact .files (.goes place (.done b k) _ _ _ _)

end Kthreads
