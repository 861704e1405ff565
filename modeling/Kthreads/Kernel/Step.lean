import Kthreads.Kernel.Mutex
import Kthreads.Kernel.Process
import Kthreads.Kernel.Files
import Kthreads.Lib.Interleave

/-! The kernel as one step function. A step is one atomic section of some thread,
a move of the scheduler, or an interrupt. Any thread that a CPU executes may take
the next step, so a list of actions is one interleaving of system calls. -/
namespace Kthreads

inductive Syscall
  | kthreadCreate (startFunc stack : Nat)
  | kthreadExit
  | kthreadJoin (tid : Int)
  | exit | exec | fork | wait
  | kill (pid : Int)
  | kthreadMutexAlloc
  | kthreadMutexDealloc (id : Int)
  | kthreadMutexLock (id : Int)
  | kthreadMutexUnlock (id : Int)
  | files
  deriving DecidableEq

/-- The first place of a system call that does something. `kthread_create` refuses
null pointers before it looks for a slot. -/
def Syscall.entry : Syscall → Pc
  | .kthreadCreate startFunc stack => if startFunc = 0 ∨ stack = 0 then .retKilled else .createAlloc
  | .kthreadExit => .kthreadExit
  | .kthreadJoin tid => .joinLoop tid
  | .exit => .exitMark
  | .exec => .execCheck
  | .fork => .forkProc
  | .wait => .waitLoop
  | .kill pid => .kill pid
  | .kthreadMutexAlloc => .allocCall
  | .kthreadMutexDealloc id => .deallocCall id .sys
  | .kthreadMutexLock id => .lockCall id
  | .kthreadMutexUnlock id => .unlockCall id
  | .files => .fs .sys

inductive Entry
  | syscall | interrupt | fault
  deriving DecidableEq

/-- What a section can read that the kernel state does not determine: how and why
user code traps, the word at the address of a null thread's `tid`, whether
`copyuvm` finds memory, and which file-system operation comes next. -/
structure Oracle where
  entry : Entry := .syscall
  call : Syscall := .files
  word : Int := 0
  copied : Bool := true
  op : FsOp := .ret

def guarded (c : Prop) [Decidable c] (next : KState) : Option KState := if c then some next else none

theorem guarded_eq_some {c : Prop} [Decidable c] {next after : KState} :
    guarded c next = some after ↔ c ∧ next = after := by
  unfold guarded
  split
  next held => simp [held]
  next failed => simp [failed]

/-- Entry to `trap` from user mode. A fault sets `killed`. -/
def trap (s : KState) (t : Slot) : Entry → KState
  | .syscall => s.goto t .trapKilled
  | .interrupt => s.goto t .retKilled
  | .fault => (s.setProc t.1 {s.proc t.1 with killed := true}).goto t .retKilled

def reacquire (s : KState) (t : Slot) : Site → Option KState
  | .mutex i id => guarded ((s.mutex i).mutexLock = none) (lockAgain s t i id)
  | .log k => some (s.goto t (.beginOp k))
  | .lock l k => some (s.goto t (.acquireSleep l k))
  | .disk b k => some (s.goto t (.ideWait b k))
  | .other _ k => some (s.goto t (.fs k))
  | .join _ | .wait => none

def FsOp.takesPtable : FsOp → Bool
  | .endOp | .commitEnd | .releaseSleep _ | .sleepOn _ => true
  | _ => false

/-- The next atomic section of `t`. A section that needs a spin lock waits until it is free. -/
def code (s : KState) (t : Slot) (o : Oracle) : Option KState :=
  match s.pc t with
  | .idle => none
  | .user => some (trap s t o.entry)
  | .trapKilled => some (testKilled s t .trapShouldDie)
  | .trapShouldDie => some (testShouldDie s t .syscall)
  | .syscall => some (s.goto t o.call.entry)
  | .retKilled => some (testKilled s t .retShouldDie)
  | .retShouldDie => some (testShouldDie s t .user)
  | .kthreadExit => some (kthreadExit s t)
  | .exitThread => guarded (s.ptableLock = none) (exitThread s t)
  | .dead => some s.panic
  | .exitMark => guarded (s.ptableLock = none) (exitMark s t)
  | .drain k i numthread => some (drain s t k i numthread)
  | .drainFree k i numthread => some (drainFree s t k i numthread)
  | .exitMutexes j => some (exitMutexes s t j)
  | .exitFinal => guarded (s.ptableLock = none) (exitFinal s t)
  | .execCheck => some (execCheck s t)
  | .execMark => guarded (s.ptableLock = none) (execMark s t)
  | .createAlloc => guarded (s.ptableLock = none) (kthreadCreate s t)
  | .createStack nt => some (allocStack s t nt (.createRun nt))
  | .createRun nt => guarded (s.ptableLock = none) (createRun s t nt)
  | .forkProc => guarded (s.ptableLock = none) (forkProc s t)
  | .forkAlloc np => guarded (s.ptableLock = none) (forkAlloc s t np)
  | .forkStack nt => some (allocStack s t nt (.forkCopy nt))
  | .forkCopy nt => some (forkCopy s t nt o.copied)
  | .forkRun nt => guarded (s.ptableLock = none) (forkRun s t nt)
  | .waitLoop => guarded (s.ptableLock = none ∨ s.ptableLock = some t) (wait s t)
  | .joinLoop tid => guarded (s.ptableLock = none ∨ s.ptableLock = some t) (kthreadJoin s t tid)
  | .joinFree tid u => some (joinFree s t tid u)
  | .kill pid => guarded (s.ptableLock = none) (kill s t pid)
  | .lockCall id => guarded (s.mtableLock = none) (kthreadMutexLock s t id o.word)
  | .lockHold i id => guarded ((s.mutex i).mutexLock = none) (lockGrab s t i id)
  | .lockTry i id => guarded ((s.mutex i).lock = 0 ∨ s.ptableLock = none) (lockTry s t i id)
  | .unlockCall id => guarded (s.mtableLock = none) (kthreadMutexUnlock s t id)
  | .unlockHold i id => guarded ((s.mutex i).mutexLock = none) (unlockBody s t i id o.word)
  | .allocCall => guarded (s.mtableLock = none) (kthreadMutexAlloc s t)
  | .allocHold i => guarded ((s.mutex i).mutexLock = none) (allocGrab s t i)
  | .allocInit i => some (allocInit s t i)
  | .allocRead i => some (allocRead s t i)
  | .deallocCall id k => guarded (s.mtableLock = none) (kthreadMutexDealloc s t id k)
  | .deallocHold i id k => guarded ((s.mutex i).mutexLock = none) (deallocBody s t i id k)
  | .sleepHold chan site => some (sleepCommit s t chan site)
  | .asleep _ => none
  | .reacquire site => reacquire s t site
  | .fs k => guarded (o.op.ready (s.fs t) ∧ (o.op.takesPtable = true → s.ptableLock = none))
      (fsCode s t k o.op)
  | .beginOp k => guarded (¬ s.log.busy ∨ s.ptableLock = none) (beginOp s t k)
  | .acquireSleep l k => guarded ((s.sleepLock l).locked = false ∨ s.ptableLock = none)
      (acquireSleep s t l k)
  | .ideWait b k => guarded (b ∉ s.idequeue ∨ s.ptableLock = none) (ideWait s t b k)

inductive Action
  | run (t : Slot) (o : Oracle)
  | scheduler (t : Slot)
  | yield (t : Slot)
  | swtch (t : Slot)
  | wakeup (n : Nat)
  | ideintr
  | takePage
  | givePage (page : Page)

/-- One step of the kernel. Pages other than kernel stacks are taken and given
back by the rest of the kernel at any time. -/
def step (s : KState) (a : Action) : Option KState :=
  if s.panicked then none
  else match a with
    | .run t o => if s.cpu t = .on then code s t o else none
    | .scheduler t => guarded (s.ptableLock = none ∧ s.cpu t = .off ∧
        (s.thread t).state = .tRunnable) (scheduler s t)
    | .yield t => guarded (s.ptableLock = none ∧ s.cpu t = .on ∧
        (s.thread t).state = .tRunning ∧ (s.pc t).spin = false) (yield s t)
    | .swtch t => guarded (s.cpu t = .sched) (swtch s t)
    | .wakeup n => guarded (s.ptableLock = none) (wakeup1 s (.other n))
    | .ideintr => guarded (s.ptableLock = none) (ideintr s)
    | .takePage =>
      match s.freelist with
      | [] => none
      | page :: rest => some {s with freelist := rest, otherPages := page :: s.otherPages}
    | .givePage page => guarded (page ∈ s.otherPages)
        {s with freelist := page :: s.freelist, otherPages := s.otherPages.erase page}

inductive Steps (s : KState) : Action → KState → Prop
  | run (t : Slot) (o : Oracle) (s' : KState) (on : s.cpu t = .on) (taken : code s t o = some s') :
      Steps s (.run t o) s'
  | scheduler (t : Slot) (free : s.ptableLock = none) (off : s.cpu t = .off)
      (runnable : (s.thread t).state = .tRunnable) : Steps s (.scheduler t) (scheduler s t)
  | yield (t : Slot) (free : s.ptableLock = none) (on : s.cpu t = .on) (running : (s.thread t).state = .tRunning)
      (quiet : (s.pc t).spin = false) : Steps s (.yield t) (yield s t)
  | swtch (t : Slot) (inside : s.cpu t = .sched) : Steps s (.swtch t) (swtch s t)
  | wakeup (n : Nat) : Steps s (.wakeup n) (wakeup1 s (.other n))
  | spurious : Steps s .ideintr s
  | ideintr (b : Fin nbuf) (rest : List (Fin nbuf)) : Steps s .ideintr (wakeup1 {s with idequeue := rest} (.disk b))
  | takePage (page : Page) (rest : List Page) (head : s.freelist = page :: rest) :
      Steps s .takePage {s with freelist := rest, otherPages := page :: s.otherPages}
  | givePage (page : Page) (member : page ∈ s.otherPages) : Steps s (.givePage page)
      {s with freelist := page :: s.freelist, otherPages := s.otherPages.erase page}

theorem step_cases {s s' : KState} {a : Action} (taken : step s a = some s') : s.panicked = false ∧ Steps s a s' := by
  unfold step at taken
  split at taken
  · contradiction
  next calm =>
    refine ⟨by simpa using calm,?_⟩
    cases a with
    | run t o =>
      obtain ⟨on,taken⟩ := Option.ite_none_right_eq_some.mp taken
      exact .run t o s' on taken
    | scheduler t =>
      obtain ⟨⟨free,off,runnable⟩,rfl⟩ := guarded_eq_some.mp taken
      exact .scheduler t free off runnable
    | yield t =>
      obtain ⟨⟨free,on,running,quiet⟩,rfl⟩ := guarded_eq_some.mp taken
      exact .yield t free on running quiet
    | swtch t =>
      obtain ⟨inside,rfl⟩ := guarded_eq_some.mp taken
      exact .swtch t inside
    | wakeup n =>
      obtain ⟨_,rfl⟩ := guarded_eq_some.mp taken
      exact .wakeup n
    | ideintr =>
      obtain ⟨_,rfl⟩ := guarded_eq_some.mp taken
      unfold ideintr
      split
      · exact .spurious
      next b rest _ => exact .ideintr b rest
    | takePage =>
      simp only at taken
      split at taken
      · contradiction
      next page rest head => exact Option.some.inj taken ▸ .takePage page rest head
    | givePage page =>
      obtain ⟨member,rfl⟩ := guarded_eq_some.mp taken
      exact .givePage page member

theorem step_run {s s' : KState} {t : Slot} {o : Oracle} (taken : step s (.run t o) = some s') :
    s.panicked = false ∧ s.cpu t = .on ∧ code s t o = some s' := by
  obtain ⟨calm,taken⟩ := step_cases taken
  cases taken with
  | run _ _ _ on taken => exact ⟨calm,on,taken⟩

abbrev Reaches (guard : KState → Action → Prop) (s₀ s : KState) : Prop :=
  Interleave.Reaches step guard s₀ s

/-- The C function a place belongs to. The parts of `allocthread` and of the
draining loop count for the function that called them; the marking section that
`exit` and `exec` share stands on its own. -/
inductive Fn
  | user | trap | mark | kthreadExit | exitThread | exit | exec | kthreadCreate | fork | wait
  | kthreadJoin | kill | kthreadMutexLock | kthreadMutexUnlock | kthreadMutexAlloc
  | kthreadMutexDealloc | sleep | files
  deriving DecidableEq

def Drainer.fn : Drainer → Fn
  | .exit => .exit
  | .exec => .exec

def Pc.fn : Pc → Fn
  | .idle | .user | .dead => .user
  | .trapKilled | .trapShouldDie | .syscall | .retKilled | .retShouldDie => .trap
  | .kthreadExit => .kthreadExit
  | .exitThread => .exitThread
  | .exitMark | .execMark => .mark
  | .exitMutexes _ | .exitFinal => .exit
  | .drain k _ _ | .drainFree k _ _ => k.fn
  | .execCheck => .exec
  | .createAlloc | .createStack _ | .createRun _ => .kthreadCreate
  | .forkProc | .forkAlloc _ | .forkStack _ | .forkCopy _ | .forkRun _ => .fork
  | .waitLoop => .wait
  | .joinLoop _ | .joinFree _ _ => .kthreadJoin
  | .kill _ => .kill
  | .lockCall _ | .lockHold _ _ | .lockTry _ _ => .kthreadMutexLock
  | .unlockCall _ | .unlockHold _ _ => .kthreadMutexUnlock
  | .allocCall | .allocHold _ | .allocInit _ | .allocRead _ => .kthreadMutexAlloc
  | .deallocCall _ _ | .deallocHold _ _ _ => .kthreadMutexDealloc
  | .sleepHold _ _ | .asleep _ | .reacquire _ => .sleep
  | .fs _ | .beginOp _ | .acquireSleep _ _ | .ideWait _ _ => .files

def onRun (c : Slot → Oracle → Prop) : Action → Prop
  | .run t o => c t o
  | _ => True

instance (c : Slot → Oracle → Prop) [∀ t o, Decidable (c t o)] (a : Action) : Decidable (onRun c a) :=
  match a with
  | .run t o => inferInstanceAs (Decidable (c t o))
  | .scheduler _ | .yield _ | .swtch _ | .wakeup _ | .ideintr | .takePage | .givePage _ =>
    inferInstanceAs (Decidable True)

@[simp]
theorem onRun_run (c : Slot → Oracle → Prop) (t : Slot) (o : Oracle) : onRun c (.run t o) ↔ c t o :=
  Iff.rfl

abbrev within (fns : List Fn) (s : KState) : Action → Prop := onRun fun t _ => (s.pc t).fn ∈ fns

theorem within_mono {fns wider : List Fn} (sub : ∀ fn ∈ fns, fn ∈ wider) (s : KState) (a : Action)
    (allowed : within fns s a) : within wider s a := by
  cases a with
  | run t o => exact sub _ allowed
  | _ => trivial

def birthTarget (s : KState) (t : Slot) : Option Slot :=
  match s.pc t with
  | .createAlloc => unusedSlot s t.1
  | .forkAlloc np => unusedSlot s np
  | _ => none

end Kthreads
