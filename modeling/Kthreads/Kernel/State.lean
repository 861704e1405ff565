import Mathlib.Algebra.GroupWithZero.Nat
import Mathlib.Data.Fintype.Prod
import Mathlib.Data.List.FinRange
import Mathlib.Logic.Function.Basic
import Kthreads.Lib.History

/-! The kernel state that the thread package and its system calls work on:
the process table with its thread tables, the mutex table, the page free list,
the log and the sleep locks, and for each thread slot the place its kernel code
has reached. Spin locks that are held across more than one atomic section are
fields; a section that takes and gives back its lock is one step. -/
open Function (update)

namespace Kthreads

abbrev nproc : Nat := 64
abbrev nthread : Nat := 16
abbrev maxMutexes : Nat := 64
abbrev nbuf : Nat := 30
abbrev ninode : Nat := 50
abbrev maxOpBlocks : Nat := 10
abbrev logSize : Nat := 30

instance nproc_neZero : NeZero nproc := ⟨by decide⟩
instance nthread_neZero : NeZero nthread := ⟨by decide⟩
instance nbuf_lawful : LawfulBEq (Fin nbuf) := inferInstance

abbrev ProcIx := Fin nproc
abbrev MutexIx := Fin maxMutexes

/-- An entry of some process's `ttable`: the C pointer `&p->ttable[i]`. -/
abbrev Slot := Fin nproc × Fin nthread

abbrev Page := Nat

inductive ThreadState
  | tUnused | tEmbryo | tSleeping | tRunnable | tRunning | tZombie
  deriving DecidableEq, Repr

inductive ProcState
  | unused | used | zombie
  deriving DecidableEq, Repr

inductive MutexState
  | uninitialized | opened | closed
  deriving DecidableEq, Repr

inductive LockIx
  | buf (b : Fin nbuf)
  | inode (i : Fin ninode)
  deriving DecidableEq

/-- What a thread can sleep on. `other` stands for the pipe, console and tick channels. -/
inductive Chan
  | thread (t : Slot)
  | mutex (i : MutexIx)
  | log
  | lock (l : LockIx)
  | disk (b : Fin nbuf)
  | other (n : Nat)
  deriving DecidableEq

structure Thread where
  state : ThreadState
  tid : Int
  chan : Option Chan
  shouldDie : Bool
  kstack : Option Page

structure Proc where
  state : ProcState
  pid : Int
  parent : Option ProcIx
  killed : Bool
  numOfThread : Int

structure Mutex where
  mid : Int
  lock : Nat
  numOfWaiting : Int
  mutexLock : Option Slot
  state : MutexState
  holding : Option Slot
  pidHolder : Int

structure Log where
  outstanding : Int
  committing : Bool
  size : Nat
  lh : List Nat

structure SleepLock where
  locked : Bool
  pid : Int

inductive Drainer
  | exit | exec
  deriving DecidableEq

inductive DeallocRet
  | sys
  | exit (j : Nat)
  deriving DecidableEq

inductive FsRet
  | sys | exit | exec
  deriving DecidableEq

inductive Site
  | mutex (i : MutexIx) (id : Int)
  | join (tid : Int)
  | wait
  | log (k : FsRet)
  | lock (l : LockIx) (k : FsRet)
  | disk (b : Fin nbuf) (k : FsRet)
  | other (n : Nat) (k : FsRet)
  deriving DecidableEq

/-- The place in the kernel code that a thread has reached, with the local
variables it still needs. Names follow the C function, then the place in it. -/
inductive Pc
  | idle
  | user
  | trapKilled | trapShouldDie | syscall | retKilled | retShouldDie
  | kthreadExit | exitThread | dead
  | exitMark
  | drain (k : Drainer) (i numthread : Nat)
  | drainFree (k : Drainer) (i : Fin nthread) (numthread : Nat)
  | exitMutexes (j : Nat)
  | exitFinal
  | execCheck | execMark
  | createAlloc
  | createStack (t : Slot)
  | createRun (t : Slot)
  | forkProc
  | forkAlloc (np : ProcIx)
  | forkStack (nt : Slot)
  | forkCopy (nt : Slot)
  | forkRun (nt : Slot)
  | waitLoop
  | joinLoop (tid : Int)
  | joinFree (tid : Int) (t : Slot)
  | kill (pid : Int)
  | lockCall (id : Int)
  | lockHold (i : MutexIx) (id : Int)
  | lockTry (i : MutexIx) (id : Int)
  | unlockCall (id : Int)
  | unlockHold (i : MutexIx) (id : Int)
  | allocCall
  | allocHold (i : MutexIx)
  | allocInit (i : MutexIx)
  | allocRead (i : MutexIx)
  | deallocCall (id : Int) (k : DeallocRet)
  | deallocHold (i : MutexIx) (id : Int) (k : DeallocRet)
  | sleepHold (chan : Chan) (site : Site)
  | asleep (site : Site)
  | reacquire (site : Site)
  | fs (k : FsRet)
  | beginOp (k : FsRet)
  | acquireSleep (l : LockIx) (k : FsRet)
  | ideWait (b : Fin nbuf) (k : FsRet)
  deriving DecidableEq

/-- Whether a CPU executes on the thread's stack: not at all, on its own code, or
inside `sched` between the change of state and the `swtch` to the scheduler. -/
inductive Cpu
  | off | on | sched
  deriving DecidableEq

/-- What a thread has open in the file system. -/
structure FsCtx where
  inOp : Bool
  inCommit : Bool
  owns : List LockIx

/-- Returns of system calls and other observable moments, kept as a history that
no kernel code reads. -/
inductive Event
  | created (t : Slot)
  | lockRet (t : Slot) (id : Int) (result : Int)
  | unlockRet (t : Slot) (id : Int) (result : Int)
  | allocRet (t : Slot) (id : Int)
  | deallocRet (t : Slot) (id : Int) (result : Int)
  | joinRet (t : Slot) (tid : Int) (result : Int)
  | kfree (tid : Int) (page : Page)
  | forkBegin (np : ProcIx)
  | forkDone (np : ProcIx)
  | waitRet (t : Slot) (pid : Int)
  deriving DecidableEq

structure KState where
  proc : ProcIx → Proc
  thread : Slot → Thread
  mutex : MutexIx → Mutex
  initproc : ProcIx
  nextpid : Int
  nexttid : Int
  nextmid : Int
  ptableLock : Option Slot
  mtableLock : Option Slot
  freelist : List Page
  otherPages : List Page
  log : Log
  sleepLock : LockIx → SleepLock
  idequeue : List (Fin nbuf)
  fs : Slot → FsCtx
  pc : Slot → Pc
  cpu : Slot → Cpu
  hist : List Event
  panicked : Bool

def Occupied (s : KState) (t : Slot) : Prop :=
  (s.thread t).state ≠ .tUnused ∧ (s.thread t).state ≠ .tZombie

instance (s : KState) (t : Slot) : Decidable (Occupied s t) :=
  inferInstanceAs (Decidable (_ ∧ _))

def next32 (n : Int) : Int := Int.bmod (n+1) (2^32)

theorem next32_eq (n : Int) (low : -2^31 ≤ n) (high : n < 2^31-1) : next32 n = n+1 := by
  unfold next32
  rw [Int.bmod_def]
  split <;> omega

namespace KState

def goto (s : KState) (t : Slot) (pc : Pc) : KState := {s with pc := update s.pc t pc}

def setCpu (s : KState) (t : Slot) (c : Cpu) : KState := {s with cpu := update s.cpu t c}

def setThread (s : KState) (t : Slot) (v : Thread) : KState :=
  {s with thread := update s.thread t v}

def setProc (s : KState) (p : ProcIx) (v : Proc) : KState :=
  {s with proc := update s.proc p v}

def setMutex (s : KState) (i : MutexIx) (v : Mutex) : KState :=
  {s with mutex := update s.mutex i v}

def setFs (s : KState) (t : Slot) (v : FsCtx) : KState := {s with fs := update s.fs t v}

def emit (s : KState) (e : Event) : KState := {s with hist := e :: s.hist}

/-- Return from a system call: `trap` tests `killed` next. -/
def sysret (s : KState) (t : Slot) : KState := s.goto t .retKilled

def panic (s : KState) : KState := {s with panicked := true}

attribute [simp] goto setCpu setThread setProc setMutex setFs emit sysret

end KState

def slots : List Slot := (List.finRange nproc).flatMap fun p => (List.finRange nthread).map fun i => (p,i)

theorem mem_slots (t : Slot) : t ∈ slots := by
  simp only [slots,List.mem_flatMap,List.mem_map]
  exact ⟨t.1,List.mem_finRange _,t.2,List.mem_finRange _,rfl⟩

end Kthreads
