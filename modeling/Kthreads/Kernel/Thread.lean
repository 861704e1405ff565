import Kthreads.Kernel.Sched

/-! Creation, termination and joining of threads. -/
namespace Kthreads

def unusedSlot (s : KState) (p : ProcIx) : Option Slot :=
  ((List.finRange nthread).find? fun i => (s.thread (p,i)).state == .tUnused).map fun i => (p,i)

/-- The section of `allocthread` under `ptable.lock`, for the slot it found. -/
def allocthread (s : KState) (nt : Slot) : KState :=
  ({s with nexttid := next32 s.nexttid}.setThread nt {s.thread nt with
    state := .tEmbryo, tid := s.nexttid, shouldDie := false}).emit (.created nt)

/-- The rest of `allocthread(p)`: the kernel stack and the first context, which
starts at `forkret` and so in user mode. On failure the caller returns -1. -/
def allocStack (s : KState) (t nt : Slot) (k : Pc) : KState :=
  match s.freelist with
  | [] => ((s.setProc nt.1 {s.proc nt.1 with state := .unused}).setThread nt
      {s.thread nt with kstack := none, state := .tUnused}).sysret t
  | page :: rest => ((({s with freelist := rest}.setThread nt
      {s.thread nt with kstack := some page}).setProc nt.1
        {s.proc nt.1 with numOfThread := (s.proc nt.1).numOfThread+1}).goto nt .user).goto t k

/-- `kthread_create` in `allocthread(myproc())`. -/
def kthreadCreate (s : KState) (t : Slot) : KState :=
  match unusedSlot s t.1 with
  | none => s.sysret t
  | some nt => (allocthread s nt).goto t (.createStack nt)

def createRun (s : KState) (t nt : Slot) : KState :=
  (s.setThread nt {s.thread nt with state := .tRunnable}).sysret t

/-- The scan of `kthread_exit`, made without `ptable.lock`. -/
def kthreadExit (s : KState) (t : Slot) : KState :=
  if ∃ i, (s.thread t).tid ≠ (s.thread (t.1,i)).tid ∧ Occupied s (t.1,i) then s.goto t .exitThread
  else s.goto t .exitMark

/-- `exitThread` up to its `swtch`. The source repeats the same `wakeup1` for
every table entry; once has the same effect. -/
def exitThread (s : KState) (t : Slot) : KState :=
  let woken := wakeup1 s (.thread t)
  (({woken with ptableLock := some t}.setThread t
    {woken.thread t with shouldDie := false, state := .tZombie}).setCpu t .sched).goto t .dead

/-- The marking section of `exit` and `exec`: every other thread of the process is
told to die and every sleeper is made runnable. -/
def markSiblings (s : KState) (t : Slot) : KState :=
  {s with thread := fun u => if u.1 = t.1 then {s.thread u with
      shouldDie := if (s.thread u).tid ≠ (s.thread t).tid then true else (s.thread u).shouldDie
      state := if (s.thread u).state = .tSleeping then .tRunnable else (s.thread u).state}
    else s.thread u}

def Drainer.next : Drainer → Pc
  | .exit => .exitMutexes 0
  | .exec => .fs .exec

/-- One entry of the draining loop, and the test at its end. `exec` also makes a
sleeper that it meets runnable. -/
def drain (s : KState) (t : Slot) (k : Drainer) (i numthread : Nat) : KState :=
  if inside : i < nthread then
    let u : Slot := (t.1,⟨i,inside⟩)
    match (s.thread u).state with
    | .tZombie => s.goto t (.drainFree k ⟨i,inside⟩ numthread)
    | .tUnused => s.goto t (.drain k (i+1) numthread)
    | .tSleeping =>
      match k with
      | .exit => s.goto t (.drain k (i+1) (numthread+1))
      | .exec => (s.setThread u {s.thread u with state := .tRunnable}).goto t
          (.drain k (i+1) (numthread+1))
    | _ => s.goto t (.drain k (i+1) (numthread+1))
  else if numthread > 1 then s.goto t (.drain k 0 0)
  else s.goto t k.next

/-- `kfree(t->kstack); t->kstack = 0; t->tid = 0; t->state = T_UNUSED`. A null
stack makes `kfree` panic, and a panicked kernel does nothing more. -/
def reapThread (s : KState) (u : Slot) : KState :=
  if s.panicked then s
  else match (s.thread u).kstack with
    | none => s.panic
    | some page => ({s with freelist := page :: s.freelist}.setThread u
        {s.thread u with kstack := none, tid := 0, state := .tUnused}).emit
          (.kfree (s.thread u).tid page)

/-- The branch of the draining loop that frees a zombie it has seen. -/
def drainFree (s : KState) (t : Slot) (k : Drainer) (i : Fin nthread) (numthread : Nat) : KState :=
  let freed := reapThread s (t.1,i)
  if freed.panicked then freed
  else (freed.setProc t.1 {freed.proc t.1 with
    numOfThread := (freed.proc t.1).numOfThread-1}).goto t (.drain k (i.val+1) numthread)

def findThread (s : KState) (tid : Int) : Option Slot :=
  slots.find? fun u => (s.proc u.1).state != .unused && (s.thread u).tid == tid

/-- One round of the loop of `kthread_join`, under `ptable.lock`. -/
def kthreadJoin (s : KState) (t : Slot) (tid : Int) : KState :=
  if (s.thread t).shouldDie then {s with ptableLock := none}.goto t .kthreadExit
  else match findThread s tid with
    | none => ({s with ptableLock := none}.emit (.joinRet t tid (-1))).sysret t
    | some u =>
      match (s.thread u).state with
      | .tUnused => s.panic
      | .tZombie => {s with ptableLock := none}.goto t (.joinFree tid u)
      | _ => sleepCommit s t (.thread u) (.join tid)

/-- The freeing part of `kthread_join`, after the release of `ptable.lock`. -/
def joinFree (s : KState) (t : Slot) (tid : Int) (u : Slot) : KState :=
  let freed := reapThread s u
  if freed.panicked then freed
  else ((freed.setThread u {freed.thread u with shouldDie := false}).emit
    (.joinRet t tid 0)).sysret t

end Kthreads
