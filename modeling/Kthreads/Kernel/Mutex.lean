import Kthreads.Kernel.Sched

/-! The mutex system calls of proc.c, cut where a spin lock is taken or given back. -/
namespace Kthreads

def findMutex (s : KState) (id : Int) : Option MutexIx :=
  (List.finRange maxMutexes).find? fun i => (s.mutex i).mid == id

def freeMutex (s : KState) : Option MutexIx :=
  (List.finRange maxMutexes).find? fun i => (s.mutex i).state == .uninitialized

/-- `m->holding->tid`. With a null `holding` the kernel reads user memory, which
may hold any word. -/
def holdingTid (s : KState) (i : MutexIx) (word : Int) : Int :=
  match (s.mutex i).holding with
  | none => word
  | some h => (s.thread h).tid

/-- `kthread_mutex_lock` up to the wait for `mutexLock`, under `mtable.lock`. -/
def kthreadMutexLock (s : KState) (t : Slot) (id word : Int) : KState :=
  match findMutex s id with
  | none => (s.emit (.lockRet t id (-1))).sysret t
  | some i =>
    if (s.mutex i).state = .uninitialized ∨ holdingTid s i word = (s.thread t).tid then
      (s.emit (.lockRet t id (-1))).sysret t
    else {s with mtableLock := some t}.goto t (.lockHold i id)

def lockGrab (s : KState) (t : Slot) (i : MutexIx) (id : Int) : KState :=
  ({s with mtableLock := none}.setMutex i {s.mutex i with mutexLock := some t}).goto t (.lockTry i id)

def lockTry (s : KState) (t : Slot) (i : MutexIx) (id : Int) : KState :=
  if (s.mutex i).lock ≠ 0 then
    sleepEnter (s.setMutex i {s.mutex i with lock := 1, mutexLock := none}) t (.mutex i) (.mutex i id)
  else
    ((s.setMutex i {s.mutex i with
        lock := 1, state := .closed, holding := some t, mutexLock := none}).emit
      (.lockRet t id 0)).sysret t

/-- `acquire(lk)` at the end of `sleep`, back into the loop. -/
def lockAgain (s : KState) (t : Slot) (i : MutexIx) (id : Int) : KState :=
  (s.setMutex i {s.mutex i with mutexLock := some t}).goto t (.lockTry i id)

/-- `kthread_mutex_unlock` up to the wait for `mutexLock`. -/
def kthreadMutexUnlock (s : KState) (t : Slot) (id : Int) : KState :=
  match findMutex s id with
  | none => (s.emit (.unlockRet t id (-1))).sysret t
  | some i => {s with mtableLock := some t}.goto t (.unlockHold i id)

/-- The first thread of the caller's process that sleeps on the mutex. -/
def mutexSleeper (s : KState) (p : ProcIx) (i : MutexIx) : Option (Fin nthread) :=
  (List.finRange nthread).find? fun j => wakes (· == .mutex i) (s.thread (p,j))

def wakeSleeper (s : KState) (p : ProcIx) (i : MutexIx) : KState :=
  match mutexSleeper s p i with
  | none => s
  | some j => s.setThread (p,j) {s.thread (p,j) with state := .tRunnable}

/-- The rest of `kthread_mutex_unlock`, under `mutexLock` only. -/
def unlockBody (s : KState) (t : Slot) (i : MutexIx) (id word : Int) : KState :=
  if (s.mutex i).state ≠ .closed ∨ holdingTid s i word ≠ (s.thread t).tid then
    ({s with mtableLock := none}.emit (.unlockRet t id (-1))).sysret t
  else
    ((wakeSleeper ({s with mtableLock := none}.setMutex i {s.mutex i with
        lock := 0, state := .opened, holding := none}) t.1 i).emit (.unlockRet t id 0)).sysret t

/-- The scan of `kthread_mutex_alloc` under `mtable.lock`. -/
def kthreadMutexAlloc (s : KState) (t : Slot) : KState :=
  match freeMutex s with
  | none => (s.emit (.allocRet t (-1))).sysret t
  | some i => {s with mtableLock := some t}.goto t (.allocHold i)

def allocGrab (s : KState) (t : Slot) (i : MutexIx) : KState :=
  ({s with mtableLock := none}.setMutex i {s.mutex i with mutexLock := some t}).goto t (.allocInit i)

def allocInit (s : KState) (t : Slot) (i : MutexIx) : KState :=
  ({s with nextmid := next32 s.nextmid}.setMutex i {
    mid := s.nextmid, lock := 0, numOfWaiting := 0, mutexLock := none, state := .opened,
    holding := none, pidHolder := (s.proc t.1).pid}).goto t (.allocRead i)

def allocRead (s : KState) (t : Slot) (i : MutexIx) : KState :=
  (s.emit (.allocRet t (s.mutex i).mid)).sysret t

def deallocReturn (s : KState) (t : Slot) (id result : Int) : DeallocRet → KState
  | .sys => (s.emit (.deallocRet t id result)).sysret t
  | .exit j => (s.emit (.deallocRet t id result)).goto t (.exitMutexes (j+1))

/-- `kthread_mutex_dealloc` up to the wait for `mutexLock`; `mtable.lock` stays held. -/
def kthreadMutexDealloc (s : KState) (t : Slot) (id : Int) (k : DeallocRet) : KState :=
  match findMutex s id with
  | none => deallocReturn s t id (-1) k
  | some i =>
    if (s.mutex i).state = .closed ∨ (s.mutex i).numOfWaiting ≠ 0 then deallocReturn s t id (-1) k
    else {s with mtableLock := some t}.goto t (.deallocHold i id k)

/-- The reset under `mtable.lock` and `mutexLock`. -/
def deallocBody (s : KState) (t : Slot) (i : MutexIx) (id : Int) (k : DeallocRet) : KState :=
  deallocReturn ({s with mtableLock := none}.setMutex i {s.mutex i with
    holding := none, mid := 0, lock := 0, numOfWaiting := 0, pidHolder := 0,
    state := .uninitialized}) t id 0 k

end Kthreads
