import Kthreads.Kernel.Thread

/-! `fork`, `exit`, `wait`, `kill` and the tests that `trap` makes. -/
namespace Kthreads

/-- `allocproc` as called by `fork`. -/
def forkProc (s : KState) (t : Slot) : KState :=
  match (List.finRange nproc).find? fun p => (s.proc p).state == .unused with
  | none => s.sysret t
  | some np => (({s with nextpid := next32 s.nextpid}.setProc np
      {s.proc np with state := .used, pid := s.nextpid}).emit (.forkBegin np)).goto t (.forkAlloc np)

/-- `fork` in `allocthread(np)`. When the table is full `np` keeps its state. -/
def forkAlloc (s : KState) (t : Slot) (np : ProcIx) : KState :=
  match unusedSlot s np with
  | none => s.sysret t
  | some nt => (allocthread s nt).goto t (.forkStack nt)

/-- `copyuvm` and the copying of the parent's fields, where `np` is the process of
`nt`; `copied` says whether `copyuvm` found enough memory. On failure the stack that
held the first context of `nt` is freed. -/
def forkCopy (s : KState) (t nt : Slot) (copied : Bool) : KState :=
  if copied then (s.setProc nt.1 {s.proc nt.1 with parent := some t.1}).goto t (.forkRun nt)
  else match (s.thread nt).kstack with
    | none => s.panic
    | some page => (((({s with freelist := page :: s.freelist}.setThread nt
        {s.thread nt with kstack := none, state := .tUnused}).setProc nt.1
          {s.proc nt.1 with state := .unused}).emit (.kfree (s.thread nt).tid page)).goto nt .idle).sysret t

def forkRun (s : KState) (t nt : Slot) : KState :=
  (((s.setProc nt.1 {s.proc nt.1 with state := .used}).setThread nt
    {s.thread nt with state := .tRunnable}).emit (.forkDone nt.1)).sysret t

def exitMark (s : KState) (t : Slot) : KState :=
  if t.1 = s.initproc then s.panic else (markSiblings s t).goto t (.drain .exit 0 0)

def exitMutexes (s : KState) (t : Slot) (j : Nat) : KState :=
  if inside : j < maxMutexes then
    if (s.mutex ⟨j,inside⟩).pidHolder = (s.proc t.1).pid then
      s.goto t (.deallocCall (s.mutex ⟨j,inside⟩).mid (.exit j))
    else s.goto t (.exitMutexes (j+1))
  else s.goto t (.fs .exit)

def threadChans (p : ProcIx) : Chan → Bool
  | .thread t => t.1 == p
  | _ => false

/-- `Parent might be sleeping in wait()`. -/
def wakeParent (s : KState) (p : ProcIx) : KState :=
  match (s.proc p).parent with
  | none => s
  | some q => wakeAll s (threadChans q)

/-- `Pass abandoned children to init`. -/
def abandonChildren (s : KState) (p : ProcIx) : KState :=
  let passed := {s with proc := fun c => if (s.proc c).parent = some p
    then {s.proc c with parent := some s.initproc} else s.proc c}
  if ∃ c, (s.proc c).parent = some p ∧ (s.proc c).state = .zombie
  then wakeAll passed (threadChans s.initproc) else passed

def buryProcess (s : KState) (p : ProcIx) : KState :=
  {s.setProc p {s.proc p with state := .zombie} with
    thread := fun u => if u.1 = p ∧ (s.thread u).state ≠ .tUnused
      then {s.thread u with state := .tZombie} else s.thread u}

/-- The last section of `exit`, up to its `swtch`. -/
def exitFinal (s : KState) (t : Slot) : KState :=
  ({buryProcess (abandonChildren (wakeParent s t.1) t.1) t.1 with
    ptableLock := some t}.setCpu t .sched).goto t .dead

def execCheck (s : KState) (t : Slot) : KState :=
  s.goto t (if (s.thread t).shouldDie then .kthreadExit else .execMark)

def execMark (s : KState) (t : Slot) : KState := (markSiblings s t).goto t (.drain .exec 0 0)

def zombieChild (s : KState) (p : ProcIx) : Option ProcIx :=
  (List.finRange nproc).find? fun c => (s.proc c).parent == some p && (s.proc c).state == .zombie

/-- The inner loop of `wait` over the threads of a zombie child. -/
def reapThreads (s : KState) (c : ProcIx) : KState :=
  (List.finRange nthread).foldl (fun s i =>
    if (s.thread (c,i)).state = .tZombie then reapThread s (c,i) else s) s

/-- One round of the loop of `wait`, under `ptable.lock`. -/
def wait (s : KState) (t : Slot) : KState :=
  match zombieChild s t.1 with
  | some c =>
    let freed := reapThreads s c
    if freed.panicked then freed
    else (({freed with ptableLock := none}.setProc c {freed.proc c with
      pid := 0, parent := none, killed := false, state := .unused}).emit
        (.waitRet t (s.proc c).pid)).sysret t
  | none =>
    if (¬ ∃ c, (s.proc c).parent = some t.1) ∨ (s.proc t.1).killed = true then
      ({s with ptableLock := none}.emit (.waitRet t (-1))).sysret t
    else sleepCommit s t (.thread t) .wait

/-- `kill`, under `ptable.lock`. -/
def kill (s : KState) (t : Slot) (pid : Int) : KState :=
  match (List.finRange nproc).find? fun p => (s.proc p).pid == pid with
  | none => s.sysret t
  | some p => (rouse (s.setProc p {s.proc p with killed := true}) p).sysret t

def testKilled (s : KState) (t : Slot) (k : Pc) : KState :=
  s.goto t (if (s.proc t.1).killed then .exitMark else k)

def testShouldDie (s : KState) (t : Slot) (k : Pc) : KState :=
  s.goto t (if (s.thread t).shouldDie then .kthreadExit else k)

end Kthreads
