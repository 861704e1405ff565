import Kthreads.Kernel.Sched

/-! What file-system calls hold while they sleep: log operations (log.c), sleep
locks (sleeplock.c) and disk requests (ide.c). A call is any sequence of these
that ends with its operation closed and its locks released. -/
namespace Kthreads

inductive FsOp
  | beginOp | endOp | commitEnd
  | logWrite (block : Nat)
  | acquireSleep (l : LockIx)
  | releaseSleep (l : LockIx)
  | iderw (b : Fin nbuf)
  | sleepOn (n : Nat)
  | ret
  deriving DecidableEq

/-- The two conditions under which `begin_op` has to wait. -/
def Log.busy (log : Log) : Prop :=
  log.committing = true ∨ log.lh.length + (log.outstanding+1)*maxOpBlocks > logSize

instance (log : Log) : Decidable log.busy := inferInstanceAs (Decidable (_ ∨ _))

def beginOp (s : KState) (t : Slot) (k : FsRet) : KState :=
  if s.log.busy then sleepEnter s t .log (.log k)
  else ({s with log := {s.log with outstanding := s.log.outstanding+1}}.setFs t
    {s.fs t with inOp := true}).goto t (.fs k)

def endOp (s : KState) (t : Slot) : KState :=
  let left := {s with log := {s.log with outstanding := s.log.outstanding-1}}.setFs t
    {s.fs t with inOp := false}
  if s.log.committing then left.panic
  else if s.log.outstanding-1 = 0 then
    {left with log := {left.log with committing := true}}.setFs t
      {left.fs t with inCommit := true}
  else wakeup1 left .log

def commitEnd (s : KState) (t : Slot) : KState :=
  wakeup1 ({s with log := {s.log with committing := false, lh := []}}.setFs t
    {s.fs t with inCommit := false}) .log

def logWrite (s : KState) (block : Nat) : KState :=
  if s.log.lh.length ≥ logSize ∨ s.log.lh.length + 1 ≥ s.log.size then s.panic
  else if s.log.outstanding < 1 then s.panic
  else if block ∈ s.log.lh then s
  else {s with log := {s.log with lh := s.log.lh ++ [block]}}

/-- One round of the loop of `acquiresleep`, under `lk->lk`. -/
def acquireSleep (s : KState) (t : Slot) (l : LockIx) (k : FsRet) : KState :=
  if (s.sleepLock l).locked then sleepEnter s t (.lock l) (.lock l k)
  else ({s with sleepLock := Function.update s.sleepLock l ⟨true,(s.proc t.1).pid⟩}.setFs t
    {s.fs t with owns := l :: (s.fs t).owns}).goto t (.fs k)

def releaseSleep (s : KState) (t : Slot) (l : LockIx) : KState :=
  wakeup1 ({s with sleepLock := Function.update s.sleepLock l ⟨false,0⟩}.setFs t
    {s.fs t with owns := (s.fs t).owns.erase l}) (.lock l)

def iderw (s : KState) (t : Slot) (b : Fin nbuf) (k : FsRet) : KState :=
  if (s.sleepLock (.buf b)).locked ∧ (s.sleepLock (.buf b)).pid = (s.proc t.1).pid then
    {s with idequeue := s.idequeue ++ [b]}.goto t (.ideWait b k)
  else s.panic

/-- One round of the wait of `iderw`: the request is done when `ideintr` has
taken the buffer off the queue. -/
def ideWait (s : KState) (t : Slot) (b : Fin nbuf) (k : FsRet) : KState :=
  if b ∈ s.idequeue then sleepEnter s t (.disk b) (.disk b k) else s.goto t (.fs k)

def ideintr (s : KState) : KState :=
  match s.idequeue with
  | [] => s
  | b :: rest => wakeup1 {s with idequeue := rest} (.disk b)

def FsRet.next : FsRet → Pc
  | .exit => .exitFinal
  | _ => .retKilled

def FsOp.ready (c : FsCtx) : FsOp → Prop
  | .beginOp => c.inOp = false ∧ c.inCommit = false
  | .endOp => c.inOp = true
  | .commitEnd => c.inCommit = true ∧ c.owns = []
  | .logWrite _ => c.inOp = true
  | .acquireSleep l => l ∉ c.owns
  | .releaseSleep l => l ∈ c.owns
  | .iderw b => .buf b ∈ c.owns
  | .sleepOn _ => True
  | .ret => c.inOp = false ∧ c.inCommit = false ∧ c.owns = []

instance (c : FsCtx) (op : FsOp) : Decidable (op.ready c) :=
  match op with
  | .beginOp | .commitEnd | .ret => inferInstanceAs (Decidable (_ ∧ _))
  | .endOp | .logWrite _ => inferInstanceAs (Decidable (_ = _))
  | .acquireSleep _ => inferInstanceAs (Decidable (_ ∉ _))
  | .releaseSleep _ | .iderw _ => inferInstanceAs (Decidable (_ ∈ _))
  | .sleepOn _ => inferInstanceAs (Decidable True)

def fsCode (s : KState) (t : Slot) (k : FsRet) : FsOp → KState
  | .beginOp => s.goto t (.beginOp k)
  | .endOp => endOp s t
  | .commitEnd => commitEnd s t
  | .logWrite block => logWrite s block
  | .acquireSleep l => s.goto t (.acquireSleep l k)
  | .releaseSleep l => releaseSleep s t l
  | .iderw b => iderw s t b k
  | .sleepOn n => sleepEnter s t (.other n) (.other n k)
  | .ret => s.goto t k.next

end Kthreads
