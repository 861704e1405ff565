import Kthreads.Kernel.State

/-! `sleep`, `wakeup1`, `yield` and the scheduler of proc.c. -/
namespace Kthreads

def wakes (chans : Chan → Bool) (v : Thread) : Bool :=
  v.state == .tSleeping && v.chan.any chans

def wakeAll (s : KState) (chans : Chan → Bool) : KState :=
  {s with
    thread := fun t => if wakes chans (s.thread t) then {s.thread t with state := .tRunnable}
      else s.thread t
    proc := fun p => if ∃ i, wakes chans (s.thread (p,i)) = true then {s.proc p with state := .used}
      else s.proc p}

def wakeup1 (s : KState) (chan : Chan) : KState := wakeAll s (· == chan)

/-- Make every sleeper of `p` runnable, whatever it sleeps on. -/
def rouse (s : KState) (p : ProcIx) : KState :=
  {s with thread := fun t => if t.1 = p ∧ (s.thread t).state = .tSleeping
    then {s.thread t with state := .tRunnable} else s.thread t}

/-- `sleep` with `lk != &ptable.lock`: `ptable.lock` is taken; the caller's step
gives back `lk`. The channel and the state are written in a later step. -/
def sleepEnter (s : KState) (t : Slot) (chan : Chan) (site : Site) : KState :=
  {s with ptableLock := some t}.goto t (.sleepHold chan site)

def sleepCommit (s : KState) (t : Slot) (chan : Chan) (site : Site) : KState :=
  (({s with ptableLock := some t}.setThread t
    {s.thread t with chan := some chan, state := .tSleeping}).setCpu t .sched).goto t (.asleep site)

def Site.underPtable : Site → Bool
  | .join _ | .wait => true
  | _ => false

def Site.resume : Site → Pc
  | .join tid => .joinLoop tid
  | .wait => .waitLoop
  | site => .reacquire site

def sleepResume (s : KState) (t : Slot) (site : Site) : KState :=
  if (s.thread t).shouldDie then s.goto t .kthreadExit
  else
    {s with ptableLock := if site.underPtable then some t else none}.setThread t
      {s.thread t with chan := none} |>.goto t site.resume

/-- `scheduler` picks `t` and switches to it. A thread that had slept goes on in
`sleep`; any other one releases `ptable.lock` in `yield` or `forkret`. -/
def scheduler (s : KState) (t : Slot) : KState :=
  let next := ((s.setProc t.1 {s.proc t.1 with state := .used}).setThread t
    {s.thread t with state := .tRunning}).setCpu t .on
  match s.pc t with
  | .asleep site => sleepResume next t site
  | _ => next

def yield (s : KState) (t : Slot) : KState :=
  (({s with ptableLock := some t}.setProc t.1 {s.proc t.1 with state := .used}).setThread t
    {s.thread t with state := .tRunnable}).setCpu t .sched

/-- The `swtch` at the end of `sched`; the scheduler then releases `ptable.lock`
or hands it to the next thread. -/
def swtch (s : KState) (t : Slot) : KState := {s with ptableLock := none}.setCpu t .off

/-- Places that run with a spin lock held, hence with interrupts off. -/
def Pc.spin : Pc → Bool
  | .lockHold _ _ | .lockTry _ _ | .unlockHold _ _ | .allocHold _ | .allocInit _
  | .deallocHold _ _ _ | .sleepHold _ _ => true
  | _ => false

end Kthreads
