import Kthreads.Lib.Interleave
import Kthreads.Kernel.Sched

/-! `sleep`, `wakeup` and the switch between threads and schedulers, for any types of threads,
channels, spin locks and CPUs. Every lock is taken and given back in a step of its own, and
what callers do while they hold locks is up to them. -/
open Function (update)

namespace Kthreads

inductive Owner (T K : Type)
  | thread (t : T)
  | scheduler (k : K)

inductive Rest (C L : Type)
  | forkret
  | yield
  | sleep (chan : C) (lk : L)
  | exitThread
  deriving DecidableEq

/-- The place a thread has reached; `code` is any code outside the functions modelled here,
with the locks that it holds. -/
inductive SleepPc (C L : Type)
  | code (locks : List L)
  | sleepCall (chan : C) (lk : L)
  | sleepRelease (chan : C) (lk : L)
  | sleepSet (chan : C) (lk : L)
  | sched (r : Rest C L)
  | off (r : Rest C L)
  | woken (r : Rest C L)
  | sleepAcquire (chan : C) (lk : L)
  | sleepRet (chan : C) (lk : L)
  | wakeupScan (chan : C) (locks : List L)
  | wakeupRelease (chan : C) (locks : List L)
  | kthreadExit
  deriving DecidableEq

/-- What a CPU does: it is in the loop of `scheduler` without or with `ptable.lock`, or it
executes a thread. -/
inductive CpuPlace (T : Type)
  | loop
  | scan
  | run (t : T)

structure Task (C : Type) where
  state : ThreadState
  chan : Option C
  shouldDie : Bool

/-- Tests and changes of a condition and the end of a `wakeup` or `wakeup1`. -/
inductive SleepEvent (T C L : Type)
  | test (t : T) (chan : C) (lk : L)
  | change (t : T) (chan : C) (lk : L)
  | woke (t : T) (chan : C)
  deriving DecidableEq

structure SleepState (T C L K : Type) where
  task : T → Task C
  holder : L → Option (Owner T K)
  cpu : K → CpuPlace T
  pc : T → SleepPc C L
  hist : List (SleepEvent T C L)
  panicked : Bool

/-- What the thread or the scheduler on a CPU does next. A test finds the condition in a state
in which the caller sleeps, or not; `rouse` and `doom` are what `kill`, `exit` and `exec` do to
another thread. -/
inductive SleepOp (T C L : Type)
  | run
  | pick (t : T)
  | acquire (lk : L)
  | release (lk : L)
  | test (chan : C) (lk : L) (sleeps : Bool)
  | change (chan : C) (lk : L)
  | wakeup (chan : C)
  | wakeup1 (chan : C)
  | rouse (u : T)
  | doom (u : T)
  | yield

namespace Task

variable {C : Type}

def setState (v : Task C) (state : ThreadState) : Task C := {v with state := state}

def wakeup1 [DecidableEq C] (v : Task C) (chan : C) : Task C :=
  if v.state = .tSleeping ∧ v.chan = some chan then v.setState .tRunnable else v

def rouse (v : Task C) : Task C := if v.state = .tSleeping then v.setState .tRunnable else v

end Task

namespace SleepState

variable {T C L K : Type} [DecidableEq T] [DecidableEq C] [DecidableEq L] [DecidableEq K]

def goto (s : SleepState T C L K) (t : T) (pc : SleepPc C L) : SleepState T C L K :=
  {s with pc := update s.pc t pc}

def give (s : SleepState T C L K) (l : L) (o : Option (Owner T K)) : SleepState T C L K :=
  {s with holder := update s.holder l o}

def setCpu (s : SleepState T C L K) (k : K) (c : CpuPlace T) : SleepState T C L K :=
  {s with cpu := update s.cpu k c}

def setTask (s : SleepState T C L K) (t : T) (v : Task C) : SleepState T C L K :=
  {s with task := update s.task t v}

def emit (s : SleepState T C L K) (e : SleepEvent T C L) : SleepState T C L K := {s with hist := e :: s.hist}

def panic (s : SleepState T C L K) : SleepState T C L K := {s with panicked := true}

def wakeup1 (s : SleepState T C L K) (chan : C) : SleepState T C L K :=
  {s with task := fun t => (s.task t).wakeup1 chan}

variable (ptable : L)

def take (s : SleepState T C L K) (t : T) (l : L) (pc : SleepPc C L) : Option (SleepState T C L K) :=
  if (s.holder l).isNone then some ((s.give l (some (.thread t))).goto t pc) else none

/-- `sched` up to its `swtch`, with which `ptable.lock` goes to the scheduler. -/
def sched (s : SleepState T C L K) (k : K) (t : T) (r : Rest C L) : SleepState T C L K :=
  if (s.task t).state = .tRunning then s.panic
  else ((s.give ptable (some (.scheduler k))).setCpu k .scan).goto t (.off r)

def sleepResume (s : SleepState T C L K) (t : T) (chan : C) (lk : L) : SleepState T C L K :=
  if (s.task t).shouldDie then (s.give ptable none).goto t .kthreadExit
  else
    let tidy := s.setTask t {s.task t with chan := none}
    if lk = ptable then tidy.goto t (.sleepRet chan lk)
    else (tidy.give ptable none).goto t (.sleepAcquire chan lk)

/-- The caller's code, with the checks of `acquire` and `release`. A thread that sleeps with a
second lock panics in `sched`. -/
def caller (s : SleepState T C L K) (t : T) (locks : List L) : SleepOp T C L → Option (SleepState T C L K)
  | .acquire l => if l ∈ locks then some s.panic else s.take t l (.code (l :: locks))
  | .release l =>
    if l ∈ locks then some ((s.give l none).goto t (.code (locks.filter (· ≠ l)))) else some s.panic
  | .test chan lk sleeps =>
    if lk ∉ locks then none
    else if sleeps = false then some ((s.emit (.test t chan lk)).goto t (.code locks))
    else if locks = [lk] then some ((s.emit (.test t chan lk)).goto t (.sleepCall chan lk))
    else some s.panic
  | .change chan lk => if lk ∈ locks then some ((s.emit (.change t chan lk)).goto t (.code locks)) else none
  | .wakeup chan => if ptable ∈ locks then some s.panic else s.take t ptable (.wakeupScan chan locks)
  | .wakeup1 chan =>
    if ptable ∈ locks then some (((s.wakeup1 chan).emit (.woke t chan)).goto t (.code locks)) else none
  | .rouse u => if ptable ∈ locks then some ((s.setTask u (s.task u).rouse).goto t (.code locks)) else none
  | .doom u =>
    if ptable ∈ locks then some ((s.setTask u {s.task u with shouldDie := true}).goto t (.code locks)) else none
  | .yield =>
    if locks = [] then (s.setTask t ((s.task t).setState .tRunnable)).take t ptable (.sched .yield) else none
  | _ => none

/-- The next step of `t` on CPU `k` inside `sleep`, `wakeup`, `sched`, `forkret` or `kthread_exit`. -/
def kernel (s : SleepState T C L K) (k : K) (t : T) : Option (SleepState T C L K) :=
  match s.pc t with
  | .sleepCall chan lk =>
    if lk = ptable then some (s.goto t (.sleepSet chan lk)) else s.take t ptable (.sleepRelease chan lk)
  | .sleepRelease chan lk => some ((s.give lk none).goto t (.sleepSet chan lk))
  | .sleepSet chan lk =>
    some ((s.setTask t {s.task t with chan := some chan, state := .tSleeping}).goto t (.sched (.sleep chan lk)))
  | .sched r => some (s.sched ptable k t r)
  | .woken (.sleep chan lk) => some (s.sleepResume ptable t chan lk)
  | .woken .exitThread => none
  | .woken _ => some ((s.give ptable none).goto t (.code []))
  | .sleepAcquire chan lk => s.take t lk (.sleepRet chan lk)
  | .sleepRet _ lk => some (s.goto t (.code [lk]))
  | .wakeupScan chan locks => some ((s.wakeup1 chan).goto t (.wakeupRelease chan locks))
  | .wakeupRelease chan locks => some (((s.give ptable none).emit (.woke t chan)).goto t (.code locks))
  | .kthreadExit => (s.setTask t ((s.task t).setState .tZombie)).take t ptable (.sched .exitThread)
  | .code _ | .off _ => none

def step (s : SleepState T C L K) : K × SleepOp T C L → Option (SleepState T C L K)
  | (k,op) =>
    if s.panicked then none
    else match s.cpu k,op with
      | .loop,.run =>
        if (s.holder ptable).isNone then some ((s.give ptable (some (.scheduler k))).setCpu k .scan) else none
      | .scan,.run => some ((s.give ptable none).setCpu k .loop)
      | .scan,.pick t =>
        match s.pc t with
        | .off r =>
          if (s.task t).state = .tRunnable then
            some ((((s.setTask t ((s.task t).setState .tRunning)).give ptable (some (.thread t))).setCpu k
              (.run t)).goto t (.woken r))
          else none
        | _ => none
      | .run t,op =>
        match s.pc t,op with
        | .code locks,op => s.caller ptable t locks op
        | _,.run => s.kernel ptable k t
        | _,_ => none
      | _,_ => none

end SleepState

def SleepPc.locks {C L : Type} (ptable : L) : SleepPc C L → List L
  | .code locks => locks
  | .sleepCall _ lk | .sleepRet _ lk => [lk]
  | .sleepRelease _ lk => [ptable,lk]
  | .sleepSet _ _ | .sched _ | .woken _ => [ptable]
  | .wakeupScan _ locks | .wakeupRelease _ locks => ptable :: locks
  | .off _ | .sleepAcquire _ _ | .kthreadExit => []

structure Held {T C L K : Type} (ptable : L) (holder : L → Option (Owner T K)) (cpu : K → CpuPlace T)
    (pc : T → SleepPc C L) : Prop where
  own : ∀ l t, holder l = some (.thread t) ↔ l ∈ (pc t).locks ptable
  scan : ∀ l k, holder l = some (.scheduler k) ↔ l = ptable ∧ cpu k = .scan

namespace Held

variable {T C L K : Type} [DecidableEq T] [DecidableEq L] {ptable : L} {holder : L → Option (Owner T K)}
  {cpu : K → CpuPlace T} {pc : T → SleepPc C L} {t : T}

theorem take (held : Held ptable holder cpu pc) (l : L) (free : holder l = none) (pc' : SleepPc C L)
    (more : ∀ x, x ∈ pc'.locks ptable ↔ x = l ∨ x ∈ (pc t).locks ptable) :
    Held ptable (update holder l (some (.thread t))) cpu (update pc t pc') := by
  have unowned (u : T) : l ∉ (pc u).locks ptable := by
    intro owned
    exact absurd (free.symm.trans ((held.own l u).mpr owned)) (by simp)
  refine ⟨?_,?_⟩
  · intro x u
    by_cases here : x = l <;> by_cases same : u = t
    · simp [here,same,more]
    · simp [here,same,unowned,Ne.symm same]
    · simp [here,same,more,held.own]
    · simp [here,same,held.own]
  · intro x k
    by_cases here : x = l
    · have none := held.scan l k
      rw [free] at none
      simpa [here] using none
    · simpa [here] using held.scan x k

theorem drop (held : Held ptable holder cpu pc) (l : L) (owned : l ∈ (pc t).locks ptable) (pc' : SleepPc C L)
    (less : ∀ x, x ∈ pc'.locks ptable ↔ x ≠ l ∧ x ∈ (pc t).locks ptable) :
    Held ptable (update holder l none) cpu (update pc t pc') := by
  have owner := (held.own l t).mpr owned
  refine ⟨?_,?_⟩
  · intro x u
    by_cases here : x = l <;> by_cases same : u = t
    · simp [here,same,less]
    · have other := held.own l u
      rw [owner] at other
      simpa [here,same,Ne.symm same] using other
    · simp [here,same,less,held.own]
    · simp [here,same,held.own]
  · intro x k
    by_cases here : x = l
    · have none := held.scan l k
      rw [owner] at none
      simpa [here] using none
    · simpa [here] using held.scan x k

omit [DecidableEq T] [DecidableEq L] in
theorem alone (held : Held ptable holder cpu pc) {l : L} {u : T} (mine : l ∈ (pc t).locks ptable)
    (other : l ∈ (pc u).locks ptable) : u = t := by
  have first := (held.own l t).mpr mine
  have second := (held.own l u).mpr other
  simpa using second.symm.trans first

omit [DecidableEq L] in
theorem keep (held : Held ptable holder cpu pc) (pc' : SleepPc C L)
    (same : ∀ x, x ∈ pc'.locks ptable ↔ x ∈ (pc t).locks ptable) : Held ptable holder cpu (update pc t pc') := by
  refine ⟨?_,held.scan⟩
  intro x u
  by_cases here : u = t
  · simp [here,same,held.own]
  · simp [here,held.own]

variable [DecidableEq K] {k : K}

theorem toScheduler (held : Held ptable holder cpu pc) (place : (pc t).locks ptable = [ptable])
    (pc' : SleepPc C L) (none : pc'.locks ptable = []) :
    Held ptable (update holder ptable (some (.scheduler k))) (update cpu k .scan)
      (update pc t pc') := by
  have owner := (held.own ptable t).mpr (by simp [place])
  refine ⟨?_,?_⟩
  · intro x u
    by_cases here : x = ptable <;> by_cases same : u = t
    · simp [here,same,none]
    · have other := held.own ptable u
      rw [owner] at other
      simpa [here,same,Ne.symm same] using other
    · have other := held.own x t
      simpa [here,same,none,place] using other
    · simp [here,same,held.own]
  · intro x j
    have before := held.scan x j
    by_cases here : x = ptable <;> by_cases same : j = k
    · simp [here,same]
    · rw [here,owner] at before
      simpa [here,same,Ne.symm same] using before
    · simpa [here,same] using before
    · simpa [here,same] using before

theorem toThread (held : Held ptable holder cpu pc) (scan : cpu k = .scan) (c : CpuPlace T) (away : c ≠ .scan)
    (place : (pc t).locks ptable = []) (pc' : SleepPc C L) (one : pc'.locks ptable = [ptable]) :
    Held ptable (update holder ptable (some (.thread t))) (update cpu k c)
      (update pc t pc') := by
  have owner := (held.scan ptable k).mpr ⟨rfl,scan⟩
  refine ⟨?_,?_⟩
  · intro x u
    by_cases here : x = ptable <;> by_cases same : u = t
    · simp [here,same,one]
    · have other := held.own ptable u
      rw [owner] at other
      simpa [here,same,Ne.symm same] using other
    · have other := held.own x t
      simpa [here,same,one,place] using other
    · simp [here,same,held.own]
  · intro x j
    have before := held.scan x j
    by_cases here : x = ptable <;> by_cases same : j = k
    · simp [here,same,away]
    · rw [here,owner] at before
      have other : cpu j ≠ .scan := by simpa [Ne.symm same] using before
      simp [here,same,other]
    · simpa [here,same,away] using before
    · simpa [here,same] using before

omit [DecidableEq T] in
theorem enter (held : Held ptable holder cpu pc) (free : holder ptable = none) :
    Held ptable (update holder ptable (some (.scheduler k))) (update cpu k .scan) pc := by
  refine ⟨?_,?_⟩
  · intro x u
    have before := held.own x u
    by_cases here : x = ptable
    · rw [here,free] at before
      simpa [here] using before
    · simpa [here] using before
  · intro x j
    have before := held.scan x j
    by_cases here : x = ptable <;> by_cases same : j = k
    · simp [here,same]
    · rw [here,free] at before
      simpa [here,same,Ne.symm same] using before
    · simpa [here,same] using before
    · simpa [here,same] using before

omit [DecidableEq T] in
theorem leave (held : Held ptable holder cpu pc) (scan : cpu k = .scan) :
    Held ptable (update holder ptable none) (update cpu k .loop) pc := by
  have owner := (held.scan ptable k).mpr ⟨rfl,scan⟩
  refine ⟨?_,?_⟩
  · intro x u
    have before := held.own x u
    by_cases here : x = ptable
    · rw [here,owner] at before
      simpa [here] using before
    · simpa [here] using before
  · intro x j
    have before := held.scan x j
    by_cases here : x = ptable <;> by_cases same : j = k
    · simp [here,same]
    · rw [here,owner] at before
      have other : cpu j ≠ .scan := by simpa [Ne.symm same] using before
      simp [here,same,other]
    · simpa [here,same] using before
    · simpa [here,same] using before

end Held

namespace Task

variable {C : Type} {v v' : Task C} {chan : C}

def SleepsOn (v : Task C) (chan : C) : Prop := v.state = .tSleeping ∧ v.chan = some chan

def Eased (v v' : Task C) : Prop :=
  v'.chan = v.chan ∧ (v'.state = v.state ∨ v.state = .tSleeping ∧ v'.state = .tRunnable)

theorem Eased.refl (v : Task C) : v.Eased v := ⟨rfl,.inl rfl⟩

theorem Eased.sleepsOn (eased : v.Eased v') (sleeps : v'.SleepsOn chan) : v.SleepsOn chan := by
  obtain ⟨same,still | ⟨_,woken⟩⟩ := eased
  · exact ⟨still.symm.trans sleeps.1,same.symm.trans sleeps.2⟩
  · exact absurd (sleeps.1.symm.trans woken) (by simp)

theorem rouse_eased (v : Task C) : v.Eased v.rouse := by
  unfold rouse
  split
  next asleep => exact ⟨rfl,.inr ⟨asleep,rfl⟩⟩
  next => exact .refl v

variable [DecidableEq C]

theorem wakeup1_eased (v : Task C) (chan : C) : v.Eased (v.wakeup1 chan) := by
  unfold wakeup1
  split
  next asleep => exact ⟨rfl,.inr ⟨asleep.1,rfl⟩⟩
  next => exact .refl v

theorem wakeup1_awake (v : Task C) (chan : C) : ¬ (v.wakeup1 chan).SleepsOn chan := by
  unfold wakeup1
  split
  next => simp [SleepsOn,setState]
  next awake => exact awake

end Task

section Wakeups
variable {T C L K : Type} [DecidableEq T] [DecidableEq C] [DecidableEq L]

def SleepEvent.tests (t : T) (chan : C) (lk : L) (e : SleepEvent T C L) : Bool := decide (e = .test t chan lk)

def SleepEvent.changes (t : T) (chan : C) (lk : L) (e : SleepEvent T C L) : Bool := decide (e = .change t chan lk)

def SleepEvent.wakes (t : T) (chan : C) (e : SleepEvent T C L) : Bool := decide (e = .woke t chan)

/-- Nobody has changed the condition since the last test of `t`. -/
def Unchanged (hist : List (SleepEvent T C L)) (t : T) (chan : C) (lk : L) : Prop :=
  ∀ u, History.since (SleepEvent.changes u chan lk) (SleepEvent.tests t chan lk) hist = false

/-- Nobody has changed the condition since the last test of `t` and then completed a wakeup. -/
def Unmissed (hist : List (SleepEvent T C L)) (t : T) (chan : C) (lk : L) : Prop :=
  ∀ u, History.following (SleepEvent.changes u chan lk) (SleepEvent.wakes u chan) (SleepEvent.tests t chan lk) hist =
    false

theorem Unchanged.unmissed {hist : List (SleepEvent T C L)} {t : T} {chan : C} {lk : L}
    (unchanged : Unchanged hist t chan lk) : Unmissed hist t chan lk :=
  fun u => History.following_none hist (unchanged u)

theorem Unchanged.cons {hist : List (SleepEvent T C L)} {t : T} {chan : C} {lk : L} {e : SleepEvent T C L}
    (unchanged : Unchanged hist t chan lk) (other : ∀ u, e ≠ .change u chan lk) : Unchanged (e :: hist) t chan lk := by
  intro u
  simp [History.since,SleepEvent.changes,other u,show History.since _ _ hist = false from unchanged u]

theorem Unmissed.cons {hist : List (SleepEvent T C L)} {t : T} {chan : C} {lk : L} {e : SleepEvent T C L}
    (fresh : Unmissed hist t chan lk) (other : ∀ u, e ≠ .woke u chan) : Unmissed (e :: hist) t chan lk := by
  intro u
  exact History.following_skip (by simp [SleepEvent.wakes,other u]) (fresh u)

def Rest.Fits (v : Task C) (hist : List (SleepEvent T C L)) (t : T) : Rest C L → Prop
  | .sleep chan lk => v.state = .tRunnable ∨ v.state = .tSleeping ∧ v.chan = some chan ∧ Unmissed hist t chan lk
  | _ => v.state = .tRunnable ∨ v.state = .tZombie

def SleepPc.Fits (ptable : L) (v : Task C) (hist : List (SleepEvent T C L)) (t : T) : SleepPc C L → Prop
  | .sleepCall chan lk => v.state = .tRunning ∧ Unchanged hist t chan lk
  | .sleepRelease chan lk => v.state = .tRunning ∧ Unchanged hist t chan lk ∧ lk ≠ ptable
  | .sleepSet chan lk => v.state = .tRunning ∧ Unmissed hist t chan lk
  | .sched r | .off r => r.Fits v hist t
  | .wakeupScan _ locks | .wakeupRelease _ locks => v.state = .tRunning ∧ ptable ∉ locks
  | _ => v.state = .tRunning

structure SleepInv (ptable : L) (s : SleepState T C L K) : Prop where
  held : Held ptable s.holder s.cpu s.pc
  fits : ∀ t, (s.pc t).Fits ptable (s.task t) s.hist t
  quiet : ∀ u chan locks, s.pc u = .wakeupRelease chan locks → ∀ t, ¬ (s.task t).SleepsOn chan

def Recordable (ptable : L) (locks : List L) (task : T → Task C) (t : T) : SleepEvent T C L → Prop
  | .test u _ _ => u = t
  | .change _ _ lk => lk ∈ locks
  | .woke _ chan => ptable ∈ locks ∧ ∀ u, ¬ (task u).SleepsOn chan

structure Seen (ptable : L) (s : SleepState T C L K) (t : T) (s' : SleepState T C L K) : Prop where
  pc : ∀ u, u ≠ t → s'.pc u = s.pc u
  task : ∀ u, u ≠ t → (s.task u).Eased (s'.task u)
  hist : s'.hist = s.hist ∨ ∃ e, s'.hist = e :: s.hist ∧ Recordable ptable ((s.pc t).locks ptable) s'.task t e

section Step
variable {ptable : L} {s s' : SleepState T C L K} {t : T}

section
variable (inv : SleepInv ptable s)
include inv

theorem Seen.fits (seen : Seen ptable s t s') (u : T) (other : u ≠ t) :
    (s'.pc u).Fits ptable (s'.task u) s'.hist u := by
  have before := inv.fits u
  obtain ⟨chan,state⟩ := seen.task u other
  have unchanged (c : C) (l : L) (mine : l ∈ (s.pc u).locks ptable) (old : Unchanged s.hist u c l) :
      Unchanged s'.hist u c l := by
    rcases seen.hist with same | ⟨e,more,records⟩
    · exact same ▸ old
    · rw [more]
      refine old.cons ?_
      rintro w rfl
      exact other (inv.held.alone records mine)
  have awake (running : (s.task u).state = .tRunning) : (s'.task u).state = .tRunning := by
    rcases state with same | ⟨asleep,_⟩
    · exact same.trans running
    · exact absurd (asleep.symm.trans running) (by simp)
  have rests (r : Rest C L) (old : r.Fits (s.task u) s.hist u) : r.Fits (s'.task u) s'.hist u := by
    cases r with
    | sleep c l =>
      rcases state with same | ⟨_,woken⟩
      · rcases old with runnable | ⟨asleep,on,fresh⟩
        · exact .inl (same.trans runnable)
        · rcases seen.hist with still | ⟨e,more,records⟩
          · exact .inr ⟨same.trans asleep,chan.trans on,still ▸ fresh⟩
          · refine .inr ⟨same.trans asleep,chan.trans on,?_⟩
            rw [more]
            refine fresh.cons ?_
            rintro w rfl
            exact records.2 u ⟨same.trans asleep,chan.trans on⟩
      · exact .inl woken
    | _ =>
      rcases state with same | ⟨asleep,_⟩
      · exact old.imp same.trans same.trans
      · rcases old with runnable | zombie
        · exact absurd (asleep.symm.trans runnable) (by simp)
        · exact absurd (asleep.symm.trans zombie) (by simp)
  rw [seen.pc u other]
  cases place : s.pc u with
  | sleepCall c l =>
    rw [place] at before
    exact ⟨awake before.1,unchanged c l (by simp [place,SleepPc.locks]) before.2⟩
  | sleepRelease c l =>
    rw [place] at before
    exact ⟨awake before.1,unchanged c l (by simp [place,SleepPc.locks]) before.2.1,before.2.2⟩
  | wakeupScan c locks | wakeupRelease c locks =>
    rw [place] at before
    exact ⟨awake before.1,before.2⟩
  | sleepSet c l =>
    rw [place] at before
    refine ⟨awake before.1,?_⟩
    rcases seen.hist with same | ⟨e,more,records⟩
    · exact same ▸ before.2
    · rw [more]
      refine before.2.cons ?_
      rintro w rfl
      exact other (inv.held.alone records.1 (by simp [place,SleepPc.locks]))
  | sched r | off r =>
    rw [place] at before
    exact rests r before
  | _ =>
    rw [place] at before
    exact awake before

theorem SleepInv.next (seen : Seen ptable s t s') (held : Held ptable s'.holder s'.cpu s'.pc)
    (here : (s'.pc t).Fits ptable (s'.task t) s'.hist t)
    (asleep : ∀ chan, (s'.task t).SleepsOn chan → (s.task t).SleepsOn chan ∨ ptable ∈ (s.pc t).locks ptable)
    (scanned : ∀ chan locks, s'.pc t = .wakeupRelease chan locks → ∀ u, ¬ (s'.task u).SleepsOn chan) :
    SleepInv ptable s' := by
  refine ⟨held,?_,?_⟩
  · intro u
    by_cases same : u = t
    · rw [same]
      exact here
    · exact seen.fits inv u same
  · intro w chan locks place u sleeps
    by_cases same : w = t
    · exact scanned chan locks (same ▸ place) u sleeps
    · rw [seen.pc w same] at place
      have none := inv.quiet w chan locks place
      by_cases self : u = t
      · rw [self] at sleeps
        rcases asleep chan sleeps with before | lock
        · exact none t before
        · exact same (inv.held.alone lock (by simp [place,SleepPc.locks]))
      · exact none u ((seen.task u self).sleepsOn sleeps)

theorem SleepInv.moved (m : SleepState T C L K) (pc : SleepPc C L) (places : m.pc = s.pc)
    (others : ∀ u, u ≠ t → (s.task u).Eased (m.task u))
    (hist : m.hist = s.hist ∨ ∃ e, m.hist = e :: s.hist ∧ Recordable ptable ((s.pc t).locks ptable) m.task t e)
    (held : Held ptable m.holder m.cpu (update s.pc t pc)) (here : pc.Fits ptable (m.task t) m.hist t)
    (asleep : ∀ chan, (m.task t).SleepsOn chan → (s.task t).SleepsOn chan ∨ ptable ∈ (s.pc t).locks ptable)
    (scanned : ∀ chan locks, pc = .wakeupRelease chan locks → ∀ u, ¬ (m.task u).SleepsOn chan) :
    SleepInv ptable (m.goto t pc) := by
  have place : (m.goto t pc).pc t = pc := by simp [SleepState.goto]
  refine inv.next (t := t) ⟨?_,others,hist⟩ ?_ ?_ asleep ?_
  · intro u other
    simp [SleepState.goto,other,places]
  · rw [← places] at held
    exact held
  · rw [place]
    exact here
  · intro chan locks release
    exact scanned chan locks (place.symm.trans release)

theorem SleepInv.plain (m : SleepState T C L K) (pc : SleepPc C L)
    (same : (m.task,m.pc,m.hist) = (s.task,s.pc,s.hist)) (held : Held ptable m.holder m.cpu (update s.pc t pc))
    (here : pc.Fits ptable (s.task t) s.hist t) (release : ∀ chan locks, pc ≠ .wakeupRelease chan locks) :
    SleepInv ptable (m.goto t pc) := by
  obtain ⟨task,places,hist⟩ := by simpa only [Prod.mk.injEq] using same
  refine inv.moved m pc places ?_ (.inl hist) held ?_ ?_ ?_
  · intro u _
    rw [task]
    exact .refl _
  · rw [task,hist]
    exact here
  · intro chan sleeps
    exact .inl (task ▸ sleeps)
  · intro chan locks same
    exact absurd same (release chan locks)

theorem SleepInv.take (m : SleepState T C L K) (l : L) (pc : SleepPc C L)
    (taken : m.take t l pc = some s') (same : (m.holder,m.cpu,m.pc) = (s.holder,s.cpu,s.pc))
    (others : ∀ u, u ≠ t → m.task u = s.task u)
    (hist : m.hist = s.hist ∨ ∃ e, m.hist = e :: s.hist ∧ Recordable ptable ((s.pc t).locks ptable) m.task t e)
    (more : ∀ x, x ∈ pc.locks ptable ↔ x = l ∨ x ∈ (s.pc t).locks ptable) (here : pc.Fits ptable (m.task t) m.hist t)
    (awake : (m.task t).state ≠ .tSleeping) (release : ∀ chan locks, pc ≠ .wakeupRelease chan locks) :
    SleepInv ptable s' := by
  obtain ⟨holder,cpu,places⟩ := by simpa only [Prod.mk.injEq] using same
  unfold SleepState.take at taken
  split at taken
  next free =>
    cases taken
    refine inv.moved (m.give l _) pc places ?_ hist ?_ here (fun _ sleeps => absurd sleeps.1 awake)
      (fun chan locks same => absurd same (release chan locks))
    · intro u other
      rw [show (m.give l _).task u = s.task u from others u other]
      exact .refl _
    · have free : s.holder l = none := by simpa [holder] using free
      have next := inv.held.take l free pc more
      rw [← holder,← cpu] at next
      exact next
  next => contradiction

theorem SleepInv.eases (m : SleepState T C L K) (pc : SleepPc C L)
    (same : (m.holder,m.cpu,m.pc) = (s.holder,s.cpu,s.pc)) (eased : ∀ u, (s.task u).Eased (m.task u))
    (hist : m.hist = s.hist ∨ ∃ e, m.hist = e :: s.hist ∧ Recordable ptable ((s.pc t).locks ptable) m.task t e)
    (kept : ∀ x, x ∈ pc.locks ptable ↔ x ∈ (s.pc t).locks ptable) (running : (s.task t).state = .tRunning)
    (here : (m.task t).state = .tRunning → pc.Fits ptable (m.task t) m.hist t)
    (scanned : ∀ chan locks, pc = .wakeupRelease chan locks → ∀ u, ¬ (m.task u).SleepsOn chan) :
    SleepInv ptable (m.goto t pc) := by
  obtain ⟨holder,cpu,places⟩ := by simpa only [Prod.mk.injEq] using same
  have still : (m.task t).state = .tRunning := by
    rcases (eased t).2 with same | ⟨asleep,_⟩
    · exact same.trans running
    · exact absurd (asleep.symm.trans running) (by simp)
  refine inv.moved m pc places (fun u _ => eased u) hist ?_ (here still) ?_ scanned
  · have next := inv.held.keep pc kept
    rw [← holder,← cpu] at next
    exact next
  · intro chan sleeps
    exact absurd (still.symm.trans sleeps.1) (by simp)

theorem SleepInv.caller {locks : List L} {op : SleepOp T C L} (place : s.pc t = .code locks)
    (taken : s.caller ptable t locks op = some s') : SleepInv ptable s' := by
  have running : (s.task t).state = .tRunning := by
    have fits := inv.fits t
    rw [place] at fits
    exact fits
  have awake : (s.task t).state ≠ .tSleeping := by simp [running]
  have owned : (s.pc t).locks ptable = locks := by rw [place]; rfl
  have panicked : SleepInv ptable s.panic := ⟨inv.held,inv.fits,inv.quiet⟩
  have eases (m : SleepState T C L K) (same : (m.holder,m.cpu,m.pc) = (s.holder,s.cpu,s.pc))
      (eased : ∀ u, (s.task u).Eased (m.task u))
      (hist : m.hist = s.hist ∨ ∃ e, m.hist = e :: s.hist ∧ Recordable ptable ((s.pc t).locks ptable) m.task t e) :
      SleepInv ptable (m.goto t (.code locks)) :=
    inv.eases m _ same eased hist (by simp [SleepPc.locks,place]) running id (by simp)
  cases op with
  | acquire l =>
    simp only [SleepState.caller] at taken
    split at taken
    · cases taken
      exact panicked
    · refine inv.take s l _ taken rfl (fun _ _ => rfl) (.inl rfl) ?_ running awake (by simp)
      simp [SleepPc.locks,place]
  | release l =>
    simp only [SleepState.caller] at taken
    split at taken
    next mine =>
      cases taken
      refine inv.plain (s.give l none) _ rfl ?_ running (by simp)
      refine inv.held.drop l (by rw [owned]; exact mine) _ ?_
      simp [SleepPc.locks,place,and_comm]
    next =>
      cases taken
      exact panicked
  | test chan lk sleeps =>
    simp only [SleepState.caller] at taken
    split at taken
    next => contradiction
    next =>
      split at taken
      next =>
        cases taken
        exact eases (s.emit _) rfl (fun u => .refl _) (.inr ⟨_,rfl,rfl⟩)
      next =>
        split at taken
        next one =>
          cases taken
          refine inv.eases (s.emit _) _ rfl (fun u => .refl _) (.inr ⟨_,rfl,rfl⟩) ?_ running ?_ (by simp)
          · simp [SleepPc.locks,place,one]
          · intro still
            exact ⟨still,fun u => History.since_off (by simp [SleepEvent.tests])⟩
        next =>
          cases taken
          exact panicked
  | change chan lk =>
    simp only [SleepState.caller] at taken
    split at taken
    next mine =>
      cases taken
      exact eases (s.emit _) rfl (fun u => .refl _) (.inr ⟨_,rfl,by rw [owned]; exact mine⟩)
    next => contradiction
  | wakeup chan =>
    simp only [SleepState.caller] at taken
    split at taken
    · cases taken
      exact panicked
    next free =>
      refine inv.take s ptable _ taken rfl (fun _ _ => rfl) (.inl rfl) ?_ ⟨running,free⟩ awake (by simp)
      simp [SleepPc.locks,place]
  | wakeup1 chan =>
    simp only [SleepState.caller] at taken
    split at taken
    next mine =>
      cases taken
      refine eases ((s.wakeup1 chan).emit _) rfl (fun u => Task.wakeup1_eased _ _) (.inr ⟨_,rfl,?_,?_⟩)
      · rw [owned]
        exact mine
      · intro u
        exact Task.wakeup1_awake _ _
    next => contradiction
  | rouse u =>
    simp only [SleepState.caller] at taken
    split at taken
    next mine =>
      cases taken
      refine eases (s.setTask u _) rfl ?_ (.inl rfl)
      intro v
      by_cases here : v = u
      · simpa [SleepState.setTask,here] using Task.rouse_eased (s.task u)
      · simpa [SleepState.setTask,here] using Task.Eased.refl (s.task v)
    next => contradiction
  | doom u =>
    simp only [SleepState.caller] at taken
    split at taken
    next mine =>
      cases taken
      refine eases (s.setTask u _) rfl ?_ (.inl rfl)
      intro v
      by_cases here : v = u
      · rw [here]
        exact ⟨by simp [SleepState.setTask],.inl (by simp [SleepState.setTask])⟩
      · simpa [SleepState.setTask,here] using Task.Eased.refl (s.task v)
    next => contradiction
  | yield =>
    simp only [SleepState.caller] at taken
    split at taken
    next none =>
      refine inv.take (s.setTask t _) ptable _ taken rfl ?_ (.inl rfl) ?_ ?_ ?_ (by simp)
      · intro u other
        simp [SleepState.setTask,other]
      · simp [SleepPc.locks,place,none]
      · exact .inl (by simp [SleepState.setTask,Task.setState])
      · simp [SleepState.setTask,Task.setState]
    next => contradiction
  | _ => contradiction

theorem SleepInv.sleepResume {chan : C} {lk : L} (place : s.pc t = .woken (.sleep chan lk)) :
    SleepInv ptable (s.sleepResume ptable t chan lk) := by
  have running : (s.task t).state = .tRunning := by
    have fits := inv.fits t
    rw [place] at fits
    exact fits
  have mine : ptable ∈ (s.pc t).locks ptable := by simp [place,SleepPc.locks]
  have others (u : T) (other : u ≠ t) :
      (s.task u).Eased ((s.setTask t {s.task t with chan := none}).task u) := by
    simpa [SleepState.setTask,other] using Task.Eased.refl (s.task u)
  have still : ((s.setTask t {s.task t with chan := none}).task t).state = .tRunning := by
    simpa [SleepState.setTask] using running
  unfold SleepState.sleepResume
  split
  · refine inv.plain (s.give ptable none) _ rfl ?_ running (by simp)
    exact inv.held.drop ptable mine _ (by simp [place,SleepPc.locks])
  · split
    next same =>
      refine inv.moved (s.setTask t _) _ rfl others (.inl rfl) ?_ still (fun _ _ => .inr mine) (by simp)
      exact inv.held.keep _ (by simp [place,SleepPc.locks,same])
    next =>
      refine inv.moved ((s.setTask t _).give ptable none) _ rfl others (.inl rfl) ?_ still
        (fun _ _ => .inr mine) (by simp)
      exact inv.held.drop ptable mine _ (by simp [place,SleepPc.locks])

end

variable [DecidableEq K]

theorem SleepInv.sched {k : K} {r : Rest C L} (inv : SleepInv ptable s) (place : s.pc t = .sched r) :
    SleepInv ptable (s.sched ptable k t r) := by
  have fits := inv.fits t
  rw [place] at fits
  unfold SleepState.sched
  split
  · exact ⟨inv.held,inv.fits,inv.quiet⟩
  · refine inv.plain ((s.give ptable _).setCpu k .scan) _ rfl ?_ fits (by simp)
    exact inv.held.toScheduler (by simp [place,SleepPc.locks]) _ rfl

theorem SleepInv.kernel {k : K} (inv : SleepInv ptable s) (taken : s.kernel ptable k t = some s') :
    SleepInv ptable s' := by
  have fits := inv.fits t
  unfold SleepState.kernel at taken
  split at taken
  next chan lk place =>
    rw [place] at fits
    split at taken
    next same =>
      cases taken
      refine inv.plain s _ rfl (inv.held.keep _ ?_) ⟨fits.1,fits.2.unmissed⟩ (by simp)
      simp [place,SleepPc.locks,same]
    next other =>
      refine inv.take s ptable _ taken rfl (fun _ _ => rfl) (.inl rfl) ?_ ⟨fits.1,fits.2,other⟩
        (by simp [fits.1]) (by simp)
      simp [place,SleepPc.locks]
  next chan lk place =>
    cases taken
    rw [place] at fits
    obtain ⟨running,unchanged,other⟩ := fits
    refine inv.plain (s.give lk none) _ rfl ?_ ⟨running,unchanged.unmissed⟩ (by simp)
    refine inv.held.drop lk (by simp [place,SleepPc.locks]) _ ?_
    intro x
    by_cases here : x = lk
    · simp [place,SleepPc.locks,here,other]
    · simp [place,SleepPc.locks,here]
  next chan lk place =>
    cases taken
    rw [place] at fits
    refine inv.moved (s.setTask t _) _ rfl ?_ (.inl rfl) ?_ ?_ ?_ (by simp)
    · intro u other
      simpa [SleepState.setTask,other] using Task.Eased.refl (s.task u)
    · exact inv.held.keep _ (by simp [place,SleepPc.locks])
    · exact .inr ⟨by simp [SleepState.setTask],by simp [SleepState.setTask],fits.2⟩
    · intro c _
      exact .inr (by simp [place,SleepPc.locks])
  next r place =>
    cases taken
    exact inv.sched place
  next chan lk place =>
    cases taken
    exact inv.sleepResume place
  next => contradiction
  next r place =>
    cases taken
    rw [place] at fits
    refine inv.plain (s.give ptable none) _ rfl ?_ fits (by simp)
    exact inv.held.drop ptable (by simp [place,SleepPc.locks]) _ (by simp [place,SleepPc.locks])
  next chan lk place =>
    rw [place] at fits
    have running : (s.task t).state = .tRunning := fits
    refine inv.take s lk _ taken rfl (fun _ _ => rfl) (.inl rfl) ?_ running (by simp [running]) (by simp)
    simp [place,SleepPc.locks]
  next chan lk place =>
    cases taken
    rw [place] at fits
    exact inv.plain s _ rfl (inv.held.keep _ (by simp [place,SleepPc.locks])) fits (by simp)
  next chan locks place =>
    cases taken
    rw [place] at fits
    refine inv.eases (s.wakeup1 chan) _ rfl (fun u => Task.wakeup1_eased _ _) (.inl rfl)
      (by simp [place,SleepPc.locks]) fits.1 (fun still => ⟨still,fits.2⟩) ?_
    intro c l same u
    cases same
    exact Task.wakeup1_awake _ _
  next chan locks place =>
    cases taken
    rw [place] at fits
    obtain ⟨running,outside⟩ := fits
    refine inv.moved ((s.give ptable none).emit _) _ rfl (fun u _ => .refl _) (.inr ⟨_,rfl,?_,?_⟩) ?_ running
      (fun _ sleeps => .inl sleeps) (by simp)
    · simp [place,SleepPc.locks]
    · exact inv.quiet t chan locks place
    · refine inv.held.drop ptable (by simp [place,SleepPc.locks]) _ ?_
      intro x
      by_cases here : x = ptable
      · simp [place,SleepPc.locks,here,outside]
      · simp [place,SleepPc.locks,here]
  next place =>
    rw [place] at fits
    refine inv.take (s.setTask t _) ptable _ taken rfl ?_ (.inl rfl) ?_ ?_ ?_ (by simp)
    · intro u other
      simp [SleepState.setTask,other]
    · simp [SleepPc.locks,place]
    · exact .inr (by simp [SleepState.setTask,Task.setState])
    · simp [SleepState.setTask,Task.setState]
  next => contradiction
  next => contradiction

theorem SleepInv.step {a : K × SleepOp T C L} (inv : SleepInv ptable s) (taken : s.step ptable a = some s') :
    SleepInv ptable s' := by
  obtain ⟨k,op⟩ := a
  simp only [SleepState.step] at taken
  split at taken
  next => contradiction
  next =>
    split at taken
    next =>
      split at taken
      next free =>
        cases taken
        exact ⟨inv.held.enter (by simpa using free),inv.fits,inv.quiet⟩
      next => contradiction
    next _ _ scan =>
      cases taken
      exact ⟨inv.held.leave scan,inv.fits,inv.quiet⟩
    next _ _ t scan =>
      split at taken
      next r place =>
        split at taken
        next runnable =>
          cases taken
          refine inv.moved (((s.setTask t _).give ptable _).setCpu k (.run t)) _ rfl ?_ (.inl rfl) ?_ ?_ ?_ (by simp)
          · intro u other
            simpa [SleepState.setTask,SleepState.give,SleepState.setCpu,other] using Task.Eased.refl (s.task u)
          · exact inv.held.toThread scan _ (by simp) (by rw [place]; rfl) _ rfl
          · simp [SleepState.setTask,SleepState.give,SleepState.setCpu,Task.setState,SleepPc.Fits]
          · simp [SleepState.setTask,SleepState.give,SleepState.setCpu,Task.setState,Task.SleepsOn]
        next => contradiction
      next => contradiction
    next t op run =>
      split at taken
      next locks op place => exact inv.caller place taken
      next => exact inv.kernel taken
      next => contradiction
    next => contradiction

end Step

def SleepState.start (T C L K : Type) : SleepState T C L K where
  task _ := ⟨.tRunnable,none,false⟩
  holder _ := none
  cpu _ := .loop
  pc _ := .off .forkret
  hist := []
  panicked := false

def SleepPc.sleeps : SleepPc C L → Option (C × L)
  | .sched (.sleep chan lk) | .off (.sleep chan lk) => some (chan,lk)
  | _ => none

theorem SleepInv.start (ptable : L) : SleepInv ptable (SleepState.start T C L K) where
  held := ⟨by simp [SleepState.start,SleepPc.locks],by simp [SleepState.start]⟩
  fits _ := .inl rfl
  quiet := by simp [SleepState.start]

theorem SleepPc.Fits.sleeps {ptable : L} {v : Task C} {hist : List (SleepEvent T C L)} {t : T} {chan : C}
    {pc : SleepPc C L} (fits : pc.Fits ptable v hist t) (asleep : v.SleepsOn chan) :
    ∃ lk, pc.sleeps = some (chan,lk) ∧ Unmissed hist t chan lk := by
  obtain ⟨state,on⟩ := asleep
  have rests (r : Rest C L) (old : r.Fits v hist t) : ∃ lk, r = .sleep chan lk ∧ Unmissed hist t chan lk := by
    cases r with
    | sleep c lk =>
      rcases old with runnable | ⟨_,there,fresh⟩
      · exact absurd (state.symm.trans runnable) (by simp)
      · obtain rfl : c = chan := by simpa using there.symm.trans on
        exact ⟨lk,rfl,fresh⟩
    | _ =>
      rcases old with runnable | zombie
      · exact absurd (state.symm.trans runnable) (by simp)
      · exact absurd (state.symm.trans zombie) (by simp)
  cases pc with
  | sched r | off r =>
    obtain ⟨lk,rfl,fresh⟩ := rests r fits
    exact ⟨lk,rfl,fresh⟩
  | sleepCall _ _ | sleepRelease _ _ | sleepSet _ _ | wakeupScan _ _ | wakeupRelease _ _ =>
    exact absurd (state.symm.trans fits.1) (by simp)
  | _ => exact absurd (state.symm.trans fits) (by simp)

end Wakeups

/-- A thread that is asleep on a channel after somebody has changed the condition and then
completed a wakeup has tested the condition again after the change. When `sleep` returns the
caller holds the lock that it passed, and `ptable.lock` only if that is the one. -/
theorem wakeup_not_lost (T C L K : Type) [DecidableEq T] [DecidableEq C] [DecidableEq L] [DecidableEq K] (ptable : L)
    (s : SleepState T C L K)
    (reached : Interleave.Reaches (SleepState.step ptable) (fun _ _ => True) (SleepState.start T C L K) s) :
    (∀ t chan, (s.task t).state = .tSleeping → (s.task t).chan = some chan →
      ∃ lk, (s.pc t).sleeps = some (chan,lk) ∧ ∀ u later between earlier,
        s.hist = later ++ .woke u chan :: (between ++ .change u chan lk :: earlier) →
        .test t chan lk ∈ later ++ between) ∧
    ∀ t chan lk, s.pc t = .sleepRet chan lk → s.holder lk = some (.thread t) ∧
      (s.holder ptable = some (.thread t) → lk = ptable) := by
  have inv : SleepInv ptable s :=
    reached.invariant (SleepInv ptable) (.start ptable) (fun _ _ _ held _ taken => held.step taken)
  refine ⟨?_,?_⟩
  · intro t chan state on
    obtain ⟨lk,place,fresh⟩ := (inv.fits t).sleeps ⟨state,on⟩
    refine ⟨lk,place,?_⟩
    intro u later between earlier hist
    by_contra untested
    have never := fresh u
    rw [hist,History.following_cut] at never
    · contradiction
    · intro e member
      simp only [List.mem_append,List.mem_cons,List.not_mem_nil,or_false] at member untested
      simp only [SleepEvent.tests,decide_eq_false_iff_not]
      rintro rfl
      simp_all
    · simp [SleepEvent.changes]
    · simp [SleepEvent.wakes]
  · intro t chan lk place
    refine ⟨(inv.held.own lk t).mpr (by simp [place,SleepPc.locks]),?_⟩
    intro owned
    have mine := (inv.held.own ptable t).mp owned
    simpa [place,SleepPc.locks,eq_comm] using mine

/-- Thread `false` sleeps under lock `false`, thread `true` changes the condition under that lock
and wakes it; `ptable.lock` is `true`. -/
def sleepScript : List (Bool × SleepOp Bool Unit Bool) :=
  [(false,.run),(false,.pick false),(false,.run),(false,.acquire false),(false,.test () false true)] ++
    List.replicate 5 (false,.run) ++
    [(true,.run),(true,.pick true),(true,.run),(true,.acquire false),(true,.change () false),(true,.release false),
      (true,.wakeup ()),(true,.run),(true,.run),(false,.run),(false,.pick false),(false,.run),(false,.run)]

/-- It returns from `sleep`, and sleeps again after another test. -/
theorem wakeup_not_lost_retest : (∃ s, Interleave.Reaches (SleepState.step true) (fun _ _ => True)
      (SleepState.start Bool Unit Bool Bool) s ∧ s.pc false = .sleepRet () false ∧
      s.holder false = some (.thread false) ∧ s.holder true ≠ some (.thread false)) ∧
    ∃ s, Interleave.Reaches (SleepState.step true) (fun _ _ => True) (SleepState.start Bool Unit Bool Bool) s ∧
      (s.task false).state = .tSleeping ∧ ∃ later between earlier,
        s.hist = later ++ .woke true () :: (between ++ .change true () false :: earlier) ∧
        .test false () false ∈ later ++ between := by
  refine ⟨?_,?_⟩
  · obtain ⟨s,reached,place⟩ := Interleave.play_shows (SleepState.step true) (fun _ _ => True)
      (SleepState.start Bool Unit Bool Bool) sleepScript (fun s => s.pc false = .sleepRet () false)
      (by decide +kernel)
    obtain ⟨owned,only⟩ := (wakeup_not_lost Bool Unit Bool Bool true s reached).2 false () false place
    exact ⟨s,reached,place,owned,fun ptable => absurd (only ptable) (by decide)⟩
  · obtain ⟨s,reached,state,chan,place,hist⟩ := Interleave.play_shows (SleepState.step true) (fun _ _ => True)
      (SleepState.start Bool Unit Bool Bool)
      (sleepScript ++ (false,.run) :: (false,.test () false true) :: List.replicate 4 (false,.run))
      (fun s => (s.task false).state = .tSleeping ∧ (s.task false).chan = some () ∧
        (s.pc false).sleeps = some ((),false) ∧
        s.hist = [.test false () false,.woke true (),.change true () false,.test false () false])
      (by decide +kernel)
    obtain ⟨lk,there,later⟩ := (wakeup_not_lost Bool Unit Bool Bool true s reached).1 false () state chan
    obtain rfl : lk = false := by simpa [place] using there.symm
    exact ⟨s,reached,state,[.test false () false],[],[.test false () false],hist,later true _ _ _ hist⟩

end Kthreads
