import Kthreads.Sched.Transitions
import Kthreads.Thread.Drain

/-! A finer view of the kernel, for code that uses `t->state` without `ptable.lock`. The scan
of `kthread_mutex_unlock` and the draining loops read an entry in one step and act on it in a
later one, and the scheduler picks any runnable thread, also one that a CPU still executes. -/
namespace Kthreads

/-- What a thread has read of a table entry and has not acted on yet. -/
inductive Note
  | rest
  | scan (j : Nat)
  | chan (j : Fin nthread)
  | wake (j : Fin nthread)
  | rouse | test | count
  deriving DecidableEq

/-- A kernel state with the notes of its threads. When a second CPU has picked a thread, it
is recorded and nothing further is modelled. -/
structure FineState where
  k : KState
  note : Slot → Note
  twice : Option Slot

namespace FineState

def jot (f : FineState) (t : Slot) (n : Note) : FineState := {f with note := Function.update f.note t n}

def next (f : FineState) (k : KState) : FineState :=
  {f with k := k, note := fun u => if k.pc u = f.k.pc u then f.note u else .rest}

end FineState

def setRunnable (s : KState) (u : Slot) : KState := s.setThread u {s.thread u with state := .tRunnable}

/-- `kthread_mutex_unlock` from `acquire(&m->mutexLock)` up to its scan, or to its return
when the caller does not hold the mutex. -/
def unlockOpen (f : FineState) (t : Slot) (i : MutexIx) (id word : Int) : FineState :=
  if (f.k.mutex i).state ≠ .closed ∨ holdingTid f.k i word ≠ (f.k.thread t).tid then
    f.next (({f.k with mtableLock := none}.emit (.unlockRet t id (-1))).sysret t)
  else {f with k := {f.k with mtableLock := none}.setMutex i {f.k.mutex i with
    lock := 0, state := .opened, holding := none, mutexLock := some t}}.jot t (.scan 0)

def unlockClose (f : FineState) (t : Slot) (i : MutexIx) (id : Int) : FineState :=
  {f with k := ((f.k.setMutex i {f.k.mutex i with mutexLock := none}).emit
    (.unlockRet t id 0)).sysret t}.jot t .rest

/-- The scan of `kthread_mutex_unlock`: the test of the state, the test of the channel and
the write, each by itself. -/
def unlockScan (f : FineState) (t : Slot) (i : MutexIx) (id : Int) : Note → Option FineState
  | .scan j =>
    if inside : j < nthread then
      some (f.jot t (if (f.k.thread (t.1,⟨j,inside⟩)).state = .tSleeping then .chan ⟨j,inside⟩
        else .scan (j+1)))
    else some (unlockClose f t i id)
  | .chan j => some (f.jot t (if (f.k.thread (t.1,j)).chan = some (.mutex i) then .wake j
      else .scan (j.val+1)))
  | .wake j => some (unlockClose {f with k := setRunnable f.k (t.1,j)} t i id)
  | _ => none

/-- One entry of a draining loop: `exec` tests for a sleeper and rouses it, then both loops
test for a zombie and then for an unused entry. -/
def drainEntry (f : FineState) (t : Slot) (k : Drainer) (i : Fin nthread) (n : Nat) : FineState :=
  let state := (f.k.thread (t.1,i)).state
  let seen := if state = .tUnused then n else n+1
  match f.note t,k with
  | .rest,.exec => f.jot t (if state = .tSleeping then .rouse else .test)
  | .rouse,_ => {f with k := setRunnable f.k (t.1,i)}.jot t .test
  | .count,_ => {f with k := f.k.goto t (.drain k (i.val+1) seen)}.jot t .rest
  | _,_ =>
    if state = .tZombie then {f with k := f.k.goto t (.drainFree k i n)}.jot t .rest else f.jot t .count

def fineCode (f : FineState) (t : Slot) (o : Oracle) : Option FineState :=
  match f.k.pc t with
  | .unlockHold i id =>
    if f.note t = .rest then
      if (f.k.mutex i).mutexLock = none then some (unlockOpen f t i id o.word) else none
    else unlockScan f t i id (f.note t)
  | .drain k i n =>
    if inside : i < nthread then some (drainEntry f t k ⟨i,inside⟩ n)
    else (code f.k t o).map f.next
  | _ => (code f.k t o).map f.next

def pickTwice (f : FineState) (t : Slot) : FineState :=
  {f with
    k := (f.k.setProc t.1 {f.k.proc t.1 with state := .used}).setThread t
      {f.k.thread t with state := .tRunning}
    twice := some t}

def fineStep (f : FineState) (a : Action) : Option FineState :=
  if f.twice ≠ none ∨ f.k.panicked = true then none
  else match a with
    | .run t o => if f.k.cpu t = .on then fineCode f t o else none
    | .scheduler t =>
      if f.k.ptableLock = none ∧ (f.k.thread t).state = .tRunnable then
        some (if f.k.cpu t = .off then f.next (scheduler f.k t) else pickTwice f t)
      else none
    | a => (step f.k a).map f.next

abbrev FineReaches (guard : FineState → Action → Prop) (f₀ f : FineState) : Prop :=
  Interleave.Reaches fineStep guard f₀ f

def quiet (s : KState) : FineState := ⟨s,fun _ => .rest,none⟩

/-! Read and acted on without interruption, an entry is handled as in the coarse model, so
the runs of the coarse model are among those considered here. -/
section Simulation

theorem next_quiet (s s' : KState) : (quiet s).next s' = quiet s' := by
  have blank : (fun u => if s'.pc u = s.pc u then (quiet s).note u else .rest) = fun _ => Note.rest := by
    funext u
    exact ite_self _
  exact congrArg (fun note => FineState.mk s' note none) blank

@[simp]
theorem quiet_k (s : KState) : (quiet s).k = s := rfl

@[simp]
theorem quiet_twice (s : KState) : (quiet s).twice = none := rfl

def noted (s : KState) (t : Slot) (n : Note) : FineState := (quiet s).jot t n

theorem noted_rest (s : KState) (t : Slot) : noted s t .rest = quiet s := by
  simp [noted,quiet,FineState.jot]

theorem noted_note (s : KState) (t : Slot) (n : Note) : (noted s t n).note t = n := by
  simp [noted,FineState.jot]

theorem noted_jot (s m : KState) (t : Slot) (n n' : Note) :
    {noted s t n with k := m}.jot t n' = noted m t n' := by
  simp [noted,quiet,FineState.jot]

theorem noted_rested (s m : KState) (t : Slot) (n : Note) :
    {noted s t n with k := m}.jot t .rest = quiet m := by
  rw [noted_jot,noted_rest]

abbrev Always (_ : FineState) (_ : Action) : Prop := True

def unlocked (s : KState) (t : Slot) (i : MutexIx) (id : Int) (sleeper : Option (Fin nthread)) : KState :=
  let woken := match sleeper with
    | none => s
    | some j => setRunnable s (t.1,j)
  ((woken.setMutex i {woken.mutex i with mutexLock := none}).emit (.unlockRet t id 0)).sysret t

variable {s : KState} {t : Slot} (calm : s.panicked = false) (on : s.cpu t = .on)
include calm on

theorem noted_run (o : Oracle) {n : Note} {f : FineState} (taken : fineCode (noted s t n) t o = some f) :
    FineReaches Always (noted s t n) f := by
  refine .single (.run t o) trivial ?_
  simpa [fineStep,noted,quiet,FineState.jot,calm,on] using taken

theorem plain_runs (o : Oracle) {s' : KState} (taken : code s t o = some s')
    (direct : fineCode (quiet s) t o = (code s t o).map (quiet s).next) :
    FineReaches Always (quiet s) (quiet s') := by
  have run := noted_run calm on (n := .rest) (f := quiet s') o
  rw [noted_rest] at run
  exact run (by rw [direct,taken,Option.map_some,next_quiet])

/-- The scan from entry `j` on wakes the first sleeper that it meets. -/
theorem scan_runs (i : MutexIx) (id : Int) (place : s.pc t = .unlockHold i id) (j : Nat) :
    FineReaches Always (noted s t (.scan j)) (quiet (unlocked s t i id (
      ((List.finRange nthread).drop j).find? fun j => wakes (· == .mutex i) (s.thread (t.1,j))))) := by
  have code (n : Note) (busy : n ≠ .rest) :
      fineCode (noted s t n) t {} = unlockScan (noted s t n) t i id n := by
    simp [fineCode,noted,quiet,FineState.jot,place,busy]
  induction left : nthread-j generalizing j with
  | zero =>
    have past : ¬ j < nthread := by omega
    rw [List.drop_of_length_le (by simpa using past)]
    refine noted_run calm on {} ?_
    rw [code _ (by simp),unlockScan,dif_neg past]
    exact congrArg some (noted_rested s _ t _)
  | succ d ih =>
    have inside : j < nthread := by omega
    have rest := ih (j+1) (by omega)
    rw [List.drop_eq_getElem_cons (by simpa using inside),List.find?_cons]
    simp only [List.getElem_finRange,Fin.cast_mk]
    have read : FineReaches Always (noted s t (.scan j)) (noted s t (if
        (s.thread (t.1,⟨j,inside⟩)).state = .tSleeping then .chan ⟨j,inside⟩ else .scan (j+1))) := by
      refine noted_run calm on {} ?_
      rw [code _ (by simp),unlockScan,dif_pos inside]
      exact congrArg some (noted_jot s s t _ _)
    refine read.trans ?_
    by_cases asleep : (s.thread (t.1,⟨j,inside⟩)).state = .tSleeping
    · rw [if_pos asleep]
      have test : FineReaches Always (noted s t (.chan ⟨j,inside⟩)) (noted s t (if
          (s.thread (t.1,⟨j,inside⟩)).chan = some (.mutex i) then .wake ⟨j,inside⟩ else .scan (j+1))) := by
        refine noted_run calm on {} ?_
        rw [code _ (by simp),unlockScan]
        exact congrArg some (noted_jot s s t _ _)
      refine test.trans ?_
      by_cases here : (s.thread (t.1,⟨j,inside⟩)).chan = some (.mutex i)
      · have hit : wakes (· == .mutex i) (s.thread (t.1,⟨j,inside⟩)) = true := by simp [wakes,asleep,here]
        rw [if_pos here]
        simp only [hit]
        refine noted_run calm on {} ?_
        rw [code _ (by simp),unlockScan]
        exact congrArg some (noted_rested s _ t _)
      · have miss : wakes (· == .mutex i) (s.thread (t.1,⟨j,inside⟩)) = false := by
          cases chan : (s.thread (t.1,⟨j,inside⟩)).chan with
          | none => simp [wakes,chan]
          | some c =>
            rw [chan] at here
            simpa [wakes,chan,asleep] using here
        rw [if_neg here]
        simp only [miss]
        exact rest
    · have miss : wakes (· == .mutex i) (s.thread (t.1,⟨j,inside⟩)) = false := by simp [wakes,asleep]
      rw [if_neg asleep]
      simp only [miss]
      exact rest

theorem unlock_runs (o : Oracle) (i : MutexIx) (id : Int) (place : s.pc t = .unlockHold i id)
    (free : (s.mutex i).mutexLock = none) :
    FineReaches Always (quiet s) (quiet (unlockBody s t i id o.word)) := by
  have opens : FineReaches Always (quiet s) (unlockOpen (quiet s) t i id o.word) := by
    have run := noted_run calm on (n := .rest) (f := unlockOpen (quiet s) t i id o.word) o
    rw [noted_rest] at run
    exact run (by simp [fineCode,quiet,place,free])
  by_cases refused : (s.mutex i).state ≠ .closed ∨ holdingTid s i o.word ≠ (s.thread t).tid
  · have eq : unlockOpen (quiet s) t i id o.word = _ := if_pos refused
    rw [eq,next_quiet] at opens
    rw [unlockBody,if_pos refused]
    exact opens
  · let m := {s with mtableLock := none}.setMutex i {s.mutex i with
      lock := 0, state := .opened, holding := none, mutexLock := some t}
    have eq : unlockOpen (quiet s) t i id o.word = noted m t (.scan 0) := if_neg refused
    rw [eq] at opens
    have scanned := scan_runs (s := m) calm on i id place 0
    have same : unlocked m t i id (mutexSleeper m t.1 i) = unlockBody s t i id o.word := by
      rw [unlockBody,if_neg refused]
      have found : mutexSleeper m t.1 i = mutexSleeper s t.1 i := rfl
      have restored : {s.mutex i with lock := 0, state := .opened, holding := none} =
          {s.mutex i with lock := 0, state := .opened, holding := none, mutexLock := none} := by
        rw [← free]
      rw [found,restored]
      unfold unlocked wakeSleeper
      have again (v : Mutex) : mutexSleeper ({s with mtableLock := none}.setMutex i v) t.1 i =
        mutexSleeper s t.1 i := rfl
      rw [again]
      cases mutexSleeper s t.1 i <;> simp [m,setRunnable]
    rw [List.drop_zero] at scanned
    exact opens.trans (same ▸ scanned)

section
variable (k : Drainer) (i : Fin nthread) (n : Nat) (place : s.pc t = .drain k i.val n) (note : Note)
include k i n place note

theorem drain_run : FineReaches Always (noted s t note) (drainEntry (noted s t note) t k i n) := by
  refine noted_run calm on {} ?_
  simp [fineCode,noted,quiet,FineState.jot,place]

theorem entry_runs (tests : note = .test ∨ note = .rest ∧ k = .exit) :
    FineReaches Always (noted s t note) (quiet (s.goto t (
      if (s.thread (t.1,i)).state = .tZombie then .drainFree k i n
      else .drain k (i.val+1) (if (s.thread (t.1,i)).state = .tUnused then n else n+1)))) := by
  have run := drain_run calm on k i n place note
  have eq : drainEntry (noted s t note) t k i n = if (s.thread (t.1,i)).state = .tZombie
      then quiet (s.goto t (.drainFree k i n)) else noted s t .count := by
    have counted : (noted s t note).jot t .count = noted s t .count := noted_jot s s t note .count
    rcases tests with rfl | ⟨rfl,rfl⟩
    · simp only [drainEntry,noted_note,noted_rested,counted]
      rfl
    · simp only [drainEntry,noted_note,noted_rested,counted]
      rfl
  rw [eq] at run
  split
  next zombie =>
    rw [if_pos zombie] at run
    exact run
  next alive =>
    rw [if_neg alive] at run
    have last := drain_run calm on k i n place .count
    have counts : drainEntry (noted s t .count) t k i n = quiet (s.goto t (.drain k (i.val+1)
        (if (s.thread (t.1,i)).state = .tUnused then n else n+1))) := by
      simp only [drainEntry,noted_note,noted_rested]
      rfl
    rw [counts] at last
    exact run.trans last

end

theorem drain_runs (k : Drainer) (i n : Nat) (place : s.pc t = .drain k i n) :
    FineReaches Always (quiet s) (quiet (drain s t k i n)) := by
  by_cases inside : i < nthread
  · have eq (m : KState) (awake : (m.thread (t.1,⟨i,inside⟩)).state ≠ .tSleeping) :
        drain m t k i n = m.goto t (if (m.thread (t.1,⟨i,inside⟩)).state = .tZombie
          then .drainFree k ⟨i,inside⟩ n
          else .drain k (i+1) (if (m.thread (t.1,⟨i,inside⟩)).state = .tUnused then n else n+1)) := by
      unfold drain
      rw [dif_pos inside]
      cases state : (m.thread (t.1,⟨i,inside⟩)).state <;> simp_all
    cases k with
    | exit =>
      have run := entry_runs calm on .exit ⟨i,inside⟩ n place .rest (.inr ⟨rfl,rfl⟩)
      rw [noted_rest] at run
      by_cases asleep : (s.thread (t.1,⟨i,inside⟩)).state = .tSleeping
      · have same : drain s t .exit i n = s.goto t (.drain .exit (i+1) (n+1)) := by
          simp [drain,inside,asleep]
        rw [same]
        simpa [asleep] using run
      · rw [eq s asleep]
        exact run
    | exec =>
      have read := drain_run calm on .exec ⟨i,inside⟩ n place .rest
      have noted : drainEntry (noted s t .rest) t .exec ⟨i,inside⟩ n = noted s t (
          if (s.thread (t.1,⟨i,inside⟩)).state = .tSleeping then .rouse else .test) := by
        simp only [drainEntry,noted_note]
        exact noted_jot s s t .rest _
      rw [noted,noted_rest] at read
      by_cases asleep : (s.thread (t.1,⟨i,inside⟩)).state = .tSleeping
      · let m := setRunnable s (t.1,⟨i,inside⟩)
        have wrote := drain_run calm on .exec ⟨i,inside⟩ n place .rouse
        have woken : drainEntry (Kthreads.noted s t .rouse) t .exec ⟨i,inside⟩ n = Kthreads.noted m t .test := by
          simp only [drainEntry,noted_note]
          exact noted_jot s m t .rouse .test
        have state : (m.thread (t.1,⟨i,inside⟩)).state = .tRunnable := by
          simp [m,setRunnable]
        have last := entry_runs (s := m) calm on .exec ⟨i,inside⟩ n place .test (.inl rfl)
        have same : drain s t .exec i n = m.goto t (.drain .exec (i+1) (n+1)) := by
          simp [drain,inside,asleep,m,setRunnable]
        rw [if_pos asleep] at read
        rw [woken] at wrote
        rw [same]
        exact read.trans (wrote.trans (by simpa [state] using last))
      · rw [if_neg asleep] at read
        rw [eq s asleep]
        exact read.trans (entry_runs calm on .exec ⟨i,inside⟩ n place .test (.inl rfl))
  · refine plain_runs calm on {} (by simp [code,place]) ?_
    simp [fineCode,place,inside]

end Simulation

theorem step_runs {s s' : KState} {a : Action} (taken : step s a = some s') :
    FineReaches Always (quiet s) (quiet s') := by
  have calm : s.panicked = false := by
    by_contra panicked
    simp [step,panicked] at taken
  have other (direct : fineStep (quiet s) a = (step s a).map (quiet s).next) :
      FineReaches Always (quiet s) (quiet s') := by
    refine .single a trivial ?_
    rw [direct,taken,Option.map_some,next_quiet]
  cases a with
  | run t o =>
    obtain ⟨_,on,code⟩ := step_run taken
    cases place : s.pc t with
    | unlockHold i id =>
      simp only [Kthreads.code,place,guarded_eq_some] at code
      obtain ⟨free,rfl⟩ := code
      exact unlock_runs calm on o i id place free
    | drain k i n =>
      simp only [Kthreads.code,place,Option.some.injEq] at code
      subst s'
      exact drain_runs calm on k i n place
    | _ =>
      refine plain_runs calm on o code ?_
      simp [fineCode,place]
  | scheduler t =>
    simp only [step,calm,Bool.false_eq_true,if_false,guarded_eq_some] at taken
    obtain ⟨⟨free,off,runnable⟩,rfl⟩ := taken
    refine .single (.scheduler t) trivial ?_
    simp [fineStep,calm,free,off,runnable,next_quiet]
  | _ => exact other (by simp [fineStep,quiet,calm])

theorem fine_runs {guard : KState → Action → Prop} {s₀ s : KState} (reached : Reaches guard s₀ s) :
    FineReaches Always (quiet s₀) (quiet s) := by
  induction reached with
  | refl => exact .refl
  | tail reached allowed taken held => exact held.trans (step_runs taken)

/-- One thread holds a mutex, its sibling goes to sleep on it, and the holder calls `kthread_mutex_unlock`. -/
def waitScript : List Action :=
  call (1,0) (.kthreadMutexLock 1) ++ [go (1,0),go (1,0),go (1,0)] ++ back (1,0) ++
    call (1,1) (.kthreadMutexLock 1) ++ [go (1,1),go (1,1),go (1,1),go (1,1),.swtch (1,1)] ++
    call (1,0) (.kthreadMutexUnlock 1)

theorem fine_runs_unlock : ∃ s, FineReaches Always (quiet (session [(1,0),(1,1)] 1 2)) (quiet s) ∧
    .unlockRet (1,0) 1 0 ∈ s.hist ∧ (s.thread (1,1)).state = .tRunnable := by
  obtain ⟨s,reached,done⟩ := Interleave.play_shows step (fun _ _ => True) (session [(1,0),(1,1)] 1 2)
    (waitScript ++ [go (1,0),go (1,0)])
    (fun s => .unlockRet (1,0) 1 0 ∈ s.hist ∧ (s.thread (1,1)).state = .tRunnable) (by decide +kernel)
  exact ⟨s,fine_runs reached,done⟩

/-- The entry that the next section of `t` makes runnable without `ptable.lock`. -/
def roused (f : FineState) (t : Slot) : Option Slot :=
  match f.k.pc t,f.note t with
  | .unlockHold _ _,.wake j => some (t.1,j)
  | .drain _ i _,.rouse => if inside : i < nthread then some (t.1,⟨i,inside⟩) else none
  | _,_ => none

abbrev RousesAsleep (f : FineState) : Action → Prop := onRun fun t _ =>
  ∀ u ∈ roused f t, (f.k.thread u).state = .tSleeping

abbrev FineOrderly (f : FineState) (a : Action) : Prop := Orderly f.k a ∧ RousesAsleep f a

instance (f : FineState) (a : Action) : Decidable (FineOrderly f a) := inferInstanceAs (Decidable (_ ∧ _))

structure Cpus (f : FineState) : Prop where
  once : f.twice = none
  ids : Ids f.k
  drained : Drained f.k
  locked : Locked f.k

namespace Cpus

theorem start {s : KState} (init : Start s) : Cpus (quiet s) :=
  ⟨rfl,.start init,.start init,.start init⟩

variable {f : FineState}

section
variable (inv : Cpus f)
include inv

theorem next {a : Action} {k : KState} (orderly : Orderly f.k a) (taken : step f.k a = some k) : Cpus (f.next k) := by
  have thread := step_thread f.k k a taken
  exact ⟨inv.once,inv.ids.step orderly.1 thread,inv.drained.step inv.ids orderly thread,
    inv.locked.step (step_lock f.k k a taken)⟩

theorem frame {f' : FineState} (once : f'.twice = f.twice)
    (same : ThreadFrame f.k f'.k) (lock : LockStep f.k .ideintr f'.k) : Cpus f' :=
  ⟨once.trans inv.once,inv.ids.step (a := .ideintr) trivial (.frame same),inv.drained.step (a := .ideintr) inv.ids ⟨trivial,trivial,trivial,trivial⟩ (.frame same),
    inv.locked.step lock⟩

theorem unlockClose (t : Slot) (i : MutexIx) (id : Int) (active : Active f.k t) : Cpus (unlockClose f t i id) := by
  refine inv.frame rfl ?_ (.moved t .retKilled rfl rfl)
  refine ThreadFrame.sysret (.emit ?_ _ rfl) t active
  exact .still rfl

theorem setRunnable (u : Slot) (asleep : (f.k.thread u).state = .tSleeping) : Cpus {f with k := setRunnable f.k u} :=
  inv.frame rfl (.wakeOne f.k u asleep) (.still rfl)

theorem jot (t : Slot) (n : Note) : Cpus (f.jot t n) :=
  inv.frame rfl (.refl _) (.still rfl)

theorem unlockOpen (t : Slot) (i : MutexIx) (id word : Int) (active : Active f.k t) :
    Cpus (unlockOpen f t i id word) := by
  unfold Kthreads.unlockOpen
  split
  · refine inv.frame rfl ?_ (.moved t .retKilled rfl rfl)
    refine ThreadFrame.sysret (.emit ?_ _ rfl) t active
    exact .still rfl
  · exact inv.frame rfl (.still rfl) (.still rfl)

theorem unlockScan {f' : FineState} (t : Slot) (i : MutexIx) (id : Int)
    (place : f.k.pc t = .unlockHold i id) (wakes : ∀ u ∈ roused f t, (f.k.thread u).state = .tSleeping)
    (taken : unlockScan f t i id (f.note t) = some f') : Cpus f' := by
  have active : Active f.k t := by simp [Active,place]
  cases note : f.note t with
  | scan j =>
    rw [note,Kthreads.unlockScan] at taken
    split at taken
    · cases taken
      exact inv.jot t _
    · cases taken
      exact inv.unlockClose t i id active
  | chan j =>
    rw [note,Kthreads.unlockScan] at taken
    cases taken
    exact inv.jot t _
  | wake j =>
    rw [note,Kthreads.unlockScan] at taken
    cases taken
    exact (inv.setRunnable (t.1,j) (wakes _ (by simp [roused,place,note]))).unlockClose t i id active
  | _ => simp [note,Kthreads.unlockScan] at taken

/-- The draining loop moves on. -/
theorem drainGoto (t : Slot) (o : Oracle) (k : Drainer) (i n : Nat) (pc : Pc) (on : f.k.cpu t = .on)
    (orderly : Orderly f.k (.run t o)) (place : f.k.pc t = .drain k i n) (holds : pc.holds = false)
    (move : DrainMove f.k t k i n pc) : Cpus {f with k := f.k.goto t pc} := by
  have thread : ThreadStep f.k (.run t o) (f.k.goto t pc) := .drain t o k i n f.k pc on place (.refl _) rfl move
  exact ⟨inv.once,inv.ids.step orderly.1 thread,inv.drained.step inv.ids orderly thread,
    inv.locked.step (a := .ideintr) (.moved t pc holds rfl)⟩

theorem drainEntry (t : Slot) (o : Oracle) (k : Drainer) (i : Fin nthread) (n : Nat) (on : f.k.cpu t = .on)
    (orderly : Orderly f.k (.run t o)) (place : f.k.pc t = .drain k i.val n)
    (wakes : ∀ u ∈ roused f t, (f.k.thread u).state = .tSleeping) : Cpus (drainEntry f t k i n) := by
  have goes (pc : Pc) := inv.drainGoto t o k i.val n pc on orderly place
  have zombie : Cpus (if (f.k.thread (t.1,i)).state = .tZombie
      then {f with k := f.k.goto t (.drainFree k i n)}.jot t .rest else f.jot t .count) := by
    split
    next dead => exact (goes (.drainFree k i n) rfl (.zombie i.isLt dead)).jot t .rest
    next => exact inv.jot t .count
  unfold Kthreads.drainEntry
  simp only
  split
  next => exact inv.jot t _
  next note =>
    exact (inv.setRunnable (t.1,i) (wakes _ (by simp [roused,place,note]))).jot t .test
  next =>
    refine (goes (.drain _ (i.val+1) _) rfl ?_).jot t .rest
    split
    next unused => exact .unused i.isLt unused
    next used => exact .counted i.isLt used
  next => exact zombie

theorem step {f' : FineState} {a : Action} (allowed : FineOrderly f a) (taken : fineStep f a = some f') : Cpus f' := by
  obtain ⟨orderly,wakes⟩ := allowed
  unfold fineStep at taken
  split at taken
  · contradiction
  next live =>
    have calm : f.k.panicked = false := by
      by_contra panicked
      exact live (.inr (by simpa using panicked))
    have plain {b : Action} (orderly : Orderly f.k b) (mapped : (Kthreads.step f.k b).map f.next = some f') :
        Cpus f' := by
      obtain ⟨k,moved,rfl⟩ := Option.map_eq_some_iff.mp mapped
      exact inv.next orderly moved
    cases a with
    | run t o =>
      simp only at taken
      split at taken
      next on =>
        have runs (mapped : (code f.k t o).map f.next = some f') : Cpus f' := by
          refine plain orderly ?_
          simpa [Kthreads.step,calm,on] using mapped
        unfold fineCode at taken
        split at taken
        next i id place =>
          split at taken
          · split at taken
            · cases taken
              exact inv.unlockOpen t i id _ (by simp [Active,place])
            · contradiction
          · exact inv.unlockScan t i id place wakes taken
        next k i n place =>
          split at taken
          next inside =>
            cases taken
            exact inv.drainEntry t o k ⟨i,inside⟩ n on orderly place wakes
          next => exact runs taken
        next => exact runs taken
      next => contradiction
    | scheduler t =>
      simp only at taken
      split at taken
      next ready =>
        obtain ⟨free,runnable⟩ := ready
        have off : f.k.cpu t = .off := by
          cases cpu : f.k.cpu t with
          | off => rfl
          | on =>
            rw [inv.drained.running t cpu] at runnable
            contradiction
          | sched =>
            rw [inv.locked.sched t cpu] at free
            contradiction
        rw [if_pos off] at taken
        cases taken
        exact inv.next (a := .scheduler t) orderly (by simp [Kthreads.step,calm,guarded,free,off,runnable])
      next => contradiction
    | _ => exact plain orderly taken

end

end Cpus

/-- No thread is the current one of two CPUs, and a thread that a CPU executes outside the
sections under `ptable.lock` is running. -/
theorem one_cpu (s₀ : KState) (f : FineState) (init : Start s₀) (reached : FineReaches FineOrderly (quiet s₀) f) :
    f.twice = none ∧
      ∀ u, f.k.cpu u ≠ .off → f.k.ptableLock ≠ some u → (f.k.thread u).state = .tRunning := by
  have inv : Cpus f := reached.invariant Cpus (.start init) fun _ _ _ held => held.step
  refine ⟨inv.once,?_⟩
  intro u current outside
  cases cpu : f.k.cpu u with
  | off => contradiction
  | on => exact inv.drained.running u cpu
  | sched => exact absurd (inv.locked.sched u cpu) outside

/-- The scan of the holder's `kthread_mutex_unlock` reads that the sibling sleeps. -/
def unlockScript : List Action := waitScript ++ [go (1,0),go (1,0),go (1,0),go (1,0),go (1,0)]

theorem one_cpu_unlock : ∃ f, FineReaches FineOrderly (quiet (session [(1,0),(1,1),(2,0)] 1 2)) f ∧
    f.k.cpu (1,1) = .on ∧ f.k.ptableLock = none ∧ f.twice = none ∧ (f.k.thread (1,1)).state = .tRunning := by
  obtain ⟨f,reached,on,free⟩ := Interleave.play_shows fineStep FineOrderly
    (quiet (session [(1,0),(1,1),(2,0)] 1 2)) (unlockScript ++ [go (1,0),.scheduler (1,1)])
    (fun f => f.k.cpu (1,1) = .on ∧ f.k.ptableLock = none) (by decide +kernel)
  have init := session_start [(1,0),(1,1),(2,0)] 1 2 (by decide) (by decide)
  obtain ⟨once,running⟩ := one_cpu _ f init reached
  exact ⟨f,reached,on,free,once,running (1,1) (by simp [on]) (by simp [free])⟩

/-- `kill` makes the sleeper runnable and a CPU picks it before the scan writes `T_RUNNABLE`
over `T_RUNNING`; then a second CPU picks it. -/
theorem two_cpus : ∃ f f', FineReaches (fun f => within [.user,.trap,.kthreadMutexLock,.kthreadMutexUnlock,
      .sleep,.kill] f.k) (quiet (session [(1,0),(1,1),(2,0)] 1 2)) f ∧
    fineStep f (.scheduler (1,1)) = some f' ∧
    f.k.cpu (1,1) = .on ∧ f.k.ptableLock = none ∧ (f.k.thread (1,1)).state = .tRunnable ∧
    f'.twice = some (1,1) := by
  obtain ⟨f,f',reached,_,taken,shown⟩ := Interleave.play_shows_step fineStep
    (fun f => within [.user,.trap,.kthreadMutexLock,.kthreadMutexUnlock,.sleep,.kill] f.k)
    (quiet (session [(1,0),(1,1),(2,0)] 1 2))
    (unlockScript ++ call (2,0) (.kill 2) ++ [go (2,0),.scheduler (1,1),go (1,0)]) (.scheduler (1,1))
    (fun f f' => f.k.cpu (1,1) = .on ∧ f.k.ptableLock = none ∧ (f.k.thread (1,1)).state = .tRunnable ∧
      f'.twice = some (1,1))
    (by decide +kernel)
  exact ⟨f,f',reached,taken,shown⟩

end Kthreads
