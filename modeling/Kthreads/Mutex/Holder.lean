import Kthreads.Mutex.Entries
import Kthreads.Thread.Exit

/-! The two places that follow `m->holding`. `kthread_mutex_unlock` does so only for a mutex that is
closed, `kthread_mutex_lock` for any mutex that is initialised. The pointer is null exactly if the mutex
is not closed; a pointer that is not null goes to a slot in use as long as no slot is freed while a mutex
names it. -/
open Function (update update_of_ne)

namespace Kthreads
variable {s s' : KState} {a : Action}

def freed (s : KState) (t : Slot) (o : Oracle) : Option Slot :=
  match s.pc t with
  | .drainFree _ i _ => some (t.1,i)
  | .joinFree _ v => some v
  | .createStack nt | .forkStack nt => if s.freelist = [] then some nt else none
  | .forkCopy nt => if o.copied then none else some nt
  | _ => none

def reaped (s : KState) (t : Slot) : Option ProcIx :=
  match s.pc t with
  | .waitLoop => zombieChild s t.1
  | _ => none

def Frees (s : KState) (t : Slot) (o : Oracle) (u : Slot) : Prop := freed s t o = some u ∨ reaped s t = some u.1

instance (s : KState) (t : Slot) (o : Oracle) (u : Slot) : Decidable (Frees s t o u) :=
  inferInstanceAs (Decidable (_ ∨ _))

abbrev FreesUnheld (s : KState) : Action → Prop := onRun fun t o => ∀ i, ∀ h ∈ (s.mutex i).holding, ¬ Frees s t o h

abbrev HoldersKept (s : KState) (a : Action) : Prop := Orderly s a ∧ FreesUnheld s a

/-- The entry on which the next section of `t` evaluates `m->holding->tid`. -/
def evaluates (s : KState) (t : Slot) : Option MutexIx :=
  match s.pc t with
  | .lockCall id => (findMutex s id).filter fun i => (s.mutex i).state != .uninitialized
  | .unlockHold i _ => if (s.mutex i).state = .closed then some i else none
  | _ => none

theorem step_frees (step : Kthreads.step s a = some s') (u : Slot)
    (empty : (s'.thread u).state = .tUnused) :
    (s.thread u).state = .tUnused ∨ ∃ t o, a = .run t o ∧ Frees s t o u := by
  cases step_change (step_thread s s' a step) u with
  | keeps inherits => exact .inl (inherits.unused empty)
  | emptied _ reaper =>
    right
    cases reaper with
    | drain t o k i n place here => exact ⟨t,o,rfl,.inl (by simp [freed,place,here])⟩
    | join t o tid place => exact ⟨t,o,rfl,.inl (by simp [freed,place])⟩
    | wait t o c place on found child => exact ⟨t,o,rfl,.inr (by simp [reaped,place,found,child])⟩
    | stack t o pc gets none =>
      refine ⟨t,o,rfl,.inl ?_⟩
      cases gets with
      | create place | fork place => simp [freed,place,none]
    | fork t o place short => exact ⟨t,o,rfl,.inl (by simp [freed,place,short])⟩
  | sleeps o chan site on falls => simp [sleepCommit] at empty
  | marked t o k place own other => exact .inl ((Calm.marked s t u).unused empty)
  | born t o p pc births found => simp [allocthread] at empty
  | stacked t o pc page rest s' gets head thread =>
    rw [thread] at empty
    exact .inl empty

structure Holding (s : KState) : Prop where
  closed : ∀ i, (s.mutex i).state = .closed ↔ (s.mutex i).holding ≠ none
  used : ∀ i h, (s.mutex i).holding = some h → (s.thread h).state ≠ .tUnused

namespace Holding

theorem start (init : Start s) : Holding s := by
  refine ⟨?_,?_⟩
  · intro i
    obtain ⟨_,nobody,state⟩ := init.mutex i
    rcases state with ⟨raw,_⟩ | ⟨opened,_⟩
    · simp [nobody,raw]
    · simp [nobody,opened]
  · intro i h held
    rw [(init.mutex i).2.1] at held
    contradiction

/-- The holder after a step was the holder before, or has just locked the mutex. -/
theorem holder_step (taken : MutexStep s a s') (i : MutexIx) (h : Slot)
    (held : (s'.mutex i).holding = some h) : (s.mutex i).holding = some h ∨
      ∃ o id, a = .run h o ∧ s.pc h = .lockTry i id := by
  have entry := step_entry taken i
  generalize s'.mutex i = m at entry held
  generalize s'.nextmid = n at entry
  cases entry with
  | keeps face =>
    have same : m.holding = (s.mutex i).holding := congrArg (fun x => x.2.2.2.1) face
    exact .inl (same.symm.trans held)
  | lock t o id place free face =>
    have mine : m.holding = some t := congrArg (fun x => x.2.2.2.1) face
    cases mine.symm.trans held
    exact .inr ⟨o,id,rfl,place⟩
  | unlock t o id place closed face =>
    have nobody : m.holding = none := congrArg (fun x => x.2.2.2.1) face
    rw [nobody] at held
    contradiction
  | alloc t o place face =>
    have nobody : m.holding = none := congrArg (fun x => x.2.2.2.1) face
    rw [nobody] at held
    contradiction
  | dealloc t o id k place face =>
    have nobody : m.holding = none := congrArg (fun x => x.2.2.2.1) face
    rw [nobody] at held
    contradiction

theorem closed_step (inv : Holding s) (taken : MutexStep s a s') (i : MutexIx) :
    (s'.mutex i).state = .closed ↔ (s'.mutex i).holding ≠ none := by
  have entry := step_entry taken i
  generalize s'.mutex i = m at entry
  generalize s'.nextmid = n at entry
  cases entry with
  | keeps face =>
    obtain ⟨_,_,state,holding,_⟩ := by simpa only [Mutex.face,Prod.mk.injEq] using face
    rw [state,holding]
    exact inv.closed i
  | lock t o id place free face =>
    obtain ⟨_,_,state,holding,_⟩ := by simpa only [Mutex.face,Prod.mk.injEq] using face
    simp [state,holding]
  | unlock t o id place closed face =>
    obtain ⟨_,_,state,holding,_⟩ := by simpa only [Mutex.face,Prod.mk.injEq] using face
    simp [state,holding]
  | alloc t o place face =>
    obtain ⟨_,_,state,holding,_⟩ := by simpa only [Mutex.face,Prod.mk.injEq] using face
    simp [state,holding]
  | dealloc t o id k place face =>
    obtain ⟨_,_,state,holding,_⟩ := by simpa only [Mutex.face,Prod.mk.injEq] using face
    simp [state,holding]

theorem used_step (inv : Holding s) (drained : Drained s) (unheld : FreesUnheld s a)
    (taken : Kthreads.step s a = some s') (i : MutexIx) (h : Slot) (held : (s'.mutex i).holding = some h) :
    (s'.thread h).state ≠ .tUnused := by
  intro empty
  rcases holder_step (step_mutex s s' a taken) i h held with before | ⟨o,id,rfl,place⟩
  · rcases step_frees taken h empty with old | ⟨t,o,rfl,frees⟩
    · exact inv.used i h before old
    · exact unheld i h before frees
  · -- the new holder runs, and this section frees no slot
    rcases step_frees taken h empty with old | ⟨t,o',acts,frees⟩
    · rw [drained.running h (step_run taken).2.1] at old
      contradiction
    · cases acts
      simp [Frees,freed,reaped,place] at frees

end Holding

theorem holding_reached {s₀ : KState} (start : Start s₀) (reached : Reaches HoldersKept s₀ s) :
    Holding s ∧ Ids s ∧ Drained s := by
  refine reached.invariant (fun s => Holding s ∧ Ids s ∧ Drained s) ⟨.start start,.start start,.start start⟩ ?_
  rintro before a after ⟨named,threads⟩ ⟨orderly,unheld⟩ taken
  refine ⟨⟨?_,?_⟩,drained_step threads orderly (step_thread before after a taken)⟩
  · exact named.closed_step (step_mutex before after a taken)
  · exact named.used_step threads.2 unheld taken

def lockAfterJoin : List Action :=
  [call (1,1) (.kthreadMutexLock 1),List.replicate 3 (go (1,1)),back (1,1),
    call (1,1) .kthreadExit,[go (1,1),go (1,1),.swtch (1,1)],
    call (1,0) (.kthreadJoin 2),[go (1,0),go (1,0)],back (1,0),call (1,0) (.kthreadMutexLock 1)].flatten

end Kthreads
