import Kthreads.Process.Failure
import Kthreads.Thread.Joined

/-! `kthread_join` and the ids of threads. A slot that is not in use carries the id 0, which is the id
that `kthread_join(0)` looks for; and a creation that fails after it has taken a slot leaves its id there.
Apart from these, the scan of `kthread_join` finds live threads and zombies only, and a zombie has the
stack that is then freed. -/
open Function (update update_of_ne)

namespace Kthreads
variable {s s' : KState} {a : Action}

def Pc.copies : Pc → Bool
  | .forkCopy _ => true
  | _ => false

abbrev CreationsFit (s : KState) : Action → Prop := onRun fun t o =>
  ((s.pc t).life.blank ≠ none → s.freelist ≠ []) ∧ ((s.pc t).copies = true → o.copied = true)

abbrev JoinsNamed (s : KState) : Action → Prop := onRun fun t _ => s.pc t ≠ .joinLoop 0

abbrev JoinsWell (s : KState) (a : Action) : Prop :=
  (TidRoom s a ∧ PidRoom s a ∧ CreatesAlive s a ∧ StackLeft s a) ∧ JoinsSame s a ∧ CreationsFit s a ∧ JoinsNamed s a

theorem Joined.peaceful (joined : Joined s) (well : JoinsWell s a) : Peaceful s a :=
  ⟨well.1.1,well.1.2.1,well.1.2.2.1,joined.ended well.2.1,well.1.2.2.2⟩

theorem joined_reached {s₀ : KState} (start : Start s₀) (rooted : Rooted s₀) (reached : Reaches JoinsWell s₀ s) :
    Reaches Peaceful s₀ s ∧ Joined s := by
  induction reached with
  | refl => exact ⟨.refl,.start start⟩
  | tail before allowed taken held =>
    obtain ⟨_,creating⟩ := creating_reached start rooted held.1
    exact ⟨.tail held.1 (held.2.peaceful allowed) taken,
      held.2.step creating.drained creating.ids allowed.1.1 (step_thread _ _ _ taken)⟩

theorem step_stack (taken : ThreadStep s a s') (u : Slot)
    (owned : (s.thread u).kstack ≠ none) (used : (s'.thread u).state ≠ .tUnused) : (s'.thread u).kstack ≠ none := by
  cases step_change taken u with
  | keeps inherits =>
    rw [inherits.kstack]
    exact owned
  | emptied empty gone => exact absurd empty.state used
  | sleeps o chan site on falls => simpa [sleepCommit] using owned
  | marked t o k place own other =>
    rw [show (((markSiblings s t).goto t (.drain k 0 0)).thread u).kstack = _ from (Calm.marked s t u).kstack]
    exact owned
  | born t o p pc births found => simpa [allocthread] using owned
  | stacked t o pc page rest s' gets head thread => simp [thread]

def Life.stocked : Life → Option Slot
  | .createRun nt | .forkCopy nt | .forkRun nt => some nt
  | _ => none

theorem pending_of_stocked {life : Life} {nt : Slot} (stocked : life.stocked = some nt) : life.pending = some nt := by
  cases life <;> simp [Life.stocked] at stocked <;> simpa [Life.pending] using stocked

/-- Slots that are not in use have no id, and threads that can run or have run have a stack. -/
structure Equipped (s : KState) : Prop where
  nameless : ∀ u, (s.thread u).state = .tUnused → (s.thread u).tid = 0
  stack : ∀ u, (s.thread u).state ≠ .tUnused → (s.thread u).state ≠ .tEmbryo → (s.thread u).kstack ≠ none
  stocked : ∀ t u, (s.pc t).life.stocked = some u → (s.thread u).kstack ≠ none

namespace Equipped

theorem start (init : Start s) : Equipped s := by
  refine ⟨?_,?_,?_⟩
  · intro u unused
    rcases init.slot u with ready | vacant
    · rcases ready.cpu with ⟨state,_⟩ | ⟨state,_⟩ <;> simp [state] at unused
    · exact vacant.tid
  · intro u used _
    rcases init.slot u with ready | vacant
    · exact ready.kstack
    · exact absurd vacant.state used
  · intro t u stocked
    rcases init.slot t with ready | vacant
    · rw [ready.pc] at stocked
      contradiction
    · rw [vacant.pc] at stocked
      contradiction

section Step
variable {s s' : KState} {a : Action} (inv : Equipped s) (taken : step s a = some s')
include inv taken

theorem step_nameless (fit : CreationsFit s a) (u : Slot) (empty : (s'.thread u).state = .tUnused) :
    (s'.thread u).tid = 0 := by
  cases step_change (step_thread s s' a taken) u with
  | keeps inherits =>
    rw [inherits.tid]
    exact inv.nameless u (inherits.unused empty)
  | emptied _ reaper =>
    cases reaper with
    | drain | join | wait => assumption
    | stack t o pc gets none => exact absurd none (fit.1 (by simp [gets.waits]))
    | fork t o place short =>
      rw [fit.2 (by rw [place]; rfl)] at short
      contradiction
  | sleeps o chan site on falls => simp [sleepCommit] at empty
  | marked t o k place own other =>
    have calm := Calm.marked s t u
    exact calm.tid.trans (inv.nameless u (calm.unused empty))
  | born t o p pc births found => simp [allocthread] at empty
  | stacked t o pc page rest s' gets head thread =>
    rw [thread] at empty ⊢
    exact inv.nameless u empty

theorem step_grown (drained : Drained s) (u : Slot) (used : (s'.thread u).state ≠ .tUnused) (grown : (s'.thread u).state ≠ .tEmbryo) :
    (s'.thread u).kstack ≠ none := by
  have thread := step_thread s s' a taken
  refine step_stack thread u ?_ used
  by_cases young : (s.thread u).state = .tUnused ∨ (s.thread u).state = .tEmbryo
  · rcases step_young thread drained u young with same | empty | born | released
    · rw [same] at used grown
      exact absurd young (not_or.mpr ⟨used,grown⟩)
    · exact absurd empty used
    · cases born with
      | mk t o p pc on births found =>
        exact absurd (by simp [allocthread]) grown
    · cases released with
      | create t place | fork t place => exact inv.stocked t u (by rw [place]; rfl)
  · exact inv.stack u (fun empty => young (.inl empty)) (fun embryo => young (.inr embryo))

theorem step_stocked (drained' : Drained s') (t u : Slot) (stocked : (s'.pc t).life.stocked = some u) :
    (s'.thread u).kstack ≠ none := by
  have thread := step_thread s s' a taken
  have used : (s'.thread u).state ≠ .tUnused := by
    rw [(drained'.fresh t u (pending_of_stocked stocked)).1]
    decide
  rcases step_placed thread t with same | quiet | arrives
  · rw [same] at stocked
    exact step_stack thread u (inv.stocked t u stocked) used
  · rw [pending_busy _ u (pending_of_stocked stocked)] at quiet
    contradiction
  · have gets (o : Oracle) (nt : Slot) (pc : Pc) (gets : GetsStack s t nt pc) (act : a = .run t o)
        (here : (s'.pc t).life = pc.life) : (s'.thread u).kstack ≠ none := by
      subst act
      have got : allocStack s t nt pc = s' := by
        obtain ⟨_,_,code⟩ := step_run taken
        cases gets with
        | create place | fork place => simpa only [Kthreads.code,place,Option.some.injEq] using code
      obtain rfl : nt = u := by
        rw [here] at stocked
        cases gets <;> exact Option.some.inj stocked
      unfold allocStack at got
      split at got
      · rw [← got] at stocked
        simp [Pc.life,Life.stocked] at stocked
      · rw [← got]
        simp
    generalize here : (s'.pc t).life = life at arrives stocked
    cases arrives with
    | birth o p nt pc births found => cases births <;> contradiction
    | stacked o nt pc got => exact gets o nt pc got rfl here
    | copied o nt place =>
      obtain rfl : nt = u := Option.some.inj stocked
      exact step_stack thread nt (inv.stocked t nt (by rw [place]; rfl)) used
    | _ => contradiction

end Step

theorem step (inv : Equipped s) (drained : Drained s) (drained' : Drained s')
    (fit : CreationsFit s a) (taken : Kthreads.step s a = some s') : Equipped s' :=
  ⟨inv.step_nameless taken fit,inv.step_grown taken drained,inv.step_stocked taken drained'⟩

end Equipped

def JoinsProper (s : KState) : Prop := ∀ t tid u, (s.pc t).life = .joinFree tid u → tid ≠ 0

theorem JoinsProper.start (init : Start s) : JoinsProper s := by
  intro t tid u place
  rcases init.slot t with ready | vacant
  · rw [ready.pc] at place
    contradiction
  · rw [vacant.pc] at place
    contradiction

theorem JoinsProper.step (proper : JoinsProper s) (named : JoinsNamed s a)
    (taken : ThreadStep s a s') : JoinsProper s' := by
  intro t tid u place
  rcases step_placed taken t with same | quiet | arrives
  · exact proper t tid u (same.symm.trans place)
  · rw [place] at quiet
    contradiction
  · generalize (s'.pc t).life = life at place arrives
    cases arrives with
    | found o id v looks found dead =>
      obtain ⟨rfl,_⟩ := Life.joinFree.inj place
      rintro rfl
      exact named looks
    | birth o p nt pc births found => cases births <;> contradiction
    | stacked o nt pc gets => cases gets <;> contradiction
    | _ => contradiction

theorem equipped_reached {s₀ : KState} (start : Start s₀) (rooted : Rooted s₀) (reached : Reaches JoinsWell s₀ s) :
    Equipped s ∧ JoinsProper s := by
  have drained (s : KState) (reached : Reaches JoinsWell s₀ s) : Drained s := by
    obtain ⟨_,creating⟩ := creating_reached start rooted (joined_reached start rooted reached).1
    exact creating.drained
  induction reached with
  | refl => exact ⟨.start start,.start start⟩
  | tail before allowed taken inv =>
    exact ⟨inv.1.step (drained _ before) (drained _ (.tail before allowed taken)) allowed.2.2.1 taken,
      inv.2.step allowed.2.2.2 (step_thread _ _ _ taken)⟩

section Join
variable {s s' : KState} {t : Slot} {tid : Int} (equipped : Equipped s) (nonzero : tid ≠ 0)
include equipped nonzero

theorem findThread_used (u : Slot) (found : findThread s tid = some u) :
    (s.thread u).state ≠ .tUnused ∧ (s.thread u).tid = tid := by
  have chosen := List.find?_some found
  simp only [Bool.and_eq_true,beq_iff_eq] at chosen
  refine ⟨?_,chosen.2⟩
  intro empty
  exact nonzero (chosen.2.symm.trans (equipped.nameless u empty))

theorem findThread_none (vacated : Vacated s) : findThread s tid = none ↔
    ∀ u, (s.thread u).state ≠ .tUnused → (s.thread u).tid ≠ tid := by
  constructor
  · intro missing u used named
    have skipped := List.find?_eq_none.mp missing u (mem_slots u)
    simp only [Bool.and_eq_true,bne_iff_ne,beq_iff_eq,not_and] at skipped
    refine skipped ?_ named
    intro unused
    exact used (vacated.unused u.1 unused u.2)
  · intro absent
    cases found : findThread s tid with
    | none => rfl
    | some u =>
      obtain ⟨used,named⟩ := findThread_used equipped nonzero u found
      exact absurd named (absent u used)

/-- One round of the loop does not panic and returns -1 just if no thread has the id. -/
theorem kthreadJoin_round (vacated : Vacated s) (calm : s.panicked = false) :
    (kthreadJoin s t tid).panicked = false ∧
      ((kthreadJoin s t tid).hist = .joinRet t tid (-1) :: s.hist ↔ (s.thread t).shouldDie = false ∧
        ∀ u, (s.thread u).state ≠ .tUnused → (s.thread u).tid ≠ tid) := by
  rw [← findThread_none equipped nonzero vacated]
  unfold kthreadJoin
  split
  next dies => exact ⟨calm,by simp [dies]⟩
  next lives =>
    cases found : findThread s tid with
    | none => exact ⟨calm,by simpa using lives⟩
    | some u =>
      have used := (findThread_used equipped nonzero u found).1
      split
      next missing => cases missing
      next v same =>
        cases same
        split
        next empty => exact absurd empty used
        next zombie => exact ⟨calm,by simp⟩
        next => exact ⟨calm,by simp [sleepCommit]⟩

end Join

def joinsSibling : List Action :=
  [call (1,0) (.kthreadJoin 3),[go (1,0),.swtch (1,0)],call (1,1) .kthreadExit,
    [go (1,1),go (1,1),.swtch (1,1),.scheduler (1,0),go (1,0)]].flatten

/-- `kthread_create` fails for lack of memory and leaves the id 3 in the slot; afterwards the thread calls
`kthread_join(3)`. -/
def joinsLeftover : List Action :=
  [[.takePage,.takePage,.takePage],call (1,0) (.kthreadCreate 1 1),[go (1,0),go (1,0)],back (1,0),
    [.yield (1,0),.swtch (1,0),.scheduler (1,0)],call (1,0) (.kthreadJoin 3),[go (1,0)]].flatten

end Kthreads
