import Kthreads.Lib.Pool
import Kthreads.Thread.Ids

/-! Kernel stacks and the reaping of threads. Pages move between the free list, the rest of
the kernel and the thread slots as the resources of a pool do, so that no page is in two
places. That a thread is reaped once is about ids: a slot that still carries an id whose
stack has been freed has no stack and is not about to get one. -/
open Function (update update_self)

namespace Kthreads
variable {s s' : KState}

def pages (s : KState) : Pool.State Slot Page := ⟨s.freelist,s.otherPages,fun t => (s.thread t).kstack⟩

section Pages
variable {s s' : KState}

theorem pages_calm (calm : ∀ u, Calm (s.thread u) (s'.thread u))
    (rest : (s'.freelist,s'.otherPages) = (s.freelist,s.otherPages)) : pages s' = pages s := by
  obtain ⟨free,other⟩ := Prod.mk.inj rest
  unfold pages
  rw [free,other]
  congr 1
  funext u
  exact (calm u).kstack

theorem pages_write (w : Slot) (v : Thread) (thread : s'.thread = update s.thread w v) :
    pages s' = ⟨s'.freelist,s'.otherPages,update (pages s).owns w v.kstack⟩ := by
  unfold pages
  congr 1
  funext u
  by_cases here : u = w
  · simp [thread,here]
  · simp [thread,here]

theorem pages_moved (w : Slot) (v : Thread) (thread : s'.thread = update s.thread w v)
    (moved : Pool.Move (pages s) ⟨s'.freelist,s'.otherPages,update (pages s).owns w v.kstack⟩) :
    Pool.Move (pages s) (pages s') := by
  rw [pages_write w v thread]
  exact moved

theorem pages_freeSlot (u : Slot) (page : Page) (owned : (s.thread u).kstack = some page) :
    Pool.Move (pages s) (pages (freeSlot s u page)) := by
  refine pages_moved u _ rfl ?_
  exact .release u page owned

theorem pages_reapThreads (c : ProcIx) : Pool.Moves (pages s) (pages (reapThreads s c)) := by
  refine reapThreads_rule s c (P := fun m => Pool.Moves (pages s) (pages m)) .refl ?_
  intro m i moved _
  rcases reapThread_cases m (c,i) with eq | eq | ⟨page,owned,eq⟩
  · rw [eq]
    exact moved
  · rw [eq]
    exact moved
  · rw [eq]
    exact moved.tail (pages_freeSlot (c,i) page owned)

/-- Every step of the kernel is a number of moves of the pool. -/
theorem step_pages {a : Action} (taken : ThreadStep s a s') : Pool.Moves (pages s) (pages s') := by
  have calm (calms : ∀ u, Calm (s.thread u) (s'.thread u))
      (rest : (s'.freelist,s'.otherPages) = (s.freelist,s.otherPages)) : Pool.Moves (pages s) (pages s') := by
    rw [pages_calm calms rest]
  cases taken with
  | frame same =>
    exact calm (fun u => (Inherits.frame same u).toCalm) (by rw [same.freelist,same.otherPages])
  | scheduler t free off runnable =>
    have rest := (scheduler_scheduled s t).rest
    simp only [Prod.mk.injEq] at rest
    exact calm (fun u => (Inherits.scheduler s t u).toCalm) (by rw [rest.2.1,rest.2.2.1])
  | swtch | forkProc | forkCopied | joinFound | joinMissing => exact .refl
  | takePage page rest head => exact .single (.lend page rest head)
  | givePage page member => exact .single (.give page member)
  | yield t free on running =>
    refine calm (Calm.write t _ rfl ?_) rfl
    exact ⟨rfl,rfl,by simp⟩
  | sleep t o chan site on falls =>
    refine calm (Calm.write t _ rfl ?_) rfl
    exact ⟨rfl,rfl,by simp⟩
  | exitThread t o on place free => exact calm (fun u => (Inherits.exitThread s t u).toCalm) rfl
  | mark t o k on place free => exact calm (Calm.marked s t) rfl
  | drain t o k i n m pc on place same pcs move =>
    exact calm (fun u => (Inherits.frame same u).toCalm) (by rw [← same.freelist,← same.otherPages]; rfl)
  | drainFree t o k i n page on place owned => exact .single (pages_freeSlot (t.1,i) page owned)
  | exitFinal t o on place free =>
    obtain ⟨m,same,_,_,eq⟩ := exitFinal_eq s t
    refine calm (fun u => (Inherits.exitFinal s t u).toCalm) ?_
    rw [eq,← same.freelist,← same.otherPages]
    rfl
  | birth t o p nt pc on births free found =>
    have same : pages ((allocthread s nt).goto t pc) = pages s := by
      refine (pages_write nt _ rfl).trans ?_
      unfold pages
      simp [allocthread]
    rw [same]
  | stack t o nt pc page rest on gets head =>
    refine .single (pages_moved nt _ rfl ?_)
    exact .assign nt page rest head
  | stackless t o nt pc on gets empty =>
    refine .single (pages_moved nt _ rfl ?_)
    exact .forget nt
  | forkFailed t o nt page on place owned =>
    refine .single (pages_moved nt _ rfl ?_)
    exact .release nt page owned
  | createRun t o nt on place free =>
    refine calm (Calm.write nt _ rfl ?_) rfl
    exact ⟨rfl,rfl,by simp⟩
  | forkRun t o nt on place free =>
    refine calm (Calm.write nt _ rfl ?_) rfl
    exact ⟨rfl,rfl,by simp⟩
  | waitPanic t o c on place found => exact pages_reapThreads c
  | waitDone t o c on place found =>
    have reaped := pages_reapThreads (s := s) c
    generalize reapThreads s c = m at reaped ⊢
    exact reaped
  | joinFree t o tid u page on place owned =>
    refine .single (pages_moved u {s.thread u with
      kstack := none, tid := 0, state := .tUnused, shouldDie := false} ?_ ?_)
    · simp [freeSlot]
    · exact .release u page owned

theorem pages_start (init : Start s) : Pool.Sound (pages s) where
  free := init.pages.1
  lent := init.pages.2.1
  apart := init.pages.2.2
  owned := init.stackFree
  single := init.stackOwn

end Pages

def Event.frees (tid : Int) : Event → Bool
  | .kfree id _ => id == tid
  | _ => false

def Event.joins (tid : Int) : Event → Bool
  | .joinRet _ id result => id == tid && result == 0
  | _ => false

/-- The id and the slot with which `kthread_join` frees a thread. -/
def joined (s : KState) (t : Slot) : Option (Int × Slot) :=
  match s.pc t with
  | .joinFree tid u => some (tid,u)
  | _ => none

/-- The slot that `kthread_join` frees still belongs to the thread it found there. -/
abbrev JoinsSame (s : KState) : Action → Prop := onRun fun t _ =>
  ∀ j ∈ joined s t, (s.thread j.2).tid = j.1

def Stackless (s : KState) (tid : Int) : Prop :=
  ∀ u, (s.thread u).tid = tid → (s.thread u).kstack = none ∧ ∀ t, (s.pc t).life.blank ≠ some u

structure Blanks (s : KState) : Prop where
  bare : ∀ u, (s.thread u).state = .tUnused → (s.thread u).kstack = none
  blank : ∀ t nt, (s.pc t).life.blank = some nt →
    (s.thread nt).kstack = none ∧ (s.thread nt).state ≠ .tUnused
  single : ∀ t u nt, (s.pc t).life.blank = some nt → (s.pc u).life.blank = some nt → t = u

structure Reaped (s : KState) : Prop extends Blanks s where
  freed : ∀ tid, tid ≠ 0 → 0 < s.hist.countP (Event.frees tid) → tid < s.nexttid ∧ Stackless s tid
  freedOnce : ∀ tid, tid ≠ 0 → s.hist.countP (Event.frees tid) ≤ 1
  joined : ∀ tid, tid ≠ 0 → 0 < s.hist.countP (Event.joins tid) →
    tid < s.nexttid ∧ ∀ u, (s.thread u).tid ≠ tid
  joinedOnce : ∀ tid, tid ≠ 0 → s.hist.countP (Event.joins tid) ≤ 1

def Unreaped (s s' : KState) : Prop := ∀ tid,
  s'.hist.countP (Event.frees tid) = s.hist.countP (Event.frees tid) ∧
    s'.hist.countP (Event.joins tid) = s.hist.countP (Event.joins tid)

theorem Unreaped.frame (same : ThreadFrame s s') : Unreaped s s' := by
  obtain ⟨new,eq,quiet⟩ := same.hist
  intro tid
  rw [eq,List.countP_append,List.countP_append]
  have none (p : Event → Bool) (silent : ∀ e, e.threadless = true → p e = false) : new.countP p = 0 := by
    apply List.countP_eq_zero.mpr
    intro e member
    simp [silent e (quiet e member)]
  rw [none (Event.frees tid),none (Event.joins tid)]
  · simp
  · intro e threadless
    cases e <;> simp [Event.threadless,Event.joins] at threadless ⊢
  · intro e threadless
    cases e <;> simp [Event.threadless,Event.frees] at threadless ⊢

theorem Unreaped.same (hist : s'.hist = s.hist) : Unreaped s s' := by
  intro tid
  rw [hist]
  exact ⟨rfl,rfl⟩

/-- A stack that is freed or a join that succeeds takes the id's slot with it. -/
structure Reaps (s s' : KState) : Prop where
  frees : ∀ tid, tid ≠ 0 → s'.hist.countP (Event.frees tid) = s.hist.countP (Event.frees tid) ∨
    s'.hist.countP (Event.frees tid) = s.hist.countP (Event.frees tid)+1 ∧
      ∃ u, (s.thread u).tid = tid ∧ (s.thread u).kstack ≠ none ∧ (s'.thread u).kstack = none
  joins : ∀ tid, tid ≠ 0 → s'.hist.countP (Event.joins tid) = s.hist.countP (Event.joins tid) ∨
    s'.hist.countP (Event.joins tid) = s.hist.countP (Event.joins tid)+1 ∧
      ∃ u, (s.thread u).tid = tid ∧ (s'.thread u).tid = 0

namespace Reaps

theorem quiet (hist : Unreaped s s') : Reaps s s' :=
  ⟨fun tid _ => .inl (hist tid).1,fun tid _ => .inl (hist tid).2⟩

theorem kfree (u : Slot) (page : Page) (owned : (s.thread u).kstack = some page)
    (hist : s'.hist = .kfree (s.thread u).tid page :: s.hist) (freed : (s'.thread u).kstack = none) : Reaps s s' := by
  refine ⟨fun tid _ => ?_,fun tid _ => .inl (by simp [hist,Event.joins])⟩
  by_cases own : (s.thread u).tid = tid
  · exact .inr ⟨by simp [hist,Event.frees,own],u,own,by simp [owned],freed⟩
  · exact .inl (by simp [hist,Event.frees,own])

/-- The loop of `wait` frees the stack of an id once: ids stand in one slot each, and a slot that it has freed
has id 0. -/
theorem reapThreads (ids : Ids s) (c : ProcIx) : Reaps s (reapThreads s c) := by
  have loop := reapThreads_rule s c (P := fun m => Ids m ∧ (∀ u, (m.thread u).tid = 0 ∨ m.thread u = s.thread u) ∧
    ∀ tid, tid ≠ 0 → m.hist.countP (Event.joins tid) = s.hist.countP (Event.joins tid) ∧
      (m.hist.countP (Event.frees tid) = s.hist.countP (Event.frees tid) ∨
        m.hist.countP (Event.frees tid) = s.hist.countP (Event.frees tid)+1 ∧ ∃ u, (s.thread u).tid = tid ∧
          (s.thread u).kstack ≠ none ∧ (m.thread u).kstack = none ∧ (m.thread u).tid = 0))
    ⟨ids,fun _ => .inr rfl,fun _ _ => ⟨rfl,.inl rfl⟩⟩ ?_
  · exact ⟨fun tid nonzero => (loop.2.2 tid nonzero).2.imp_right fun new =>
      ⟨new.1,new.2.imp fun u freed => ⟨freed.1,freed.2.1,freed.2.2.1⟩⟩,fun tid nonzero => .inl (loop.2.2 tid nonzero).1⟩
  · rintro m i ⟨unique,still,counts⟩ _
    rcases reapThread_cases m (c,i) with eq | eq | ⟨page,owned,eq⟩
    · rw [eq]
      exact ⟨unique,still,counts⟩
    · rw [eq]
      exact ⟨unique.keep (fun _ => .inl rfl) rfl,still,counts⟩
    · rw [eq]
      have own : (freeSlot m (c,i) page).thread (c,i) =
          {m.thread (c,i) with kstack := none, tid := 0, state := .tUnused} := by simp [freeSlot]
      refine ⟨unique.keep ?_ rfl,?_,?_⟩
      · intro u
        rcases Emptied.freeSlot m (c,i) page u with same | empty
        · exact .inl (by rw [same])
        · exact empty.tid
      · intro u
        by_cases here : u = (c,i)
        · exact .inl (by rw [here,own])
        · rw [freeSlot_thread m (c,i) page u here]
          exact still u
      · intro tid nonzero
        obtain ⟨joins,frees⟩ := counts tid nonzero
        refine ⟨by simpa [freeSlot,Event.joins] using joins,?_⟩
        by_cases named : (m.thread (c,i)).tid = tid
        · have old := (still (c,i)).resolve_left (named ▸ nonzero)
          rcases frees with same | ⟨_,u,carries,_,_,zero⟩
          · exact .inr ⟨by simp [freeSlot,Event.frees,named,same],(c,i),by rw [← old,named],by simp [← old,owned],
              by rw [own],by rw [own]⟩
          · have here := ids.unique u (c,i) (by rw [carries,← old,named]) (carries ▸ nonzero)
            rw [here] at zero
            exact absurd (named.symm.trans zero) nonzero
        · have same : (freeSlot m (c,i) page).hist.countP (Event.frees tid) = m.hist.countP (Event.frees tid) := by
            simp [freeSlot,Event.frees,named]
          rw [same]
          refine frees.imp_right (And.imp_right (Exists.imp fun u freed => ⟨freed.1,freed.2.1,?_⟩))
          by_cases here : u = (c,i)
          · rw [here,own]
            exact ⟨rfl,rfl⟩
          · rw [freeSlot_thread m (c,i) page u here]
            exact freed.2.2

end Reaps

theorem step_reaps {a : Action} (ids : Ids s) (joins : JoinsSame s a) (taken : ThreadStep s a s') : Reaps s s' := by
  cases taken with
  | frame same => exact .quiet (.frame same)
  | scheduler t free off runnable =>
    have rest := (scheduler_scheduled s t).rest
    simp only [Prod.mk.injEq] at rest
    exact .quiet (.same rest.2.2.2.1)
  | drain t o k i n m pc on place same pcs move => exact .quiet fun tid => Unreaped.frame same tid
  | drainFree t o k i n page on place owned => exact .kfree (t.1,i) page owned rfl (by simp [freeSlot])
  | exitFinal t o on place free =>
    obtain ⟨m,same,pcs,_,eq⟩ := exitFinal_eq s t
    rw [eq]
    exact .quiet fun tid => Unreaped.frame same tid
  | forkFailed t o nt page on place owned => exact .kfree nt page owned rfl (by simp)
  | waitPanic t o c on place found => exact .reapThreads ids c
  | waitDone t o c on place found =>
    have reaped := Reaps.reapThreads ids c
    generalize Kthreads.reapThreads s c = m at reaped ⊢
    refine ⟨fun tid nonzero => ?_,fun tid nonzero => ?_⟩
    · simpa [waitDone,Event.frees] using reaped.frees tid nonzero
    · simpa [waitDone,Event.joins] using reaped.joins tid nonzero
  | joinFree t o tid u page on place owned =>
    have named : (s.thread u).tid = tid := joins (tid,u) (by simp [joined,place])
    have freed : Reaps s ((freeSlot s u page).setThread u {s.thread u with
        kstack := none, tid := 0, state := .tUnused, shouldDie := false}) :=
      .kfree u page owned rfl (by simp)
    refine ⟨fun id nonzero => ?_,fun id _ => ?_⟩
    · simpa [Event.frees] using freed.frees id nonzero
    · by_cases own : tid = id
      · exact .inr ⟨by simp [freeSlot,Event.joins,own],u,named.trans own,by simp⟩
      · exact .inl (by simp [freeSlot,Event.joins,own])
  | birth | forkProc | forkRun | joinMissing =>
    refine .quiet fun tid => ?_
    simp [allocthread,forkRun,Event.frees,Event.joins]
  | _ => exact .quiet (.same rfl)

/-- A slot for which no thread waits gets no stack. -/
theorem stackless_stays {a : Action} (taken : ThreadStep s a s') {u : Slot} (none : (s.thread u).kstack = none)
    (nobody : ∀ t, (s.pc t).life.blank ≠ some u) : (s'.thread u).kstack = Option.none := by
  cases step_change taken u with
  | keeps inherits => exact inherits.kstack.trans none
  | emptied empty => exact empty.kstack
  | sleeps => simpa [sleepCommit] using none
  | marked t => exact (Calm.marked s t u).kstack.trans none
  | born => simpa [allocthread] using none
  | stacked t o pc page rest s' gets => exact absurd gets.waits (nobody t)

theorem Stackless.after {a : Action} {tid : Int} (taken : ThreadStep s a s') (nonzero : tid ≠ 0) (below : tid < s.nexttid)
    (bare : ∀ u, (s.thread u).tid = tid → (s'.thread u).kstack = none ∧ ∀ t, (s.pc t).life.blank ≠ some u) :
    Stackless s' tid := by
  intro u same
  obtain ⟨none,nobody⟩ := bare u (older_tid taken below nonzero same)
  refine ⟨none,?_⟩
  intro t waits
  rcases waits_before taken waits with before | ⟨_,_,_,_,fresh⟩
  · exact nobody t before
  · omega

namespace Blanks

theorem start (init : Start s) : Blanks s := by
  have none (u nt : Slot) : (s.pc u).life.blank ≠ some nt := by
    rcases init.slot u with ready | vacant
    · simp [ready.pc,Pc.life,Life.blank]
    · simp [vacant.pc,Pc.life,Life.blank]
  refine ⟨?_,fun t nt blank => absurd blank (none t nt),fun t u nt blank => absurd blank (none t nt)⟩
  intro u unused
  rcases init.slot u with ready | vacant
  · rcases ready.cpu with ⟨state,_⟩ | ⟨state,_⟩ <;> simp [state] at unused
  · exact vacant.kstack

section
variable {a : Action} (inv : Blanks s) (taken : ThreadStep s a s')
include inv taken

theorem stays_blank {t nt : Slot} (before : (s.pc t).life.blank = some nt) (waits : (s'.pc t).life.blank = some nt) :
    (s'.thread nt).kstack = none ∧ (s'.thread nt).state ≠ .tUnused := by
  obtain ⟨none,used⟩ := inv.blank t nt before
  cases step_change taken nt with
  | keeps inherits => exact ⟨inherits.kstack.trans none,fun unused => used (inherits.unused unused)⟩
  | emptied empty reaper =>
    cases reaper with
    | drain _ _ _ _ _ _ _ _ owned | join _ _ _ _ _ owned | wait _ _ _ _ _ _ _ _ _ owned
    | fork _ _ _ _ _ owned => exact absurd none owned
    | stack v o pc gets free back =>
      rw [inv.single t v nt before gets.waits,back] at waits
      simp [Pc.life,Life.blank] at waits
  | sleeps => exact ⟨by simpa [sleepCommit] using none,by simp [sleepCommit]⟩
  | marked v =>
    have calm := Calm.marked s v nt
    exact ⟨calm.kstack.trans none,fun unused => used (calm.unused unused)⟩
  | born v o p pc births found => exact absurd (unusedSlot_spec s p nt found).1 used
  | stacked v o pc page rest s' gets head thread after =>
    rw [inv.single t v nt before gets.waits,after] at waits
    cases gets <;> contradiction

theorem step : Blanks s' := by
  refine ⟨?_,?_,?_⟩
  · intro u unused
    cases step_change taken u with
    | keeps inherits => exact inherits.kstack.trans (inv.bare u (inherits.unused unused))
    | emptied empty => exact empty.kstack
    | sleeps => simp [sleepCommit] at unused
    | marked t =>
      have calm := Calm.marked s t u
      exact calm.kstack.trans (inv.bare u (calm.unused unused))
    | born => simp [allocthread] at unused
    | stacked t o pc page rest s' gets head thread =>
      rw [thread] at unused
      exact absurd unused (inv.blank t u gets.waits).2
  · intro t nt waits
    rcases waits_before taken waits with before | ⟨_,unused,same,embryo,_⟩
    · exact inv.stays_blank taken before waits
    · exact ⟨same.trans (inv.bare nt unused),by simp [embryo]⟩
  · intro t u nt first second
    rcases waits_before taken first with before | ⟨⟨o,rfl⟩,unused,_⟩
    · rcases waits_before taken second with other | ⟨_,unused,_⟩
      · exact inv.single t u nt before other
      · exact absurd unused (inv.blank t nt before).2
    · rcases waits_before taken second with other | ⟨⟨_,same⟩,_⟩
      · exact absurd unused (inv.blank u nt other).2
      · exact (Action.run.inj same).1

end

end Blanks

namespace Reaped

theorem start (init : Start s) : Reaped s := by
  refine ⟨.start init,?_,?_,?_,?_⟩
  all_goals simp [init.hist]

section
variable {a : Action} (inv : Reaped s) (ids : Ids s) (room : TidRoom s a) (taken : ThreadStep s a s')
include inv ids room taken

theorem step (joins : JoinsSame s a) : Reaped s' := by
  have reaps := step_reaps ids joins taken
  have later := ids.nexttid_le room taken
  have freed (tid : Int) (nonzero : tid ≠ 0) (count : 0 < s'.hist.countP (Event.frees tid)) :
      tid < s'.nexttid ∧ Stackless s' tid := by
    rcases reaps.frees tid nonzero with same | ⟨_,v,carries,owned,none⟩
    · rw [same] at count
      obtain ⟨below,stackless⟩ := inv.freed tid nonzero count
      refine ⟨below.trans_le later,.after taken nonzero below fun u named => ?_⟩
      obtain ⟨none,nobody⟩ := stackless u named
      exact ⟨stackless_stays taken none nobody,nobody⟩
    · have below : tid < s.nexttid := carries ▸ ids.below v
      refine ⟨below.trans_le later,.after taken nonzero below fun u named => ?_⟩
      obtain rfl := ids.unique u v (named.trans carries.symm) (named ▸ nonzero)
      exact ⟨none,fun t waits => owned (inv.blank t u waits).1⟩
  refine ⟨inv.toBlanks.step taken,freed,?_,?_,?_⟩
  · intro tid nonzero
    rcases reaps.frees tid nonzero with same | ⟨more,v,carries,owned,_⟩
    · exact same.trans_le (inv.freedOnce tid nonzero)
    · have first : s.hist.countP (Event.frees tid) = 0 := by
        by_contra some
        exact owned ((inv.freed tid nonzero (Nat.pos_of_ne_zero some)).2 v carries).1
      omega
  · intro tid nonzero count
    rcases reaps.joins tid nonzero with same | ⟨_,v,carries,zero⟩
    · rw [same] at count
      obtain ⟨below,gone⟩ := inv.joined tid nonzero count
      exact ⟨below.trans_le later,fun u named => gone u (older_tid taken below nonzero named)⟩
    · have below : tid < s.nexttid := carries ▸ ids.below v
      refine ⟨below.trans_le later,fun u named => ?_⟩
      have old := older_tid taken below nonzero named
      obtain rfl := ids.unique u v (old.trans carries.symm) (old ▸ nonzero)
      exact nonzero (named.symm.trans zero)
  · intro tid nonzero
    rcases reaps.joins tid nonzero with same | ⟨more,v,carries,_⟩
    · exact same.trans_le (inv.joinedOnce tid nonzero)
    · have first : s.hist.countP (Event.joins tid) = 0 := by
        by_contra some
        exact (inv.joined tid nonzero (Nat.pos_of_ne_zero some)).2 v carries
      omega

end

end Reaped

theorem pages_sound {guard : KState → Action → Prop} (s₀ s : KState) (init : Start s₀)
    (reached : Reaches guard s₀ s) : Pool.Sound (pages s) := by
  refine reached.invariant (fun s => Pool.Sound (pages s)) (pages_start init) ?_
  intro s a s' sound _ taken
  exact sound.moves (step_pages (step_thread s s' a taken))

/-- As long as `kthread_join` frees only the thread it found, every thread is reaped at most
once: the stack of each thread id is freed at most once and at most one join of the id
returns 0. Slots in use own different pages, none of them free. -/
theorem threads_reaped_once (s₀ s : KState) (init : Start s₀)
    (reached : Reaches (fun s a => TidRoom s a ∧ JoinsSame s a) s₀ s) :
    (∀ tid, tid ≠ 0 → s.hist.countP (Event.frees tid) ≤ 1 ∧ s.hist.countP (Event.joins tid) ≤ 1) ∧
      ∀ t page, (s.thread t).state ≠ .tUnused → (s.thread t).kstack = some page → page ∉ s.freelist ∧
        ∀ u, (s.thread u).state ≠ .tUnused → (s.thread u).kstack = some page → t = u := by
  have sound := pages_sound s₀ s init reached
  have inv : Reaped s ∧ Ids s := by
    refine reached.invariant (fun s => Reaped s ∧ Ids s) ⟨.start init,.start init⟩ ?_
    rintro s a s' ⟨inv,ids⟩ ⟨room,joins⟩ taken
    have thread := step_thread s s' a taken
    exact ⟨inv.step ids room thread joins,ids.step room thread⟩
  refine ⟨fun tid nonzero => ⟨inv.1.freedOnce tid nonzero,inv.1.joinedOnce tid nonzero⟩,?_⟩
  intro t page _ owned
  exact ⟨(sound.owned t page owned).1,fun u _ other => sound.single t u page owned other⟩

def joinScript : List Action :=
  call (1,0) (.kthreadJoin 2) ++ [go (1,0),.swtch (1,0)] ++ call (1,1) .kthreadExit ++
    [go (1,1),go (1,1),.swtch (1,1),.scheduler (1,0),go (1,0),go (1,0)]

theorem threads_reaped_once_join : ∃ s,
    Reaches (fun s a => TidRoom s a ∧ JoinsSame s a) (session [(1,0),(1,1)] 0 0) s ∧
      s.hist = [.joinRet (1,0) 2 0,.kfree 2 2] ∧
      s.hist.countP (Event.frees 2) ≤ 1 ∧ s.hist.countP (Event.joins 2) ≤ 1 := by
  have init : Start (session [(1,0),(1,1)] 0 0) := session_start _ _ _ (by decide) (by decide)
  obtain ⟨s,reached,test⟩ := Interleave.play_shows step (fun s a => TidRoom s a ∧ JoinsSame s a)
    (session [(1,0),(1,1)] 0 0) joinScript (fun s => s.hist = [.joinRet (1,0) 2 0,.kfree 2 2]) (by decide +kernel)
  refine ⟨s,reached,by simpa using test,?_⟩
  exact (threads_reaped_once _ s init reached).1 2 (by decide)

/-- Two joiners of one thread both find it ended before either frees it. Between the two,
the slot goes to a new thread, which the second joiner then frees although it never ran. -/
def rejoinScript : List Action :=
  call (1,2) .kthreadExit ++ [go (1,2),go (1,2),.swtch (1,2)] ++
    call (1,0) (.kthreadJoin 3) ++ [go (1,0)] ++ call (1,1) (.kthreadJoin 3) ++ [go (1,1),go (1,0)]

def recreateScript : List Action :=
  back (1,0) ++ call (1,0) (.kthreadCreate 1 1) ++ [go (1,0),go (1,0),go (1,0)]

theorem thread_joined_twice :
    (∃ s, Reaches (within [.user,.trap,.kthreadExit,.exitThread,.kthreadJoin,.kthreadCreate])
        (session [(1,0),(1,1),(1,2)] 0 0) s ∧
      s.hist.countP (Event.joins 3) = 2 ∧ s.hist.countP (Event.frees 4) = 1 ∧
      (s.thread (1,2)).state = .tUnused ∧ s.pc (1,2) = .user ∧ 3 ∈ s.freelist) ∧
    ∃ s, Reaches (within [.user,.trap,.kthreadExit,.exitThread,.kthreadJoin])
        (session [(1,0),(1,1),(1,2)] 0 0) s ∧ s.panicked = true := by
  constructor
  · obtain ⟨s,reached,test⟩ := Interleave.play_shows step
      (within [.user,.trap,.kthreadExit,.exitThread,.kthreadJoin,.kthreadCreate])
      (session [(1,0),(1,1),(1,2)] 0 0) (rejoinScript ++ recreateScript ++ [go (1,1)])
      (fun s => s.hist.countP (Event.joins 3) = 2 ∧ s.hist.countP (Event.frees 4) = 1 ∧
        (s.thread (1,2)).state = .tUnused ∧ s.pc (1,2) = .user ∧ 3 ∈ s.freelist)
      (by decide +kernel)
    exact ⟨s,reached,by simpa using test⟩
  · obtain ⟨s,reached,test⟩ := Interleave.play_shows step
      (within [.user,.trap,.kthreadExit,.exitThread,.kthreadJoin]) (session [(1,0),(1,1),(1,2)] 0 0)
      (rejoinScript ++ [go (1,1)]) (fun s => s.panicked = true) (by decide +kernel)
    exact ⟨s,reached,test⟩

end Kthreads
