import Kthreads.Process.Family
import Kthreads.Sched.Stacks

/-! What a call of `kthread_create` or `fork` that fails leaves behind. While the call is under way it
has a process slot, a thread slot or a stack page in its hands; these count as available, so that every
step of the call but its last successful one leaves what is available as it was. -/
open Function (update update_apply update_of_ne update_self)

namespace Kthreads
variable {s s' : KState} {nt t u : Slot} {a : Action} {pc : Pc}

/-- A slot in which no thread has run yet stays as it is or is given back, until `allocthread` takes it or
its thread is made runnable. -/
theorem step_young (taken : ThreadStep s a s') (drained : Drained s) (u : Slot)
    (young : (s.thread u).state = .tUnused ∨ (s.thread u).state = .tEmbryo) :
    (s'.thread u).state = (s.thread u).state ∨ (s'.thread u).state = .tUnused ∨ Born s u a s' ∨ Released s s' u := by
  have quiet (state : ThreadState) (old : state ≠ .tUnused ∧ state ≠ .tEmbryo) : (s.thread u).state ≠ state := by
    rintro rfl
    exact young.elim old.1 old.2
  have off (t : Slot) (on : s.cpu t = .on) : u ≠ t := by
    rintro rfl
    exact quiet _ (by decide) (drained.running u on)
  cases step_change taken u with
  | keeps inherits moves =>
    cases moves with
    | same state => exact .inl state
    | wakes before | runs before | yields before => exact absurd before (quiet _ (by decide))
    | ends on => exact absurd rfl (off u on)
    | buried t on place own used =>
      -- the thread that gets here is alone
      exact absurd ⟨used,quiet _ (by decide)⟩ (drained.alone t place u own (off t on))
    | started released => exact .inr (.inr (.inr released))
  | emptied empty => exact .inr (.inl empty.state)
  | sleeps o chan site on falls => exact absurd rfl (off u on)
  | marked t o k place own other =>
    have awake := quiet .tSleeping (by decide)
    exact .inl (by simp [markSiblings,own,awake])
  | born t o p pc births found on => exact .inr (.inr (.inl ⟨t,o,p,pc,on,births,found⟩))
  | stacked t o pc page rest s' gets head thread => exact .inl (by rw [thread])

theorem step_empty (taken : ThreadStep s a s') (drained : Drained s) (u : Slot)
    (empty : (s.thread u).state = .tUnused) : (s'.thread u).state = .tUnused ∨ Born s u a s' := by
  rcases step_young taken drained u (.inl empty) with same | unused | born | released
  · exact .inl (same.trans empty)
  · exact .inl unused
  · exact .inr born
  · obtain ⟨t,pending,_⟩ := released.pending
    have embryo := (drained.fresh t u pending).1
    rw [empty] at embryo
    contradiction

def BareSlots (s : KState) : Prop :=
  ∀ u, ((s.thread u).state = .tUnused ∨ ∃ t, (s.pc t).life.blank = some u) → (s.thread u).kstack = none

namespace BareSlots

theorem start (init : Start s) : BareSlots s := by
  have blanks := Blanks.start init
  rintro u (empty | ⟨t,waits⟩)
  · exact blanks.bare u empty
  · exact (blanks.blank t u waits).1

theorem looked {o : Oracle} (gets : GetsStack s t u pc)
    (taken : step s (.run t o) = some s') : (s'.pc t).life.blank = none := by
  have goes (k : Pc) (quiet : k.life.blank = none) : ((allocStack s t u k).pc t).life.blank = none := by
    unfold allocStack
    split
    · simp [Pc.life,Life.blank]
    · simpa using quiet
  obtain ⟨_,_,code⟩ := step_run taken
  cases gets with
  | create place =>
    simp only [Kthreads.code,place,Option.some.injEq] at code
    rw [← code]
    exact goes _ rfl
  | fork place =>
    simp only [Kthreads.code,place,Option.some.injEq] at code
    rw [← code]
    exact goes _ rfl

theorem waits_before (thread : ThreadStep s a s')
    (waits : (s'.pc t).life.blank = some u) : (s.pc t).life.blank = some u ∨
      ∃ o p pc, a = .run t o ∧ Births s t p u pc ∧ unusedSlot s p = some u := by
  rcases step_placed thread t with same | quiet | arrives
  · rw [same] at waits
    exact .inl waits
  · have busy := pending_busy _ u (pending_of_blank waits)
    rw [quiet] at busy
    contradiction
  · generalize (s'.pc t).life = life at waits arrives
    cases arrives with
    | birth o p nt pc births found =>
      obtain rfl : nt = u := by cases births <;> exact Option.some.inj waits
      exact .inr ⟨o,p,pc,rfl,births,found⟩
    | stacked o nt pc gets => cases gets <;> contradiction
    | _ => contradiction

theorem step (bare : BareSlots s) (drained : Drained s)
    (taken : Kthreads.step s a = some s') : BareSlots s' := by
  have thread := step_thread s s' a taken
  have before (u t : Slot) (waits : (s'.pc t).life.blank = some u) : (s.thread u).kstack = none := by
    rcases waits_before thread waits with still | ⟨_,p,_,_,_,found⟩
    · exact bare u (.inr ⟨t,still⟩)
    · exact bare u (.inl (unusedSlot_spec s p u found).1)
  rintro u place
  cases step_change thread u with
  | keeps inherits =>
    rw [inherits.kstack]
    rcases place with empty | ⟨t,waits⟩
    · exact bare u (.inl (inherits.unused empty))
    · exact before u t waits
  | emptied empty => exact empty.kstack
  | sleeps o chan site on falls =>
    rcases place with empty | ⟨t,waits⟩
    · simp [sleepCommit] at empty
    · simpa [sleepCommit] using before u t waits
  | marked t o k place' own other =>
    have calm := Calm.marked s t u
    change ((markSiblings s t).thread u).kstack = none
    rw [calm.kstack]
    rcases place with empty | ⟨t,waits⟩
    · exact bare u (.inl (calm.unused empty))
    · exact before u t waits
  | born t o p pc births found =>
    have none := bare u (.inl (unusedSlot_spec s p u found).1)
    simpa [allocthread] using none
  | stacked t o pc page rest s' gets head eq =>
    have pending := pending_of_blank gets.waits
    have embryo := (drained.fresh t u pending).1
    rcases place with empty | ⟨v,waits⟩
    · rw [eq,embryo] at empty
      contradiction
    · -- only `t` waits for this stack, and it does not any more
      rcases waits_before thread waits with still | ⟨_,p,_,_,_,found⟩
      · have same : v = t := drained.pending v t u (pending_of_blank still) pending
        rw [same,looked gets taken] at waits
        contradiction
      · rw [(unusedSlot_spec s p u found).1] at embryo
        contradiction

end BareSlots

section Reap
variable (c : ProcIx)

theorem reap_panicked (m : KState) (j : Fin nthread)
    (calm : (reapThread m (c,j)).panicked = false) : ∃ page, reapThread m (c,j) = freeSlot m (c,j) page := by
  unfold reapThread at calm ⊢
  split at calm
  next lost => simp [lost] at calm
  next fine =>
    rw [if_neg fine]
    split at calm
    next => simp [KState.panic] at calm
    next page owned => exact ⟨page,rfl⟩

theorem reap_lost (l : List (Fin nthread)) (m : KState) (lost : m.panicked = true) :
    (l.foldl (fun m j => if (m.thread (c,j)).state = .tZombie then reapThread m (c,j) else m) m).panicked = true := by
  induction l generalizing m with
  | nil => exact lost
  | cons j l ih =>
    apply ih
    simp only [reapThread,lost,if_true,ite_self]

theorem reap_emptied (l : List (Fin nthread)) (m : KState) (i : Fin nthread)
    (calm : (l.foldl (fun m j => if (m.thread (c,j)).state = .tZombie then reapThread m (c,j) else m) m).panicked =
      false) (place : (m.thread (c,i)).state = .tUnused ∨ (m.thread (c,i)).state = .tZombie ∧ i ∈ l) :
    ((l.foldl (fun m j => if (m.thread (c,j)).state = .tZombie then reapThread m (c,j) else m) m).thread
      (c,i)).state = .tUnused := by
  induction l generalizing m with
  | nil => exact place.resolve_right (by simp)
  | cons j l ih =>
    rw [List.foldl_cons] at calm ⊢
    refine ih _ calm ?_
    split at calm
    next zombie =>
      rw [if_pos zombie]
      have unbroken : (reapThread m (c,j)).panicked = false := by
        by_contra lost
        simp [reap_lost c l _ (by simpa using lost)] at calm
      obtain ⟨page,freed⟩ := reap_panicked c m j unbroken
      rw [freed]
      by_cases here : i = j
      · subst j
        exact .inl (by simp [freeSlot])
      · rw [freeSlot_thread m (c,j) page (c,i) (by simpa using here)]
        refine place.imp_right (And.imp_right fun member => ?_)
        exact (List.mem_cons.mp member).resolve_left here
    next other =>
      rw [if_neg other]
      refine place.imp_right fun held => ⟨held.1,?_⟩
      refine (List.mem_cons.mp held.2).resolve_left ?_
      rintro rfl
      exact other held.1

/-- A loop of `wait` that has not panicked has emptied every slot that was not live. -/
theorem reapThreads_empty (s : KState) (calm : (reapThreads s c).panicked = false) (i : Fin nthread)
    (ended : ¬ Occupied s (c,i)) : ((reapThreads s c).thread (c,i)).state = .tUnused := by
  unfold reapThreads at calm ⊢
  refine reap_emptied c _ s i calm ?_
  by_cases empty : (s.thread (c,i)).state = .tUnused
  · exact .inl empty
  · refine .inr ⟨?_,List.mem_finRange i⟩
    by_contra live
    exact ended ⟨empty,live⟩

end Reap

structure Vacated (s : KState) : Prop where
  unused : ∀ p, (s.proc p).state = .unused → ∀ i, (s.thread (p,i)).state = .tUnused
  forks : ∀ u np, (s.pc u).life.forks = some np → ∀ i, (s.pc u).life.child ≠ some (np,i) →
    (s.thread (np,i)).state = .tUnused

namespace Vacated

theorem start (init : Start s) : Vacated s := by
  refine ⟨?_,?_⟩
  · intro p unused i
    rcases init.used p with ⟨used,_⟩ | ⟨_,vacant⟩
    · rw [unused] at used
      contradiction
    · exact (vacant i).state
  · intro u np forks
    rcases init.slot u with ready | vacant
    · rw [ready.pc] at forks
      contradiction
    · rw [vacant.pc] at forks
      contradiction

theorem forks_before {np : ProcIx} (vac : Vacated s)
    (thread : ThreadStep s a s') (forks : (s'.pc u).life.forks = some np) (i : Fin nthread)
    (other : (s'.pc u).life.child ≠ some (np,i)) : (s.thread (np,i)).state = .tUnused := by
  rcases step_placed thread u with same | quiet | arrives
  · rw [same] at forks other
    exact vac.forks u np forks i other
  · generalize (s'.pc u).life = life at forks quiet
    cases life <;> contradiction
  · generalize (s'.pc u).life = life at forks other arrives
    cases arrives with
    | birth o p nt pc births found =>
      cases births with
      | create nt place => contradiction
      | fork np nt place =>
        obtain rfl : p = np := (unusedSlot_spec s p nt found).2.symm.trans (Option.some.inj forks)
        exact vac.forks u p (by rw [place]; rfl) i (by rw [place]; simp [Pc.life,Life.child])
    | stacked o nt pc gets =>
      cases gets with
      | create place => contradiction
      | fork place => exact vac.forks u np (by rw [place]; exact forks) i (by rw [place]; exact other)
    | fork o np' unused =>
      obtain rfl : np' = np := Option.some.inj forks
      exact vac.unused np' unused i
    | copied o nt place => exact vac.forks u np (by rw [place]; exact forks) i (by rw [place]; exact other)
    | _ => contradiction

theorem given_up {forker : ProcIx → Int} (vac : Vacated s) (kin : Kindred s forker)
    (memory : StackLeft s a) (taken : KinStep s a s') (calm : s'.panicked = false) (p : ProcIx)
    (unused : (s'.proc p).state = .unused) :
    (s.proc p).state = .unused ∨ ∀ i, (s'.thread (p,i)).state = .tUnused := by
  have used (q : ProcIx) (v : Proc) (proc : s'.proc = update s.proc q v) (state : v.state ≠ .unused) :
      (s.proc p).state = .unused := by
    by_cases here : p = q
    · subst p
      rw [proc,update_self] at unused
      contradiction
    · simpa [proc,here] using unused
  cases taken with
  | frame same =>
    rw [kin.state_same same.state] at unused
    exact .inl unused
  | sleep | birth | createRun => exact .inl unused
  | stackless t o nt place empty =>
    exact absurd empty (memory (by rw [place]; simp [Pc.life,Life.pending]) (by rw [place]; rfl))
  | forkProc t o np on place unused => exact .inl (used np _ rfl (by simp))
  | forkDrop t o nt s' place proc thread =>
    by_cases here : p = nt.1
    · subst p
      refine .inr fun i => ?_
      by_cases same : (nt.1,i) = nt
      · simp [thread,same]
      · rw [thread,update_of_ne same]
        have life : (s.pc t).life.forks = some nt.1 ∧ (s.pc t).life.child = some nt := by
          rcases place with place | ⟨place,_⟩ <;> rw [place] <;> exact ⟨rfl,rfl⟩
        exact vac.forks t nt.1 life.1 i (by rw [life.2]; simpa using Ne.symm same)
    · exact .inl (by simpa [proc,here] using unused)
  | forkCopied t o nt on place =>
    have making := kin.forks t nt.1 (by rw [place]; rfl)
    exact .inl (used nt.1 _ rfl (by simp [making.used]))
  | forkRun t o nt on place => exact .inl (used nt.1 _ rfl (by simp))
  | exitFinal t o on place =>
    have buried := exitFinal_buried s t kin.live
    have other : p ≠ t.1 := by
      rintro rfl
      rw [buried.zombie] at unused
      contradiction
    exact .inl ((buried.state p other).symm.trans unused)
  | waitDone t o c found =>
    have emptied := reapThreads_empty c s
    have state := kin.state_same (KinFrame.reapThreads s c).state p
    generalize reapThreads s c = m at emptied state calm unused ⊢
    by_cases here : p = c
    · subst p
      have zombie := List.find?_some found
      simp only [Bool.and_eq_true,beq_iff_eq] at zombie
      refine .inr fun i => emptied calm i ?_
      intro live
      cases (kin.live (c,i) live).symm.trans zombie.2
    · have same : (m.proc p).state = .unused := by
        simpa [waitDone,here] using unused
      exact .inl (state.symm.trans same)

theorem born_elsewhere {forker : ProcIx → Int} (kin : Kindred s forker)
    (drained : Drained s) (born : Born s u a s') : (s'.proc u.1).state = .used ∧
      ∀ v, (s'.pc v).life.forks = some u.1 → (s'.pc v).life.child = some u := by
  cases born with
  | mk t o p pc on births found =>
    have own := (unusedSlot_spec s p u found).2
    have live := drained.live t on
    rw [own]
    refine ⟨?_,?_⟩
    · change (s.proc p).state = .used
      cases births with
      | create nt place => exact kin.live t live
      | fork np nt place => exact (kin.forks t p (by rw [place]; rfl)).used
    · intro v forks
      by_cases here : v = t
      · subst v
        simp only [KState.goto,update_self] at forks ⊢
        cases births with
        | create nt place => contradiction
        | fork np nt place => rfl
      · have before : (s.pc v).life.forks = some p := by
          simpa [allocthread,here] using forks
        cases births with
        | create nt place => exact absurd rfl (kin.outside drained t v t.1 on before)
        | fork np nt place => exact absurd (kin.single v t p before (by rw [place]; rfl)) here

theorem step {forker : ProcIx → Int} (vac : Vacated s) (kin : Kindred s forker)
    (drained : Drained s) (memory : StackLeft s a) (thread : ThreadStep s a s') (table : KinStep s a s')
    (calm : s'.panicked = false) : Vacated s' := by
  refine ⟨?_,?_⟩
  · intro p unused i
    rcases vac.given_up kin memory table calm p unused with before | empty
    · rcases step_empty thread drained (p,i) (vac.unused p before i) with still | born
      · exact still
      · rw [(born_elsewhere kin drained born).1] at unused
        contradiction
    · exact empty i
  · intro u np forks i other
    rcases step_empty thread drained (np,i) (vac.forks_before thread forks i other) with still | born
    · exact still
    · exact absurd ((born_elsewhere kin drained born).2 u forks) other

end Vacated

/-- A process slot that is not in use, or that a `fork` has taken and has not finished with. -/
def ProcFree (s : KState) (p : ProcIx) : Prop := (s.proc p).state = .unused ∨ ∃ u, (s.pc u).life.forks = some p

/-- A thread slot that is not in use, or that a creation has taken and has not finished with. -/
def SlotFree (s : KState) (w : Slot) : Prop := (s.thread w).state = .tUnused ∨ ∃ u, (s.pc u).life.pending = some w

/-- A page on the free list, or the stack in a slot that a creation has not finished with. -/
def PageFree (s : KState) (page : Page) : Prop :=
  page ∈ s.freelist ∨ ∃ u w, (s.pc u).life.pending = some w ∧ (s.thread w).kstack = some page

structure Available (s s' : KState) : Prop where
  proc : ∀ p, ProcFree s' p ↔ ProcFree s p
  slot : ∀ w, SlotFree s' w ↔ SlotFree s w
  page : ∀ page, PageFree s' page ↔ PageFree s page

structure Bystanders (s s' : KState) (t : Slot) : Prop where
  forks : ∀ u, u ≠ t → (s'.pc u).life.forks = (s.pc u).life.forks
  pending : ∀ u, u ≠ t → (s'.pc u).life.pending = (s.pc u).life.pending
  kstack : ∀ u w, u ≠ t → (s.pc u).life.pending = some w → (s'.thread w).kstack = (s.thread w).kstack

theorem Bystanders.available (apart : Bystanders s s' t)
    (proc : ∀ p, (s'.proc p).state = .unused ∨ (s'.pc t).life.forks = some p ↔
      (s.proc p).state = .unused ∨ (s.pc t).life.forks = some p)
    (slot : ∀ w, (s'.thread w).state = .tUnused ∨ (s'.pc t).life.pending = some w ↔
      (s.thread w).state = .tUnused ∨ (s.pc t).life.pending = some w)
    (page : ∀ page, (page ∈ s'.freelist ∨ ∃ w, (s'.pc t).life.pending = some w ∧ (s'.thread w).kstack = some page) ↔
      page ∈ s.freelist ∨ ∃ w, (s.pc t).life.pending = some w ∧ (s.thread w).kstack = some page) :
    Available s s' := by
  have split {α : Type} (f : Slot → Option α) (x : α) (m : Prop) :
      (m ∨ ∃ u, f u = some x) ↔ (m ∨ f t = some x) ∨ ∃ u, u ≠ t ∧ f u = some x := by
    constructor
    · rintro (held | ⟨u,found⟩)
      · exact .inl (.inl held)
      · by_cases here : u = t
        · exact .inl (.inr (here ▸ found))
        · exact .inr ⟨u,here,found⟩
    · rintro ((held | found) | ⟨u,_,found⟩)
      · exact .inl held
      · exact .inr ⟨t,found⟩
      · exact .inr ⟨u,found⟩
  refine ⟨?_,?_,?_⟩
  · intro p
    rw [ProcFree,ProcFree,split (fun u => (s'.pc u).life.forks),split (fun u => (s.pc u).life.forks),proc p]
    refine or_congr Iff.rfl (exists_congr fun u => and_congr_right fun other => ?_)
    rw [apart.forks u other]
  · intro w
    rw [SlotFree,SlotFree,split (fun u => (s'.pc u).life.pending),split (fun u => (s.pc u).life.pending),slot w]
    refine or_congr Iff.rfl (exists_congr fun u => and_congr_right fun other => ?_)
    rw [apart.pending u other]
  · intro q
    have others : (∃ u, u ≠ t ∧ ∃ w, (s'.pc u).life.pending = some w ∧ (s'.thread w).kstack = some q) ↔
        ∃ u, u ≠ t ∧ ∃ w, (s.pc u).life.pending = some w ∧ (s.thread w).kstack = some q := by
      refine exists_congr fun u => and_congr_right fun other => exists_congr fun w => ?_
      rw [apart.pending u other]
      refine and_congr_right fun waits => ?_
      rw [apart.kstack u w other waits]
    have divide (m : KState) : PageFree m q ↔
        (q ∈ m.freelist ∨ ∃ w, (m.pc t).life.pending = some w ∧ (m.thread w).kstack = some q) ∨
          ∃ u, u ≠ t ∧ ∃ w, (m.pc u).life.pending = some w ∧ (m.thread w).kstack = some q := by
      constructor
      · rintro (free | ⟨u,w,waits,owned⟩)
        · exact .inl (.inl free)
        · by_cases here : u = t
          · exact .inl (.inr ⟨w,here ▸ waits,owned⟩)
          · exact .inr ⟨u,here,w,waits,owned⟩
      · rintro ((free | ⟨w,waits,owned⟩) | ⟨u,_,w,waits,owned⟩)
        · exact .inl free
        · exact .inr ⟨t,w,waits,owned⟩
        · exact .inr ⟨u,w,waits,owned⟩
    rw [divide s',divide s,page q,others]

theorem Available.moved (pc : Pc) (pcs : s'.pc = update s.pc t pc)
    (same : (s'.proc,s'.thread,s'.freelist) = (s.proc,s.thread,s.freelist))
    (before : (s.pc t).life.forks = none ∧ (s.pc t).life.pending = none)
    (after : pc.life.forks = none ∧ pc.life.pending = none) : Available s s' := by
  simp only [Prod.mk.injEq] at same
  obtain ⟨proc,thread,freelist⟩ := same
  have apart : Bystanders s s' t := by
    refine ⟨?_,?_,fun _ w _ _ => by rw [thread]⟩
    · intro u other
      rw [pcs,update_of_ne other]
    · intro u other
      rw [pcs,update_of_ne other]
  refine apart.available ?_ ?_ ?_
  · intro p
    rw [proc,pcs,update_self,before.1,after.1]
  · intro w
    rw [thread,pcs,update_self,before.2,after.2]
  · intro page
    rw [freelist,pcs,update_self,before.2,after.2]
    simp

section Creation
variable {s : KState} {forker : ProcIx → Int} (drained : Drained s) (bare : BareSlots s)
include drained

/-- A slot that a creation sets up, or that is not in use, is in nobody else's hands. -/
theorem others_pending {w : Slot} (other : u ≠ t) (waits : (s.pc u).life.pending = some w)
    (mine : (s.thread nt).state = .tUnused ∨ (s.pc t).life.pending = some nt) : w ≠ nt := by
  rintro rfl
  rcases mine with empty | pending
  · have embryo := (drained.fresh u w waits).1
    rw [empty] at embryo
    contradiction
  · exact other (drained.pending u t w waits pending)

theorem child_idle (pending : (s.pc t).life.pending = some nt) :
    (s.pc nt).life.forks = none ∧ (s.pc nt).life.pending = none := by
  have idle := (drained.fresh t nt pending).2
  generalize (s.pc nt).life = life at idle
  cases life <;> first | contradiction | exact ⟨rfl,rfl⟩

theorem sets_up {first : Pc} {v : Thread} (pending : (s.pc t).life.pending = some nt)
    (pcs : s'.pc = update (update s.pc nt first) t pc)
    (quiet : first.life.forks = none ∧ first.life.pending = none)
    (thread : s'.thread = update s.thread nt v) : Bystanders s s' t := by
  have child := child_idle drained pending
  have place (u : Slot) (other : u ≠ t) : s'.pc u = if u = nt then first else s.pc u := by
    rw [pcs,update_of_ne other,update_apply]
  refine ⟨?_,?_,?_⟩
  · intro u other
    rw [place u other]
    split
    next here => rw [here,quiet.1,child.1]
    next => rfl
  · intro u other
    rw [place u other]
    split
    next here => rw [here,quiet.2,child.2]
    next => rfl
  · intro u w other waits
    rw [thread,update_of_ne (others_pending drained other waits (.inr pending))]

/-- After that, what was available is so: the slot is given back or still in the hands of `t`, and so is
its stack. -/
theorem settles (pc first : Pc) (v : Thread)
    (pending : (s.pc t).life.pending = some nt)
    (pcs : s'.pc = update (update s.pc nt first) t pc)
    (quiet : first.life.forks = none ∧ first.life.pending = none)
    (thread : s'.thread = update s.thread nt v)
    (proc : ∀ p, (s'.proc p).state = .unused ∨ pc.life.forks = some p ↔
      (s.proc p).state = .unused ∨ (s.pc t).life.forks = some p)
    (slot : v.state = .tUnused ∨ pc.life.pending = some nt) (only : ∀ w, pc.life.pending = some w → w = nt)
    (page : ∀ q, (q ∈ s'.freelist ∨ pc.life.pending = some nt ∧ v.kstack = some q) ↔
      q ∈ s.freelist ∨ (s.thread nt).kstack = some q) : Available s s' := by
  have own : s'.pc t = pc := by rw [pcs,update_self]
  refine (sets_up drained pending pcs quiet thread).available ?_ ?_ ?_
  · intro p
    rw [own]
    exact proc p
  · intro w
    rw [own,thread,pending]
    by_cases here : w = nt
    · subst w
      simpa using slot
    · have away : pc.life.pending ≠ some w := fun mine => here (only w mine)
      simp [here,Ne.symm here,away]
  · intro q
    rw [own,thread,pending]
    refine Iff.trans (or_congr Iff.rfl ?_) ((page q).trans (or_congr Iff.rfl ?_))
    · constructor
      · rintro ⟨w,mine,owned⟩
        obtain rfl := only w mine
        exact ⟨mine,by simpa using owned⟩
      · rintro ⟨mine,owned⟩
        exact ⟨nt,mine,by simpa using owned⟩
    · simp

include bare

theorem birth_available (empty : (s.thread nt).state = .tUnused)
    (before : (s.pc t).life.pending = none) (after : pc.life.pending = some nt)
    (forks : pc.life.forks = (s.pc t).life.forks) : Available s ((allocthread s nt).goto t pc) := by
  have own : ((allocthread s nt).goto t pc).pc t = pc := by simp
  have thread (w : Slot) : ((allocthread s nt).goto t pc).thread w = if w = nt
      then {s.thread nt with state := .tEmbryo, tid := s.nexttid, shouldDie := false} else s.thread w := by
    by_cases here : w = nt <;> simp [allocthread,here]
  have apart : Bystanders s ((allocthread s nt).goto t pc) t := by
    refine ⟨?_,?_,?_⟩
    · intro u other
      simp [allocthread,other]
    · intro u other
      simp [allocthread,other]
    · intro u w other waits
      rw [thread,if_neg (others_pending drained other waits (.inl empty))]
  refine apart.available ?_ ?_ ?_
  · intro p
    rw [own,forks]
    rfl
  · intro w
    rw [own,after,before,thread]
    by_cases here : w = nt
    · simp [here,empty]
    · simp [here,Ne.symm here]
  · intro page
    have none := bare nt (.inl empty)
    simp [after,before,none,allocthread]

theorem allocStack_available (blank : (s.pc t).life.blank = some nt)
    (after : pc.life.pending = some nt) (forks : pc.life.forks = (s.pc t).life.forks)
    (memory : s.freelist = [] → (s.pc t).life.forks = some nt.1) : Available s (allocStack s t nt pc) := by
  have pending := pending_of_blank blank
  have missing := bare nt (.inr ⟨t,blank⟩)
  have only (w : Slot) (mine : pc.life.pending = some w) : w = nt := Option.some.inj (mine.symm.trans after)
  unfold allocStack
  split
  next empty =>
    have mine := memory empty
    have idle := child_idle drained pending
    refine settles drained .retKilled (s.pc nt) _ pending ?_ idle rfl ?_ (.inl rfl) (fun w mine => by cases mine) ?_
    · simp
    · intro p
      have none : Pc.retKilled.life.forks = none := rfl
      by_cases here : p = nt.1
      · subst p
        simp [mine]
      · simp [mine,none,here,Ne.symm here]
    · intro q
      simp [missing,Pc.life,Life.pending]
  next page rest head =>
    refine settles drained pc .user {s.thread nt with kstack := some page} pending rfl ⟨rfl,rfl⟩ rfl ?_ (.inr after)
      only ?_
    · intro p
      rw [forks]
      by_cases here : p = nt.1
      · subst p
        simp
      · simp [here]
    · intro q
      simp only [after,missing,head,List.mem_cons]
      simp [or_comm,eq_comm]

omit bare in
theorem forkCopy_available (place : s.pc t = .forkCopy nt) (copied : Bool) :
    Available s (forkCopy s t nt copied) := by
  have pending : (s.pc t).life.pending = some nt := by rw [place]; rfl
  have idle := child_idle drained pending
  have mine : (s.pc t).life.forks = some nt.1 := by rw [place]; rfl
  have after : (Pc.forkRun nt).life.forks = some nt.1 := rfl
  have none : Pc.retKilled.life.forks = none := rfl
  unfold forkCopy
  split
  · refine settles drained (.forkRun nt) (s.pc nt) (s.thread nt) pending ?_ idle ?_ ?_ (.inr rfl) ?_ ?_
    · simp
    · simp
    · intro p
      rw [mine,after]
      by_cases here : p = nt.1
      · subst p
        simp
      · simp [here]
    · intro w own
      exact (Option.some.inj own).symm
    · intro q
      simp [Pc.life,Life.pending]
  · split
    next => exact ⟨fun _ => Iff.rfl,fun _ => Iff.rfl,fun _ => Iff.rfl⟩
    next page owned =>
      refine settles drained .retKilled .idle _ pending rfl ⟨rfl,rfl⟩ rfl ?_ (.inl rfl) (fun w own => by cases own) ?_
      · intro p
        by_cases here : p = nt.1
        · subst p
          simp [mine]
        · simp [mine,none,here,Ne.symm here]
      · intro q
        rw [owned]
        simp [or_comm,eq_comm]

omit drained bare in
theorem forkProc_available (place : s.pc t = .forkProc) : Available s (forkProc s t) := by
  unfold forkProc
  split
  next => exact .moved .retKilled rfl rfl (by rw [place]; exact ⟨rfl,rfl⟩) ⟨rfl,rfl⟩
  next np found =>
    have unused : (s.proc np).state = .unused := by simpa using List.find?_some found
    have before : (s.pc t).life.forks = none ∧ (s.pc t).life.pending = none := by rw [place]; exact ⟨rfl,rfl⟩
    have after : (Pc.forkAlloc np).life.forks = some np ∧ (Pc.forkAlloc np).life.pending = none := ⟨rfl,rfl⟩
    refine Bystanders.available (t := t) ⟨?_,?_,fun _ _ _ _ => rfl⟩ ?_ ?_ ?_
    · intro u other
      simp [other]
    · intro u other
      simp [other]
    · intro p
      by_cases here : p = np
      · subst p
        simp [unused,after.1]
      · simp [before.1,after.1,here,Ne.symm here]
    · intro w
      simp [before.2,after.2]
    · intro q
      simp [before.2,after.2]

end Creation

structure Creating (s : KState) (forker : ProcIx → Int) : Prop where
  ids : Ids s
  drained : Drained s
  kin : Kindred s forker
  bare : BareSlots s
  vacated : s.panicked = false → Vacated s

theorem creating_reached {s₀ : KState} (start : Start s₀) (rooted : Rooted s₀) (reached : Reaches Peaceful s₀ s) :
    ∃ forker, Creating s forker := by
  obtain ⟨forker,run⟩ := Family.follows reached
  have inv := run.invariant (fun f => Creating f.kernel f.forker) ⟨.start start,.start start,.start start rooted,
    .start start,fun _ => .start start⟩ ?_
  · exact ⟨forker,inv⟩
  · intro f a f' held peaceful taken
    obtain ⟨kernel,record⟩ := Family.step_kernel taken
    have thread := step_thread _ _ _ kernel
    have kin := step_kin _ _ _ kernel
    obtain ⟨ids,drained⟩ := drained_step ⟨held.ids,held.drained⟩ (held.kin.orderly peaceful) thread
    refine ⟨ids,drained,?_,held.bare.step held.drained kernel,?_⟩
    · rw [record]
      exact held.kin.step held.drained peaceful kin
    · have calm : f.kernel.panicked = false := by
        unfold Kthreads.step at kernel
        split at kernel
        · contradiction
        next calm => simpa using calm
      exact (held.vacated calm).step held.kin held.drained peaceful.2.2.2.2 thread kin

/-- The section is one of a call of `kthread_create` or `fork`, from the entry on and without the last one,
in which the call succeeds. -/
def Creates (s : KState) (t : Slot) (o : Oracle) : Prop :=
  match s.pc t with
  | .syscall =>
    match o.call with
    | .kthreadCreate _ _ | .fork => True
    | _ => False
  | .createAlloc | .createStack _ | .forkProc | .forkAlloc _ | .forkStack _ | .forkCopy _ => True
  | _ => False

inductive CreationStep (s : KState) (t : Slot) : KState → Prop
  | moved (pc : Pc) (before : (s.pc t).life.forks = none ∧ (s.pc t).life.pending = none)
      (after : pc.life.forks = none ∧ pc.life.pending = none) : CreationStep s t (s.goto t pc)
  | birth (p : ProcIx) (nt : Slot) (pc : Pc) (births : Births s t p nt pc) (found : unusedSlot s p = some nt) :
      CreationStep s t ((allocthread s nt).goto t pc)
  | stack (nt : Slot) (pc : Pc) (gets : GetsStack s t nt pc)
      (memory : s.freelist = [] → (s.pc t).life.forks = some nt.1) : CreationStep s t (allocStack s t nt pc)
  | proc (place : s.pc t = .forkProc) : CreationStep s t (forkProc s t)
  | copy (nt : Slot) (copied : Bool) (place : s.pc t = .forkCopy nt) : CreationStep s t (forkCopy s t nt copied)

theorem Vacated.slot_found (vac : Vacated s) {np : ProcIx} (place : s.pc t = .forkAlloc np) :
    ∃ nt, unusedSlot s np = some nt := by
  have empty := vac.forks t np (by rw [place]; rfl) 0 (by rw [place]; simp [Pc.life,Life.child])
  unfold unusedSlot
  cases found : (List.finRange nthread).find? fun i => (s.thread (np,i)).state == .tUnused with
  | some i => exact ⟨(np,i),rfl⟩
  | none =>
    have occupied := List.find?_eq_none.mp found 0 (List.mem_finRange 0)
    simp [empty] at occupied

theorem creation_step {o : Oracle} (vac : Vacated s) (memory : StackLeft s (.run t o))
    (creates : Creates s t o) (ran : code s t o = some s') : CreationStep s t s' := by
  unfold Creates at creates
  unfold code at ran
  cases place : s.pc t <;> simp only [place] at creates ran
  case syscall =>
    obtain rfl := Option.some.inj ran
    refine .moved _ (by rw [place]; exact ⟨rfl,rfl⟩) ?_
    cases call : o.call <;> simp only [call] at creates
    case kthreadCreate startFunc stack =>
      by_cases null : startFunc = 0 ∨ stack = 0
      · rw [Syscall.entry,if_pos null]
        exact ⟨rfl,rfl⟩
      · rw [Syscall.entry,if_neg null]
        exact ⟨rfl,rfl⟩
    case fork => exact ⟨rfl,rfl⟩
  case createAlloc =>
    obtain ⟨_,rfl⟩ := guarded_eq_some.mp ran
    unfold kthreadCreate
    split
    next => exact .moved .retKilled (by rw [place]; exact ⟨rfl,rfl⟩) ⟨rfl,rfl⟩
    next nt found => exact .birth t.1 nt _ (.create nt place) found
  case createStack nt =>
    obtain rfl := Option.some.inj ran
    refine .stack nt _ (.create place) fun empty => ?_
    exact absurd empty (memory (by rw [place]; simp [Pc.life,Life.pending]) (by rw [place]; rfl))
  case forkProc =>
    obtain ⟨_,rfl⟩ := guarded_eq_some.mp ran
    exact .proc place
  case forkAlloc np =>
    obtain ⟨_,rfl⟩ := guarded_eq_some.mp ran
    obtain ⟨nt,found⟩ := vac.slot_found place
    simp only [forkAlloc,found]
    exact .birth np nt _ (.fork np nt place) found
  case forkStack nt =>
    obtain rfl := Option.some.inj ran
    exact .stack nt _ (.fork place) fun _ => by rw [place]; rfl
  case forkCopy nt =>
    obtain rfl := Option.some.inj ran
    exact .copy nt o.copied place

namespace CreationStep

theorem available (drained : Drained s) (bare : BareSlots s)
    (taken : CreationStep s t s') : Available s s' := by
  cases taken with
  | moved pc before after => exact .moved pc rfl rfl before after
  | birth p nt pc births found =>
    have empty := (unusedSlot_spec s p nt found).1
    cases births with
    | create nt place => exact birth_available drained bare empty (by rw [place]; rfl) rfl (by rw [place]; rfl)
    | fork np nt place =>
      have own := (unusedSlot_spec s p nt found).2
      refine birth_available drained bare empty (by rw [place]; rfl) rfl ?_
      rw [place]
      simp [Pc.life,Life.forks,own]
  | stack nt pc gets memory =>
    cases gets with
    | create place | fork place =>
      exact allocStack_available drained bare (by rw [place]; rfl) rfl (by rw [place]; rfl) memory
  | proc place => exact forkProc_available place
  | copy nt copied place => exact forkCopy_available drained place copied

theorem spares (taken : CreationStep s t s') :
    (∀ w, ¬ SlotFree s w → s'.thread w = s.thread w) ∧
    ∀ p, ¬ ProcFree s p → s'.proc p = {s.proc p with numOfThread := (s'.proc p).numOfThread} := by
  have writes (nt : Slot) (v : Thread) (free : SlotFree s nt) (w : Slot) (kept : ¬ SlotFree s w) :
      update s.thread nt v w = s.thread w := by
    refine update_of_ne ?_ _ _
    rintro rfl
    exact kept free
  have sets (np : ProcIx) (v : Proc) (free : ProcFree s np) (p : ProcIx) (kept : ¬ ProcFree s p) :
      update s.proc np v p = {s.proc p with numOfThread := (update s.proc np v p).numOfThread} := by
    rw [update_of_ne]
    rintro rfl
    exact kept free
  cases taken with
  | moved pc before after => exact ⟨fun _ _ => rfl,fun _ _ => rfl⟩
  | birth p nt pc births found =>
    have empty := (unusedSlot_spec s p nt found).1
    exact ⟨writes nt _ (.inl empty),fun _ _ => rfl⟩
  | stack nt pc gets memory =>
    have pending : SlotFree s nt := .inr ⟨t,by cases gets with | create place | fork place => rw [place]; rfl⟩
    unfold allocStack
    split
    next empty =>
      exact ⟨writes nt _ pending,sets nt.1 _ (.inr ⟨t,memory empty⟩)⟩
    next page rest head =>
      refine ⟨writes nt _ pending,?_⟩
      intro p _
      by_cases here : p = nt.1
      · subst p
        simp
      · simp [here]
  | proc place =>
    unfold forkProc
    split
    next => exact ⟨fun _ _ => rfl,fun _ _ => rfl⟩
    next np found =>
      exact ⟨fun _ _ => rfl,sets np _ (.inl (by simpa using List.find?_some found))⟩
  | copy nt copied place =>
    have taken : ProcFree s nt.1 := .inr ⟨t,by rw [place]; rfl⟩
    have pending : SlotFree s nt := .inr ⟨t,by rw [place]; rfl⟩
    unfold forkCopy
    split
    · exact ⟨fun _ _ => rfl,sets nt.1 _ taken⟩
    · split
      next => exact ⟨fun _ _ => rfl,fun _ _ => rfl⟩
      next page owned => exact ⟨writes nt _ pending,sets nt.1 _ taken⟩

theorem fails (vac : Vacated s) (taken : CreationStep s t s') (back : s'.pc t = .retKilled) :
    ((s.pc t).life.forks = none → (s'.proc,s'.thread,s'.freelist) = (s.proc,s.thread,s.freelist)) ∧
    ∀ np, (s.pc t).life.forks = some np → (s'.proc np).state = .unused ∧ ∀ i, (s'.thread (np,i)).state = .tUnused := by
  -- the process and the slot that were taken are reset; its other slots were empty all along
  have dropped (nt : Slot) (child : (s.pc t).life.child = some nt) (forks : (s.pc t).life.forks = some nt.1)
      (v : Thread) (w : Proc) (slot : v.state = .tUnused) (proc : w.state = .unused)
      (thread : s'.thread = update s.thread nt v) (procs : s'.proc = update s.proc nt.1 w)
      (np : ProcIx) (mine : (s.pc t).life.forks = some np) :
      (s'.proc np).state = .unused ∧ ∀ i, (s'.thread (np,i)).state = .tUnused := by
    obtain rfl := Option.some.inj (mine.symm.trans forks)
    refine ⟨by rw [procs,update_self]; exact proc,fun i => ?_⟩
    rw [thread]
    by_cases here : (nt.1,i) = nt
    · rw [here,update_self]
      exact slot
    · rw [update_of_ne here]
      refine vac.forks t nt.1 mine i ?_
      rw [child]
      exact fun same => here (Option.some.inj same).symm
  cases taken with
  | moved pc before after => exact ⟨fun _ => rfl,fun np forks => by rw [before.1] at forks; contradiction⟩
  | birth p nt pc births found =>
    simp only [KState.goto,update_self] at back
    cases births <;> contradiction
  | stack nt pc gets memory =>
    unfold allocStack at back dropped ⊢
    split at back
    next empty =>
      simp only [empty] at dropped ⊢
      have forks := memory empty
      have child : (s.pc t).life.child = some nt := by
        cases gets with
        | create place =>
          rw [place] at forks
          contradiction
        | fork place => rw [place]; rfl
      refine ⟨fun none => ?_,dropped nt child forks _ _ rfl rfl rfl rfl⟩
      cases none.symm.trans forks
    next page rest head =>
      simp only [KState.goto,update_self] at back
      cases gets <;> contradiction
  | proc place =>
    have none : (s.pc t).life.forks = none := by rw [place]; rfl
    refine ⟨fun _ => ?_,fun np forks => by cases none.symm.trans forks⟩
    unfold forkProc at back ⊢
    split at back
    next => simp
    next np found => simp at back
  | copy nt copied place =>
    have child : (s.pc t).life.child = some nt := by rw [place]; rfl
    have forks : (s.pc t).life.forks = some nt.1 := by rw [place]; rfl
    refine ⟨fun none => (by cases none.symm.trans forks),?_⟩
    unfold forkCopy at back dropped ⊢
    split at back
    · simp at back
    next short =>
      simp only [short] at dropped ⊢
      split at back
      next => simp [KState.panic,place] at back
      next page owned =>
        simp only [owned] at dropped ⊢
        exact dropped nt child forks _ _ rfl rfl rfl rfl

end CreationStep

/-- `kthread_create` and `fork` are atomic. Each of their sections but the last leaves the processes, the
threads and the pages that are available as they were, and the others too. When `kthread_create` returns -1
the tables are unchanged and its process is in use, so that `allocproc` does not give it away; when `fork`
returns -1 the process that it had taken and its slots are free again. -/
theorem creation_atomic {s₀ s s' : KState} (start : Start s₀) (rooted : Rooted s₀)
    (reached : Reaches Peaceful s₀ s) (t : Slot) (o : Oracle) (peaceful : Peaceful s (.run t o))
    (taken : step s (.run t o) = some s') (creates : Creates s t o) :
    ((∀ p, ProcFree s' p ↔ ProcFree s p) ∧ (∀ w, SlotFree s' w ↔ SlotFree s w) ∧
      ∀ page, PageFree s' page ↔ PageFree s page) ∧
    ((∀ w, ¬ SlotFree s w → s'.thread w = s.thread w) ∧
      ∀ p, ¬ ProcFree s p → s'.proc p = {s.proc p with numOfThread := (s'.proc p).numOfThread}) ∧
    (s'.proc t.1).state = .used ∧ (∀ u, (forkProc s' u).pc u ≠ .forkAlloc t.1) ∧
    (s'.pc t = .retKilled →
      ((s.pc t).life.forks = none → (s'.proc,s'.thread,s'.freelist) = (s.proc,s.thread,s.freelist)) ∧
      ∀ np, (s.pc t).life.forks = some np →
        (s'.proc np).state = .unused ∧ ∀ i, (s'.thread (np,i)).state = .tUnused) := by
  obtain ⟨forker,held⟩ := creating_reached start rooted reached
  obtain ⟨calm,on,ran⟩ := step_run taken
  have vac := held.vacated calm
  have creation := creation_step vac peaceful.2.2.2.2 creates ran
  have available := creation.available held.drained held.bare
  have running := held.kin.live t (held.drained.live t on)
  have used : (s'.proc t.1).state = .used := by
    rw [creation.spares.2 t.1]
    · exact running
    · rintro (unused | ⟨u,forks⟩)
      · cases running.symm.trans unused
      · exact held.kin.outside held.drained t u t.1 on forks rfl
  refine ⟨⟨available.proc,available.slot,available.page⟩,creation.spares,used,?_,creation.fails vac⟩
  intro u given
  unfold forkProc at given
  split at given
  next => simp at given
  next np found =>
    simp only [KState.goto,update_self,Pc.forkAlloc.injEq] at given
    subst np
    have unused := List.find?_some found
    simp [used] at unused

def forkUnfinished : List Action := [call (1,0) .fork,List.replicate 3 (go (1,0))].flatten

theorem fork_gives_back : ∃ s s', Reaches Peaceful (session [(0,0),(1,0)] 0 0) s ∧
    step s (.run (1,0) {copied := false}) = some s' ∧ (s.proc 2).state = .used ∧ (s'.proc 2).state = .unused ∧
    (∀ w, SlotFree s' w ↔ SlotFree s w) ∧ ∀ page, PageFree s' page ↔ PageFree s page := by
  obtain ⟨s,s',reached,peaceful,taken,place,used,back⟩ := Interleave.play_shows_step step Peaceful
    (session [(0,0),(1,0)] 0 0) forkUnfinished (.run (1,0) {copied := false})
    (fun s s' => s.pc (1,0) = .forkCopy (2,0) ∧ (s.proc 2).state = .used ∧ s'.pc (1,0) = .retKilled)
    (by decide +kernel)
  have creates : Creates s (1,0) {copied := false} := by simp [Creates,place]
  have atomic := creation_atomic (session_start [(0,0),(1,0)] 0 0 (by decide) (by decide))
    (session_rooted [(0,0),(1,0)] 0 0 ⟨(0,0),by simp,rfl⟩) reached (1,0) _ peaceful taken creates
  have freed := (atomic.2.2.2.2 back).2 2 (by rw [place]; rfl)
  exact ⟨s,s',reached,taken,used,freed.1,atomic.1.2.1,atomic.1.2.2⟩

def createStarved : List Action :=
  [List.replicate 3 .takePage,call (1,0) (.kthreadCreate 1 1),List.replicate 2 (go (1,0)),call (0,0) .fork].flatten

/-- `kthread_create` returns -1 to a thread whose process is no longer in use, and the next `fork` of another
process takes that process for its child. -/
theorem kthread_create_frees_process : ∃ s s', Reaches (fun _ _ => True) (session [(0,0),(1,0)] 0 0) s ∧
    s.pc (1,0) = .retKilled ∧ (s.thread (1,0)).state = .tRunning ∧ (s.proc 1).state = .unused ∧
    s.pc (0,0) = .forkProc ∧ step s (go (0,0)) = some s' ∧ s'.pc (0,0) = .forkAlloc 1 ∧
    (s'.thread (1,0)).state = .tRunning := by
  obtain ⟨s,s',reached,_,taken,back,runs,unused,forks,taker,still⟩ := Interleave.play_shows_step step (fun _ _ => True)
    (session [(0,0),(1,0)] 0 0) createStarved (go (0,0))
    (fun s s' => s.pc (1,0) = .retKilled ∧ (s.thread (1,0)).state = .tRunning ∧ (s.proc 1).state = .unused ∧
      s.pc (0,0) = .forkProc ∧ s'.pc (0,0) = .forkAlloc 1 ∧ (s'.thread (1,0)).state = .tRunning)
    (by decide +kernel)
  exact ⟨s,s',reached,back,runs,unused,forks,taken,taker,still⟩

end Kthreads
