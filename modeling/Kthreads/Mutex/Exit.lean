import Kthreads.Mutex.Entries
import Kthreads.Process.Failure
import Kthreads.Thread.Places

/-! What `exit` does with the mutexes of its process. Its loop over the table goes through
`kthread_mutex_dealloc`, which refuses a mutex that is held, and which also accepts one that a thread of
another process is about to lock. Apart from these two cases a process that has become a zombie owns no
mutex, and every entry that is still initialised belongs to another process. -/
open Function (update update_of_ne update_self)

namespace Kthreads
variable {s s' : KState} {t : Slot} {a : Action}

abbrev MidRoom (s : KState) : Action → Prop := onRun fun t _ => ∀ i, s.pc t = .allocInit i → s.nextmid < 2^31-1

def exitTarget (s : KState) (t : Slot) : Option MutexIx :=
  match s.pc t with
  | .deallocCall id (.exit _) => findMutex s id
  | _ => none

abbrev ExitsUnheld (s : KState) : Action → Prop := onRun fun t _ => ∀ i ∈ exitTarget s t, (s.mutex i).state ≠ .closed

abbrev ExitsClean (s : KState) (a : Action) : Prop := Peaceful s a ∧ MidRoom s a ∧ DeallocApart s a ∧ ExitsUnheld s a

instance (s : KState) (a : Action) : Decidable (ExitsClean s a) :=
  @instDecidableAnd (Peaceful s a) _ inferInstance inferInstance

/-- An entry is initialised exactly if it has an owner. `numOfWaiting` is never counted. -/
structure Mutex.Owned (m : Mutex) : Prop where
  waiting : m.numOfWaiting = 0
  free : m.state = .uninitialized → m.pidHolder = 0
  taken : m.state ≠ .uninitialized → 0 < m.pidHolder

structure Tenure (s : KState) : Prop extends Numbered s where
  owned : ∀ i, (s.mutex i).Owned
  tabled : Tabled s
  locking : ∀ t i, (s.pc t).role.locks = some i → (s.mutex i).state ≠ .uninitialized
  deallocating : ∀ t i id, (s.pc t).role = .deallocHold i id → ∀ u, (s.pc u).role.locks ≠ some i

namespace Tenure

theorem start (init : Start s) (owned : ∀ i, (s.mutex i).Owned) : Tenure s := by
  have outside (t : Slot) : (s.pc t).role = .none := by
    rcases init.slot t with ready | vacant
    · rw [ready.pc]; rfl
    · rw [vacant.pc]; rfl
  refine ⟨.start init,owned,.start init,?_,?_⟩
  · intro t i locks
    rw [outside] at locks
    contradiction
  · intro t i id holds
    rw [outside] at holds
    contradiction

theorem found (inv : Tenure s) (i : MutexIx) (owned : 0 < (s.mutex i).pidHolder) :
    findMutex s (s.mutex i).mid = some i := by
  refine (findMutex_iff inv.mids _ ?_ i).mpr rfl
  intro zero
  have none := (inv.owned i).free ((inv.mid_zero i).mp zero)
  omega

section Step
variable {s s' : KState} {a : Action} (inv : Tenure s) (taken : MutexStep s a s')
include inv taken

theorem nextmid_le (room : MidRoom s a) : s.nextmid ≤ s'.nextmid := by
  rcases step_nextmid taken with same | ⟨t,o,i,rfl,place,next⟩
  · exact same.ge
  · have few : s.nextmid < 2^31-1 := room i place
    have positive := inv.nextmid.1
    rw [next,next32_eq _ (by omega) few]
    omega

theorem owned_step (pids : ∀ t o, a = .run t o → 0 < (s.proc t.1).pid) (i : MutexIx) : (s'.mutex i).Owned := by
  have before := inv.owned i
  have wrote := step_entry taken i
  generalize s'.mutex i = m at wrote
  generalize s'.nextmid = n at wrote
  cases wrote with
  | keeps face =>
    obtain ⟨_,waiting,state,_,holder⟩ := by simpa only [Mutex.face,Prod.mk.injEq] using face
    exact ⟨waiting.trans before.waiting,by rw [state,holder]; exact before.free,
      by rw [state,holder]; exact before.taken⟩
  | lock t o id place free face =>
    obtain ⟨_,waiting,state,_,holder⟩ := by simpa only [Mutex.face,Prod.mk.injEq] using face
    have ready := inv.locking t i (by rw [place]; rfl)
    exact ⟨waiting.trans before.waiting,by simp [state],by rw [holder]; exact fun _ => before.taken ready⟩
  | unlock t o id place closed face =>
    obtain ⟨_,waiting,state,_,holder⟩ := by simpa only [Mutex.face,Prod.mk.injEq] using face
    have ready : (s.mutex i).state ≠ .uninitialized := by simp [closed]
    exact ⟨waiting.trans before.waiting,by simp [state],by rw [holder]; exact fun _ => before.taken ready⟩
  | alloc t o place face =>
    obtain ⟨_,waiting,state,_,holder⟩ := by simpa only [Mutex.face,Prod.mk.injEq] using face
    exact ⟨waiting,by simp [state],by rw [holder]; exact fun _ => pids t o rfl⟩
  | dealloc t o id k place face =>
    obtain ⟨_,waiting,state,_,holder⟩ := by simpa only [Mutex.face,Prod.mk.injEq] using face
    exact ⟨waiting,fun _ => holder,fun other => absurd state other⟩

theorem named_step (room : MidRoom s a) (i : MutexIx) : (s'.mutex i).Numbered s'.nextmid := by
  have grows := inv.nextmid_le taken room
  have before := inv.named i
  have wrote := step_entry taken i
  generalize s'.mutex i = m at wrote
  generalize s'.nextmid = n at wrote grows
  cases wrote with
  | keeps face =>
    obtain ⟨mid,_,state,_,_⟩ := by simpa only [Mutex.face,Prod.mk.injEq] using face
    rw [Mutex.Numbered,mid,state]
    exact before.imp id fun used => ⟨used.1,used.2.1,by omega⟩
  | lock t o id place free face =>
    obtain ⟨mid,_,state,_,_⟩ := by simpa only [Mutex.face,Prod.mk.injEq] using face
    obtain ⟨_,positive,below⟩ := before.resolve_left fun raw => inv.locking t i (by rw [place]; rfl) raw.1
    exact .inr ⟨by simp [state],by omega,by omega⟩
  | unlock t o id place closed face =>
    obtain ⟨mid,_,state,_,_⟩ := by simpa only [Mutex.face,Prod.mk.injEq] using face
    obtain ⟨_,positive,below⟩ := before.resolve_left fun raw => by simp [closed] at raw
    exact .inr ⟨by simp [state],by omega,by omega⟩
  | alloc t o place face =>
    obtain ⟨mid,_,state,_,_⟩ := by simpa only [Mutex.face,Prod.mk.injEq] using face
    have few : s.nextmid < 2^31-1 := room i place
    have positive := inv.nextmid.1
    rw [next32_eq _ (by omega) few]
    exact .inr ⟨by simp [state],by omega,by omega⟩
  | dealloc t o id k place face =>
    obtain ⟨mid,_,state,_,_⟩ := by simpa only [Mutex.face,Prod.mk.injEq] using face
    exact .inl ⟨state,mid⟩

theorem mids_step (i : MutexIx) : (s'.mutex i).mid = (s.mutex i).mid ∨ (s'.mutex i).mid = 0 ∨
    (s'.mutex i).mid = s.nextmid ∧ ∀ j, (s'.mutex j).mid = s.nextmid → i = j := by
  refine (step_mid taken i).imp_right (Or.imp_right ?_)
  rintro ⟨new,t,o,acts,place⟩
  refine ⟨new,?_⟩
  intro j same
  have belowJ := inv.below j
  have positive := inv.nextmid.1
  rcases step_mid taken j with old | zero | ⟨_,u,o',actJ,placeJ⟩
  · omega
  · omega
  · rw [acts] at actJ
    cases actJ
    rw [place] at placeJ
    exact Pc.allocInit.inj placeJ

theorem locking_step (t : Slot) (i : MutexIx) (locks : (s'.pc t).role.locks = some i) :
    (s'.mutex i).state ≠ .uninitialized := by
  intro raw
  rcases (step_shifts taken).locks t i locks with before | ⟨free,ready,o,rfl⟩
  · rcases step_uninitialized taken i raw with old | ⟨u,o,id,k,rfl,place⟩
    · exact inv.locking t i before old
    · exact inv.deallocating u i id (by rw [place]; rfl) t before
  · rcases step_uninitialized taken i raw with old | ⟨u,o',id,k,_,place⟩
    · exact ready old
    · have held := inv.tabled u (by rw [place]; rfl)
      rw [free] at held
      contradiction

theorem deallocating_step (apart : DeallocApart s a) (t : Slot) (i : MutexIx) (id : Int)
    (inside : (s'.pc t).role = .deallocHold i id) (u : Slot) : (s'.pc u).role.locks ≠ some i := by
  intro locks
  have other : u ≠ t := by
    rintro rfl
    rw [inside] at locks
    contradiction
  rcases (step_shifts taken).deallocs t i id inside with holds | ⟨⟨o,rfl⟩,target⟩
  · rcases (step_shifts taken).locks u i locks with before | ⟨free,_⟩
    · exact inv.deallocating t i id holds u before
    · have held := inv.tabled t (by rw [holds]; rfl)
      rw [free] at held
      contradiction
  · rcases (step_shifts taken).locks u i locks with before | ⟨_,_,o',acts⟩
    · exact apart i (by simp [target]) u before
    · cases acts
      exact other rfl

theorem step (room : MidRoom s a) (apart : DeallocApart s a) (pids : ∀ t o, a = .run t o → 0 < (s.proc t.1).pid) :
    Tenure s' where
  owned := inv.owned_step taken pids
  toNumbered := by
    refine inv.toNumbered.step (inv.nextmid_le taken room) ?_ (inv.named_step taken room) (inv.mids_step taken)
    have bound := inv.nextmid
    rcases step_nextmid taken with same | ⟨t,o,i,rfl,place,next⟩
    · omega
    · have few : s.nextmid < 2^31-1 := room i place
      rw [next,next32_eq _ (by omega) few]
      omega
  tabled := inv.tabled.step (step_shifts taken)
  locking := inv.locking_step taken
  deallocating := inv.deallocating_step taken apart

end Step
end Tenure

def Pc.sweeps : Pc → Option Nat
  | .exitMutexes j | .deallocCall _ (.exit j) | .deallocHold _ _ (.exit j) => some j
  | _ => none

inductive Sweep (s : KState) (t : Slot) (s' : KState) : Pc → Prop
  | enters : Sweep s t s' (.exitMutexes 0)
  | other (j : MutexIx) (place : s.pc t = .exitMutexes j.val)
      (other : (s.mutex j).pidHolder ≠ (s.proc t.1).pid) : Sweep s t s' (.exitMutexes (j.val+1))
  | own (j : MutexIx) (place : s.pc t = .exitMutexes j.val) (mutex : s'.mutex = s.mutex) :
      Sweep s t s' (.deallocCall (s.mutex j).mid (.exit j.val))
  | done (j : Nat) (past : maxMutexes ≤ j) (place : s.pc t = .exitMutexes j) : Sweep s t s' (.fs .exit)
  | refused (id : Int) (j : Nat) (place : s.pc t = .deallocCall id (.exit j))
      (refused : ∀ i, findMutex s id = some i → (s.mutex i).state = .closed ∨ (s.mutex i).numOfWaiting ≠ 0) :
      Sweep s t s' (.exitMutexes (j+1))
  | found (i : MutexIx) (id : Int) (j : Nat) (place : s.pc t = .deallocCall id (.exit j))
      (found : findMutex s id = some i) (mutex : s'.mutex = s.mutex) : Sweep s t s' (.deallocHold i id (.exit j))
  | reset (i : MutexIx) (id : Int) (j : Nat) (place : s.pc t = .deallocHold i id (.exit j))
      (cleared : (s'.mutex i).pidHolder = 0) : Sweep s t s' (.exitMutexes (j+1))

def Unswept (s : KState) (t : Slot) (s' : KState) : Prop :=
  (s.pc t).life = .tail ∧ (s.pc t).sweeps = none ∧ (s'.pc t).sweeps = none

theorem FileSection.unswept (sub : FileSection s t s') :
    (s.pc t).sweeps = none ∧ (s'.pc t).sweeps = none := by
  cases sub with
  | stays k place | wakes k place => exact ⟨by rw [place]; rfl,by simp only [wakeup1,wakeAll,place]; rfl⟩
  | goes place walks =>
    rw [place]
    cases walks with
    | returns k => cases k <;> simp [FsRet.next,Pc.sweeps]
    | _ => simp [Pc.sweeps]
  | sleeps place sleeps =>
    rw [place]
    cases sleeps <;> simp [sleepEnter,Pc.sweeps]

/-- A section of `kthread_mutex_dealloc`, as called by `exit`. -/
theorem dealloc_sweep {o : Oracle} {id : Int} {j : Nat} (taken : code s t o = some s')
    (place : s.pc t = .deallocCall id (.exit j) ∨ ∃ i, s.pc t = .deallocHold i id (.exit j)) :
    Sweep s t s' (s'.pc t) := by
  have sweep (pc : Pc) (moved : s'.pc t = pc) (sweep : Sweep s t s' pc) : Sweep s t s' (s'.pc t) := moved ▸ sweep
  rcases place with place | ⟨i,place⟩
  · simp only [code,place,guarded_eq_some] at taken
    replace taken := taken.2
    unfold kthreadMutexDealloc at taken
    split at taken
    next missing =>
      refine sweep (.exitMutexes (j+1)) (by simp [← taken,deallocReturn]) (.refused id j place ?_)
      intro i found
      rw [missing] at found
      contradiction
    next i found =>
      split at taken
      next bad =>
        refine sweep (.exitMutexes (j+1)) (by simp [← taken,deallocReturn]) (.refused id j place ?_)
        intro i' found'
        rw [found] at found'
        cases found'
        exact bad
      · exact sweep _ (by simp [← taken]) (.found i id j place found (by rw [← taken]; rfl))
  · simp only [code,place,guarded_eq_some] at taken
    refine sweep (.exitMutexes (j+1)) (by simp [← taken.2,deallocBody,deallocReturn]) (.reset i id j place ?_)
    simp [← taken.2,deallocBody,deallocReturn]

/-- The section of a thread that is past the draining loop of `exit`. -/
theorem code_sweep (s s' : KState) (t : Slot) (o : Oracle) (calm : s.panicked = false) (taken : code s t o = some s')
    (before : (s.pc t).life = .tail) (after : (s'.pc t).life = .tail) :
    s'.pc t = s.pc t ∨ Unswept s t s' ∨ Sweep s t s' (s'.pc t) := by
  have sweep (pc : Pc) (moved : s'.pc t = pc) (sweep : Sweep s t s' pc) :
      s'.pc t = s.pc t ∨ Unswept s t s' ∨ Sweep s t s' (s'.pc t) := .inr (.inr (moved ▸ sweep))
  have tail (c : Pc) (place : s.pc t = c) : c.life = .tail := place ▸ before
  cases code_sections calm taken with
  | panics => exact .inl rfl
  | walk place walks =>
    have life := tail _ place
    cases walks with
    | owned j own => exact sweep _ (by simp) (.own j place rfl)
    | skipped j other => exact sweep _ (by simp) (.other j place other)
    | swept j past => exact sweep _ (by simp) (.done j past place)
    | logWoken | lockWoken | diskWoken | otherWoken =>
      exact .inr (.inl ⟨before,by rw [place]; rfl,by simp [Pc.sweeps]⟩)
    | _ => contradiction
  | exitFinal =>
    obtain ⟨proc,thread,eq⟩ := exitFinal_rest s t
    simp [eq,Pc.life] at after
  | sleep chan site falls =>
    cases falls with
    | hold chan site place => exact .inr (.inl ⟨before,by rw [place]; rfl,by simp [sleepCommit,Pc.sweeps]⟩)
    | join tid u place | wait place => exact absurd (tail _ place) (by simp [Pc.life])
  | mutex sub =>
    cases sub with
    | goes place walks =>
      have life := tail _ place
      cases walks with
      | deallocRefused id k | deallocFound i id k =>
        cases k with
        | sys => contradiction
        | exit j => exact .inr (.inr (dealloc_sweep taken (.inl place)))
      | deallocDone i id k =>
        cases k with
        | sys => contradiction
        | exit j => exact .inr (.inr (dealloc_sweep taken (.inr ⟨i,place⟩)))
      | _ => contradiction
    | unlocks i id place | sleeps i id place => exact absurd (tail _ place) (by simp [Pc.life])
  | files sub => exact .inr (.inl ⟨before,sub.unswept⟩)
  | mark k place =>
    have life := tail _ place
    cases k <;> contradiction
  | birth p nt c births =>
    cases births with
    | create nt place | fork np nt place => exact absurd (tail _ place) (by simp [Pc.life])
  | stack nt c page rest gets | stackless nt c gets =>
    cases gets with
    | create place | fork place => exact absurd (tail _ place) (by simp [Pc.life])
  | fault place | drainWakes i n inside place | drainFree k i n page place | exitThread place | createRun nt place
      | forkProc np place | forkCopied nt place | forkFailed nt page place | forkRun nt place | waitPanic c place
      | waitDone c place | waitNone place | joinDies tid place | joinMissing tid place | joinFound tid u place
      | joinFree tid u page place | kill pid p place => exact absurd (tail _ place) (by simp [Pc.life])

/-- Only the draining loop of `exit` leads to the places after it. -/
theorem step_enters {o : Oracle} (taken : ThreadStep s (.run t o) s')
    (before : (s.pc t).life ≠ .tail) (after : (s'.pc t).life = .tail) : s'.pc t = .exitMutexes 0 := by
  cases taken with
  | frame same =>
    rcases same.pc t with eq | ⟨plain,_⟩
    · exact absurd (eq.symm.trans after) before
    · rw [plain] at after
      contradiction
  | drain t o k i n m pc on place same pcs move =>
    have here : (m.goto t pc).pc t = pc := by simp
    rw [here] at after ⊢
    cases move with
    | done past few =>
      cases k with
      | exit => rfl
      | exec => contradiction
    | _ => contradiction
  | sleep t o chan site on falls =>
    have life : site.life = .tail := by simpa [sleepCommit,Pc.life] using after
    cases falls with
    | hold chan site place =>
      rw [place] at before
      exact absurd life before
    | join | wait => contradiction
  | birth t o p nt pc on births free found =>
    have here : ((allocthread s nt).goto t pc).pc t = pc := by simp
    rw [here] at after
    cases births <;> contradiction
  | stack t o nt pc page rest on gets head =>
    cases gets <;> simp [Pc.life] at after
  | exitFinal t o on place free =>
    obtain ⟨_,_,eq⟩ := exitFinal_rest s t
    simp [eq,Pc.life] at after
  | waitPanic t o c on place found =>
    rw [reapThreads_pc] at after
    exact absurd after before
  | waitDone t o c on place found =>
    generalize reapThreads s c = m at after
    simp [waitDone,Pc.life] at after
  | exitThread | mark | drainFree | forkProc | forkCopied | joinFound => simp [exitThread,Pc.life] at after
  | stackless | createRun | forkFailed | forkRun | joinMissing | joinFree =>
    simp [createRun,forkRun,Pc.life] at after

theorem resume_unswept (site : Site) : site.resume.sweeps = none := by
  cases site <;> rfl

theorem resume_tail (site : Site) (tail : site.resume.life = .tail) : (Pc.asleep site).life = .tail := by
  cases site with
  | join | wait => contradiction
  | _ => exact tail

theorem step_sweep (taken : step s a = some s') (u : Slot)
    (after : (s'.pc u).life = .tail) :
    s'.pc u = s.pc u ∨ Unswept s u s' ∨ (∃ o, a = .run u o) ∧ Sweep s u s' (s'.pc u) := by
  have thread := step_thread s s' a taken
  obtain ⟨calm,taken⟩ := step_cases taken
  cases taken with
  | run t o s' on code =>
    by_cases here : u = t
    · subst u
      by_cases before : (s.pc t).life = .tail
      · rcases code_sweep s s' t o calm code before after with same | outside | sweep
        · exact .inl same
        · exact .inr (.inl outside)
        · exact .inr (.inr ⟨⟨o,rfl⟩,sweep⟩)
      · have enters := step_enters thread before after
        exact .inr (.inr ⟨⟨o,rfl⟩,by rw [enters]; exact .enters⟩)
    · rcases code_stays s s' t o calm code u here with same | idle | user
      · exact .inl same
      · rw [idle] at after
        contradiction
      · rw [user] at after
        contradiction
  | scheduler t =>
    by_cases here : u = t
    · subst u
      cases place : s.pc t with
      | asleep site =>
        have woken : (scheduler s t).pc t = .kthreadExit ∨ (scheduler s t).pc t = site.resume := by
          simp only [scheduler,place,sleepResume]
          split
          · exact .inl (by simp)
          · exact .inr (by simp)
        rcases woken with ends | resumes
        · rw [ends] at after
          contradiction
        · rw [resumes] at after
          refine .inr (.inl ⟨?_,by rw [place]; rfl,by rw [resumes]; exact resume_unswept site⟩)
          rw [place]
          exact resume_tail site after
      | _ => exact .inl (by simp [scheduler,place])
    · exact .inl ((scheduler_scheduled s t).others u here).2.2
  | yield | swtch | wakeup | spurious | ideintr | takePage | givePage => exact .inl rfl

def Buries (s : KState) (p : ProcIx) (a : Action) : Prop := ∃ t o, a = .run t o ∧ s.pc t = .exitFinal ∧ t.1 = p

/-- A process keeps its id unless its entry is taken by `fork` or given up by `wait`, and becomes a
zombie at the end of `exit` only. -/
theorem step_process (taken : KinStep s a s')
    (live : ∀ u, Occupied s u → (s.proc u.1).state = .used) (p : ProcIx) :
    (s'.proc p).pid = (s.proc p).pid ∧ ((s'.proc p).state = .zombie → (s.proc p).state = .zombie ∨ Buries s p a) ∨
      (s.proc p).state ≠ .used ∧ (s'.proc p).state ≠ .zombie := by
  have same (proc : s'.proc p = s.proc p) : (s'.proc p).pid = (s.proc p).pid ∧
      ((s'.proc p).state = .zombie → (s.proc p).state = .zombie ∨ Buries s p a) :=
    ⟨by rw [proc],fun zombie => .inl (by rw [← proc]; exact zombie)⟩
  have written (q : ProcIx) (v : Proc) (proc : s'.proc = update s.proc q v) (pid : v.pid = (s.proc q).pid)
      (state : v.state = .zombie → (s.proc q).state = .zombie) : (s'.proc p).pid = (s.proc p).pid ∧
        ((s'.proc p).state = .zombie → (s.proc p).state = .zombie ∨ Buries s p a) := by
    by_cases here : p = q
    · subst p
      rw [proc,update_self]
      exact ⟨pid,fun zombie => .inl (state zombie)⟩
    · exact same (by rw [proc,update_of_ne here])
  cases taken with
  | frame frame =>
    refine .inl ⟨(Prod.mk.inj (frame.kin p)).2,fun zombie => ?_⟩
    rcases frame.state p with eq | ⟨used,_⟩
    · exact .inl (eq.symm.trans zombie)
    · rw [used] at zombie
      contradiction
  | sleep | birth | createRun => exact .inl (same rfl)
  | stackless t o nt place empty => exact .inl (written nt.1 _ rfl rfl fun zombie => by contradiction)
  | forkProc t o np on place unused =>
    by_cases here : p = np
    · subst p
      refine .inr ⟨by simp [unused],?_⟩
      simp
    · exact .inl (same (by simp [here]))
  | forkDrop t o nt s' place proc thread own pc ids hist =>
    exact .inl (written nt.1 _ proc rfl fun zombie => by contradiction)
  | forkCopied t o nt on place copied => exact .inl (written nt.1 _ rfl rfl id)
  | forkRun t o nt on place => exact .inl (written nt.1 _ rfl rfl fun zombie => by contradiction)
  | exitFinal t o on place =>
    have buried := exitFinal_buried s t live
    refine .inl ⟨buried.pid p,fun zombie => ?_⟩
    by_cases here : p = t.1
    · exact .inr ⟨t,o,rfl,place,here.symm⟩
    · exact .inl ((buried.state p here).symm.trans zombie)
  | waitDone t o c found =>
    have dead : (s.proc c).state = .zombie := by
      have child := List.find?_some found
      simp only [Bool.and_eq_true,beq_iff_eq] at child
      exact child.2
    have reaped := KinFrame.reapThreads s c
    generalize reapThreads s c = m at reaped
    by_cases here : p = c
    · subst p
      refine .inr ⟨by simp [dead],?_⟩
      simp [waitDone]
    · have proc : (waitDone s m t c).proc p = m.proc p := by
        simp [waitDone,here]
      rw [proc]
      refine .inl ⟨(Prod.mk.inj (reaped.kin p)).2,fun zombie => ?_⟩
      rcases reaped.state p with eq | ⟨used,_⟩
      · exact .inl (eq.symm.trans zombie)
      · rw [used] at zombie
        contradiction

structure Swept (s : KState) : Prop where
  passed : ∀ t i, (s.pc t).life = .tail → (∀ j, (s.pc t).sweeps = some j → i.val < j) →
    (s.mutex i).pidHolder ≠ (s.proc t.1).pid
  called : ∀ t id (i : MutexIx), s.pc t = .deallocCall id (.exit i.val) → (s.mutex i).pidHolder = (s.proc t.1).pid →
    (s.mutex i).mid = id
  chosen : ∀ t j id (i : MutexIx), s.pc t = .deallocHold j id (.exit i.val) →
    (s.mutex i).pidHolder = (s.proc t.1).pid → j = i
  zombie : ∀ p i, (s.proc p).state = .zombie → (s.mutex i).pidHolder ≠ (s.proc p).pid

namespace Swept

theorem start (init : Start s) : Swept s := by
  have place (t : Slot) : s.pc t = .user ∨ s.pc t = .idle := by
    rcases init.slot t with ready | vacant
    · exact .inl ready.pc
    · exact .inr vacant.pc
  refine ⟨?_,?_,?_,?_⟩
  · intro t i tail
    rcases place t with user | idle
    · rw [user] at tail
      contradiction
    · rw [idle] at tail
      contradiction
  · intro t id i calls
    rcases place t with user | idle
    · rw [user] at calls
      contradiction
    · rw [idle] at calls
      contradiction
  · intro t j id i holds
    rcases place t with user | idle
    · rw [user] at holds
      contradiction
    · rw [idle] at holds
      contradiction
  · intro p i zombie
    rcases init.used p with ⟨used,_⟩ | ⟨unused,_⟩
    · rw [used] at zombie
      contradiction
    · rw [unused] at zombie
      contradiction

/-- An entry that belongs to a process after a step did so before, with the same id, unless a thread of
the process has just initialised it. -/
theorem owner_kept (taken : MutexStep s a s') (i : MutexIx) (pid : Int) (positive : 0 < pid)
    (others : ∀ t o, a = .run t o → s.pc t = .allocInit i → (s.proc t.1).pid ≠ pid)
    (owned : (s'.mutex i).pidHolder = pid) : (s.mutex i).pidHolder = pid ∧ (s'.mutex i).mid = (s.mutex i).mid := by
  have wrote := step_entry taken i
  generalize s'.mutex i = m at wrote owned
  generalize s'.nextmid = n at wrote
  cases wrote with
  | keeps face =>
    obtain ⟨mid,_,_,_,holder⟩ := by simpa only [Mutex.face,Prod.mk.injEq] using face
    exact ⟨holder.symm.trans owned,mid⟩
  | lock t o id place free face =>
    obtain ⟨mid,_,_,_,holder⟩ := by simpa only [Mutex.face,Prod.mk.injEq] using face
    exact ⟨holder.symm.trans owned,mid⟩
  | unlock t o id place closed face =>
    obtain ⟨mid,_,_,_,holder⟩ := by simpa only [Mutex.face,Prod.mk.injEq] using face
    exact ⟨holder.symm.trans owned,mid⟩
  | alloc t o place face =>
    have holder : m.pidHolder = (s.proc t.1).pid := congrArg (fun x => x.2.2.2.2) face
    exact absurd (holder.symm.trans owned) (others t o rfl place)
  | dealloc t o id k place face =>
    have holder : m.pidHolder = 0 := congrArg (fun x => x.2.2.2.2) face
    omega

section Step
variable {s s' : KState} {a : Action} {forker : ProcIx → Int} (drained : Drained s) (kin : Kindred s forker)
include drained kin

theorem tail_used (t : Slot) (tail : (s.pc t).life = .tail) : (s.proc t.1).state = .used :=
  kin.live t (drained.occ t (busy_active t (by rw [tail]; rfl)))

theorem tail_apart (u : Slot) (tail : (s.pc u).life = .tail) (t : Slot) (i : MutexIx) (place : s.pc t = .allocInit i) :
    (s.proc t.1).pid ≠ (s.proc u.1).pid := by
  have active : Active s t := by simp [Active,place]
  have occupied := drained.occ t active
  have other : t ≠ u := by
    rintro rfl
    rw [place] at tail
    contradiction
  intro same
  have used : (s.proc t.1).state ≠ .unused := by simp [kin.live t occupied]
  have used' : (s.proc u.1).state ≠ .unused := by simp [tail_used drained kin u tail]
  have together := kin.unique t.1 u.1 used used' same
  have alone : Alone s u := by
    have fits := drained.fits u
    rwa [tail] at fits
  exact alone t together other occupied

variable (taken : Kthreads.step s a = some s')
include taken

theorem tail_kept (u : Slot) (tail : (s.pc u).life = .tail) (i : MutexIx)
    (own : (s'.mutex i).pidHolder = (s'.proc u.1).pid) :
    (s.mutex i).pidHolder = (s.proc u.1).pid ∧ (s'.mutex i).mid = (s.mutex i).mid := by
  have used := tail_used drained kin u tail
  have positive := (kin.pid u.1 (by simp [used])).1
  rcases step_process (step_kin s s' a taken) kin.live u.1 with ⟨pid,_⟩ | ⟨other,_⟩
  · refine owner_kept (step_mutex s s' a taken) i _ positive ?_ (own.trans pid)
    intro t o _ place
    exact tail_apart drained kin u tail t i place
  · exact absurd used other

theorem tail_positive (u : Slot) (tail : (s.pc u).life = .tail) : 0 < (s'.proc u.1).pid := by
  have used := tail_used drained kin u tail
  rcases step_process (step_kin s s' a taken) kin.live u.1 with ⟨pid,_⟩ | ⟨other,_⟩
  · rw [pid]
    exact (kin.pid u.1 (by simp [used])).1
  · exact absurd used other

variable (inv : Swept s)
include inv

theorem passed_step (table : Tenure s) (unheld : ExitsUnheld s a) (u : Slot) (i : MutexIx) (after : (s'.pc u).life = .tail)
    (below : ∀ j, (s'.pc u).sweeps = some j → i.val < j) : (s'.mutex i).pidHolder ≠ (s'.proc u.1).pid := by
  intro own
  have old (tail : (s.pc u).life = .tail) := (tail_kept drained kin taken u tail i own).1
  have inside (tail : (s.pc u).life = .tail) (j : Nat) (place : (s.pc u).sweeps = some j) (less : i.val < j) : False := by
    refine inv.passed u i tail ?_ (old tail)
    intro j' at_j
    rw [place] at at_j
    cases at_j
    exact less
  rcases step_sweep taken u after with same | ⟨tail,none,_⟩ | ⟨⟨o,rfl⟩,sweep⟩
  · rw [same] at after below
    exact inv.passed u i after below (old after)
  · refine inv.passed u i tail ?_ (old tail)
    intro j at_j
    rw [none] at at_j
    contradiction
  · generalize s'.pc u = pc at sweep below
    cases sweep with
    | enters => exact absurd (below 0 rfl) (by omega)
    | other j place other =>
      have tail : (s.pc u).life = .tail := by rw [place]; rfl
      have reach : i.val < j.val+1 := below _ rfl
      by_cases here : i = j
      · exact other (here ▸ old tail)
      · exact inside tail j.val (by rw [place]; rfl) (by have := Fin.val_ne_of_ne here; omega)
    | own j place mutex => exact inside (by rw [place]; rfl) j.val (by rw [place]; rfl) (below _ rfl)
    | done j past place =>
      exact inside (by rw [place]; rfl) j (by rw [place]; rfl) (Nat.lt_of_lt_of_le i.isLt past)
    | refused id j place refused =>
      have tail : (s.pc u).life = .tail := by rw [place]; rfl
      have reach : i.val < j+1 := below _ rfl
      by_cases here : i.val = j
      · subst j
        have found : findMutex s id = some i := by
          rw [← inv.called u id i place (old tail)]
          refine table.found i ?_
          rw [old tail]
          exact (kin.pid u.1 (by simp [tail_used drained kin u tail])).1
        rcases refused i found with closed | waiting
        · exact unheld i (by simp [exitTarget,place,found]) closed
        · exact waiting (table.owned i).waiting
      · exact inside tail j (by rw [place]; rfl) (by omega)
    | found j id k place found mutex => exact inside (by rw [place]; rfl) k (by rw [place]; rfl) (below _ rfl)
    | reset j id k place cleared =>
      have tail : (s.pc u).life = .tail := by rw [place]; rfl
      have reach : i.val < k+1 := below _ rfl
      by_cases here : i.val = k
      · subst k
        have same := inv.chosen u j id i place (old tail)
        subst same
        have positive := tail_positive drained kin taken u tail
        omega
      · exact inside tail k (by rw [place]; rfl) (by omega)

theorem called_step (u : Slot) (id : Int) (i : MutexIx) (calls : s'.pc u = .deallocCall id (.exit i.val))
    (own : (s'.mutex i).pidHolder = (s'.proc u.1).pid) : (s'.mutex i).mid = id := by
  rcases step_sweep taken u (by rw [calls]; rfl) with same | ⟨_,_,none⟩ | ⟨_,sweep⟩
  · rw [calls] at same
    obtain ⟨old,mid⟩ := tail_kept drained kin taken u (by rw [← same]; rfl) i own
    rw [mid]
    exact inv.called u id i same.symm old
  · rw [calls] at none
    contradiction
  · generalize s'.pc u = pc at sweep calls
    cases sweep with
    | own j place mutex =>
      obtain ⟨mid,at_j⟩ := Pc.deallocCall.inj calls
      have same : j = i := Fin.ext (DeallocRet.exit.inj at_j)
      rw [mutex,← same,mid]
    | _ => contradiction

theorem chosen_step (table : Tenure s) (u : Slot) (j : MutexIx) (id : Int) (i : MutexIx) (holds : s'.pc u = .deallocHold j id (.exit i.val))
    (own : (s'.mutex i).pidHolder = (s'.proc u.1).pid) : j = i := by
  rcases step_sweep taken u (by rw [holds]; rfl) with same | ⟨_,_,none⟩ | ⟨_,sweep⟩
  · rw [holds] at same
    obtain ⟨old,_⟩ := tail_kept drained kin taken u (by rw [← same]; rfl) i own
    exact inv.chosen u j id i same.symm old
  · rw [holds] at none
    contradiction
  · generalize s'.pc u = pc at sweep holds
    cases sweep with
    | found j' id' k place found mutex =>
      obtain ⟨rfl,rfl,at_k⟩ := Pc.deallocHold.inj holds
      cases at_k
      have tail : (s.pc u).life = .tail := by rw [place]; rfl
      have old := (tail_kept drained kin taken u tail i own).1
      have first : findMutex s id' = some i := by
        rw [← inv.called u id' i place old]
        refine table.found i ?_
        rw [old]
        exact (kin.pid u.1 (by simp [tail_used drained kin u tail])).1
      exact Option.some.inj (found.symm.trans first)
    | _ => contradiction

theorem zombie_step (p : ProcIx) (i : MutexIx) (dead : (s'.proc p).state = .zombie) :
    (s'.mutex i).pidHolder ≠ (s'.proc p).pid := by
  intro own
  rcases step_process (step_kin s s' a taken) kin.live p with ⟨pid,zombie⟩ | ⟨_,other⟩
  · rcases zombie dead with before | ⟨t,o,rfl,place,rfl⟩
    · have inUse : (s.proc p).state ≠ .unused := by simp [before]
      refine inv.zombie p i before (owner_kept (step_mutex s s' a taken) i _ (kin.pid p inUse).1 ?_ (own.trans pid)).1
      intro t o acts place same
      have used := kin.live t (drained.occ t (by simp [Active,place]))
      have together := kin.unique t.1 p (by simp [used]) inUse same
      rw [together,before] at used
      contradiction
    · have tail : (s.pc t).life = .tail := by rw [place]; rfl
      refine inv.passed t i tail ?_ (tail_kept drained kin taken t tail i own).1
      intro j at_j
      rw [place] at at_j
      contradiction
  · exact other dead

theorem step (table : Tenure s) (unheld : ExitsUnheld s a) : Swept s' where
  passed := passed_step drained kin taken inv table unheld
  called := called_step drained kin taken inv
  chosen := chosen_step drained kin taken inv table
  zombie := zombie_step drained kin taken inv

end Step
end Swept

theorem tenure_reached {s₀ : KState} (start : Start s₀) (rooted : Rooted s₀) (owned : ∀ i, (s₀.mutex i).Owned)
    (reached : Reaches ExitsClean s₀ s) : Tenure s ∧ Swept s := by
  induction reached with
  | refl => exact ⟨.start start owned,.start start⟩
  | tail reached allowed taken held =>
    obtain ⟨table,swept⟩ := held
    obtain ⟨peaceful,room,apart,unheld⟩ := allowed
    obtain ⟨forker,creating⟩ := creating_reached start rooted (reached.weaken fun _ _ clean => clean.1)
    have mutexes := step_mutex _ _ _ taken
    refine ⟨table.step mutexes room apart ?_,swept.step creating.drained creating.kin taken table unheld⟩
    rintro t o rfl
    have used := creating.kin.live t (creating.drained.live t (step_run taken).2.1)
    exact (creating.kin.pid t.1 (by simp [used])).1

theorem session_owned (live : List Slot) (m : Nat) (pid : Int) (positive : 0 < pid) (i : MutexIx) :
    ((session live m pid).mutex i).Owned := by
  by_cases low : i.val < m
  · constructor <;> simp [session,low,positive]
  · constructor <;> simp [session,low]

def exitScript : List Action := [call (1,0) .exit,List.replicate (18+67+2) (go (1,0))].flatten

def exitHolding : List Action :=
  [call (1,0) (.kthreadMutexLock 1),[go (1,0),go (1,0),go (1,0)],back (1,0),
    call (1,0) .exit,List.replicate (18+66+2) (go (1,0))].flatten

def exitWaiting : List Action :=
  [call (2,1) (.kthreadMutexLock 1),List.replicate 3 (go (2,1)),back (2,1),
    call (2,0) (.kthreadMutexLock 1),List.replicate 4 (go (2,0)),[.swtch (2,0)],
    call (2,1) (.kthreadMutexUnlock 1),List.replicate 2 (go (2,1)),
    exitScript,[.swtch (1,0),.scheduler (2,0),go (2,0),go (2,0)]].flatten

end Kthreads
