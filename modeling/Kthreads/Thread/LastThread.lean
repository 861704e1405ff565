import Kthreads.Process.Transitions
import Kthreads.Thread.Joined
import Kthreads.Thread.Places

/-! No process is left without a live thread. `kthread_exit` chooses between `exit` and
`exitThread` by a scan without `ptable.lock`. If no sibling scans between that scan and the section
of `exitThread`, the sibling that it has found is still there when the section runs. -/
namespace Kthreads
variable {s s' : KState}

def Forking (s : KState) (p : ProcIx) : Prop :=
  History.since (· == .forkBegin p) (· == .forkDone p) s.hist = true

instance (s : KState) (p : ProcIx) : Decidable (Forking s p) := inferInstanceAs (Decidable (_ = true))

def Populated (s : KState) : Prop :=
  ∀ p, (s.proc p).state = .used → ¬ Forking s p → ∃ i, Occupied s (p,i)

theorem forking_append (s s' : KState) (p : ProcIx) (new : List Event) (hist : s'.hist = new ++ s.hist)
    (quiet : ∀ e ∈ new, e ≠ .forkBegin p ∧ e ≠ .forkDone p) : Forking s' p ↔ Forking s p := by
  rw [Forking,Forking,hist,History.since_append]
  intro e member
  simpa using (quiet e member).symm

theorem kinless_fork (e : Event) (quiet : e.kinless = true) (p : ProcIx) : e ≠ .forkBegin p ∧ e ≠ .forkDone p := by
  constructor
  · rintro rfl
    contradiction
  · rintro rfl
    contradiction

theorem forking_same (hist : ∃ new, s'.hist = new ++ s.hist ∧ ∀ e ∈ new, e.kinless = true) (p : ProcIx) :
    Forking s' p ↔ Forking s p := by
  obtain ⟨new,eq,quiet⟩ := hist
  exact forking_append s s' p new eq (fun e member => kinless_fork e (quiet e member) p)

/-- A process that is in use was in use before, or has a live thread. -/
theorem step_used {a : Action} (taken : KinStep s a s') (p : ProcIx) (used : (s'.proc p).state = .used)
    (ready : ¬ Forking s' p) : (s.proc p).state = .used ∧ ¬ Forking s p ∨ (∃ i, Occupied s (p,i)) ∨
      ∃ i, Occupied s' (p,i) := by
  have same (state : (s'.proc p).state = (s.proc p).state)
      (hist : ∃ new, s'.hist = new ++ s.hist ∧ ∀ e ∈ new, e.kinless = true) :
      (s.proc p).state = .used ∧ ¬ Forking s p ∨ (∃ i, Occupied s (p,i)) ∨ ∃ i, Occupied s' (p,i) :=
    .inl ⟨state ▸ used,fun forking => ready ((forking_same hist p).mpr forking)⟩
  cases taken with
  | frame kin =>
    rcases kin.state p with state | ⟨_,live⟩
    · exact same state kin.hist
    · exact .inr (.inl live)
  | sleep | createRun => exact same rfl ⟨[],rfl,by simp⟩
  | birth t o p nt => exact same rfl ⟨[.created nt],rfl,by simp [Event.kinless,Event.waited]⟩
  | stackless t o nt =>
    have other : p ≠ nt.1 := by
      rintro rfl
      simp at used
    exact same (by simp [other]) ⟨[],rfl,by simp⟩
  | forkProc t o np =>
    have other : p ≠ np := by
      rintro rfl
      exact ready (by simp [Forking,History.since])
    refine .inl ⟨by simpa [other] using used,?_⟩
    intro forking
    refine ready ((forking_append s _ p [.forkBegin np] rfl ?_).mpr forking)
    simpa using fun same : np = p => other same.symm
  | forkDrop t o nt s' place proc thread own pc ids hist =>
    have other : p ≠ nt.1 := by
      rintro rfl
      simp [proc] at used
    exact same (by simp [proc,other]) hist
  | forkCopied t o nt =>
    refine same ?_ ⟨[],rfl,by simp⟩
    by_cases here : p = nt.1 <;> simp [here]
  | forkRun t o nt =>
    by_cases here : p = nt.1
    · subst p
      exact .inr (.inr ⟨nt.2,by simp [Occupied,forkRun]⟩)
    · refine .inl ⟨by simpa [forkRun,here] using used,?_⟩
      intro forking
      refine ready ((forking_append s _ p [.forkDone nt.1] rfl ?_).mpr forking)
      simpa using fun same : nt.1 = p => here same.symm
  | exitFinal t o =>
    obtain ⟨m,frame,_,_,eq⟩ := exitFinal_eq s t
    rw [eq] at used ready ⊢
    have other : p ≠ t.1 := by
      rintro rfl
      simp [vanish,buryProcess] at used
    have state : ((vanish m t).proc p).state = (m.proc p).state := by simp [vanish,buryProcess,other]
    rcases frame.proc p with old | ⟨_,i,live⟩
    · refine .inl ⟨old.symm.trans (state.symm.trans used),?_⟩
      intro forking
      obtain ⟨new,hist,quiet⟩ := frame.hist
      refine ready ((forking_append s _ p new hist ?_).mpr forking)
      intro e member
      have threadless := quiet e member
      refine ⟨?_,?_⟩ <;> rintro rfl <;> simp [Event.threadless] at threadless
    · exact .inr (.inr ⟨i,(vanish_occupied m t (p,i)).mpr ⟨other,live⟩⟩)
  | waitDone t o c found =>
    have reaped := KinFrame.reapThreads s c
    generalize reapThreads s c = m at reaped used ready ⊢
    have other : p ≠ c := by
      rintro rfl
      simp [waitDone] at used
    have state : ((waitDone s m t c).proc p).state = (m.proc p).state := by simp [waitDone,other]
    rcases reaped.state p with old | ⟨_,live⟩
    · refine .inl ⟨old.symm.trans (state.symm.trans used),?_⟩
      intro forking
      refine ready ((forking_append m _ p [.waitRet t (s.proc c).pid] rfl (by simp)).mpr ?_)
      exact (forking_same reaped.hist p).mpr forking
    · exact .inr (.inl live)

theorem Populated.start (init : Start s) : Populated s := by
  intro p used _
  rcases init.used p with ⟨_,i,ready⟩ | ⟨unused,_⟩
  · refine ⟨i,?_⟩
    rcases ready.cpu with ⟨state,_⟩ | ⟨state,_⟩ <;> simp [Occupied,state]
  · rw [unused] at used
    contradiction

/-- A process whose last thread has left is a zombie, and `wait` in the parent finds one. -/
def Reapable (s : KState) (p : ProcIx) : Prop :=
  (s.proc p).state = .zombie ∧ ∀ q, (s.proc p).parent = some q → ∃ c, zombieChild s q = some c

theorem zombieChild_found (s : KState) (p q : ProcIx) (zombie : (s.proc p).state = .zombie)
    (parent : (s.proc p).parent = some q) : ∃ c, zombieChild s q = some c := by
  apply Option.isSome_iff_exists.mp
  rw [zombieChild,List.find?_isSome]
  exact ⟨p,List.mem_finRange p,by simp [zombie,parent]⟩

/-- What a thread that is setting up another one knows: it makes a sibling, or the first thread of a process. -/
def Founding (s : KState) (t : Slot) : Life → Prop
  | .createStack nt | .createRun nt => nt.1 = t.1
  | .forkStack nt | .forkCopy nt | .forkRun nt => ∀ u, u.1 = nt.1 → u ≠ nt → ¬ Occupied s u
  | _ => True

def Founded (s : KState) : Prop := ∀ t, Founding s t (s.pc t).life

namespace Founded
variable {a : Action}

theorem start (init : Start s) : Founded s := by
  intro t
  rcases init.slot t with ready | vacant
  · rw [ready.pc]
    trivial
  · rw [vacant.pc]
    trivial

/-- No thread is born beside the one that `fork` is setting up. -/
theorem unborn (drained : Drained s) (empty : ForksEmpty s a) (taken : ThreadStep s a s') (t nt : Slot)
    (pending : (s.pc t).life.pending = some nt) (first : ∀ u, u.1 = nt.1 → u ≠ nt → ¬ Occupied s u) (u : Slot)
    (own : u.1 = nt.1) (other : u ≠ nt) : ¬ Occupied s' u := by
  intro live
  obtain ⟨young,off⟩ := drained.young t nt pending
  rcases drained.lives taken u live with ⟨before,_⟩ | ⟨v,o,p,pc,on,births,found⟩
  · exact first u own other before
  · have home := (unusedSlot_spec s p u found).2
    cases births with
    | create nt' place =>
      refine first v (home.symm.trans own) ?_ (drained.live v on)
      rintro rfl
      exact off on
    | fork np nt' place =>
      refine empty p (by simp [forkTarget,place]) nt.2 ?_
      rw [← home,own]
      exact young

theorem step (inv : Founded s) (drained : Drained s) (empty : ForksEmpty s a) (taken : ThreadStep s a s') :
    Founded s' := by
  intro t
  have before := inv t
  have keeps (nt : Slot) (pending : (s.pc t).life.pending = some nt)
      (first : ∀ u, u.1 = nt.1 → u ≠ nt → ¬ Occupied s u) : ∀ u, u.1 = nt.1 → u ≠ nt → ¬ Occupied s' u :=
    unborn drained empty taken t nt pending first
  rcases step_placed taken t with same | plain | arrives
  · rw [same]
    generalize (s.pc t).life = life at before keeps
    cases life with
    | forkStack nt | forkCopy nt | forkRun nt => exact keeps nt rfl before
    | createStack | createRun => exact before
    | _ => trivial
  · generalize (s'.pc t).life = life at plain
    cases life <;> first | contradiction | trivial
  · generalize (s'.pc t).life = life at arrives
    cases arrives with
    | birth o p nt pc births found eq =>
      have home := (unusedSlot_spec s p nt found).2
      cases births with
      | create nt' place => exact home
      | fork np nt' place =>
        subst eq
        intro u own other live
        refine empty p (by simp [forkTarget,place]) u.2 ?_
        rw [← home,← own]
        simpa [Occupied,allocthread,other] using live
    | stacked o nt pc gets =>
      cases gets with
      | create place =>
        rw [place] at before
        exact before
      | fork place =>
        rw [place] at before
        exact keeps nt (by rw [place]; rfl) before
    | copied o nt place =>
      rw [place] at before
      exact keeps nt (by rw [place]; rfl) before
    | _ => trivial

end Founded

theorem Walks.leaves {t : Slot} {c₀ c : Pc} (walks : Walks s t c₀ c) : c₀ = .kthreadExit ∨ c ≠ .exitThread := by
  cases walks with
  | calls c => cases c <;> simp only [Syscall.entry] <;> (try split) <;> exact .inr (by simp)
  | drain k i n c move => cases k <;> cases move <;> exact .inr (by simp [Drainer.next])
  | endsThread => exact .inl rfl
  | _ => exact .inr (by simp)

theorem MutexWalks.stays {c₀ c : Pc} (walks : MutexWalks c₀ c) : c ≠ .exitThread := by
  cases walks with
  | deallocRefused id k | deallocDone i id k => cases k <;> simp [DeallocRet.next]
  | _ => simp

theorem FileWalks.stays {c₀ c : Pc} (walks : FileWalks c₀ c) : c ≠ .exitThread := by
  cases walks with
  | returns k => cases k <;> simp [FsRet.next]
  | _ => simp

/-- The section of `exitThread` is reached from the scan of `kthread_exit` only. -/
theorem code_leaves {t : Slot} {o : Oracle} (calm : s.panicked = false) (taken : code s t o = some s')
    (leaves : s'.pc t = .exitThread) : s.pc t = .exitThread ∨ s.pc t = .kthreadExit := by
  cases code_sections calm taken with
  | panics => exact .inl leaves
  | walk place walks =>
    rcases walks.leaves with scans | other
    · exact .inr (place.trans scans)
    · exact absurd (by simpa using leaves) other
  | exitFinal =>
    obtain ⟨proc,thread,eq⟩ := exitFinal_rest s t
    simp [eq] at leaves
  | waitPanic c => exact .inl ((congrFun (reapThreads_pc s c) t).symm.trans leaves)
  | waitDone c =>
    obtain ⟨_,_,_,_,eq⟩ := reapThreads_rest s c
    simp [eq,waitDone] at leaves
  | birth p nt c births => cases births <;> simp at leaves
  | stack nt c page rest gets => cases gets <;> simp at leaves
  | mutex sub =>
    cases sub with
    | goes place walks => exact absurd (by simpa using leaves) walks.stays
    | unlocks i id place mutex =>
      obtain ⟨thread,eq⟩ := wakeSleeper_rest {s with mutex := mutex, mtableLock := none} t.1 i
      simp [eq] at leaves
    | sleeps => simp [sleepEnter] at leaves
  | files sub =>
    cases sub with
    | stays | wakes => exact .inl leaves
    | goes place walks => exact absurd (by simpa using leaves) walks.stays
    | sleeps => simp [sleepEnter] at leaves
  | exitThread => simp [exitThread] at leaves
  | createRun => simp [createRun] at leaves
  | forkRun => simp [forkRun] at leaves
  | sleep => simp [sleepCommit] at leaves
  | _ => simp at leaves

theorem step_leaves {a : Action} (taken : step s a = some s') (u : Slot) (leaves : s'.pc u = .exitThread) :
    s.pc u = .exitThread ∨ s.pc u = .kthreadExit ∧ ∃ o, a = .run u o := by
  obtain ⟨calm,taken⟩ := step_cases taken
  cases taken with
  | run t o s' on taken =>
    by_cases here : u = t
    · subst u
      exact (code_leaves calm taken leaves).imp_right fun scans => ⟨scans,o,rfl⟩
    · rcases code_stays s s' t o calm taken u here with same | idle | user
      · exact .inl (same ▸ leaves)
      · rw [idle] at leaves
        contradiction
      · rw [user] at leaves
        contradiction
  | scheduler t =>
    by_cases here : u = t
    · subst u
      left
      unfold scheduler at leaves
      simp only at leaves
      split at leaves
      next site place =>
        unfold sleepResume at leaves
        split at leaves
        · simp at leaves
        · cases site <;> simp [Site.resume] at leaves
      · exact leaves
    · exact .inl (((scheduler_scheduled s t).others u here).2.2.symm.trans leaves)
  | yield | swtch | wakeup | spurious | ideintr | takePage | givePage => exact .inl leaves

/-- The scan of `kthread_exit` is made while no live sibling is between its own scan and `exitThread`. -/
abbrev ScansApart (s : KState) : Action → Prop := onRun fun t _ =>
  s.pc t = .kthreadExit → ∀ i, (t.1,i) ≠ t → Occupied s (t.1,i) → s.pc (t.1,i) ≠ .exitThread

instance (s : KState) (a : Action) : Decidable (ScansApart s a) := by
  unfold ScansApart
  infer_instance

abbrev LeavesApart (s : KState) (a : Action) : Prop := Careful s a ∧ ScansApart s a

/-- What the scan has found still holds: a thread that is about to leave has a sibling that is not. -/
def Leaving (s : KState) : Prop :=
  ∀ t, s.pc t = .exitThread → ∃ i, (t.1,i) ≠ t ∧ Occupied s (t.1,i) ∧ s.pc (t.1,i) ≠ .exitThread

theorem Leaving.start (init : Start s) : Leaving s := by
  intro t place
  rcases init.slot t with ready | vacant
  · rw [ready.pc] at place
    contradiction
  · rw [vacant.pc] at place
    contradiction

/-- What becomes of a live thread in a step: it ends with its process, or is given up before it has run. -/
inductive Fate (s : KState) (u : Slot) (s' : KState) : Prop
  | stays (live : Occupied s' u) : Fate s u s'
  | leaves (place : s.pc u = .exitThread) : Fate s u s'
  | buried (w : Slot) (place : s.pc w = .exitFinal) (home : u.1 = w.1) (zombie : (s'.proc u.1).state = .zombie) :
      Fate s u s'
  | dropped (w : Slot) (pending : (s.pc w).life.pending = some u) (back : s'.pc w = .retKilled)
      (unused : (s'.proc u.1).state = .unused) : Fate s u s'

theorem Drained.live_stays {a : Action} (drained : Drained s) (joins : JoinsEnded s a) (taken : ThreadStep s a s')
    (u : Slot) (live : Occupied s u) : Fate s u s' := by
  cases step_change taken u with
  | keeps inherits moves =>
    cases moves with
    | same state => exact .stays (by rwa [Occupied,state])
    | wakes _ state | runs _ state | yields _ state | started _ state => exact .stays (by simp [Occupied,state])
    | ends _ _ _ _ place => exact .leaves place
    | buried w _ place home _ _ _ zombie => exact .buried w place home zombie
  | emptied _ reaper =>
    cases reaper with
    | drain t o k i n place here =>
      have fits := drained.fits t
      rw [place] at fits
      exact absurd live (here ▸ fits.2.1)
    | join t o tid place => exact absurd live (joins u (by simp [joinTarget,place]))
    | wait t o c place on found child dead => exact absurd dead live.2
    | stack w o pc gets empty back unused => exact .dropped w (pending_of_blank gets.waits) (by simp [back]) unused
    | fork w o place short back owned unused => exact .dropped w (by rw [place]; rfl) (by simp [back]) unused
  | sleeps => exact .stays (by simp [Occupied,sleepCommit])
  | marked w => exact .stays ((markSiblings_occupied s w u).mpr live)
  | born => exact .stays (by simp [Occupied,allocthread])
  | stacked w o pc page rest s' gets head thread => exact .stays (by rwa [Occupied,thread])

section Leaving
variable {a : Action} (drained : Drained s) (drained' : Drained s') (founded : Founded s) (joins : JoinsEnded s a)
include drained drained' founded joins

/-- A live sibling of a live thread is still there after the step, or has left by the section of `exitThread`,
or was being set up by another sibling, which is then there. -/
theorem sibling_stays (taken : ThreadStep s a s') (t u : Slot) (own : u.1 = t.1) (other : u ≠ t)
    (lives : Occupied s t) (live : Occupied s u) (stays : s.pc u ≠ .exitThread) :
    Occupied s' u ∨ ∃ w, w.1 = t.1 ∧ Occupied s' w ∧ s'.pc w = .retKilled := by
  cases drained.live_stays joins taken u live with
  | stays live => exact .inl live
  | leaves place => exact absurd place stays
  | buried w place home =>
    -- the last thread of a process has no live sibling
    have alone := drained.alone w place
    by_cases here : u = w
    · exact absurd lives (alone t (own.symm.trans home) (fun same => other (here.trans same.symm)))
    · exact absurd live (alone u home here)
  | dropped w pending back =>
    right
    have founding := founded w
    have active : Occupied s' w := drained'.occ w (by simp [Active,back])
    generalize (s.pc w).life = life at pending founding
    cases life with
    | createStack nt | createRun nt =>
      obtain rfl : nt = u := Option.some.inj pending
      exact ⟨w,founding.symm.trans own,active,back⟩
    | forkStack nt | forkCopy nt | forkRun nt =>
      obtain rfl : nt = u := Option.some.inj pending
      exact absurd lives (founding t own.symm (Ne.symm other))
    | _ => contradiction

theorem Leaving.step (inv : Leaving s) (apart : ScansApart s a) (taken : step s a = some s') : Leaving s' := by
  have thread := step_thread s s' a taken
  intro t leaves
  rcases step_leaves taken t leaves with before | ⟨scans,o,rfl⟩
  · obtain ⟨i,other,live,stays⟩ := inv t before
    have lives : Occupied s t := drained.occ t (by simp [Active,before])
    rcases sibling_stays drained drained' founded joins thread t (t.1,i) rfl other lives live stays with still | other
    · refine ⟨i,other,still,?_⟩
      intro leaves'
      rcases step_leaves taken (t.1,i) leaves' with already | ⟨scans,o,rfl⟩
      · exact stays already
      · -- the sibling may not scan while this thread is about to leave
        exact apart scans t.2 (Ne.symm other) lives before
    · obtain ⟨w,own,live,back⟩ := other
      have same : (t.1,w.2) = w := Prod.ext own.symm rfl
      refine ⟨w.2,?_,same ▸ live,?_⟩
      · rw [same]
        rintro rfl
        rw [back] at leaves
        contradiction
      · simp [same,back]
  · obtain ⟨_,_,code⟩ := step_run taken
    simp only [Kthreads.code,scans,Option.some.injEq] at code
    unfold kthreadExit at code
    split at code
    next seen =>
      obtain ⟨i,differs,live⟩ := seen
      have other : (t.1,i) ≠ t := fun same => differs (by rw [same])
      subst code
      exact ⟨i,other,live,by simpa [other] using apart scans i other live⟩
    next =>
      subst code
      simp at leaves

theorem Populated.step (pop : Populated s) (leaving : Leaving s) (taken : step s a = some s') : Populated s' := by
  have thread := step_thread s s' a taken
  intro p used ready
  have survives (i : Fin nthread) (live : Occupied s (p,i)) : ∃ i, Occupied s' (p,i) := by
    cases drained.live_stays joins thread (p,i) live with
    | stays live => exact ⟨i,live⟩
    | leaves place =>
      obtain ⟨j,other,alive,stays⟩ := leaving (p,i) place
      rcases sibling_stays drained drained' founded joins thread (p,i) (p,j) rfl other live alive stays with
        still | ⟨w,rfl,still,_⟩
      · exact ⟨j,still⟩
      · exact ⟨w.2,still⟩
    | buried w place home zombie =>
      rw [used] at zombie
      contradiction
    | dropped w pending back unused =>
      rw [used] at unused
      contradiction
  rcases step_used (step_kin s s' a taken) p used ready with ⟨before,done⟩ | ⟨i,live⟩ | live
  · obtain ⟨i,live⟩ := pop p before done
    exact survives i live
  · exact survives i live
  · exact live

end Leaving

theorem last_leaves (s s' : KState) (t : Slot) (o : Oracle) (leaving : Leaving s)
    (taken : step s (.run t o) = some s') (place : s.pc t = .exitThread ∨ s.pc t = .exitFinal)
    (last : ∀ i, ¬ Occupied s' (t.1,i)) : Reapable s' t.1 := by
  rcases place with place | place
  · simp only [step,code,place,Option.ite_none_left_eq_some,Option.ite_none_right_eq_some,
      guarded_eq_some] at taken
    obtain ⟨_,_,_,rfl⟩ := taken
    obtain ⟨i,other,live,_⟩ := leaving t place
    have woken : ThreadFrame s (wakeup1 s (.thread t)) := .wakeAll s _
    refine absurd ?_ (last i)
    exact (retire_occupied _ t (t.1,i)).mpr ⟨other,(woken.occupied (t.1,i)).mpr live⟩
  · simp only [step,code,place,Option.ite_none_left_eq_some,Option.ite_none_right_eq_some,
      guarded_eq_some] at taken
    obtain ⟨_,_,_,rfl⟩ := taken
    obtain ⟨m,_,_,_,eq⟩ := exitFinal_eq s t
    have zombie : ((exitFinal s t).proc t.1).state = .zombie := by
      rw [eq]
      simp [vanish,buryProcess]
    exact ⟨zombie,fun q parent => zombieChild_found _ _ q zombie parent⟩

theorem leaving_reached {s₀ s : KState} (start : Start s₀) (reached : Reaches LeavesApart s₀ s) :
    Regular s ∧ Founded s ∧ Leaving s ∧ Populated s := by
  refine reached.invariant (fun s => Regular s ∧ Founded s ∧ Leaving s ∧ Populated s)
    ⟨.start start,.start start,.start start,.start start⟩ ?_
  rintro before action after ⟨regular,founded,leaving,pop⟩ ⟨careful,apart⟩ taken
  have thread := step_thread _ _ _ taken
  have joins := regular.joined.ended careful.2.2.2
  have later := regular.step careful thread
  exact ⟨later,founded.step regular.drained careful.2.2.1 thread,
    leaving.step regular.drained later.drained founded joins apart taken,
    pop.step regular.drained later.drained founded joins leaving taken⟩

theorem live_thread_remains {s₀ s : KState} (start : Start s₀) (reached : Reaches LeavesApart s₀ s) :
    Populated s ∧ ∀ t o s', step s (.run t o) = some s' → (s.pc t = .exitThread ∨ s.pc t = .exitFinal) →
      (∀ i, ¬ Occupied s' (t.1,i)) → Reapable s' t.1 := by
  obtain ⟨_,_,leaving,pop⟩ := leaving_reached start reached
  exact ⟨pop,fun t o s' taken => last_leaves s s' t o leaving taken⟩

/-- One of two threads leaves, and the process goes on with the other. -/
theorem live_thread_remains_sibling : ∃ s, Reaches LeavesApart (session [(1,0),(1,1)] 0 0) s ∧
    ((s.thread (1,1)).state = .tZombie ∧ (s.proc 1).state = .used ∧ ¬ Forking s 1) ∧ Populated s := by
  obtain ⟨s,reached,shown⟩ := Interleave.play_shows step LeavesApart (session [(1,0),(1,1)] 0 0)
    (call (1,1) .kthreadExit ++ [go (1,1),go (1,1),.swtch (1,1)] ++ call (1,0) .kthreadExit)
    (fun s => (s.thread (1,1)).state = .tZombie ∧ (s.proc 1).state = .used ∧ ¬ Forking s 1) (by decide +kernel)
  obtain ⟨pop,_⟩ := live_thread_remains (session_start _ _ _ (by decide) (by decide)) reached
  exact ⟨s,reached,shown,pop⟩

/-- Each of the two threads of process 1 sees the other one live and only leaves itself. -/
theorem process_without_thread : Start (session [(1,0),(1,1)] 0 0) ∧ ∃ s,
    Reaches (within [.user,.trap,.kthreadExit,.exitThread]) (session [(1,0),(1,1)] 0 0) s ∧
    (s.proc 1).state = .used ∧ ¬ Forking s 1 ∧ ∀ i, ¬ Occupied s (1,i) := by
  refine ⟨session_start _ _ _ (by decide) (by decide),?_⟩
  exact Interleave.play_shows _ _ _
    (call (1,0) .kthreadExit ++ call (1,1) .kthreadExit ++
      [go (1,0),go (1,1),go (1,0),.swtch (1,0),go (1,1)]) _ (by decide +kernel)

end Kthreads
