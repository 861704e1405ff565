import Kthreads.Mutex.Transitions

/-! What the mutex table keeps true between its sections, as long as a slot is
neither handed out twice nor reset under a caller, and no thread is born into the
slot of a holder. -/
namespace Kthreads
variable {s s' : KState}

def Mutex.Settled (m : Mutex) : Prop :=
  m.lock = 1 ∧ m.state = .closed ∧ m.holding ≠ none ∨
    m.lock = 0 ∧ m.state ≠ .closed ∧ m.holding = none

def Quiet (s : KState) (i : MutexIx) : Prop :=
  (s.mutex i).state ≠ .closed ∧ ∀ u id, ¬ Locking s u i id

/-- An entry that is initialised has an id that has been given out. -/
def Mutex.Numbered (m : Mutex) (nextmid : Int) : Prop :=
  m.state = .uninitialized ∧ m.mid = 0 ∨ m.state ≠ .uninitialized ∧ 0 < m.mid ∧ m.mid < nextmid

abbrev MidsApart (s : KState) : Prop := ∀ i j, (s.mutex i).mid = (s.mutex j).mid → (s.mutex i).mid ≠ 0 → i = j

structure Numbered (s : KState) : Prop where
  named : ∀ i, (s.mutex i).Numbered s.nextmid
  nextmid : 0 < s.nextmid ∧ s.nextmid < 2^31
  mids : MidsApart s

theorem findMutex_mid (s : KState) (id : Int) (i : MutexIx) (found : findMutex s id = some i) :
    (s.mutex i).mid = id := by
  simpa using List.find?_some found

theorem findMutex_iff (mids : MidsApart s) (id : Int) (nonzero : id ≠ 0) (i : MutexIx) :
    findMutex s id = some i ↔ (s.mutex i).mid = id := by
  constructor
  · exact findMutex_mid s id i
  · intro named
    cases scan : findMutex s id with
    | none =>
      have skipped := List.find?_eq_none.mp scan i (List.mem_finRange i)
      simp [named] at skipped
    | some j =>
      have same := findMutex_mid s id j scan
      rw [mids i j (named.trans same.symm) (by omega)]

namespace Numbered

theorem start (init : Start s) : Numbered s := by
  refine ⟨?_,init.nextmid,init.mids⟩
  intro i
  obtain ⟨_,_,raw | ready⟩ := init.mutex i
  · exact .inl raw
  · exact .inr ⟨by simp [ready.1],ready.2⟩

section
variable (inv : Numbered s)
include inv

theorem below (i : MutexIx) : (s.mutex i).mid < s.nextmid := by
  rcases inv.named i with ⟨_,zero⟩ | ⟨_,_,below⟩
  · rw [zero]
    exact inv.nextmid.1
  · exact below

theorem mid_nonneg (i : MutexIx) : 0 ≤ (s.mutex i).mid := by
  rcases inv.named i with ⟨_,zero⟩ | ⟨_,positive,_⟩
  · exact zero.ge
  · exact positive.le

theorem mid_zero (i : MutexIx) : (s.mutex i).mid = 0 ↔ (s.mutex i).state = .uninitialized := by
  rcases inv.named i with ⟨raw,zero⟩ | ⟨ready,positive,_⟩
  · simp [raw,zero]
  · constructor
    · intro zero
      omega
    · intro raw
      exact absurd raw ready

/-- Entries keep their ids or lose them, and at most one gets the next id. -/
theorem step (grows : s.nextmid ≤ s'.nextmid) (few : s'.nextmid < 2^31) (named : ∀ i, (s'.mutex i).Numbered s'.nextmid)
    (mid : ∀ i, (s'.mutex i).mid = (s.mutex i).mid ∨ (s'.mutex i).mid = 0 ∨
      (s'.mutex i).mid = s.nextmid ∧ ∀ j, (s'.mutex j).mid = s.nextmid → i = j) : Numbered s' := by
  have positive := inv.nextmid.1
  refine ⟨named,⟨by omega,few⟩,?_⟩
  intro i j same nonzero
  have belowI := inv.below i
  have belowJ := inv.below j
  rcases mid i with oldI | zeroI | ⟨newI,unique⟩
  · rcases mid j with oldJ | zeroJ | ⟨newJ,_⟩
    · exact inv.mids i j (by omega) (by omega)
    · omega
    · omega
  · omega
  · exact unique j (by omega)

theorem same (mutex : ∀ i, (s'.mutex i).mid = (s.mutex i).mid ∧ (s'.mutex i).state = (s.mutex i).state)
    (nextmid : s'.nextmid = s.nextmid) : Numbered s' := by
  refine inv.step nextmid.ge (by have := inv.nextmid; omega) ?_ (fun i => .inl (mutex i).1)
  intro i
  rw [Mutex.Numbered,(mutex i).1,(mutex i).2,nextmid]
  exact inv.named i

theorem write {i : MutexIx} {v : Mutex} (slot : s'.mutex i = v) (others : ∀ j, j ≠ i → s'.mutex j = s.mutex j)
    (grows : s.nextmid ≤ s'.nextmid) (few : s'.nextmid < 2^31) (named : v.Numbered s'.nextmid)
    (mid : v.mid = 0 ∨ v.mid = (s.mutex i).mid ∨ v.mid = s.nextmid) : Numbered s' := by
  refine inv.step grows few ?_ ?_
  · intro j
    by_cases here : j = i
    · rw [here,slot]
      exact named
    · rw [others j here]
      refine (inv.named j).imp_right ?_
      rintro ⟨ready,low,high⟩
      exact ⟨ready,low,by omega⟩
  · intro j
    by_cases here : j = i
    · subst here
      rw [slot]
      rcases mid with zero | own | fresh
      · exact .inr (.inl zero)
      · exact .inl own
      · refine .inr (.inr ⟨fresh,?_⟩)
        intro k same
        by_contra other
        rw [others k (Ne.symm other)] at same
        have := inv.below k
        omega
    · exact .inl (by rw [others j here])

end
end Numbered

structure MutexInv (s : KState) : Prop extends Numbered s where
  settled : ∀ i, (s.mutex i).Settled
  owner : ∀ i h, (s.mutex i).holding = some h → Holder s h (s.mutex i).mid
  held : ∀ t id, Holder s t id → ∃ i, (s.mutex i).mid = id ∧ (s.mutex i).holding = some t
  locking : ∀ t i id, Locking s t i id → (s.mutex i).mid = id ∧ (s.mutex i).state ≠ .uninitialized
  mtable : ∀ t, (s.pc t).role.keepsMtable = true → s.mtableLock = some t
  allocHold : ∀ t i, (s.pc t).role = .allocHold i →
    (s.mutex i).state = .uninitialized ∧ ∀ u, (s.pc u).role ≠ .allocInit i
  allocInit : ∀ t i, (s.pc t).role = .allocInit i → (s.mutex i).state = .uninitialized
  allocOnce : ∀ t u i, (s.pc t).role = .allocInit i → (s.pc u).role = .allocInit i → t = u
  unlocking : ∀ t i id, (s.pc t).role = .unlockHold i id → (s.mutex i).mid = id ∨ Quiet s i
  deallocating : ∀ t i id, (s.pc t).role = .deallocHold i id →
    Quiet s i ∧ (id ≠ 0 → (s.mutex i).mid = id)

structure TidInv (s : KState) : Prop where
  unique : ∀ t u, (s.thread t).tid = (s.thread u).tid → (s.thread t).tid ≠ 0 → t = u
  running : ∀ t, s.cpu t = .on → (s.thread t).tid ≠ 0

def allocTarget (s : KState) (t : Slot) : Option MutexIx :=
  match s.pc t with
  | .allocCall => freeMutex s
  | _ => none

def deallocTarget (s : KState) (t : Slot) : Option MutexIx :=
  match s.pc t with
  | .deallocCall id _ => (findMutex s id).filter fun i =>
      (s.mutex i).state != .closed && (s.mutex i).numOfWaiting == 0
  | _ => none

/-- The scan of `kthread_mutex_alloc` does not choose a slot that another call is
initialising, and the id counter does not wrap around. -/
abbrev AllocApart (s : KState) : Action → Prop := onRun fun t _ =>
  (∀ i ∈ allocTarget s t, ∀ u, (s.pc u).role ≠ .allocInit i) ∧
    ∀ i, s.pc t = .allocInit i → s.nextmid < 2^31-1

/-- The test of `kthread_mutex_dealloc` passes only when no thread is inside
`kthread_mutex_lock` on the slot. -/
abbrev DeallocApart (s : KState) : Action → Prop := onRun fun t _ =>
  ∀ i ∈ deallocTarget s t, ∀ u, (s.pc u).role.locks ≠ some i

/-- `allocthread` does not choose the slot of a thread that a mutex still names as its holder. -/
abbrev BirthApart (s : KState) : Action → Prop := onRun fun t _ =>
  ∀ nt ∈ birthTarget s t, ∀ i, (s.mutex i).holding ≠ some nt

section Apart
variable {s : KState} {a : Action} {fns : List Fn} (allowed : within fns s a)
include allowed

theorem allocApart_of_absent (absent : .kthreadMutexAlloc ∉ fns) : AllocApart s a := by
  cases a with
  | run t o =>
    have other : (s.pc t).fn ≠ .kthreadMutexAlloc := fun same => absent (same ▸ allowed)
    refine ⟨?_,?_⟩
    · intro i member
      unfold allocTarget at member
      split at member
      next place => exact absurd (by rw [place]; rfl) other
      next => simp at member
    · intro i place
      exact absurd (by rw [place]; rfl) other
  | _ => trivial

theorem deallocApart_of_absent (absent : .kthreadMutexDealloc ∉ fns) : DeallocApart s a := by
  cases a with
  | run t o =>
    have other : (s.pc t).fn ≠ .kthreadMutexDealloc := fun same => absent (same ▸ allowed)
    intro i member
    unfold deallocTarget at member
    split at member
    next place => exact absurd (by rw [place]; rfl) other
    next => simp at member
  | _ => trivial

theorem birthApart_of_absent (create : .kthreadCreate ∉ fns) (fork : .fork ∉ fns) : BirthApart s a := by
  cases a with
  | run t o =>
    intro nt member
    unfold birthTarget at member
    split at member
    next place => exact absurd (by simpa [within,place,Pc.fn] using allowed) create
    next place => exact absurd (by simpa [within,place,Pc.fn] using allowed) fork
    next => simp at member
  | _ => trivial

end Apart

section Events
variable (s : KState) (t u : Slot) (id id' : Int)

theorem holder_locked : Holder (s.emit (.lockRet t id 0)) u id' ↔ (u = t ∧ id' = id) ∨ Holder s u id' := by
  simp only [Holder,KState.emit,History.since,gotLock,lostLock]
  grind

theorem holder_unlocked :
    Holder (s.emit (.unlockRet t id 0)) u id' ↔ ¬ (u = t ∧ id' = id) ∧ Holder s u id' := by
  simp only [Holder,KState.emit,History.since,gotLock,lostLock]
  grind

theorem holder_created : Holder (s.emit (.created t)) u id' ↔ u ≠ t ∧ Holder s u id' := by
  simp only [Holder,KState.emit,History.since,gotLock,lostLock]
  grind

theorem holder_emit (e : Event) (kept : lostLock u id e = false) (silent : gotLock u id e = false) :
    Holder (s.emit e) u id ↔ Holder s u id := by
  rw [Holder,Holder,KState.emit,History.since_skip kept silent]

end Events

theorem goto_role (s : KState) (t u : Slot) (pc : Pc) :
    ((s.goto t pc).pc u).role = if u = t then pc.role else (s.pc u).role := by
  by_cases same : u = t
  · simp [same]
  · simp [same]

def Mutex.core (m : Mutex) : Int × Nat × MutexState × Option Slot := (m.mid,m.lock,m.state,m.holding)

structure Walk (s s' : KState) (t : Slot) (r : Role) : Prop where
  core : ∀ i, (s'.mutex i).core = (s.mutex i).core
  nextmid : s'.nextmid = s.nextmid
  holder : ∀ u id, Holder s' u id ↔ Holder s u id
  role : ∀ u, (s'.pc u).role = if u = t then r else (s.pc u).role

theorem Walk.goto {m : KState} (t : Slot) (pc : Pc)
    (core : ∀ i, (m.mutex i).core = (s.mutex i).core) (nextmid : m.nextmid = s.nextmid)
    (holder : ∀ u id, Holder m u id ↔ Holder s u id) (place : m.pc = s.pc) :
    Walk s (m.goto t pc) t pc.role where
  core := core
  nextmid := nextmid
  holder := holder
  role u := by rw [goto_role,place]

theorem core_spin (s : KState) (i j : MutexIx) (v : Mutex) (same : v.core = (s.mutex i).core) :
    ((s.setMutex i v).mutex j).core = (s.mutex j).core := by
  by_cases here : j = i
  · subst j
    simpa using same
  · simp [here]

theorem freeMutex_state (s : KState) (i : MutexIx) (found : freeMutex s = some i) :
    (s.mutex i).state = .uninitialized := by
  simpa using List.find?_some found

def Enters (s : KState) (t : Slot) : Role → Prop
  | .none | .allocRead _ => True
  | .lockHold i id => (s.mutex i).mid = id ∧ (s.mutex i).state ≠ .uninitialized ∧ s.mtableLock = none
  | .waiting i id => Locking s t i id
  | .unlockHold i id => (s.mutex i).mid = id
  | .allocHold i => (s.mutex i).state = .uninitialized ∧ ∀ u, (s.pc u).role ≠ .allocInit i
  | .allocInit i => (s.pc t).role = .allocHold i
  | .deallocHold i id => Quiet s i ∧ (s.mutex i).mid = id

namespace MutexInv

theorem free (inv : MutexInv s) (i : MutexIx) (open_ : (s.mutex i).state ≠ .closed) :
    (s.mutex i).lock = 0 ∧ (s.mutex i).holding = none := by
  rcases inv.settled i with ⟨_,closed,_⟩ | ⟨lock,_,holding⟩
  · exact absurd closed open_
  · exact ⟨lock,holding⟩

theorem alone (inv : MutexInv s) (t u : Slot) (first : (s.pc t).role.keepsMtable = true)
    (second : (s.pc u).role.keepsMtable = true) : t = u :=
  Option.some.inj ((inv.mtable t first).symm.trans (inv.mtable u second))

theorem walk {t : Slot} {r : Role} (inv : MutexInv s) (w : Walk s s' t r)
    (mtable : ∀ u, (s'.pc u).role.keepsMtable = true → s'.mtableLock = some u)
    (enters : Enters s t r) : MutexInv s' := by
  have core (i : MutexIx) : (s'.mutex i).mid = (s.mutex i).mid ∧ (s'.mutex i).lock = (s.mutex i).lock ∧
      (s'.mutex i).state = (s.mutex i).state ∧ (s'.mutex i).holding = (s.mutex i).holding := by
    simpa [Mutex.core] using w.core i
  have mid i := (core i).1
  have lock i := (core i).2.1
  have state i := (core i).2.2.1
  have holding i := (core i).2.2.2
  have locking : ∀ u i id, Locking s' u i id → Locking s u i id ∨
      (s.mutex i).mid = id ∧ (s.mutex i).state ≠ .uninitialized ∧ s.mtableLock = none := by
    intro u i id inside
    unfold Locking at inside ⊢
    rw [w.role] at inside
    by_cases here : u = t
    · subst u
      rw [if_pos rfl] at inside
      rcases inside with hold | wait
      · subst hold
        exact .inr enters
      · subst wait
        exact .inl enters
    · rw [if_neg here] at inside
      exact .inl inside
  have quiet : ∀ i u, (s.pc u).role.keepsMtable = true → Quiet s i → Quiet s' i := by
    intro i u keeps old
    refine ⟨by rw [state]; exact old.1,?_⟩
    intro v id inside
    rcases locking v i id inside with before | ⟨_,_,unlocked⟩
    · exact old.2 v id before
    · rw [inv.mtable u keeps] at unlocked
      contradiction
  constructor
  · exact inv.same (fun i => ⟨mid i,state i⟩) w.nextmid
  · intro i
    have old := inv.settled i
    simpa only [Mutex.Settled,lock,state,holding] using old
  · intro i h
    rw [holding,mid,w.holder]
    exact inv.owner i h
  · intro u id held
    obtain ⟨i,same,owned⟩ := inv.held u id ((w.holder u id).mp held)
    exact ⟨i,by rw [mid]; exact same,by rw [holding]; exact owned⟩
  · intro u i id inside
    rw [mid,state]
    rcases locking u i id inside with before | ⟨same,ready,_⟩
    · exact inv.locking u i id before
    · exact ⟨same,ready⟩
  · exact mtable
  · intro u i hold
    rw [state]
    by_cases here : u = t
    · subst u
      rw [w.role,if_pos rfl] at hold
      subst hold
      refine ⟨enters.1,?_⟩
      intro v
      rw [w.role]
      split
      · simp
      · exact enters.2 v
    · rw [w.role,if_neg here] at hold
      refine ⟨(inv.allocHold u i hold).1,?_⟩
      intro v init
      rw [w.role] at init
      split at init
      · subst init
        exact here (inv.alone u t (by rw [hold]; rfl) (by rw [enters]; rfl))
      · exact (inv.allocHold u i hold).2 v init
  · intro u i init
    rw [state]
    by_cases here : u = t
    · subst u
      rw [w.role,if_pos rfl] at init
      subst init
      exact (inv.allocHold t i enters).1
    · rw [w.role,if_neg here] at init
      exact inv.allocInit u i init
  · intro u v i first second
    rw [w.role] at first second
    split at first <;> split at second
    next here there => exact here.trans there.symm
    next here there =>
      subst first
      exact absurd second ((inv.allocHold t i enters).2 v)
    next here there =>
      subst second
      exact absurd first ((inv.allocHold t i enters).2 u)
    next here there => exact inv.allocOnce u v i first second
  · intro u i id hold
    rw [mid]
    by_cases here : u = t
    · subst u
      rw [w.role,if_pos rfl] at hold
      subst hold
      exact .inl enters
    · rw [w.role,if_neg here] at hold
      rcases inv.unlocking u i id hold with same | old
      · exact .inl same
      · exact .inr (quiet i u (by rw [hold]; rfl) old)
  · intro u i id hold
    rw [mid]
    by_cases here : u = t
    · subst u
      rw [w.role,if_pos rfl] at hold
      subst hold
      refine ⟨⟨by rw [state]; exact enters.1.1,?_⟩,fun _ => enters.2⟩
      intro v id' inside
      unfold Locking at inside
      rw [w.role] at inside
      split at inside
      · simp at inside
      · exact enters.1.2 v id' inside
    · rw [w.role,if_neg here] at hold
      have old := inv.deallocating u i id hold
      exact ⟨quiet i u (by rw [hold]; rfl) old.1,old.2⟩

theorem frame (inv : MutexInv s) (same : MutexFrame s s') : MutexInv s' := by
  have locking : ∀ u i id, Locking s' u i id → Locking s u i id := by
    intro u i id inside
    unfold Locking at inside ⊢
    rcases same.pc u with none | kept
    · simp [none] at inside
    · rwa [kept] at inside
  have quiet : ∀ i, Quiet s i → Quiet s' i := by
    intro i old
    refine ⟨by rw [same.mutex]; exact old.1,?_⟩
    intro v id inside
    exact old.2 v id (locking v i id inside)
  -- a frame step only takes threads out of the mutex calls
  have role : ∀ u r, r ≠ .none → (s'.pc u).role = r → (s.pc u).role = r := by
    intro u r some place
    rcases same.pc u with none | kept
    · exact absurd (place.symm.trans none) some
    · exact kept.symm.trans place
  constructor
  · exact inv.same (fun i => by simp [same.mutex]) same.nextmid
  · rw [same.mutex]
    exact inv.settled
  · intro i h
    rw [same.mutex,same.holder]
    exact inv.owner i h
  · intro t id held
    rw [same.mutex]
    exact inv.held t id ((same.holder t id).mp held)
  · intro t i id inside
    rw [same.mutex]
    exact inv.locking t i id (locking t i id inside)
  · intro t keeps
    rw [same.mtableLock]
    refine inv.mtable t ?_
    rcases same.pc t with none | kept
    · simp [none,Role.keepsMtable] at keeps
    · rwa [kept] at keeps
  · intro t i hold
    rw [same.mutex]
    have old := inv.allocHold t i (role t _ (by simp) hold)
    exact ⟨old.1,fun u init => old.2 u (role u _ (by simp) init)⟩
  · intro t i init
    rw [same.mutex]
    exact inv.allocInit t i (role t _ (by simp) init)
  · intro t u i first second
    exact inv.allocOnce t u i (role t _ (by simp) first) (role u _ (by simp) second)
  · intro t i id hold
    rw [same.mutex]
    exact (inv.unlocking t i id (role t _ (by simp) hold)).imp_right (quiet i)
  · intro t i id hold
    rw [same.mutex]
    exact (inv.deallocating t i id (role t _ (by simp) hold)).imp_left (quiet i)

section Sections
variable {s s' : KState} {t : Slot} {r : Role} (inv : MutexInv s)
include inv

theorem walk_same (w : Walk s s' t r) (lock : s'.mtableLock = s.mtableLock)
    (leaves : r.keepsMtable = false) (enters : Enters s t r) : MutexInv s' := by
  refine inv.walk w ?_ enters
  intro u keeps
  rw [w.role] at keeps
  split at keeps
  · simp [leaves] at keeps
  · rw [lock]
    exact inv.mtable u keeps

theorem walk_give (w : Walk s s' t r)
    (owned : s.mtableLock = none ∨ s.mtableLock = some t) (leaves : r.keepsMtable = false)
    (enters : Enters s t r) : MutexInv s' := by
  refine inv.walk w ?_ enters
  intro u keeps
  rw [w.role] at keeps
  split at keeps
  next here => simp [leaves] at keeps
  next other =>
    have kept := inv.mtable u keeps
    rcases owned with none | mine
    · rw [none] at kept
      contradiction
    · rw [mine] at kept
      exact absurd (Option.some.inj kept).symm other

theorem walk_take (w : Walk s s' t r) (lock : s'.mtableLock = some t) (free : s.mtableLock = none)
    (enters : Enters s t r) : MutexInv s' := by
  refine inv.walk w ?_ enters
  intro u keeps
  rw [w.role] at keeps
  split at keeps
  next here => rw [lock,here]
  next other =>
    have kept := inv.mtable u keeps
    rw [free] at kept
    contradiction

theorem lockCall (id word : Int) (free : s.mtableLock = none) :
    MutexInv (kthreadMutexLock s t id word) := by
  have refused : MutexInv ((s.emit (.lockRet t id (-1))).sysret t) := by
    refine inv.walk_same (Walk.goto t .retKilled (fun _ => rfl) rfl ?_ rfl) rfl rfl trivial
    intro u id'
    exact holder_emit s u id' _ rfl (by simp [gotLock])
  unfold kthreadMutexLock
  split
  next missing => exact refused
  next i found =>
    split
    next bad => exact refused
    next good =>
      refine inv.walk_take (Walk.goto t (.lockHold i id) ?_ ?_ ?_ ?_) rfl free ?_
      · exact fun _ => rfl
      · rfl
      · exact fun _ _ => Iff.rfl
      · rfl
      · exact ⟨findMutex_mid s id i found,fun bad => good (.inl bad),free⟩

theorem lockGrab (i : MutexIx) (id : Int) (place : s.pc t = .lockHold i id) :
    MutexInv (lockGrab s t i id) := by
  have role : (s.pc t).role = .lockHold i id := by rw [place]; rfl
  refine inv.walk_give (Walk.goto t (.lockTry i id) ?_ ?_ ?_ ?_)
    (.inr (inv.mtable t (by rw [role]; rfl))) rfl (.inl role)
  · exact fun j => core_spin s i j _ rfl
  · rfl
  · exact fun _ _ => Iff.rfl
  · rfl

theorem lockAgain (i : MutexIx) (id : Int) (place : s.pc t = .reacquire (.mutex i id)) :
    MutexInv (lockAgain s t i id) := by
  have role : (s.pc t).role = .waiting i id := by rw [place]; rfl
  refine inv.walk_same (Walk.goto t (.lockTry i id) ?_ ?_ ?_ ?_) rfl rfl (.inr role)
  · exact fun j => core_spin s i j _ rfl
  · rfl
  · exact fun _ _ => Iff.rfl
  · rfl

theorem lockWait (i : MutexIx) (id : Int) (place : s.pc t = .lockTry i id)
    (taken : (s.mutex i).lock ≠ 0) : MutexInv (lockTry s t i id) := by
  have role : (s.pc t).role = .waiting i id := by rw [place]; rfl
  have locked : (s.mutex i).lock = 1 := by
    rcases inv.settled i with ⟨lock,_⟩ | ⟨lock,_⟩
    · exact lock
    · exact absurd lock taken
  unfold lockTry
  rw [if_pos taken]
  refine inv.walk_same (Walk.goto t (.sleepHold (.mutex i) (.mutex i id)) ?_ ?_ ?_ ?_) rfl rfl
    (.inr role)
  · refine fun j => core_spin s i j _ ?_
    simp [Mutex.core,locked]
  · rfl
  · exact fun _ _ => Iff.rfl
  · rfl

theorem unlockCall (id : Int) (free : s.mtableLock = none) : MutexInv (kthreadMutexUnlock s t id) := by
  unfold kthreadMutexUnlock
  split
  next missing =>
    refine inv.walk_same (Walk.goto t .retKilled (fun _ => rfl) rfl ?_ rfl) rfl rfl trivial
    intro u id'
    exact holder_emit s u id' _ (by simp [lostLock]) rfl
  next i found =>
    refine inv.walk_take (Walk.goto t (.unlockHold i id) ?_ ?_ ?_ ?_) rfl free
      (findMutex_mid s id i found)
    · exact fun _ => rfl
    · rfl
    · exact fun _ _ => Iff.rfl
    · rfl

theorem unlockRefused (i : MutexIx) (id word : Int) (place : s.pc t = .unlockHold i id)
    (bad : (s.mutex i).state ≠ .closed ∨ holdingTid s i word ≠ (s.thread t).tid) :
    MutexInv (unlockBody s t i id word) := by
  have role : (s.pc t).role = .unlockHold i id := by rw [place]; rfl
  unfold unlockBody
  rw [if_pos bad]
  refine inv.walk_give (Walk.goto t .retKilled (fun _ => rfl) rfl ?_ rfl)
    (.inr (inv.mtable t (by rw [role]; rfl))) rfl trivial
  intro u id'
  exact holder_emit s u id' _ (by simp [lostLock]) rfl

theorem allocCall (free : s.mtableLock = none)
    (apart : ∀ i, freeMutex s = some i → ∀ u, (s.pc u).role ≠ .allocInit i) :
    MutexInv (kthreadMutexAlloc s t) := by
  unfold kthreadMutexAlloc
  split
  next full =>
    refine inv.walk_same (Walk.goto t .retKilled (fun _ => rfl) rfl ?_ rfl) rfl rfl trivial
    intro u id'
    exact holder_emit s u id' _ rfl rfl
  next i found =>
    refine inv.walk_take (Walk.goto t (.allocHold i) ?_ ?_ ?_ ?_) rfl free
      ⟨freeMutex_state s i found,apart i found⟩
    · exact fun _ => rfl
    · rfl
    · exact fun _ _ => Iff.rfl
    · rfl

theorem allocGrab (i : MutexIx) (place : s.pc t = .allocHold i) : MutexInv (allocGrab s t i) := by
  have role : (s.pc t).role = .allocHold i := by rw [place]; rfl
  refine inv.walk_give (Walk.goto t (.allocInit i) ?_ ?_ ?_ ?_)
    (.inr (inv.mtable t (by rw [role]; rfl))) rfl role
  · exact fun j => core_spin s i j _ rfl
  · rfl
  · exact fun _ _ => Iff.rfl
  · rfl

theorem allocRead (i : MutexIx) : MutexInv (allocRead s t i) := by
  refine inv.walk_same (Walk.goto t .retKilled (fun _ => rfl) rfl ?_ rfl) rfl rfl trivial
  intro u id'
  exact holder_emit s u id' _ rfl rfl

theorem deallocReturn (id result : Int) (k : DeallocRet) : MutexInv (deallocReturn s t id result k) := by
  cases k with
  | sys =>
    refine inv.walk_same (Walk.goto t .retKilled (fun _ => rfl) rfl ?_ rfl) rfl rfl trivial
    exact fun u id' => holder_emit s u id' _ rfl rfl
  | exit j =>
    refine inv.walk_same (Walk.goto t (.exitMutexes (j+1)) (fun _ => rfl) rfl ?_ rfl) rfl rfl trivial
    exact fun u id' => holder_emit s u id' _ rfl rfl

theorem deallocCall (id : Int) (k : DeallocRet) (free : s.mtableLock = none)
    (apart : ∀ i, findMutex s id = some i →
      ¬ ((s.mutex i).state = .closed ∨ (s.mutex i).numOfWaiting ≠ 0) →
      ∀ u, (s.pc u).role.locks ≠ some i) : MutexInv (kthreadMutexDealloc s t id k) := by
  unfold kthreadMutexDealloc
  split
  next missing => exact inv.deallocReturn id (-1) k
  next i found =>
    split
    next busy => exact inv.deallocReturn id (-1) k
    next idle =>
      refine inv.walk_take (Walk.goto t (.deallocHold i id k) ?_ ?_ ?_ ?_) rfl free
        ⟨⟨fun closed => idle (.inl closed),?_⟩,findMutex_mid s id i found⟩
      · exact fun _ => rfl
      · rfl
      · exact fun _ _ => Iff.rfl
      · rfl
      · exact fun u id' inside => apart i found idle u inside.locks

end Sections

structure Rewrite (s s' : KState) (t : Slot) (i : MutexIx) (v : Mutex) : Prop where
  slot : s'.mutex i = v
  others : ∀ j, j ≠ i → s'.mutex j = s.mutex j
  role : ∀ u, u ≠ t → (s'.pc u).role = (s.pc u).role
  leaves : (s'.pc t).role = .none ∨ (s'.pc t).role = .allocRead i
  mtable : s'.mtableLock = s.mtableLock ∨ (s.pc t).role.keepsMtable = true
  nextmid : s.nextmid ≤ s'.nextmid ∧ s'.nextmid < 2^31
  mid : v.mid = 0 ∨ v.mid = (s.mutex i).mid ∨ v.mid = s.nextmid

namespace Rewrite

theorem goto {m : KState} (t : Slot) (pc : Pc) (i : MutexIx) (v : Mutex)
    (mutex : m.mutex = Function.update s.mutex i v) (place : m.pc = s.pc)
    (leaves : pc.role = .none ∨ pc.role = .allocRead i)
    (mtable : m.mtableLock = s.mtableLock ∨ (s.pc t).role.keepsMtable = true)
    (nextmid : s.nextmid ≤ m.nextmid ∧ m.nextmid < 2^31)
    (mid : v.mid = 0 ∨ v.mid = (s.mutex i).mid ∨ v.mid = s.nextmid) :
    Rewrite s (m.goto t pc) t i v where
  slot := by simp [mutex]
  others j other := by simp [mutex,other]
  role u other := by rw [goto_role,if_neg other,place]
  leaves := by rw [goto_role,if_pos rfl]; exact leaves
  mtable := mtable
  nextmid := nextmid
  mid := mid

variable {s s' : KState} {t : Slot} {i : MutexIx} {v : Mutex} (w : Rewrite s s' t i v)
include w

theorem old_role (u : Slot) (r : Role) (some : r ≠ .none) (other : ∀ j, r ≠ .allocRead j)
    (place : (s'.pc u).role = r) : u ≠ t ∧ (s.pc u).role = r := by
  by_cases here : u = t
  · subst here
    rcases w.leaves with none | read
    · exact absurd (place.symm.trans none) some
    · exact absurd (place.symm.trans read) (other i)
  · exact ⟨here,(w.role u here).symm.trans place⟩

theorem old_locking (u : Slot) (j : MutexIx) (id : Int) (inside : Locking s' u j id) :
    u ≠ t ∧ Locking s u j id := by
  rcases inside with hold | wait
  · obtain ⟨other,old⟩ := w.old_role u _ (by simp) (by simp) hold
    exact ⟨other,.inl old⟩
  · obtain ⟨other,old⟩ := w.old_role u _ (by simp) (by simp) wait
    exact ⟨other,.inr old⟩

theorem quiet (j : MutexIx) (other : j ≠ i) (old : Quiet s j) : Quiet s' j := by
  refine ⟨by rw [w.others j other]; exact old.1,?_⟩
  intro u id inside
  exact old.2 u id (w.old_locking u j id inside).2

end Rewrite

theorem holder_iff (inv : MutexInv s) (t : Slot) (id : Int) :
    Holder s t id ↔ ∃ i, (s.mutex i).holding = some t ∧ (s.mutex i).mid = id := by
  constructor
  · intro held
    obtain ⟨i,mid,owned⟩ := inv.held t id held
    exact ⟨i,owned,mid⟩
  · rintro ⟨i,owned,rfl⟩
    exact inv.owner i t owned

theorem rewrite {t : Slot} {i : MutexIx} {v : Mutex} (inv : MutexInv s)
    (w : Rewrite s s' t i v) (settled : v.Settled)
    (named : v.Numbered s'.nextmid)
    (holder : ∀ u id, Holder s' u id ↔ v.holding = some u ∧ v.mid = id ∨
      ∃ j, j ≠ i ∧ (s.mutex j).holding = some u ∧ (s.mutex j).mid = id)
    (locking : ∀ u id, u ≠ t → Locking s u i id → v.mid = id ∧ v.state ≠ .uninitialized)
    (alloc : ∀ u, u ≠ t → (s.pc u).role = .allocHold i ∨ (s.pc u).role = .allocInit i →
      v.state = .uninitialized)
    (unlocking : ∀ u id, u ≠ t → (s.pc u).role = .unlockHold i id →
      v.mid = id ∨ v.state ≠ .closed ∧ ∀ x id', ¬ Locking s' x i id')
    (deallocating : ∀ u id, u ≠ t → (s.pc u).role = .deallocHold i id →
      (v.state ≠ .closed ∧ ∀ x id', ¬ Locking s' x i id') ∧ (id ≠ 0 → v.mid = id)) :
    MutexInv s' := by
  have slot := w.slot
  have others := w.others
  constructor
  · exact inv.write slot others w.nextmid.1 w.nextmid.2 named w.mid
  · intro j
    by_cases here : j = i
    · rw [here,slot]
      exact settled
    · rw [others j here]
      exact inv.settled j
  · intro j h owned
    rw [holder]
    by_cases here : j = i
    · rw [here,slot] at owned ⊢
      exact .inl ⟨owned,rfl⟩
    · rw [others j here] at owned ⊢
      exact .inr ⟨j,here,owned,rfl⟩
  · intro u id held
    rcases (holder u id).mp held with ⟨owned,mid⟩ | ⟨j,other,owned,mid⟩
    · exact ⟨i,by rw [slot]; exact mid,by rw [slot]; exact owned⟩
    · exact ⟨j,by rw [others j other]; exact mid,by rw [others j other]; exact owned⟩
  · intro u j id inside
    obtain ⟨elsewhere,old⟩ := w.old_locking u j id inside
    by_cases here : j = i
    · subst here
      rw [slot]
      exact locking u id elsewhere old
    · rw [others j here]
      exact inv.locking u j id old
  · intro u keeps
    have elsewhere : u ≠ t := by
      rintro rfl
      rcases w.leaves with none | read
      · simp [none,Role.keepsMtable] at keeps
      · simp [read,Role.keepsMtable] at keeps
    rw [w.role u elsewhere] at keeps
    rcases w.mtable with same | mine
    · rw [same]
      exact inv.mtable u keeps
    · exact absurd (inv.alone u t keeps mine) elsewhere
  · intro u j hold
    obtain ⟨elsewhere,old⟩ := w.old_role u _ (by simp) (by simp) hold
    refine ⟨?_,fun x init => (inv.allocHold u j old).2 x (w.old_role x _ (by simp) (by simp) init).2⟩
    by_cases here : j = i
    · subst here
      rw [slot]
      exact alloc u elsewhere (.inl old)
    · rw [others j here]
      exact (inv.allocHold u j old).1
  · intro u j init
    obtain ⟨elsewhere,old⟩ := w.old_role u _ (by simp) (by simp) init
    by_cases here : j = i
    · subst here
      rw [slot]
      exact alloc u elsewhere (.inr old)
    · rw [others j here]
      exact inv.allocInit u j old
  · intro u x j first second
    exact inv.allocOnce u x j (w.old_role u _ (by simp) (by simp) first).2
      (w.old_role x _ (by simp) (by simp) second).2
  · intro u j id hold
    obtain ⟨elsewhere,old⟩ := w.old_role u _ (by simp) (by simp) hold
    by_cases here : j = i
    · subst here
      rw [Quiet,slot]
      exact unlocking u id elsewhere old
    · rw [others j here]
      exact (inv.unlocking u j id old).imp_right (w.quiet j here)
  · intro u j id hold
    obtain ⟨elsewhere,old⟩ := w.old_role u _ (by simp) (by simp) hold
    by_cases here : j = i
    · subst here
      rw [Quiet,slot]
      exact deallocating u id elsewhere old
    · rw [others j here]
      exact (inv.deallocating u j id old).imp_left (w.quiet j here)

section Changes
variable {s : KState} {t : Slot} (inv : MutexInv s)
include inv

theorem lockTaken (i : MutexIx) (id : Int) (place : s.pc t = .lockTry i id)
    (free : (s.mutex i).lock = 0) : MutexInv (lockTry s t i id) := by
  have role : (s.pc t).role = .waiting i id := by rw [place]; rfl
  obtain ⟨mid,ready⟩ := inv.locking t i id (.inr role)
  have vacant : (s.mutex i).holding = none := by
    rcases inv.settled i with ⟨lock,_⟩ | ⟨_,_,holding⟩
    · rw [free] at lock
      contradiction
    · exact holding
  have busy : ¬ Quiet s i := fun quiet => quiet.2 t id (.inr role)
  unfold lockTry
  rw [if_neg (not_not.mpr free)]
  let v : Mutex := {s.mutex i with lock := 1, state := .closed, holding := some t, mutexLock := none}
  have w : Rewrite s (((s.setMutex i v).emit (.lockRet t id 0)).sysret t) t i v :=
    .goto t .retKilled i v rfl rfl (.inl rfl) (.inl rfl) ⟨le_refl _,inv.nextmid.2⟩
      (.inr (.inl rfl))
  refine inv.rewrite w ?_ ?_ ?_ ?_ ?_ ?_ ?_
  · exact .inl ⟨rfl,rfl,by simp [v]⟩
  · rcases inv.named i with ⟨bad,_⟩ | ⟨_,bounds⟩
    · exact absurd bad ready
    · exact .inr ⟨by simp [v],bounds⟩
  · intro u id'
    refine (holder_locked _ t u id id').trans ?_
    change u = t ∧ id' = id ∨ Holder s u id' ↔ some t = some u ∧ (s.mutex i).mid = id' ∨ _
    rw [inv.holder_iff u id',mid]
    constructor
    · rintro (⟨rfl,rfl⟩ | ⟨j,owned,same⟩)
      · exact .inl ⟨rfl,rfl⟩
      · refine .inr ⟨j,?_,owned,same⟩
        rintro rfl
        rw [vacant] at owned
        contradiction
    · rintro (⟨owned,rfl⟩ | ⟨j,_,owned,same⟩)
      · exact .inl ⟨(Option.some.inj owned).symm,rfl⟩
      · exact .inr ⟨j,owned,same⟩
  · intro u id' _ inside
    exact ⟨(inv.locking u i id' inside).1,by simp [v]⟩
  · rintro u _ (hold | init)
    · exact absurd (inv.allocHold u i hold).1 ready
    · exact absurd (inv.allocInit u i init) ready
  · intro u id' _ hold
    exact (inv.unlocking u i id' hold).imp_right (fun quiet => absurd quiet busy)
  · intro u id' _ hold
    exact absurd (inv.deallocating u i id' hold).1 busy

theorem unlockDone (i : MutexIx) (id word : Int) (place : s.pc t = .unlockHold i id)
    (closed : (s.mutex i).state = .closed) (mine : (s.mutex i).holding = some t)
    (good : ¬ ((s.mutex i).state ≠ .closed ∨ holdingTid s i word ≠ (s.thread t).tid)) :
    MutexInv (unlockBody s t i id word) := by
  have role : (s.pc t).role = .unlockHold i id := by rw [place]; rfl
  have mid : (s.mutex i).mid = id := by
    rcases inv.unlocking t i id role with same | quiet
    · exact same
    · exact absurd closed quiet.1
  have ready : 0 < (s.mutex i).mid ∧ (s.mutex i).mid < s.nextmid := by
    rcases inv.named i with ⟨bad,_⟩ | ⟨_,bounds⟩
    · rw [closed] at bad
      contradiction
    · exact bounds
  unfold unlockBody
  rw [if_neg good]
  let v : Mutex := {s.mutex i with lock := 0, state := .opened, holding := none}
  obtain ⟨thread,woken⟩ := wakeSleeper_rest ({s with mtableLock := none}.setMutex i v) t.1 i
  rw [woken]
  refine inv.rewrite (.goto t .retKilled i v rfl rfl (.inl rfl)
    (.inr (by rw [role]; rfl)) ⟨le_refl _,inv.nextmid.2⟩ (.inr (.inl rfl))) ?_ ?_ ?_ ?_ ?_ ?_ ?_
  · exact .inr ⟨rfl,by simp [v],rfl⟩
  · exact .inr ⟨by simp [v],ready⟩
  · intro u id'
    refine (holder_unlocked _ t u id id').trans ?_
    change ¬ (u = t ∧ id' = id) ∧ Holder s u id' ↔ none = some u ∧ _ ∨ _
    rw [inv.holder_iff u id']
    constructor
    · rintro ⟨other,j,owned,same⟩
      refine .inr ⟨j,?_,owned,same⟩
      rintro rfl
      rw [mine] at owned
      exact other ⟨(Option.some.inj owned).symm,same.symm.trans mid⟩
    · rintro (⟨bad,_⟩ | ⟨j,other,owned,same⟩)
      · contradiction
      · refine ⟨?_,j,owned,same⟩
        rintro ⟨rfl,rfl⟩
        exact other (inv.mids j i (same.trans mid.symm) (by omega))
  · intro u id' _ inside
    exact ⟨(inv.locking u i id' inside).1,by simp [v]⟩
  · rintro u _ (hold | init)
    · rw [(inv.allocHold u i hold).1] at closed
      contradiction
    · rw [inv.allocInit u i init] at closed
      contradiction
  · intro u id' other hold
    exact absurd (inv.alone u t (by rw [hold]; rfl) (by rw [role]; rfl)) other
  · intro u id' other hold
    exact absurd (inv.alone u t (by rw [hold]; rfl) (by rw [role]; rfl)) other

theorem allocInited (i : MutexIx) (place : s.pc t = .allocInit i) (few : s.nextmid < 2^31-1) :
    MutexInv (Kthreads.allocInit s t i) := by
  have role : (s.pc t).role = .allocInit i := by rw [place]; rfl
  have raw := inv.allocInit t i role
  have vacant := (inv.free i (by rw [raw]; simp)).2
  have next : next32 s.nextmid = s.nextmid+1 := next32_eq _ (by have := inv.nextmid; omega) few
  have outside : ∀ u id, ¬ Locking s u i id := fun u id inside => (inv.locking u i id inside).2 raw
  let v : Mutex := {
    mid := s.nextmid, lock := 0, numOfWaiting := 0, mutexLock := none, state := .opened,
    holding := none, pidHolder := (s.proc t.1).pid}
  have w : Rewrite s (Kthreads.allocInit s t i) t i v := by
    refine .goto t (.allocRead i) i v rfl rfl (.inr rfl) (.inl rfl) ?_ (.inr (.inr rfl))
    change s.nextmid ≤ next32 s.nextmid ∧ next32 s.nextmid < 2^31
    omega
  refine inv.rewrite w ?_ ?_ ?_ ?_ ?_ ?_ ?_
  · exact .inr ⟨rfl,by simp [v],rfl⟩
  · refine .inr ⟨by simp [v],inv.nextmid.1,?_⟩
    change s.nextmid < next32 s.nextmid
    omega
  · intro u id'
    change Holder s u id' ↔ none = some u ∧ _ ∨ _
    rw [inv.holder_iff u id']
    constructor
    · rintro ⟨j,owned,same⟩
      refine .inr ⟨j,?_,owned,same⟩
      rintro rfl
      rw [vacant] at owned
      contradiction
    · rintro (⟨bad,_⟩ | ⟨j,_,owned,same⟩)
      · contradiction
      · exact ⟨j,owned,same⟩
  · intro u id' _ inside
    exact absurd inside (outside u id')
  · rintro u other (hold | init)
    · exact absurd role ((inv.allocHold u i hold).2 t)
    · exact absurd (inv.allocOnce u t i init role) other
  · intro u id' _ hold
    exact .inr ⟨by simp [v],fun x id'' inside => outside x id'' (w.old_locking x i id'' inside).2⟩
  · intro u id' _ hold
    refine ⟨⟨by simp [v],fun x id'' inside => outside x id'' (w.old_locking x i id'' inside).2⟩,?_⟩
    intro nonzero
    have old := (inv.deallocating u i id' hold).2 nonzero
    rcases inv.named i with ⟨_,zero⟩ | ⟨bad,_⟩
    · exact absurd (old.symm.trans zero) nonzero
    · exact absurd raw bad

theorem deallocDone (i : MutexIx) (id : Int) (k : DeallocRet) (place : s.pc t = .deallocHold i id k) :
    MutexInv (deallocBody s t i id k) := by
  have role : (s.pc t).role = .deallocHold i id := by rw [place]; rfl
  obtain ⟨quiet,_⟩ := inv.deallocating t i id role
  have vacant := (inv.free i quiet.1).2
  let v : Mutex := {s.mutex i with
    holding := none, mid := 0, lock := 0, numOfWaiting := 0, pidHolder := 0, state := .uninitialized}
  have w : Rewrite s (deallocBody s t i id k) t i v := by
    cases k with
    | sys =>
      exact .goto t .retKilled i v rfl rfl (.inl rfl) (.inr (by rw [role]; rfl))
        ⟨le_refl _,inv.nextmid.2⟩ (.inl rfl)
    | exit j =>
      exact .goto t (.exitMutexes (j+1)) i v rfl rfl (.inl rfl) (.inr (by rw [role]; rfl))
        ⟨le_refl _,inv.nextmid.2⟩ (.inl rfl)
  have holder : ∀ u id', Holder (deallocBody s t i id k) u id' ↔ Holder s u id' := by
    intro u id'
    cases k <;> exact holder_emit _ u id' _ rfl rfl
  refine inv.rewrite w ?_ ?_ ?_ ?_ ?_ ?_ ?_
  · exact .inr ⟨rfl,by simp [v],rfl⟩
  · exact .inl ⟨rfl,rfl⟩
  · intro u id'
    change _ ↔ none = some u ∧ _ ∨ _
    rw [holder,inv.holder_iff u id']
    constructor
    · rintro ⟨j,owned,same⟩
      refine .inr ⟨j,?_,owned,same⟩
      rintro rfl
      rw [vacant] at owned
      contradiction
    · rintro (⟨bad,_⟩ | ⟨j,_,owned,same⟩)
      · contradiction
      · exact ⟨j,owned,same⟩
  · intro u id' _ inside
    exact absurd inside (quiet.2 u id')
  · intro u _ _
    rfl
  · intro u id' other hold
    exact absurd (inv.alone u t (by rw [hold]; rfl) (by rw [role]; rfl)) other
  · intro u id' other hold
    exact absurd (inv.alone u t (by rw [hold]; rfl) (by rw [role]; rfl)) other

theorem created (nt : Slot) (k : Pc) (role : k.role = .none)
    (apart : ∀ i, (s.mutex i).holding ≠ some nt) : MutexInv ((allocthread s nt).goto t k) := by
  have w : Walk s ((allocthread s nt).goto t k) t .none := by
    refine role ▸ Walk.goto t k (fun _ => rfl) rfl ?_ rfl
    intro u id
    refine (holder_created _ nt u id).trans ?_
    refine ⟨fun held => held.2,fun held => ⟨?_,held⟩⟩
    rintro rfl
    obtain ⟨i,_,owned⟩ := inv.held u id held
    exact apart i owned
  exact inv.walk_same w rfl rfl trivial

/-- The thread that passes the test of `kthread_mutex_unlock` is the one in `holding`. -/
theorem unlocker (tids : TidInv s) (on : s.cpu t = .on) (i : MutexIx) (word : Int)
    (closed : (s.mutex i).state = .closed) (mine : holdingTid s i word = (s.thread t).tid) :
    (s.mutex i).holding = some t := by
  rcases inv.settled i with ⟨_,_,owned⟩ | ⟨_,open_,_⟩
  · obtain ⟨h,owner⟩ := Option.ne_none_iff_exists'.mp owned
    simp only [holdingTid,owner] at mine
    rw [owner,tids.unique t h mine.symm (tids.running t on)]
  · exact absurd closed open_

theorem unlock (tids : TidInv s) (on : s.cpu t = .on) (i : MutexIx) (id word : Int)
    (place : s.pc t = .unlockHold i id) : MutexInv (unlockBody s t i id word) := by
  by_cases bad : (s.mutex i).state ≠ .closed ∨ holdingTid s i word ≠ (s.thread t).tid
  · exact inv.unlockRefused i id word place bad
  · have closed : (s.mutex i).state = .closed := by
      by_contra open_
      exact bad (.inl open_)
    have same : holdingTid s i word = (s.thread t).tid := by
      by_contra other
      exact bad (.inr other)
    exact inv.unlockDone i id word place closed (inv.unlocker tids on i word closed same) bad

end Changes

theorem step {a : Action} (inv : MutexInv s) (tids : TidInv s)
    (alloc : AllocApart s a) (dealloc : DeallocApart s a) (birth : BirthApart s a)
    (taken : MutexStep s a s') : MutexInv s' := by
  cases taken with
  | frame same => exact inv.frame same
  | created t o p nt k site found role =>
    refine inv.created nt k role (birth nt ?_)
    rcases site with ⟨place,rfl⟩ | place
    · simpa [birthTarget,place] using found
    · simpa [birthTarget,place] using found
  | lockCall t o id place free => exact inv.lockCall id o.word free
  | lockGrab t o i id place free => exact inv.lockGrab i id place
  | lockTry t o i id place able =>
    by_cases taken : (s.mutex i).lock = 0
    · exact inv.lockTaken i id place taken
    · exact inv.lockWait i id place taken
  | lockAgain t o i id place free => exact inv.lockAgain i id place
  | unlockCall t o id place free => exact inv.unlockCall id free
  | unlockBody t o i id place free on => exact inv.unlock tids on i id o.word place
  | allocCall t o place free =>
    refine inv.allocCall free ?_
    intro i found
    exact alloc.1 i (by simpa [allocTarget,place] using found)
  | allocGrab t o i place free => exact inv.allocGrab i place
  | allocInit t o i place => exact inv.allocInited i place (alloc.2 i place)
  | allocRead t o i place => exact inv.allocRead i
  | deallocCall t o id k place free =>
    refine inv.deallocCall id k free ?_
    intro i found idle
    refine dealloc i ?_
    rw [not_or,not_not] at idle
    simpa [deallocTarget,place,Option.filter_eq_some_iff] using ⟨found,idle⟩
  | deallocBody t o i id k place free => exact inv.deallocDone i id k place

theorem start (start : Start s) : MutexInv s := by
  have role : ∀ t, (s.pc t).role = .none := by
    intro t
    rcases start.slot t with ready | vacant
    · rw [ready.pc]
      rfl
    · rw [vacant.pc]
      rfl
  have locking : ∀ t i id, ¬ Locking s t i id := by
    intro t i id inside
    simp [Locking,role] at inside
  have holder : ∀ t id, ¬ Holder s t id := by
    intro t id held
    simp [Holder,start.hist,History.since] at held
  constructor
  · exact .start start
  · intro i
    obtain ⟨lock,holding,raw | ready⟩ := start.mutex i
    · exact .inr ⟨lock,by simp [raw.1],holding⟩
    · exact .inr ⟨lock,by simp [ready.1],holding⟩
  · intro i h owned
    rw [(start.mutex i).2.1] at owned
    contradiction
  · intro t id held
    exact absurd held (holder t id)
  · intro t i id inside
    exact absurd inside (locking t i id)
  · intro t keeps
    simp [role,Role.keepsMtable] at keeps
  · intro t i hold
    simp [role] at hold
  · intro t i init
    simp [role] at init
  · intro t u i init
    simp [role] at init
  · intro t i id hold
    simp [role] at hold
  · intro t i id hold
    simp [role] at hold

end MutexInv

end Kthreads
