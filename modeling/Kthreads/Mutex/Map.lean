import Kthreads.Mutex.Invariant
import Mathlib.Data.Set.Card
import Mathlib.Data.Fintype.Card

/-! The mutex calls one after the other. The table stands for a map from ids to `free` or `held by tid`
of bounded size, and each call that runs from its entry to its return without another one in between
does what the call on the map does. The one exception is `kthread_mutex_dealloc(0)`: entries that are not
initialised carry the id 0. -/
open Function

namespace Kthreads

inductive MutexCall
  | alloc
  | dealloc (id : Int)
  | lock (id : Int)
  | unlock (id : Int)
  deriving DecidableEq

def MutexCall.syscall : MutexCall → Syscall
  | .alloc => .kthreadMutexAlloc
  | .dealloc id => .kthreadMutexDealloc id
  | .lock id => .kthreadMutexLock id
  | .unlock id => .kthreadMutexUnlock id

def sections (t : Slot) (word : Int) : Nat → KState → Option KState
  | 0, _ => none
  | n+1, s => (code s t {word := word}).bind fun next =>
      if next.pc t = .retKilled then some next else sections t word n next

def Event.result : Event → Option Int
  | .allocRet _ result | .deallocRet _ _ result | .lockRet _ _ result | .unlockRet _ _ result => some result
  | _ => none

/-- A whole call by `t`, with no step of another thread in between: the state after it and its result.
There is none if the call has to sleep. No call has more than four sections. -/
def perform (s : KState) (t : Slot) (c : MutexCall) (word : Int) : Option (KState × Int) :=
  (sections t word 4 (s.goto t c.syscall.entry)).bind fun s' =>
    (s'.hist.head?.bind Event.result).map fun result => (s',result)

/-- A map from ids to `free` or `held by tid`, and the ids that have been given out. -/
@[ext]
structure Mutexes where
  status : Int → Option (Option Int)
  given : Set Int

namespace Mutexes

noncomputable def size (m : Mutexes) : Nat := Set.ncard {id | m.status id ≠ none}

def set (m : Mutexes) (id : Int) (v : Option (Option Int)) : Mutexes :=
  {m with status := update m.status id v}

def grant (m : Mutexes) (id : Int) : Mutexes := {m.set id (some none) with given := insert id m.given}

@[simp]
theorem set_status (m : Mutexes) (id j : Int) (v : Option (Option Int)) :
    (m.set id v).status j = if j = id then v else m.status j := update_apply _ _ _ _

@[simp]
theorem grant_status (m : Mutexes) (id j : Int) : (m.grant id).status j = if j = id then some none else m.status j :=
  update_apply _ _ _ _

/-- The calls on a map with at most `capacity` ids, for a thread with id `tid`: the result and the map after it. -/
inductive Returns (capacity : Nat) (m : Mutexes) (tid : Int) : MutexCall → Int → Mutexes → Prop
  | alloc (id : Int) (room : m.size < capacity) (fresh : id ∉ m.given) (absent : m.status id = none)
      (valid : id ≠ -1) : Returns capacity m tid .alloc id (m.grant id)
  | full (full : capacity ≤ m.size) : Returns capacity m tid .alloc (-1) m
  | dealloc (id : Int) (free : m.status id = some none) : Returns capacity m tid (.dealloc id) 0 (m.set id none)
  | deallocRefused (id : Int) (other : m.status id ≠ some none) : Returns capacity m tid (.dealloc id) (-1) m
  | lock (id : Int) (free : m.status id = some none) : Returns capacity m tid (.lock id) 0 (m.set id (some (some tid)))
  | lockRefused (id : Int) (other : m.status id = none ∨ m.status id = some (some tid)) :
      Returns capacity m tid (.lock id) (-1) m
  | unlock (id : Int) (own : m.status id = some (some tid)) :
      Returns capacity m tid (.unlock id) 0 (m.set id (some none))
  | unlockRefused (id : Int) (other : m.status id ≠ some (some tid)) : Returns capacity m tid (.unlock id) (-1) m

end Mutexes

def entryStatus (s : KState) (i : MutexIx) : Option (Option Int) :=
  if (s.mutex i).state = .uninitialized then none else some ((s.mutex i).holding.map fun h => (s.thread h).tid)

def mutexes (s : KState) : Mutexes where
  status id := (findMutex s id).bind (entryStatus s)
  given := {id | id < s.nextmid}

structure Unlocked (s : KState) : Prop where
  mtable : s.mtableLock = none
  spin : ∀ i, (s.mutex i).mutexLock = none
  waiting : ∀ i, (s.mutex i).numOfWaiting = 0

structure Between (s : KState) : Prop extends Numbered s, Unlocked s where
  settled : ∀ i, (s.mutex i).Settled

namespace Between

theorem start {s : KState} (init : Start s) (waiting : ∀ i, (s.mutex i).numOfWaiting = 0) : Between s where
  toNumbered := .start init
  mtable := init.mtableLock
  spin := init.mutexLock
  waiting := waiting
  settled i := by
    obtain ⟨lock,holding,state⟩ := init.mutex i
    refine .inr ⟨lock,?_,holding⟩
    rcases state with ⟨raw,_⟩ | ⟨opened,_⟩
    · simp [raw]
    · simp [opened]

section Facts
variable {s : KState} (inv : Between s)
include inv

theorem status_zero : (mutexes s).status 0 = none := by
  simp only [mutexes]
  cases scan : findMutex s 0 with
  | none => rfl
  | some i =>
    have raw := (inv.mid_zero i).mp (findMutex_mid s 0 i scan)
    simp [entryStatus,raw]

theorem status_ne_none (id : Int) : (mutexes s).status id ≠ none ↔
    ∃ i, (s.mutex i).state ≠ .uninitialized ∧ (s.mutex i).mid = id := by
  constructor
  · intro present
    simp only [mutexes] at present
    cases scan : findMutex s id with
    | none => simp [scan] at present
    | some i =>
      refine ⟨i,?_,findMutex_mid s id i scan⟩
      intro raw
      simp [scan,entryStatus,raw] at present
  · rintro ⟨i,ready,rfl⟩
    have nonzero : (s.mutex i).mid ≠ 0 := fun zero => ready ((inv.mid_zero i).mp zero)
    simp [mutexes,(findMutex_iff inv.mids _ nonzero i).mpr rfl,entryStatus,ready]

theorem size_eq : (mutexes s).size =
    (Finset.univ.filter fun i : MutexIx => (s.mutex i).state ≠ .uninitialized).card := by
  have ids : {id | (mutexes s).status id ≠ none} =
      ((Finset.univ.filter fun i : MutexIx => (s.mutex i).state ≠ .uninitialized).image fun i => (s.mutex i).mid :
        Finset Int) := by
    ext id
    simp only [Set.mem_ofPred_eq,inv.status_ne_none id,Finset.coe_image,Finset.coe_filter,Set.mem_image,Finset.mem_univ,
      true_and]
  rw [Mutexes.size,ids,Set.ncard_coe_finset]
  refine Finset.card_image_of_injOn ?_
  intro i ready j _ same
  have ready : (s.mutex i).state ≠ .uninitialized := by simpa using ready
  exact inv.mids i j same fun zero => ready ((inv.mid_zero i).mp zero)

theorem size_le : (mutexes s).size ≤ maxMutexes := by
  rw [inv.size_eq]
  exact (Finset.card_le_univ _).trans (by simp)

/-- There is room in the map just if the scan of `kthread_mutex_alloc` finds an entry. -/
theorem size_lt_iff : (mutexes s).size < maxMutexes ↔ freeMutex s ≠ none := by
  rw [inv.size_eq]
  constructor
  · intro less none
    have all (i : MutexIx) : (s.mutex i).state ≠ .uninitialized := by
      have skipped := List.find?_eq_none.mp none i (List.mem_finRange i)
      simpa using skipped
    rw [Finset.filter_true_of_mem (fun i _ => all i)] at less
    simp at less
  · intro found
    obtain ⟨i,scan⟩ := Option.ne_none_iff_exists'.mp found
    have raw := freeMutex_state s i scan
    have fewer := Finset.card_lt_univ_of_notMem
      (s := Finset.univ.filter fun i : MutexIx => (s.mutex i).state ≠ .uninitialized) (x := i) (by simp [raw])
    simpa using fewer

theorem status_eq (i : MutexIx) (ready : (s.mutex i).mid ≠ 0) : (mutexes s).status (s.mutex i).mid = entryStatus s i := by
  simp [mutexes,(findMutex_iff inv.mids _ ready i).mpr rfl]

omit inv in
theorem status_none (id : Int) (absent : ∀ i, (s.mutex i).mid ≠ id) : (mutexes s).status id = none := by
  have scan : findMutex s id = none := by
    refine List.find?_eq_none.mpr fun i _ => ?_
    simpa using absent i
  simp [mutexes,scan]

end Facts

structure Untouched (s s' : KState) : Prop where
  mutex : s'.mutex = s.mutex
  nextmid : s'.nextmid = s.nextmid
  mtable : s'.mtableLock = none
  tid : ∀ u, (s'.thread u).tid = (s.thread u).tid

structure Wrote (s s' : KState) (i : MutexIx) (v : Mutex) : Prop where
  mutex : s'.mutex = update s.mutex i v
  mtable : s'.mtableLock = none
  tid : ∀ u, (s'.thread u).tid = (s.thread u).tid
  spin : v.mutexLock = none
  waiting : v.numOfWaiting = 0
  settled : v.Settled

section Effects
variable {s s' : KState} {i : MutexIx} {v : Mutex}

theorem Wrote.here (write : Wrote s s' i v) : s'.mutex i = v := by rw [write.mutex,update_self]

theorem Wrote.elsewhere (write : Wrote s s' i v) (j : MutexIx) (other : j ≠ i) : s'.mutex j = s.mutex j := by
  rw [write.mutex,update_of_ne other]

variable (inv : Between s)
include inv

theorem untouched (same : Untouched s s') : Between s' ∧ mutexes s' = mutexes s := by
  refine ⟨⟨inv.same (fun i => by simp [same.mutex]) same.nextmid,⟨same.mtable,?_,?_⟩,?_⟩,?_⟩
  · rw [same.mutex]
    exact inv.spin
  · rw [same.mutex]
    exact inv.waiting
  · rw [same.mutex]
    exact inv.settled
  · have entries : entryStatus s' = entryStatus s := by
      funext j
      simp only [entryStatus,same.mutex,same.tid]
    simp only [mutexes,entries,findMutex,same.mutex,same.nextmid]

theorem wrote (write : Wrote s s' i v) (grows : s.nextmid ≤ s'.nextmid) (few : s'.nextmid < 2^31)
    (named : v.Numbered s'.nextmid) (mid : v.mid = 0 ∨ v.mid = (s.mutex i).mid ∨ v.mid = s.nextmid) : Between s' := by
  have both (P : Mutex → Prop) (new : P v) (old : ∀ j, P (s.mutex j)) (j : MutexIx) : P (s'.mutex j) := by
    by_cases same : j = i
    · rw [same,write.here]
      exact new
    · rw [write.elsewhere j same]
      exact old j
  exact ⟨inv.write write.here write.elsewhere grows few named mid,⟨write.mtable,
    both (fun m => m.mutexLock = none) write.spin inv.spin,
    both (fun m => m.numOfWaiting = 0) write.waiting inv.waiting⟩,both Mutex.Settled write.settled inv.settled⟩

theorem wrote_status (write : Wrote s s' i v) (after : Between s') (id : Int) (nonzero : id ≠ 0) :
    (mutexes s').status id =
      if id = v.mid then entryStatus s' i else if id = (s.mutex i).mid then none else (mutexes s).status id := by
  split
  next new =>
    have named : (s'.mutex i).mid = id := by rw [write.here,new]
    rw [← named]
    exact after.status_eq i (by omega)
  next other =>
    split
    next old =>
      refine status_none id ?_
      intro j same
      by_cases at_i : j = i
      · rw [at_i,write.here] at same
        exact other same.symm
      · rw [write.elsewhere j at_i] at same
        exact at_i (inv.mids j i (same.trans old) (by omega))
    next apart =>
      by_cases present : ∃ j, (s.mutex j).mid = id
      · obtain ⟨j,rfl⟩ := present
        have at_j : j ≠ i := by
          rintro rfl
          exact apart rfl
        have same : s'.mutex j = s.mutex j := write.elsewhere j at_j
        have moved : entryStatus s' j = entryStatus s j := by simp only [entryStatus,same,write.tid]
        rw [inv.status_eq j nonzero,← moved,← same]
        exact after.status_eq j (by rw [same]; exact nonzero)
      · rw [status_none id (fun j same => present ⟨j,same⟩)]
        refine status_none id ?_
        intro j same
        by_cases at_i : j = i
        · rw [at_i,write.here] at same
          exact other same.symm
        · rw [write.elsewhere j at_i] at same
          exact present ⟨j,same⟩

end Effects
end Between

section Sections
variable {s s' : KState} {t : Slot} {word : Int} {n : Nat}

theorem sections_return (taken : code s t {word := word} = some s') (back : s'.pc t = .retKilled) :
    sections t word (n+1) s = some s' := by
  simp [sections,taken,back]

theorem sections_next (taken : code s t {word := word} = some s') (inside : s'.pc t ≠ .retKilled) :
    sections t word (n+1) s = sections t word n s' := by
  simp [sections,taken,inside]

theorem sections_stuck (stuck : code s t {word := word} = none) : sections t word n s = none := by
  cases n with
  | zero => rfl
  | succ n => simp [sections,stuck]

theorem perform_eq {c : MutexCall} {e : Event} {result : Int} {rest : List Event}
    (done : sections t word 4 (s.goto t c.syscall.entry) = some s') (hist : s'.hist = e :: rest)
    (returned : e.result = some result) : perform s t c word = some (s',result) := by
  simp [perform,done,hist,returned,-KState.goto]

end Sections

section Wake
variable (s : KState) (p : ProcIx) (i : MutexIx)

theorem wakeSleeper_table : ((wakeSleeper s p i).mutex,(wakeSleeper s p i).nextmid,(wakeSleeper s p i).mtableLock) =
    (s.mutex,s.nextmid,s.mtableLock) := by
  obtain ⟨thread,eq⟩ := wakeSleeper_rest s p i
  rw [eq]

theorem wakeSleeper_tid (u : Slot) : ((wakeSleeper s p i).thread u).tid = (s.thread u).tid := by
  unfold wakeSleeper
  split
  next => rfl
  next j found =>
    by_cases here : u = (p,j)
    · simp [here]
    · simp [here]

end Wake

namespace Unlocked
variable {s : KState} (inv : Unlocked s) (t : Slot) (word : Int)

include inv

theorem alloc_refused (none : freeMutex s = none) :
    ∃ s', perform s t .alloc word = some (s',-1) ∧ Between.Untouched s s' := by
  have first : code (s.goto t .allocCall) t {word := word} =
      some (((s.goto t .allocCall).emit (.allocRet t (-1))).sysret t) := by
    have scan : freeMutex (s.goto t .allocCall) = Option.none := none
    have free : (s.goto t .allocCall).mtableLock = Option.none := inv.mtable
    have place : (s.goto t .allocCall).pc t = .allocCall := by simp
    simp only [code,place,guarded,free,if_true,kthreadMutexAlloc,scan]
  refine ⟨_,perform_eq (sections_return first ?_) rfl rfl,?_⟩
  · simp
  · exact ⟨rfl,rfl,inv.mtable,fun _ => rfl⟩

theorem alloc_done (i : MutexIx) (found : freeMutex s = some i) :
    ∃ s', perform s t .alloc word = some (s',s.nextmid) ∧ Between.Wrote s s' i {
      mid := s.nextmid, lock := 0, numOfWaiting := 0, mutexLock := none, state := .opened,
      holding := none, pidHolder := (s.proc t.1).pid} ∧ s'.nextmid = next32 s.nextmid := by
  let s₁ := s.goto t .allocCall
  let s₂ := {s₁ with mtableLock := some t}.goto t (.allocHold i)
  let s₃ := allocGrab s₂ t i
  let s₄ := allocInit s₃ t i
  have place₁ : s₁.pc t = .allocCall := by simp [s₁]
  have place₂ : s₂.pc t = .allocHold i := by simp [s₂]
  have place₃ : s₃.pc t = .allocInit i := by simp [s₃,allocGrab]
  have place₄ : s₄.pc t = .allocRead i := by simp [s₄,allocInit]
  have first : code s₁ t {word := word} = some s₂ := by
    have scan : freeMutex s₁ = some i := found
    have free : s₁.mtableLock = none := inv.mtable
    simp only [code,place₁,guarded,free,if_true,kthreadMutexAlloc,scan,s₂]
  have second : code s₂ t {word := word} = some s₃ := by
    have free : (s₂.mutex i).mutexLock = none := inv.spin i
    simp only [code,place₂,guarded,free,if_true,s₃]
  have third : code s₃ t {word := word} = some s₄ := by simp only [code,place₃,s₄]
  have fourth : code s₄ t {word := word} = some (allocRead s₄ t i) := by simp only [code,place₄]
  have whole : sections t word 4 (s.goto t MutexCall.alloc.syscall.entry) = some (allocRead s₄ t i) := by
    change sections t word 4 s₁ = _
    rw [sections_next first (by simp [place₂]),sections_next second (by simp [place₃]),
      sections_next third (by simp [place₄]),sections_return fourth]
    simp [allocRead]
  have mid : (s₄.mutex i).mid = s.nextmid := by simp [s₄,allocInit]; rfl
  refine ⟨_,perform_eq whole rfl (by rw [← mid]; rfl),⟨?_,rfl,fun _ => rfl,rfl,rfl,.inr ⟨rfl,by simp,rfl⟩⟩,rfl⟩
  change update (update s.mutex i _) i _ = _
  rw [update_idem]
  rfl

theorem dealloc_refused (id : Int)
    (bad : ∀ i, findMutex s id = some i → (s.mutex i).state = .closed) :
    ∃ s', perform s t (.dealloc id) word = some (s',-1) ∧ Between.Untouched s s' := by
  let s₁ := s.goto t (.deallocCall id .sys)
  have first : code s₁ t {word := word} = some (deallocReturn s₁ t id (-1) .sys) := by
    have free : s₁.mtableLock = none := inv.mtable
    have place : s₁.pc t = .deallocCall id .sys := by simp [s₁]
    simp only [code,place,guarded,free,if_true,kthreadMutexDealloc]
    cases scan : findMutex s id with
    | none =>
      have scan : findMutex s₁ id = none := scan
      simp only [scan]
    | some i =>
      have closed : (s₁.mutex i).state = .closed := bad i scan
      have scan : findMutex s₁ id = some i := scan
      simp only [scan,closed,true_or,if_true]
  refine ⟨_,perform_eq (sections_return first ?_) rfl rfl,?_⟩
  · simp [deallocReturn]
  · exact ⟨rfl,rfl,inv.mtable,fun _ => rfl⟩

theorem dealloc_done (id : Int) (i : MutexIx) (found : findMutex s id = some i)
    (free : (s.mutex i).state ≠ .closed) :
    ∃ s', perform s t (.dealloc id) word = some (s',0) ∧ Between.Wrote s s' i {s.mutex i with
      holding := none, mid := 0, lock := 0, numOfWaiting := 0, pidHolder := 0, state := .uninitialized} ∧
        s'.nextmid = s.nextmid := by
  let s₁ := s.goto t (.deallocCall id .sys)
  let s₂ := {s₁ with mtableLock := some t}.goto t (.deallocHold i id .sys)
  have place₁ : s₁.pc t = .deallocCall id .sys := by simp [s₁]
  have place₂ : s₂.pc t = .deallocHold i id .sys := by simp [s₂]
  have first : code s₁ t {word := word} = some s₂ := by
    have scan : findMutex s₁ id = some i := found
    have unlocked : s₁.mtableLock = none := inv.mtable
    have passes : ¬ ((s₁.mutex i).state = .closed ∨ (s₁.mutex i).numOfWaiting ≠ 0) := by
      rw [not_or,not_not]
      exact ⟨free,inv.waiting i⟩
    simp only [code,place₁,guarded,unlocked,if_true,kthreadMutexDealloc,scan,if_neg passes,s₂]
  have second : code s₂ t {word := word} = some (deallocBody s₂ t i id .sys) := by
    have unlocked : (s₂.mutex i).mutexLock = none := inv.spin i
    simp only [code,place₂,guarded,unlocked,if_true]
  have whole : sections t word 4 (s.goto t (MutexCall.dealloc id).syscall.entry) = some (deallocBody s₂ t i id .sys) := by
    change sections t word 4 s₁ = _
    rw [sections_next first (by simp [place₂]),sections_return second]
    simp [deallocBody,deallocReturn]
  exact ⟨_,perform_eq whole rfl rfl,⟨rfl,rfl,fun _ => rfl,inv.spin i,rfl,.inr ⟨rfl,by simp,rfl⟩⟩,rfl⟩

theorem lock_refused (id : Int) (bad : ∀ i, findMutex s id = some i →
    (s.mutex i).state = .uninitialized ∨ holdingTid s i word = (s.thread t).tid) :
    ∃ s', perform s t (.lock id) word = some (s',-1) ∧ Between.Untouched s s' := by
  let s₁ := s.goto t (.lockCall id)
  have first : code s₁ t {word := word} = some ((s₁.emit (.lockRet t id (-1))).sysret t) := by
    have free : s₁.mtableLock = none := inv.mtable
    have place : s₁.pc t = .lockCall id := by simp [s₁]
    simp only [code,place,guarded,free,if_true,kthreadMutexLock]
    cases scan : findMutex s id with
    | none =>
      have scan : findMutex s₁ id = none := scan
      simp only [scan]
    | some i =>
      have refused : (s₁.mutex i).state = .uninitialized ∨ holdingTid s₁ i word = (s₁.thread t).tid := bad i scan
      have scan : findMutex s₁ id = some i := scan
      simp only [scan,if_pos refused]
  refine ⟨_,perform_eq (sections_return first ?_) rfl rfl,?_⟩
  · simp
  · exact ⟨rfl,rfl,inv.mtable,fun _ => rfl⟩

section Lock
variable (id : Int) (i : MutexIx) (found : findMutex s id = some i) (ready : (s.mutex i).state ≠ .uninitialized)
  (other : holdingTid s i word ≠ (s.thread t).tid)
include found ready other

theorem lock_enters : ∃ s₃, sections t word 4 (s.goto t (MutexCall.lock id).syscall.entry) = sections t word 2 s₃ ∧
    s₃.pc t = .lockTry i id ∧ s₃.mtableLock = none ∧ s₃.nextmid = s.nextmid ∧ s₃.thread = s.thread ∧
    s₃.mutex = update s.mutex i {s.mutex i with mutexLock := some t} := by
  let s₁ := s.goto t (.lockCall id)
  let s₂ := {s₁ with mtableLock := some t}.goto t (.lockHold i id)
  have place₁ : s₁.pc t = .lockCall id := by simp [s₁]
  have place₂ : s₂.pc t = .lockHold i id := by simp [s₂]
  have place₃ : (lockGrab s₂ t i id).pc t = .lockTry i id := by simp [lockGrab]
  have first : code s₁ t {word := word} = some s₂ := by
    have scan : findMutex s₁ id = some i := found
    have unlocked : s₁.mtableLock = none := inv.mtable
    have passes : ¬ ((s₁.mutex i).state = .uninitialized ∨ holdingTid s₁ i word = (s₁.thread t).tid) :=
      not_or.mpr ⟨ready,other⟩
    simp only [code,place₁,guarded,unlocked,if_true,kthreadMutexLock,scan,if_neg passes,s₂]
  have second : code s₂ t {word := word} = some (lockGrab s₂ t i id) := by
    have unlocked : (s₂.mutex i).mutexLock = none := inv.spin i
    simp only [code,place₂,guarded,unlocked,if_true]
  refine ⟨lockGrab s₂ t i id,?_,place₃,rfl,rfl,rfl,rfl⟩
  change sections t word 4 s₁ = _
  rw [sections_next first (by simp [place₂]),sections_next second (by simp [place₃])]

theorem lock_done (free : (s.mutex i).lock = 0) :
    ∃ s', perform s t (.lock id) word = some (s',0) ∧ Between.Wrote s s' i {s.mutex i with
      lock := 1, state := .closed, holding := some t, mutexLock := none} ∧ s'.nextmid = s.nextmid := by
  obtain ⟨s₃,enters,place,mtable,nextmid,thread,mutex⟩ := lock_enters inv t word id i found ready other
  have here : s₃.mutex i = {s.mutex i with mutexLock := some t} := by rw [mutex,update_self]
  have taken : code s₃ t {word := word} = some (lockTry s₃ t i id) := by
    have able : (s₃.mutex i).lock = 0 ∨ s₃.ptableLock = none := .inl (by rw [here]; exact free)
    simp only [code,place,guarded,if_pos able]
  have eq : lockTry s₃ t i id = ((s₃.setMutex i {s₃.mutex i with
      lock := 1, state := .closed, holding := some t, mutexLock := none}).emit (.lockRet t id 0)).sysret t := by
    have zero : ¬ (s₃.mutex i).lock ≠ 0 := by rw [here,not_not]; exact free
    simp only [lockTry,if_neg zero]
  rw [eq] at taken
  have whole := enters.trans (sections_return taken (by simp))
  refine ⟨_,perform_eq whole rfl rfl,⟨?_,mtable,?_,rfl,inv.waiting i,.inl ⟨rfl,rfl,by simp⟩⟩,nextmid⟩
  · change update s₃.mutex i _ = _
    rw [mutex,update_idem,update_self]
  · intro u
    change (s₃.thread u).tid = _
    rw [thread]

theorem lock_sleeps (held : (s.mutex i).lock ≠ 0) : perform s t (.lock id) word = none := by
  obtain ⟨s₃,enters,place,mtable,nextmid,thread,mutex⟩ := lock_enters inv t word id i found ready other
  have here : s₃.mutex i = {s.mutex i with mutexLock := some t} := by rw [mutex,update_self]
  have stuck : sections t word 2 s₃ = none := by
    have nonzero : (s₃.mutex i).lock ≠ 0 := by rw [here]; exact held
    by_cases free : s₃.ptableLock = none
    · let s₄ := sleepEnter (s₃.setMutex i {s₃.mutex i with lock := 1, mutexLock := none}) t (.mutex i) (.mutex i id)
      have place₄ : s₄.pc t = .sleepHold (.mutex i) (.mutex i id) := by simp [s₄,sleepEnter]
      have first : code s₃ t {word := word} = some s₄ := by
        simp only [code,place,guarded,free,or_true,if_true,lockTry,if_pos nonzero,s₄]
      have second : code s₄ t {word := word} = some (sleepCommit s₄ t (.mutex i) (.mutex i id)) := by
        simp only [code,place₄]
      rw [sections_next first (by simp [place₄]),sections_next second (by simp [sleepCommit])]
      rfl
    · refine sections_stuck ?_
      have unable : ¬ ((s₃.mutex i).lock = 0 ∨ s₃.ptableLock = none) := not_or.mpr ⟨nonzero,free⟩
      simp only [code,place,guarded,if_neg unable]
  simp [perform,enters,stuck,-KState.goto]

end Lock

theorem unlock_enters (id : Int) (i : MutexIx) (found : findMutex s id = some i) :
    ∃ s₂, sections t word 4 (s.goto t (MutexCall.unlock id).syscall.entry) = sections t word 3 s₂ ∧
      s₂.nextmid = s.nextmid ∧ s₂.thread = s.thread ∧ s₂.mutex = s.mutex ∧
      code s₂ t {word := word} = some (unlockBody s₂ t i id word) := by
  let s₁ := s.goto t (.unlockCall id)
  let s₂ := {s₁ with mtableLock := some t}.goto t (.unlockHold i id)
  have place₁ : s₁.pc t = .unlockCall id := by simp [s₁]
  have place₂ : s₂.pc t = .unlockHold i id := by simp [s₂]
  have first : code s₁ t {word := word} = some s₂ := by
    have unlocked : s₁.mtableLock = none := inv.mtable
    have scan : findMutex s₁ id = some i := found
    simp only [code,place₁,guarded,unlocked,if_true,kthreadMutexUnlock,scan,s₂]
  refine ⟨s₂,?_,rfl,rfl,rfl,?_⟩
  · change sections t word 4 s₁ = _
    rw [sections_next first (by simp [place₂])]
  · have free : (s₂.mutex i).mutexLock = none := inv.spin i
    simp only [code,place₂,guarded,free,if_true]

theorem unlock_refused (id : Int) (bad : ∀ i, findMutex s id = some i →
    (s.mutex i).state ≠ .closed ∨ holdingTid s i word ≠ (s.thread t).tid) :
    ∃ s', perform s t (.unlock id) word = some (s',-1) ∧ Between.Untouched s s' := by
  cases scan : findMutex s id with
  | none =>
    have first : code (s.goto t (.unlockCall id)) t {word := word} =
        some (((s.goto t (.unlockCall id)).emit (.unlockRet t id (-1))).sysret t) := by
      have unlocked : (s.goto t (.unlockCall id)).mtableLock = none := inv.mtable
      have scan : findMutex (s.goto t (.unlockCall id)) id = none := scan
      have place : (s.goto t (.unlockCall id)).pc t = .unlockCall id := by simp
      simp only [code,place,guarded,unlocked,if_true,kthreadMutexUnlock,scan]
    refine ⟨_,perform_eq (sections_return first ?_) rfl rfl,?_⟩
    · simp
    · exact ⟨rfl,rfl,inv.mtable,fun _ => rfl⟩
  | some i =>
    obtain ⟨s₂,enters,nextmid,thread,mutex,taken⟩ := unlock_enters inv t word id i scan
    have refused : (s₂.mutex i).state ≠ .closed ∨ holdingTid s₂ i word ≠ (s₂.thread t).tid := by
      simpa only [holdingTid,mutex,thread] using bad i scan
    simp only [unlockBody,if_pos refused] at taken
    have whole := enters.trans (sections_return taken (by simp))
    refine ⟨_,perform_eq whole rfl rfl,⟨mutex,nextmid,rfl,fun u => ?_⟩⟩
    change (s₂.thread u).tid = _
    rw [thread]

theorem unlock_done (id : Int) (i : MutexIx) (found : findMutex s id = some i) (closed : (s.mutex i).state = .closed)
    (mine : holdingTid s i word = (s.thread t).tid) :
    ∃ s', perform s t (.unlock id) word = some (s',0) ∧ Between.Wrote s s' i {s.mutex i with
      lock := 0, state := .opened, holding := none} ∧ s'.nextmid = s.nextmid := by
  obtain ⟨s₂,enters,nextmid,thread,mutex,taken⟩ := unlock_enters inv t word id i found
  have accepted : ¬ ((s₂.mutex i).state ≠ .closed ∨ holdingTid s₂ i word ≠ (s₂.thread t).tid) := by
    rw [not_or,not_not,not_not]
    simpa only [holdingTid,mutex,thread] using And.intro closed mine
  simp only [unlockBody,if_neg accepted] at taken
  have whole := enters.trans (sections_return taken (by simp))
  refine ⟨_,perform_eq whole rfl rfl,⟨?_,?_,?_,inv.spin i,inv.waiting i,.inr ⟨rfl,by simp,rfl⟩⟩,?_⟩
  · rw [← mutex]
    exact (Prod.mk.inj (wakeSleeper_table _ t.1 i)).1
  · exact (Prod.mk.inj (Prod.mk.inj (wakeSleeper_table _ t.1 i)).2).2
  · intro u
    rw [← thread]
    exact wakeSleeper_tid _ t.1 i u
  · rw [← nextmid]
    exact (Prod.mk.inj (Prod.mk.inj (wakeSleeper_table _ t.1 i)).2).1

end Unlocked

def Refines (s : KState) (t : Slot) (c : MutexCall) (word : Int) : Prop :=
  ∃ s' result, perform s t c word = some (s',result) ∧ Between s' ∧
    Mutexes.Returns maxMutexes (mutexes s) (s.thread t).tid c result (mutexes s')

namespace Between

section Refinement
variable {s s' : KState} {t : Slot} {c : MutexCall} {word : Int} (inv : Between s)
include inv

theorem refused (call : ∃ s', perform s t c word = some (s',-1) ∧ Untouched s s')
    (returns : Mutexes.Returns maxMutexes (mutexes s) (s.thread t).tid c (-1) (mutexes s)) : Refines s t c word := by
  obtain ⟨s',done,same⟩ := call
  obtain ⟨after,map⟩ := inv.untouched same
  exact ⟨s',-1,done,after,by rw [map]; exact returns⟩

theorem wrote_same {i : MutexIx} {v : Mutex} (write : Wrote s s' i v) (nextmid : s'.nextmid = s.nextmid)
    (raw : (s.mutex i).state ≠ .uninitialized) (state : v.state ≠ .uninitialized) (mid : v.mid = (s.mutex i).mid) :
    Between s' ∧ mutexes s' = (mutexes s).set (s.mutex i).mid (entryStatus s' i) := by
  have nonzero : (s.mutex i).mid ≠ 0 := fun zero => raw ((inv.mid_zero i).mp zero)
  have named := (inv.named i).resolve_left fun unused => raw unused.1
  have bound := inv.nextmid.2
  have after : Between s' := inv.wrote write (by omega) (by omega)
    (.inr ⟨state,by omega,by omega⟩) (.inr (.inl mid))
  refine ⟨after,?_⟩
  ext1
  · funext id
    by_cases zero : id = 0
    · subst zero
      rw [after.status_zero,Mutexes.set_status,if_neg (Ne.symm nonzero),inv.status_zero]
    · rw [inv.wrote_status write after id zero,mid,Mutexes.set_status]
      split <;> rfl
  · simp only [mutexes,nextmid,Mutexes.set]

theorem alloc_refines (word : Int) (few : s.nextmid < 2^31-1) : Refines s t .alloc word := by
  cases scan : freeMutex s with
  | none =>
    refine inv.refused (inv.alloc_refused t word scan) (.full ?_)
    by_contra room
    exact inv.size_lt_iff.mp (Nat.lt_of_not_le room) scan
  | some i =>
    obtain ⟨s',done,write,nextmid⟩ := inv.alloc_done t word i scan
    have positive := inv.nextmid.1
    rw [next32_eq _ (by omega) few] at nextmid
    have after : Between s' := inv.wrote write (by omega) (by omega)
      (.inr ⟨by simp,positive,by simp only; omega⟩) (.inr (.inr rfl))
    have zero := (inv.mid_zero i).mpr (freeMutex_state s i scan)
    have absent : (mutexes s).status s.nextmid = none := by
      refine status_none _ ?_
      intro j same
      rcases inv.named j with ⟨_,none⟩ | ⟨_,_,below⟩
      · omega
      · omega
    have map : mutexes s' = (mutexes s).grant s.nextmid := by
      ext1
      · funext id
        by_cases none : id = 0
        · subst none
          rw [after.status_zero,Mutexes.grant_status,if_neg (by omega),inv.status_zero]
        · rw [inv.wrote_status write after id none,zero,if_neg none,Mutexes.grant_status]
          simp only
          split
          · simp [entryStatus,write.mutex]
          · rfl
      · ext id
        simp only [mutexes,Mutexes.grant,nextmid,Set.mem_ofPred_eq,Set.mem_insert_iff]
        omega
    refine ⟨s',s.nextmid,done,after,?_⟩
    rw [map]
    exact .alloc s.nextmid (inv.size_lt_iff.mpr (by simp [scan])) (by simp [mutexes]) absent (by omega)

omit inv in
theorem status_found (id : Int) (i : MutexIx) (found : findMutex s id = some i) :
    (mutexes s).status id = entryStatus s i := by
  simp [mutexes,found]

omit inv in
theorem status_missing (id : Int) (missing : findMutex s id = none) : (mutexes s).status id = none := by
  simp [mutexes,missing]

theorem dealloc_refines (word id : Int) (nonzero : id ≠ 0) : Refines s t (.dealloc id) word := by
  cases scan : findMutex s id with
  | none =>
    refine inv.refused (inv.dealloc_refused t word id (by simp [scan])) (.deallocRefused id ?_)
    simp [status_missing id scan]
  | some i =>
    have mid := findMutex_mid s id i scan
    have ready : (s.mutex i).state ≠ .uninitialized := fun raw => nonzero (mid ▸ (inv.mid_zero i).mpr raw)
    have status := status_found id i scan
    rcases inv.settled i with ⟨_,closed,held⟩ | ⟨_,opened,nobody⟩
    · refine inv.refused (inv.dealloc_refused t word id ?_) (.deallocRefused id ?_)
      · intro j found
        cases scan.symm.trans found
        exact closed
      · obtain ⟨h,holding⟩ := Option.ne_none_iff_exists'.mp held
        simp [status,entryStatus,closed,holding]
    · obtain ⟨s',done,write,nextmid⟩ := inv.dealloc_done t word id i scan opened
      have after : Between s' := inv.wrote write (by omega) (by have := inv.nextmid.2; omega) (.inl ⟨rfl,rfl⟩)
        (.inl rfl)
      have map : mutexes s' = (mutexes s).set id none := by
        ext1
        · funext j
          by_cases zero : j = 0
          · subst zero
            rw [after.status_zero,Mutexes.set_status,if_neg (Ne.symm nonzero),inv.status_zero]
          · rw [inv.wrote_status write after j zero,if_neg zero,mid,Mutexes.set_status]
        · simp only [mutexes,nextmid,Mutexes.set]
      refine ⟨s',0,done,after,?_⟩
      rw [map]
      exact .dealloc id (by simp [status,entryStatus,ready,nobody])

theorem unlock_refines (word id : Int) : Refines s t (.unlock id) word := by
  cases scan : findMutex s id with
  | none =>
    refine inv.refused (inv.unlock_refused t word id (by simp [scan])) (.unlockRefused id ?_)
    simp [status_missing id scan]
  | some i =>
    have status := status_found id i scan
    have only (j : MutexIx) (found : findMutex s id = some j) : j = i := Option.some.inj (found.symm.trans scan)
    rcases inv.settled i with ⟨_,closed,held⟩ | ⟨_,opened,nobody⟩
    · obtain ⟨h,holding⟩ := Option.ne_none_iff_exists'.mp held
      have reads : holdingTid s i word = (s.thread h).tid := by simp [holdingTid,holding]
      by_cases mine : (s.thread h).tid = (s.thread t).tid
      · obtain ⟨s',done,write,nextmid⟩ := inv.unlock_done t word id i scan closed (reads.trans mine)
        have mid := findMutex_mid s id i scan
        obtain ⟨after,map⟩ := inv.wrote_same write nextmid (by simp [closed]) (by simp) rfl
        have opened : entryStatus s' i = some none := by simp [entryStatus,write.mutex]
        rw [opened,mid] at map
        refine ⟨s',0,done,after,?_⟩
        rw [map]
        exact .unlock id (by simp [status,entryStatus,closed,holding,mine])
      · refine inv.refused (inv.unlock_refused t word id ?_) (.unlockRefused id ?_)
        · intro j found
          rw [only j found,reads]
          exact .inr mine
        · simp [status,entryStatus,closed,holding,mine]
    · refine inv.refused (inv.unlock_refused t word id ?_) (.unlockRefused id ?_)
      · intro j found
        rw [only j found]
        exact .inl opened
      · simp [status,entryStatus,nobody]

/-- A call of `kthread_mutex_lock` on a mutex that another thread holds does not return. -/
theorem lock_refines (word id : Int) (apart : word ≠ (s.thread t).tid) : Refines s t (.lock id) word ∨
    perform s t (.lock id) word = none ∧ ∃ h, (mutexes s).status id = some (some h) ∧ h ≠ (s.thread t).tid := by
  cases scan : findMutex s id with
  | none =>
    refine .inl (inv.refused (inv.lock_refused t word id (by simp [scan])) (.lockRefused id ?_))
    exact .inl (status_missing id scan)
  | some i =>
    have status := status_found id i scan
    have only (j : MutexIx) (found : findMutex s id = some j) : j = i := Option.some.inj (found.symm.trans scan)
    by_cases raw : (s.mutex i).state = .uninitialized
    · refine .inl (inv.refused (inv.lock_refused t word id ?_) (.lockRefused id (.inl ?_)))
      · intro j found
        rw [only j found]
        exact .inl raw
      · simp [status,entryStatus,raw]
    · rcases inv.settled i with ⟨lock,closed,held⟩ | ⟨lock,opened,nobody⟩
      · obtain ⟨h,holding⟩ := Option.ne_none_iff_exists'.mp held
        have reads : holdingTid s i word = (s.thread h).tid := by simp [holdingTid,holding]
        by_cases mine : (s.thread h).tid = (s.thread t).tid
        · refine .inl (inv.refused (inv.lock_refused t word id ?_) (.lockRefused id (.inr ?_)))
          · intro j found
            rw [only j found,reads]
            exact .inr mine
          · simp [status,entryStatus,closed,holding,mine]
        · refine .inr ⟨inv.lock_sleeps t word id i scan raw (by rw [reads]; exact mine) (by omega),
            (s.thread h).tid,?_,mine⟩
          simp [status,entryStatus,closed,holding]
      · have reads : holdingTid s i word = word := by simp [holdingTid,nobody]
        obtain ⟨s',done,write,nextmid⟩ := inv.lock_done t word id i scan raw (by rw [reads]; exact apart) lock
        have mid := findMutex_mid s id i scan
        obtain ⟨after,map⟩ := inv.wrote_same write nextmid raw (by simp) rfl
        have taken : entryStatus s' i = some (some (s.thread t).tid) := by simp [entryStatus,write.mutex,write.tid]
        rw [taken,mid] at map
        refine .inl ⟨s',0,done,after,?_⟩
        rw [map]
        exact .lock id (by simp [status,entryStatus,raw,nobody])

end Refinement
end Between

structure MutexOp where
  thread : Slot
  call : MutexCall
  word : Int

def callStep (s : KState) (a : MutexOp) : Option KState := (perform s a.thread a.call a.word).map Prod.fst

/-- The word at the address of a null thread's `tid` is no thread's id, the id counter does not wrap
around, and nobody gives back the mutex with id 0. -/
def Admissible (s : KState) (a : MutexOp) : Prop :=
  (∀ p i, a.word ≠ (s.thread (p,i)).tid) ∧ (a.call = .alloc → s.nextmid < 2^31-1) ∧ a.call ≠ .dealloc 0

instance (s : KState) (a : MutexOp) : Decidable (Admissible s a) := inferInstanceAs (Decidable (_ ∧ _ ∧ _))

theorem Between.refines {s : KState} (inv : Between s) (a : MutexOp) (allowed : Admissible s a) :
    Refines s a.thread a.call a.word ∨ perform s a.thread a.call a.word = none ∧
      ∃ id h, a.call = .lock id ∧ (mutexes s).status id = some (some h) ∧ h ≠ (s.thread a.thread).tid := by
  obtain ⟨t,c,word⟩ := a
  obtain ⟨apart,few,nonzero⟩ := allowed
  cases c with
  | alloc => exact .inl (inv.alloc_refines word (few rfl))
  | dealloc id => exact .inl (inv.dealloc_refines word id fun zero => nonzero (by rw [zero]))
  | unlock id => exact .inl (inv.unlock_refines word id)
  | lock id =>
    rcases inv.lock_refines word id (apart t.1 t.2) with returns | ⟨sleeps,h,held,other⟩
    · exact .inl returns
    · exact .inr ⟨sleeps,id,h,rfl,held,other⟩

theorem between_reached {s₀ s : KState} (start : Start s₀) (waiting : ∀ i, (s₀.mutex i).numOfWaiting = 0)
    (reached : Interleave.Reaches callStep Admissible s₀ s) : Between s := by
  refine reached.invariant Between (.start start waiting) ?_
  intro s a s' inv allowed taken
  rcases inv.refines a allowed with ⟨after,result,done,held,_⟩ | ⟨sleeps,_⟩
  · simp only [callStep,done,Option.map_some,Option.some.injEq] at taken
    exact taken ▸ held
  · simp [callStep,sleeps] at taken

/-- Along every sequence of calls, each one returns what the call on the map returns and leaves the map
that it leaves. It does not return just if it locks a mutex that another thread holds. -/
theorem mutex_table_is_map {s₀ s : KState} (start : Start s₀) (waiting : ∀ i, (s₀.mutex i).numOfWaiting = 0)
    (reached : Interleave.Reaches callStep Admissible s₀ s) :
    (mutexes s).size ≤ maxMutexes ∧ ∀ a, Admissible s a →
      (∀ s' result, perform s a.thread a.call a.word = some (s',result) →
        Mutexes.Returns maxMutexes (mutexes s) (s.thread a.thread).tid a.call result (mutexes s')) ∧
      (perform s a.thread a.call a.word = none ↔ ∃ id h, a.call = .lock id ∧
        (mutexes s).status id = some (some h) ∧ h ≠ (s.thread a.thread).tid) := by
  have inv := between_reached start waiting reached
  refine ⟨inv.size_le,?_⟩
  intro a allowed
  rcases inv.refines a allowed with ⟨after,result,done,_,returns⟩ | ⟨sleeps,held⟩
  · refine ⟨?_,?_⟩
    · intro s' result' call
      cases done.symm.trans call
      exact returns
    · simp only [done,reduceCtorEq,false_iff]
      rintro ⟨id,h,call,held,other⟩
      rw [call] at returns
      generalize mutexes after = m at returns
      cases returns with
      | lock id free => simp [held] at free
      | lockRefused id refused =>
        rcases refused with absent | own
        · simp [held] at absent
        · rw [held] at own
          exact other (Option.some.inj (Option.some.inj own))
  · refine ⟨?_,fun _ => held,fun _ => sleeps⟩
    intro s' result call
    rw [sleeps] at call
    contradiction

/-- A thread allocates a mutex and locks it. -/
theorem mutex_table_is_map_lock : ∃ s s', Interleave.Reaches callStep Admissible (session [(1,0)] 0 0) s ∧
    perform s (1,0) (.lock 1) 7 = some (s',0) ∧
    Mutexes.Returns maxMutexes (mutexes s) (s.thread (1,0)).tid (.lock 1) 0 (mutexes s') := by
  obtain ⟨s,reached,zero,allowed⟩ := Interleave.play_shows callStep Admissible (session [(1,0)] 0 0)
    [⟨(1,0),.alloc,7⟩]
    (fun s => (perform s (1,0) (.lock 1) 7).map Prod.snd = some 0 ∧ Admissible s ⟨(1,0),.lock 1,7⟩)
    (by decide +kernel)
  obtain ⟨⟨s',_⟩,done,rfl⟩ := Option.map_eq_some_iff.mp zero
  have map := (mutex_table_is_map (session_start _ _ _ (by decide) (by decide)) (by decide) reached).2 _ allowed
  exact ⟨s,s',reached,done,map.1 s' 0 done⟩

/-- `kthread_mutex_dealloc(0)` returns 0 although the map has no id 0. -/
theorem dealloc_zero_returns : ∃ s', perform (session [(1,0)] 0 0) (1,0) (.dealloc 0) 7 = some (s',0) ∧
    (mutexes (session [(1,0)] 0 0)).status 0 = none ∧
    ∀ m, ¬ Mutexes.Returns maxMutexes (mutexes (session [(1,0)] 0 0)) 1 (.dealloc 0) 0 m := by
  have zero : (perform (session [(1,0)] 0 0) (1,0) (.dealloc 0) 7).map Prod.snd = some 0 := by decide +kernel
  have absent : (mutexes (session [(1,0)] 0 0)).status 0 = none := by decide +kernel
  obtain ⟨⟨s',_⟩,done,rfl⟩ := Option.map_eq_some_iff.mp zero
  refine ⟨s',done,absent,?_⟩
  intro m returns
  cases returns with
  | dealloc id free => simp [absent] at free

end Kthreads
