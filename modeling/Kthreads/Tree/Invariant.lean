import Kthreads.Tree.Path

/-! The code of the tree as a single thread sees it, and what holds in every run in which
`dealloc` and the other calls keep apart. -/
namespace Kthreads

def TreePc.hasLock : TreePc → Bool
  | .acquireTest _ | .acquireRefuse _ | .acquireSet _ | .acquireUnlock _ | .releaseTest _
  | .releaseRec _ _ _ | .releaseNode _ _ _ | .releaseClear _ | .releaseUnlock _ | .releaseRefuse _
  | .deallocScan _ | .deallocNode _ | .deallocRefuse | .deallocUnlock => true
  | _ => false

def TreePc.destroys : TreePc → Bool
  | .deallocNode _ | .deallocUnlock | .deallocLast | .deallocFree => true
  | _ => false

def TreePc.gone : TreePc → TreeMutex → Bool
  | .deallocNode i,.node j => decide (j < i)
  | .deallocUnlock,.node _ | .deallocLast,.node _ | .deallocFree,_ => true
  | _,_ => false

namespace View

def goto (v : View) (pc : TreePc) : View := {v with pc := pc}
def take (v : View) (m : TreeMutex) : View := {v with holds := fun n => n = m ∨ v.holds n}
def drop (v : View) (m : TreeMutex) : View := {v with holds := fun n => n ≠ m ∧ v.holds n}
def set (v : View) (id : Int) : View := {v with mine := fun j => j = id ∨ v.mine j}
def clear (v : View) (id : Int) : View := {v with mine := fun j => j ≠ id ∧ v.mine j}
def setDue (v : View) (ids : List (Int × Phase)) : View := {v with due := ids}

end View

/-- The steps of one thread while all mutexes that it uses are there. -/
inductive ViewStep (d : Nat) (v : View) : View → Prop
  | outside (id : Int) (place : v.pc = .acquire id) :
      ViewStep d v ((v.setDue (v.due.erase (id,.trying))).goto .idle)
  | enter (id : Int) (place : v.pc = .acquire id) (range : InRange d id) :
      ViewStep d v (v.goto (.acquireLock id))
  | acquireLock (id : Int) (place : v.pc = .acquireLock id) : ViewStep d v (v.goto (.acquireWait id))
  | acquireWait (id : Int) (place : v.pc = .acquireWait id) :
      ViewStep d v ((v.take .lock).goto (.acquireTest id))
  | taken (id : Int) (place : v.pc = .acquireTest id) : ViewStep d v (v.goto (.acquireRefuse id))
  | vacant (id : Int) (place : v.pc = .acquireTest id) : ViewStep d v (v.goto (.acquireSet id))
  | acquireRefuse (id : Int) (place : v.pc = .acquireRefuse id) :
      ViewStep d v (((v.drop .lock).setDue (v.due.erase (id,.trying))).goto .idle)
  | acquireSet (id : Int) (place : v.pc = .acquireSet id) (free : ¬ v.mine id) :
      ViewStep d v ((v.set id).goto (.acquireUnlock id))
  | acquireUnlock (id : Int) (place : v.pc = .acquireUnlock id) :
      ViewStep d v ((v.drop .lock).goto (.acquireLeaf id))
  | acquireLeaf (id : Int) (place : v.pc = .acquireLeaf id) :
      ViewStep d v (v.goto (.climb id (up d id 0)))
  | wins (id : Int) (place : v.pc = .climb id 0) :
      ViewStep d v ((v.setDue ((id,.inside) :: v.due.erase (id,.trying))).goto .idle)
  | climb (id : Int) (pos : Nat) (place : v.pc = .climb id pos) (inner : pos ≠ 0)
      (free : ¬ v.holds (.node (father pos))) : ViewStep d v (v.goto (.climbWait id pos))
  | shared (id : Int) (pos : Nat) (place : v.pc = .climb id pos) (inner : pos ≠ 0)
      (own : v.holds (.node (father pos))) : ViewStep d v (v.goto (.climb id (father pos)))
  | climbWait (id : Int) (pos : Nat) (place : v.pc = .climbWait id pos) :
      ViewStep d v ((v.take (.node (father pos))).goto (.climb id (father pos)))
  | releaseLock (id : Int) (place : v.pc = .releaseLock id) : ViewStep d v (v.goto (.releaseWait id))
  | releaseWait (id : Int) (place : v.pc = .releaseWait id) :
      ViewStep d v ((v.take .lock).goto (.releaseTest id))
  | owns (id : Int) (place : v.pc = .releaseTest id) (mine : v.mine id) :
      ViewStep d v (v.goto (.releaseRec id (up d id 0) []))
  | disowns (id : Int) (place : v.pc = .releaseTest id) (other : ¬ v.mine id) :
      ViewStep d v (v.goto (.releaseRefuse id))
  | inner (id : Int) (pos : Nat) (stack : List Nat) (place : v.pc = .releaseRec id pos stack)
      (below : father pos ≠ 0) : ViewStep d v (v.goto (.releaseRec id (father pos) (pos :: stack)))
  | root (id : Int) (pos : Nat) (stack : List Nat) (place : v.pc = .releaseRec id pos stack)
      (top : father pos = 0) : ViewStep d v (v.goto (.releaseNode id pos stack))
  | last (id : Int) (pos : Nat) (place : v.pc = .releaseNode id pos [])
      (own : v.holds (.node (father pos))) :
      ViewStep d v ((v.drop (.node (father pos))).goto (.releaseClear id))
  | down (id : Int) (pos outer : Nat) (rest : List Nat) (place : v.pc = .releaseNode id pos (outer :: rest))
      (own : v.holds (.node (father pos))) :
      ViewStep d v ((v.drop (.node (father pos))).goto (.releaseNode id outer rest))
  | stuck (id : Int) (pos : Nat) (stack : List Nat) (place : v.pc = .releaseNode id pos stack)
      (other : ¬ v.holds (.node (father pos))) : ViewStep d v (v.goto (.releaseRefuse id))
  | releaseClear (id : Int) (place : v.pc = .releaseClear id) :
      ViewStep d v ((v.clear id).goto (.releaseUnlock id))
  | releaseUnlock (id : Int) (place : v.pc = .releaseUnlock id) :
      ViewStep d v (((v.drop .lock).setDue (v.due.erase (id,.leaving))).goto .idle)
  | releaseRefuse (id : Int) (place : v.pc = .releaseRefuse id) :
      ViewStep d v ((v.drop .lock).goto .idle)
  | deallocLock (place : v.pc = .deallocLock) : ViewStep d v (v.goto .deallocWait)
  | deallocWait (place : v.pc = .deallocWait) : ViewStep d v ((v.take .lock).goto (.deallocScan 0))
  | deallocScan (i j : Nat) (place : v.pc = .deallocScan i) : ViewStep d v (v.goto (.deallocScan j))
  | found (i : Nat) (place : v.pc = .deallocScan i) : ViewStep d v (v.goto .deallocRefuse)
  | scanned (i : Nat) (place : v.pc = .deallocScan i) : ViewStep d v (v.goto (.deallocNode 0))
  | destroys (pc : TreePc) (before : v.pc.destroys = true) (after : pc.destroys = true)
      (lock : v.pc.hasLock = pc.hasLock) : ViewStep d v (v.goto pc)
  | deallocUnlock (place : v.pc = .deallocUnlock) : ViewStep d v ((v.drop .lock).goto .deallocLast)
  | deallocRefuse (place : v.pc = .deallocRefuse) : ViewStep d v ((v.drop .lock).goto .idle)
  | deallocFree (place : v.pc = .deallocFree) : ViewStep d v (v.goto .idle)

def FitsPlace (d : Nat) (v : View) : Prop :=
  match v.pc with
  | .acquireLock id | .acquireWait id | .acquireTest id | .acquireRefuse id | .acquireSet id
  | .releaseLock id | .releaseWait id | .releaseTest id => InRange d id
  | .acquireUnlock id | .acquireLeaf id => v.mine id
  | .climb id pos => v.mine id ∧ ∃ h, h ≤ d ∧ pos = up d id h
  | .climbWait id pos => v.mine id ∧ ∃ h, h < d ∧ pos = up d id h
  | .releaseRec id pos stack => v.mine id ∧ ∃ h, h < d ∧ pos = up d id h ∧ stack = frames d id h
  | .releaseNode id pos stack => v.mine id ∧ ∃ h, h < d ∧ pos = up d id h ∧ stack = frames d id h ∧
      ∀ k, h+1 < k → k ≤ d → ¬ v.holds (.node (up d id k))
  | .releaseClear id => v.mine id ∧ ∀ k, 0 < k → k ≤ d → ¬ v.holds (.node (up d id k))
  | _ => True

structure Own (d : Nat) (v : View) : Prop where
  lock : v.holds .lock ↔ v.pc.hasLock = true
  ranged : ∀ id, v.mine id → InRange d id
  registered : ∀ p, v.holds (.node p) → ∃ id, v.mine id ∧ OnPath d id p
  fits : FitsPlace d v

namespace Own

variable {d : Nat} {v : View}

theorem setDue (own : Own d v) (ids : List (Int × Phase)) : Own d (v.setDue ids) :=
  ⟨own.lock,own.ranged,own.registered,own.fits⟩

section
variable (own : Own d v) (pc : TreePc)
include own pc

theorem goto (lock : v.pc.hasLock = pc.hasLock) (fits : FitsPlace d (v.goto pc)) : Own d (v.goto pc) :=
  ⟨own.lock.trans (by rw [lock]; rfl),own.ranged,own.registered,fits⟩

theorem takeLock (lock : pc.hasLock = true)
    (fits : FitsPlace d ((v.take .lock).goto pc)) : Own d ((v.take .lock).goto pc) := by
  refine ⟨iff_of_true (.inl rfl) lock,own.ranged,?_,fits⟩
  rintro p (same | held)
  · contradiction
  · exact own.registered p held

theorem dropLock (lock : pc.hasLock = false)
    (fits : FitsPlace d ((v.drop .lock).goto pc)) : Own d ((v.drop .lock).goto pc) := by
  refine ⟨iff_of_false (fun held => held.1 rfl) (by simp [View.goto,lock]),own.ranged,?_,fits⟩
  intro p held
  exact own.registered p held.2

theorem takeNode (p : Nat) (id : Int) (lock : v.pc.hasLock = pc.hasLock)
    (mine : v.mine id) (path : OnPath d id p) (fits : FitsPlace d ((v.take (.node p)).goto pc)) :
    Own d ((v.take (.node p)).goto pc) := by
  refine ⟨?_,own.ranged,?_,fits⟩
  · refine Iff.trans ⟨?_,.inr⟩ (own.lock.trans (by rw [lock]; rfl))
    rintro (same | held)
    · contradiction
    · exact held
  · rintro q (same | held)
    · cases same
      exact ⟨id,mine,path⟩
    · exact own.registered q held

theorem dropNode (p : Nat) (lock : v.pc.hasLock = pc.hasLock)
    (fits : FitsPlace d ((v.drop (.node p)).goto pc)) : Own d ((v.drop (.node p)).goto pc) := by
  refine ⟨?_,own.ranged,?_,fits⟩
  · refine Iff.trans ⟨fun held => held.2,fun held => ⟨by simp,held⟩⟩ (own.lock.trans (by rw [lock]; rfl))
  · intro q held
    exact own.registered q held.2

end

theorem step {v' : View} (positive : 0 < d) (own : Own d v) (taken : ViewStep d v v') : Own d v' := by
  have fits := own.fits
  unfold FitsPlace at fits
  cases taken with
  | outside id place => exact (own.setDue _).goto .idle (by simp [View.setDue,place,TreePc.hasLock]) trivial
  | enter id place range => exact own.goto _ (by simp [place,TreePc.hasLock]) range
  | acquireLock id place | taken id place | vacant id place | releaseLock id place =>
    rw [place] at fits
    exact own.goto _ (by simp [place,TreePc.hasLock]) fits
  | acquireWait id place | releaseWait id place =>
    rw [place] at fits
    exact own.takeLock _ rfl fits
  | acquireRefuse id place => exact (own.setDue (v.due.erase (id,.trying))).dropLock .idle rfl trivial
  | acquireSet id place free =>
    rw [place] at fits
    refine ⟨own.lock.trans (by simp [View.set,View.goto,place,TreePc.hasLock]),?_,?_,.inl rfl⟩
    · rintro j (rfl | before)
      · exact fits
      · exact own.ranged j before
    · intro p held
      obtain ⟨j,before,path⟩ := own.registered p held
      exact ⟨j,.inr before,path⟩
  | acquireUnlock id place =>
    rw [place] at fits
    exact own.dropLock _ rfl fits
  | acquireLeaf id place =>
    rw [place] at fits
    exact own.goto _ (by simp [place,TreePc.hasLock]) ⟨fits,0,by omega,rfl⟩
  | wins id place => exact (own.setDue _).goto .idle (by simp [View.setDue,place,TreePc.hasLock]) trivial
  | climb id pos place inner free =>
    rw [place] at fits
    obtain ⟨mine,h,low,rfl⟩ := fits
    have below : h ≠ d := by
      rintro rfl
      exact inner (up_root (own.ranged id mine))
    exact own.goto _ (by simp [place,TreePc.hasLock]) ⟨mine,h,by omega,rfl⟩
  | shared id pos place inner held =>
    rw [place] at fits
    obtain ⟨mine,h,low,rfl⟩ := fits
    have below : h ≠ d := by
      rintro rfl
      exact inner (up_root (own.ranged id mine))
    exact own.goto _ (by simp [place,TreePc.hasLock]) ⟨mine,h+1,by omega,(up_succ d id h).symm⟩
  | climbWait id pos place =>
    rw [place] at fits
    obtain ⟨mine,h,low,rfl⟩ := fits
    rw [← up_succ]
    exact own.takeNode _ _ id (by simp [place,TreePc.hasLock]) mine ⟨h+1,by omega,low,rfl⟩ ⟨mine,h+1,low,rfl⟩
  | owns id place mine => exact own.goto _ (by simp [place,TreePc.hasLock]) ⟨mine,0,positive,rfl,rfl⟩
  | disowns id place other => exact own.goto _ (by simp [place,TreePc.hasLock]) trivial
  | inner id pos stack place below =>
    rw [place] at fits
    obtain ⟨mine,h,low,rfl,rfl⟩ := fits
    have next : h+1 ≠ d := fun top => below ((father_up (own.ranged id mine) h low).mpr top)
    exact own.goto _ (by simp [place,TreePc.hasLock]) ⟨mine,h+1,by omega,(up_succ d id h).symm,rfl⟩
  | root id pos stack place top =>
    rw [place] at fits
    obtain ⟨mine,h,low,rfl,rfl⟩ := fits
    have last := (father_up (own.ranged id mine) h low).mp top
    exact own.goto _ (by simp [place,TreePc.hasLock]) ⟨mine,h,low,rfl,rfl,by omega⟩
  | last id pos place held =>
    rw [place] at fits
    obtain ⟨mine,h,low,rfl,empty,above⟩ := fits
    cases h with
    | succ h => simp [frames] at empty
    | zero =>
      refine own.dropNode _ _ (by simp [place,TreePc.hasLock]) ⟨mine,?_⟩
      rintro k low high ⟨other,still⟩
      rcases Nat.lt_or_ge 1 k with further | first
      · exact above k further high still
      · have here : k = 1 := by omega
        rw [here,up_succ] at other
        exact other rfl
  | down id pos outer rest place held =>
    rw [place] at fits
    obtain ⟨mine,h,low,rfl,stack,above⟩ := fits
    cases h with
    | zero => simp [frames] at stack
    | succ h =>
      obtain ⟨rfl,rfl⟩ := List.cons.inj stack
      refine own.dropNode _ _ (by simp [place,TreePc.hasLock]) ⟨mine,h,by omega,rfl,rfl,?_⟩
      rintro k low high ⟨other,still⟩
      rcases Nat.lt_or_ge (h+2) k with further | first
      · exact above k further high still
      · have here : k = h+2 := by omega
        rw [here,up_succ] at other
        exact other rfl
  | stuck id pos stack place other => exact own.goto _ (by simp [place,TreePc.hasLock]) trivial
  | releaseClear id place =>
    rw [place] at fits
    obtain ⟨mine,none⟩ := fits
    refine ⟨own.lock.trans (by simp [View.clear,View.goto,place,TreePc.hasLock]),?_,?_,trivial⟩
    · intro j before
      exact own.ranged j before.2
    · intro p held
      obtain ⟨j,before,h,positive,low,rfl⟩ := own.registered p held
      refine ⟨j,⟨?_,before⟩,h,positive,low,rfl⟩
      rintro rfl
      exact none h positive low held
  | releaseUnlock id place => exact (own.setDue (v.due.erase (id,.leaving))).dropLock .idle rfl trivial
  | releaseRefuse id place | deallocUnlock place | deallocRefuse place => exact own.dropLock _ rfl trivial
  | deallocLock place | deallocFree place | deallocScan i j place | found i place | scanned i place =>
    exact own.goto _ (by simp [place,TreePc.hasLock]) trivial
  | deallocWait place => exact own.takeLock _ rfl trivial
  | destroys pc before after lock =>
    refine own.goto pc lock ?_
    cases pc <;> simp [TreePc.destroys] at after <;> trivial

end Own

theorem grant_some {T : Type} [DecidableEq T] {s s' : TrnmntTree T} {t : T} {m : TreeMutex} {next : TreePc}
    (taken : s.grant t m next = some s') : s.holder m = none ∧ s' = (s.setHolder m (some t)).goto t next := by
  obtain ⟨free,same⟩ := Option.ite_none_right_eq_some.mp taken
  exact ⟨free,(Option.some.inj same).symm⟩

def InTree (d : Nat) : TreeMutex → Prop
  | .lock => True
  | .node i => i < 2^d - 1

inductive Records {T : Type} (t : T) : TreePc → TreeEvent T → Prop
  | outside (id : Int) : Records t (.acquire id) (.acquireRet t id (-1))
  | refused (id : Int) : Records t (.acquireRefuse id) (.acquireRet t id (-1))
  | wins (id : Int) : Records t (.climb id 0) (.acquireRet t id 0)
  | released (id : Int) : Records t (.releaseUnlock id) (.releaseRet t id 0)
  | unreleased (id : Int) : Records t (.releaseRefuse id) (.releaseRet t id (-1))
  | takes : Records t .deallocWait (.deallocTakes t)
  | kept : Records t .deallocRefuse (.deallocRet t (-1))
  | freed : Records t .deallocFree (.deallocRet t 0)

open TrnmntTree

section Runs
variable {T : Type} [DecidableEq T]

def Stable (map : Int → Option T) : TreePc → Prop
  | .acquireSet id => map id = none
  | .deallocScan i => ∀ j : Nat, j < i → map j = none
  | .deallocNode _ | .deallocUnlock | .deallocLast | .deallocFree => ∀ id, map id = none
  | _ => True

/-- When `dealloc` has found `threadMap` empty no other thread is inside a call, and no call
starts from then on. -/
abbrev Apart (s : TrnmntTree T) : TreeAction T → Prop
  | .run t => ∀ i, s.pc t = .deallocScan i → powordepth s.depth ≤ i → ∀ u, u ≠ t → s.pc u = .idle
  | _ => s.freed = false ∧ ∀ u, (s.pc u).destroys = false

structure Sound (d : Nat) (s : TrnmntTree T) : Prop where
  own : ∀ t, Own d (s.view t)
  stable : ∀ t, Stable s.threadMap (s.pc t)
  calm : ∀ t, (s.pc t).destroys = true → ∀ u, u ≠ t → s.pc u = .idle
  done : s.freed = true → ∀ t, s.pc t = .idle
  whole : s.freed = false → s.depth = d
  kept : ∀ m, InTree d m → (s.alive m = false ↔ s.freed = true ∨ ∃ t, (s.pc t).gone m = true)

theorem gone_destroys {pc : TreePc} {m : TreeMutex} (gone : pc.gone m = true) : pc.destroys = true := by
  cases pc <;> first | rfl | simp [TreePc.gone] at gone

namespace Sound

variable {d : Nat} {s : TrnmntTree T}

/-- A thread inside a call finds the mutexes in place, except those it has deallocated itself. -/
theorem alive (inv : Sound d s) (t : T) (active : s.pc t ≠ .idle) (m : TreeMutex) (tree : InTree d m)
    (here : (s.pc t).gone m = false) : s.alive m = true := by
  by_contra dead
  rcases (inv.kept m tree).mp (by simpa using dead) with freed | ⟨u,gone⟩
  · exact active (inv.done freed t)
  · by_cases same : t = u
    · rw [same,gone] at here
      contradiction
    · exact active (inv.calm u (gone_destroys gone) t same)

omit [DecidableEq T] in
theorem intact (inv : Sound d s) (t : T) (active : s.pc t ≠ .idle) : s.freed = false := by
  by_contra freed
  exact active (inv.done (by simpa using freed) t)

omit [DecidableEq T] in
theorem depth (inv : Sound d s) (t : T) (active : s.pc t ≠ .idle) : s.depth = d := inv.whole (inv.intact t active)

omit [DecidableEq T] in
theorem unheld (inv : Sound d s) (empty : ∀ id, s.threadMap id = none) (p : Nat) : s.holder (.node p) = none := by
  cases held : s.holder (.node p) with
  | none => rfl
  | some u =>
    obtain ⟨id,mine,_⟩ := (inv.own u).registered p held
    have entry : s.threadMap id = some u := mine
    rw [empty id] at entry
    contradiction

section Code
variable (inv : Sound d s) {t : T}
include inv

theorem asks (active : s.pc t ≠ .idle) (m : TreeMutex) (tree : InTree d m) (here : (s.pc t).gone m = false)
    (free : ¬ (s.view t).holds m) (wait next : TreePc) : s.lockCall t m wait next = s.goto t wait :=
  if_pos ⟨inv.alive t active m tree here,free⟩

theorem unlocks (lock : (s.pc t).hasLock = true) : s.unlock t .lock = s.setHolder .lock none := by
  have active : s.pc t ≠ .idle := by
    intro idle
    rw [idle] at lock
    contradiction
  have here : (s.pc t).gone .lock = false := by
    cases place : s.pc t <;> first | rfl | (rw [place] at lock; contradiction)
  exact if_pos ⟨inv.alive t active .lock trivial here,(inv.own t).lock.mpr lock⟩

end Code

end Sound

/-- A step of `t` that deallocates nothing: `threadMap` is written under `Lock` only. -/
structure Gentle (s : TrnmntTree T) (t : T) (s' : TrnmntTree T) : Prop where
  rest : (s'.alive,s'.freed,s'.depth) = (s.alive,s.freed,s.depth)
  map : s'.threadMap = s.threadMap ∨ (s.pc t).hasLock = true
  stable : Stable s'.threadMap (s'.pc t)

structure Noted (s : TrnmntTree T) (t : T) (s' : TrnmntTree T) : Prop where
  hist : s'.hist = s.hist ∨ ∃ e, s'.hist = e :: s.hist ∧ Records t (s.pc t) e
  seen : s'.seen = s.seen ∨ s.pc t = .deallocWait ∧ s'.seen = s.due ∧ s.holder .lock = none
  others : ∀ u, u ≠ t → s'.attempt u = s.attempt u
  stray : s'.stray = s.stray

omit [DecidableEq T] in
theorem Noted.event {s s' : TrnmntTree T} {t : T} (noted : Noted s t s') {e : TreeEvent T}
    (ended : s'.hist = e :: s.hist) : Records t (s.pc t) e := by
  rcases noted.hist with none | ⟨e',now,records⟩
  · exact absurd (none.symm.trans ended) (by simp)
  · exact (List.cons.inj (now.symm.trans ended)).1 ▸ records

/-- A step is one of those that the thread sees, and no other thread notices it. -/
structure Stepped (d : Nat) (s : TrnmntTree T) (t : T) (s' : TrnmntTree T) : Prop where
  view : ViewStep d (s.view t) (s'.view t)
  others : ∀ u, u ≠ t → s'.view u = s.view u
  gentle : (s.pc t).destroys = false → Gentle s t s'
  noted : Noted s t s'
  attempt : s'.attempt t = s.attempt t ∨
    (∃ id, s.pc t = .acquireSet id) ∧ s'.attempt t = {s.attempt t with wrote := true} ∨
    ∃ id pos, s.pc t = .climb id pos ∧ pos ≠ 0 ∧ (s.view t).holds (.node (father pos))

namespace Stepped

variable {d : Nat} {s m : TrnmntTree T} {t : T}

theorem goto (pc : TreePc) {v : View} (own : m.view t = v) (step : ViewStep d (s.view t) (v.goto pc))
    (others : ∀ u, u ≠ t → m.view u = s.view u)
    (same : (m.alive,m.freed,m.depth,m.threadMap,m.seen,m.attempt,m.stray) =
      (s.alive,s.freed,s.depth,s.threadMap,s.seen,s.attempt,s.stray))
    (hist : m.hist = s.hist ∨ ∃ e, m.hist = e :: s.hist ∧ Records t (s.pc t) e) (stable : Stable s.threadMap pc) :
    Stepped d s t (m.goto t pc) := by
  obtain ⟨alive,freed,depth,map,seen,attempt,stray⟩ := by simpa only [Prod.mk.injEq] using same
  refine ⟨?_,?_,fun _ => ⟨?_,.inl map,?_⟩,⟨hist,.inl seen,fun u _ => congrFun attempt u,stray⟩,
    .inl (congrFun attempt t)⟩
  · rw [view_goto_self,own]
    exact step
  · intro u other
    rw [view_goto m other]
    exact others u other
  · simp only [TrnmntTree.goto,alive,freed,depth]
  · simpa [TrnmntTree.goto,map] using stable

theorem moved (pc : TreePc) (step : ViewStep d (s.view t) ((s.view t).goto pc)) (stable : Stable s.threadMap pc) :
    Stepped d s t (s.goto t pc) :=
  goto pc rfl step (fun _ _ => rfl) rfl (.inl rfl) stable

theorem granted (x : TreeMutex) (pc : TreePc) {s' : TrnmntTree T} (taken : s.grant t x pc = some s')
    (step : ViewStep d (s.view t) (((s.view t).take x).goto pc)) (stable : Stable s.threadMap pc) :
    Stepped d s t s' := by
  obtain ⟨free,rfl⟩ := grant_some taken
  exact goto pc (view_take_self s t x) step (fun _ other => view_take s other x free) rfl (.inl rfl) stable

theorem dropped (x : TreeMutex) (pc : TreePc) (own : s.holder x = some t)
    (step : ViewStep d (s.view t) (((s.view t).drop x).goto pc)) (stable : Stable s.threadMap pc) :
    Stepped d s t ((s.setHolder x none).goto t pc) :=
  goto pc (view_drop_self s t x) step (fun _ other => view_drop s other x own) rfl (.inl rfl) stable

section
variable {e : TreeEvent T} (records : Records t (s.pc t) e)
include records

theorem left (ids : List (Int × Phase)) (step : ViewStep d (s.view t) (((s.view t).setDue ids).goto .idle)) :
    Stepped d s t ((s.setDue t ids).ret t e) :=
  goto (m := {s.setDue t ids with hist := e :: s.hist}) .idle (view_setDue_self s t ids) step
    (fun _ other => view_setDue s other ids) rfl (.inr ⟨e,rfl,records⟩) trivial

variable (own : s.holder .lock = some t)
include own

theorem unlocked (step : ViewStep d (s.view t) (((s.view t).drop .lock).goto .idle)) :
    Stepped d s t ((s.setHolder .lock none).ret t e) :=
  goto (m := {s.setHolder .lock none with hist := e :: s.hist}) .idle (view_drop_self s t .lock) step
    (fun _ other => view_drop s other .lock own) rfl (.inr ⟨e,rfl,records⟩) trivial

theorem unlockedDue (ids : List (Int × Phase))
    (step : ViewStep d (s.view t) ((((s.view t).drop .lock).setDue ids).goto .idle)) :
    Stepped d s t (((s.setHolder .lock none).setDue t ids).ret t e) := by
  refine goto (m := {(s.setHolder .lock none).setDue t ids with hist := e :: s.hist}) .idle
    ((view_setDue_self (s.setHolder .lock none) t ids).trans ?_) step ?_ rfl (.inr ⟨e,rfl,records⟩) trivial
  · rw [view_drop_self]
    rfl
  · intro u other
    exact (view_setDue (s.setHolder .lock none) other ids).trans (view_drop s other .lock own)

end

/-- The steps of `dealloc` that destroy, which no thread sees. -/
theorem destroyed (pc : TreePc) (views : m.view = s.view) (same : (m.seen,m.attempt,m.stray) = (s.seen,s.attempt,s.stray))
    (hist : m.hist = s.hist ∨ ∃ e, m.hist = e :: s.hist ∧ Records t (s.pc t) e) (destroys : (s.pc t).destroys = true)
    (step : ViewStep d (s.view t) ((s.view t).goto pc)) : Stepped d s t (m.goto t pc) := by
  obtain ⟨seen,attempt,stray⟩ := by simpa only [Prod.mk.injEq] using same
  refine ⟨?_,?_,fun tame => absurd (destroys.symm.trans tame) (by simp),
    ⟨hist,.inl seen,fun u _ => congrFun attempt u,stray⟩,.inl (congrFun attempt t)⟩
  · rw [view_goto_self,views]
    exact step
  · intro u other
    rw [view_goto m other,views]

end Stepped

theorem code_active {s s' : TrnmntTree T} {t : T} (taken : s.code t = some s') : s.pc t ≠ .idle := by
  intro idle
  simp [TrnmntTree.code,idle] at taken

theorem Sound.code_view {d : Nat} {s s' : TrnmntTree T} {t : T} (inv : Sound d s) (taken : s.code t = some s') :
    Stepped d s t s' := by
  have own := inv.own t
  have fits := own.fits
  have stable := inv.stable t
  have active := code_active taken
  have depth := inv.depth t active
  have viewed : (s.view t).pc = s.pc t := rfl
  have lock (here : (s.pc t).hasLock = true) : s.holder .lock = some t := own.lock.mpr here
  unfold TrnmntTree.code at taken
  unfold FitsPlace at fits
  rw [viewed] at fits
  split at taken
  next => contradiction
  next id place =>
    split at taken <;> cases taken
    · exact .left (place ▸ .outside id) _ (.outside id place)
    next range => exact .moved _ (.enter id place (by simp [depth] at range; exact ⟨by omega,by omega⟩)) trivial
  next id place =>
    cases taken
    rw [inv.asks active .lock trivial (by rw [place]; rfl) (by simp [own.lock,viewed,place,TreePc.hasLock])]
    exact .moved _ (.acquireLock id place) trivial
  next id place => exact .granted _ _ taken (.acquireWait id place) trivial
  next id place =>
    cases taken
    split
    next free => exact .moved _ (.vacant id place) free
    next => exact .moved _ (.taken id place) trivial
  next id place =>
    cases taken
    rw [inv.unlocks (by rw [place]; rfl)]
    exact .unlockedDue (place ▸ .refused id) (lock (by rw [place]; rfl)) _ (.acquireRefuse id place)
  next id place =>
    cases taken
    rw [place] at stable
    have step : ViewStep d (s.view t) _ :=
      .acquireSet id place (by simp [view,show s.threadMap id = none from stable])
    refine ⟨?_,?_,fun _ => ⟨rfl,.inr (by rw [place]; rfl),?_⟩,⟨.inl rfl,.inl rfl,?_,rfl⟩,.inr (.inl ⟨⟨id,place⟩,?_⟩)⟩
    · rw [view_goto_self]
      exact (view_set_self s t id) ▸ step
    · intro u other
      rw [view_goto _ other]
      exact view_set s other id stable
    · simp [TrnmntTree.goto,Stable]
    · intro u other
      simp [TrnmntTree.goto,setAttempt,other]
    · simp [TrnmntTree.goto,setAttempt]
  next id place =>
    cases taken
    rw [inv.unlocks (by rw [place]; rfl)]
    exact .dropped .lock _ (lock (by rw [place]; rfl)) (.acquireUnlock id place) trivial
  next id place =>
    cases taken
    rw [powordepth_eq,depth]
    exact .moved _ (.acquireLeaf id place) trivial
  next id pos place =>
    split at taken <;> cases taken
    next root =>
      subst pos
      exact .left (place ▸ .wins id) _ (.wins id place)
    next inner =>
      rw [place] at fits
      obtain ⟨mine,h,low,same⟩ := fits
      by_cases held : (s.view t).holds (.node (father pos))
      · have refused : ¬ s.Lockable t (.node (father pos)) := fun open_ => open_.2 held
        rw [lockCall,if_neg refused]
        have step : ViewStep d (s.view t) _ := .shared id pos place inner held
        refine ⟨?_,?_,fun _ => ⟨rfl,.inl rfl,?_⟩,⟨.inl rfl,.inl rfl,?_,rfl⟩,.inr (.inr ⟨id,pos,place,inner,held⟩)⟩
        · rw [view_goto_self]
          exact step
        · exact fun u other => view_goto _ other _
        · simp [TrnmntTree.goto,Stable]
        · intro u other
          simp [TrnmntTree.goto,setAttempt,other]
      · have range := own.ranged id mine
        have below : h ≠ d := by
          rintro rfl
          exact inner (same.trans (up_root range))
        have node : InTree d (.node (father pos)) := by
          rw [same,← up_succ]
          exact up_node range (h+1) (by omega) (by omega)
        rw [inv.asks active _ node (by rw [place]; rfl) held]
        exact .moved _ (.climb id pos place inner held) trivial
  next id pos place => exact .granted _ _ taken (.climbWait id pos place) trivial
  next id place =>
    cases taken
    rw [inv.asks active .lock trivial (by rw [place]; rfl) (by simp [own.lock,viewed,place,TreePc.hasLock])]
    exact .moved _ (.releaseLock id place) trivial
  next id place => exact .granted _ _ taken (.releaseWait id place) trivial
  next id place =>
    cases taken
    rw [powordepth_eq,depth]
    split
    next mine => exact .moved _ (.owns id place mine) trivial
    next other => exact .moved _ (.disowns id place other) trivial
  next id pos stack place =>
    cases taken
    unfold releaseRec
    split
    next below => exact .moved _ (.inner id pos stack place below) trivial
    next top => exact .moved _ (.root id pos stack place (by simpa using top)) trivial
  next id pos stack place =>
    cases taken
    rw [place] at fits
    obtain ⟨mine,h,low,same,_⟩ := fits
    have node : InTree d (.node (father pos)) := by
      rw [same,← up_succ]
      exact up_node (own.ranged id mine) (h+1) (by omega) low
    have there := inv.alive t active _ node (by rw [place]; rfl)
    unfold releaseNode
    split
    next held =>
      cases stack with
      | nil => exact .dropped _ _ held.2 (.last id pos place held.2) trivial
      | cons outer rest => exact .dropped _ _ held.2 (.down id pos outer rest place held.2) trivial
    next refused => exact .moved _ (.stuck id pos stack place fun held => refused ⟨there,held⟩) trivial
  next id place =>
    cases taken
    rw [place] at fits
    have step : ViewStep d (s.view t) _ := .releaseClear id place
    refine ⟨?_,?_,fun _ => ⟨rfl,.inr (by rw [place]; rfl),?_⟩,⟨.inl rfl,.inl rfl,fun _ _ => rfl,rfl⟩,.inl rfl⟩
    · rw [view_goto_self,view_clear_self]
      exact step
    · intro u other
      rw [view_goto _ other,view_clear s other id fits.1]
    · simp [TrnmntTree.goto,Stable]
  next id place =>
    cases taken
    rw [inv.unlocks (by rw [place]; rfl)]
    exact .unlockedDue (place ▸ .released id) (lock (by rw [place]; rfl)) _ (.releaseUnlock id place)
  next id place =>
    cases taken
    rw [inv.unlocks (by rw [place]; rfl)]
    exact .unlocked (place ▸ .unreleased id) (lock (by rw [place]; rfl)) (.releaseRefuse id place)
  next place =>
    cases taken
    rw [inv.asks active .lock trivial (by rw [place]; rfl) (by simp [own.lock,viewed,place,TreePc.hasLock])]
    exact .moved _ (.deallocLock place) trivial
  next place =>
    obtain ⟨free,rfl⟩ := grant_some taken
    have step : ViewStep d (s.view t) _ := .deallocWait place
    refine ⟨?_,?_,fun _ => ⟨rfl,.inl rfl,?_⟩,⟨.inr ⟨_,rfl,place ▸ .takes⟩,.inr ⟨place,rfl,free⟩,fun _ _ => rfl,rfl⟩,.inl rfl⟩
    · rw [view_goto_self,view_take_self]
      exact step
    · intro u other
      rw [view_goto _ other]
      exact view_take s other .lock free
    · simp [TrnmntTree.goto,Stable]
  next i place =>
    cases taken
    rw [place] at stable
    unfold deallocScan
    split
    · split
      next free =>
        refine .moved _ (.deallocScan i (i+1) place) ?_
        intro j below
        rcases Nat.lt_succ_iff_lt_or_eq.mp below with before | rfl
        · exact stable j before
        · exact free
      next => exact .moved _ (.found i place) trivial
    next past =>
      refine .moved _ (.scanned i place) ?_
      intro id
      cases entry : s.threadMap id with
      | none => rfl
      | some u =>
        have range := (inv.own u).ranged id entry
        have small := range.toNat_lt
        have same : ((id.toNat : Nat) : Int) = id := Int.toNat_of_nonneg range.1
        rw [powordepth_eq,depth] at past
        rw [← same,stable id.toNat (by omega)] at entry
        contradiction
  next i place =>
    cases taken
    rw [place] at stable
    have step (pc : TreePc) (after : pc.destroys = true) (locks : pc.hasLock = true) :
        ViewStep d (s.view t) ((s.view t).goto pc) :=
      .destroys pc (by rw [viewed,place]; rfl) after (by rw [viewed,place,locks]; rfl)
    unfold deallocNode
    split
    next inside =>
      rw [powordepth_eq,depth] at inside
      rw [if_pos ⟨inv.alive t active (.node i) inside (by simp [place,TreePc.gone]),inv.unheld stable i⟩]
      exact .destroyed _ rfl rfl (.inl rfl) (by rw [place]; rfl) (step _ rfl rfl)
    next => exact .moved _ (step _ rfl rfl) stable
  next place =>
    cases taken
    rw [inv.unlocks (by rw [place]; rfl)]
    exact .unlocked (place ▸ .kept) (lock (by rw [place]; rfl)) (.deallocRefuse place)
  next place =>
    cases taken
    rw [place] at stable
    rw [inv.unlocks (by rw [place]; rfl)]
    exact .dropped .lock _ (lock (by rw [place]; rfl)) (.deallocUnlock place) stable
  next place =>
    cases taken
    have step : ViewStep d (s.view t) ((s.view t).goto .deallocFree) :=
      .destroys _ (by rw [viewed,place]; rfl) rfl (by rw [viewed,place]; rfl)
    split <;> exact .destroyed _ rfl rfl (.inl rfl) (by rw [place]; rfl) step
  next place =>
    cases taken
    exact .destroyed (m := {s with freed := true, depth := 0, hist := _}) .idle rfl rfl (.inr ⟨_,rfl,place ▸ .freed⟩)
      (by rw [place]; rfl) (.deallocFree place)

theorem ViewStep.tame {d : Nat} {v v' : View} (taken : ViewStep d v v') (before : v.pc.destroys = false) :
    v'.pc.destroys = false ∨ (∃ i, v.pc = .deallocScan i) ∧ v'.pc = .deallocNode 0 := by
  cases taken with
  | scanned i place => exact .inr ⟨⟨i,place⟩,rfl⟩
  | destroys pc inside =>
    rw [before] at inside
    contradiction
  | deallocUnlock place =>
    rw [place] at before
    contradiction
  | _ => exact .inl rfl

namespace Sound

variable {d : Nat} {s s' : TrnmntTree T} {t : T}

theorem gentle (inv : Sound d s) (positive : 0 < d) (apart : Apart s (.run t)) (taken : s.code t = some s')
    (tame : (s.pc t).destroys = false) : Sound d s' := by
  obtain ⟨step,others,gentles⟩ := inv.code_view taken
  have active := code_active taken
  have gentle := gentles tame
  obtain ⟨alive,freed,depth⟩ := by simpa only [Prod.mk.injEq] using gentle.rest
  have place (u : T) (other : u ≠ t) : s'.pc u = s.pc u := congrArg View.pc (others u other)
  have quiet (u : T) (other : u ≠ t) : (s.pc u).destroys = false := by
    by_contra destroys
    exact active (inv.calm u (by simpa using destroys) t other.symm)
  have after : (s'.pc t).destroys = false ∨ (∃ i, s.pc t = .deallocScan i) ∧ s'.pc t = .deallocNode 0 :=
    step.tame tame
  refine ⟨?_,?_,?_,?_,?_,?_⟩
  · intro u
    by_cases here : u = t
    · rw [here]
      exact (inv.own t).step positive step
    · rw [others u here]
      exact inv.own u
  · intro u
    by_cases here : u = t
    · rw [here]
      exact gentle.stable
    · have before := inv.stable u
      have tame := quiet u here
      rw [place u here]
      rcases gentle.map with same | lock
      · rw [same]
        exact before
      · -- nobody else is between the test and the write of an entry
        have unlocked : (s.pc u).hasLock = false := by
          by_contra locked
          have first := (inv.own t).lock.mpr lock
          have second := (inv.own u).lock.mpr (Bool.eq_true_of_not_eq_false locked)
          exact here (Option.some.inj (second.symm.trans first))
        cases at_ : s.pc u <;> rw [at_] at tame unlocked <;> first | contradiction | trivial
  · intro u destroys v other
    have here : u = t := by
      by_contra here
      rw [place u here,quiet u here] at destroys
      contradiction
    subst u
    rcases after with none | ⟨⟨i,scans⟩,node⟩
    · rw [none] at destroys
      contradiction
    · rw [place v other]
      refine apart i scans ?_ v other
      by_contra inside
      simp only [TrnmntTree.code,scans,Option.some.injEq,deallocScan] at taken
      rw [if_pos (by omega)] at taken
      split at taken
      all_goals
        rw [← taken] at node
        simp [TrnmntTree.goto] at node
  · intro gone
    exact absurd (inv.done (freed ▸ gone) t) active
  · intro kept
    rw [depth]
    exact inv.whole (freed ▸ kept)
  · intro m tree
    have gone (u : T) : (s'.pc u).gone m = (s.pc u).gone m := by
      by_cases here : u = t
      · have now : (s.pc t).gone m = false := by
          by_contra gone
          rw [gone_destroys (by simpa using gone)] at tame
          contradiction
        rw [here,now]
        rcases after with none | ⟨_,node⟩
        · by_contra gone
          rw [gone_destroys (by simpa using gone)] at none
          contradiction
        · rw [node]
          cases m <;> simp [TreePc.gone]
      · rw [place u here]
    simp only [gone,alive,freed]
    exact inv.kept m tree

theorem alone (own : ∀ u, Own d (s.view u)) (idle : ∀ u, u ≠ t → s.pc u = .idle)
    (stable : Stable s.threadMap (s.pc t)) (done : s.freed = true → s.pc t = .idle)
    (whole : s.freed = false → s.depth = d)
    (kept : ∀ m, InTree d m → (s.alive m = false ↔ s.freed = true ∨ (s.pc t).gone m = true)) : Sound d s := by
  refine ⟨own,?_,?_,?_,whole,?_⟩
  · intro u
    by_cases here : u = t
    · rw [here]
      exact stable
    · rw [idle u here]
      trivial
  · intro u destroys v other
    by_cases here : u = t
    · exact idle v (here ▸ other)
    · rw [idle u here] at destroys
      contradiction
  · intro freed u
    by_cases here : u = t
    · rw [here]
      exact done freed
    · exact idle u here
  · intro m tree
    rw [kept m tree]
    refine or_congr_right ⟨fun gone => ⟨t,gone⟩,?_⟩
    rintro ⟨u,gone⟩
    by_cases here : u = t
    · exact here ▸ gone
    · rw [idle u here] at gone
      contradiction

theorem destroyed (inv : Sound d s) (positive : 0 < d) (taken : s.code t = some s')
    (destroys : (s.pc t).destroys = true) : Sound d s' := by
  obtain ⟨step,others⟩ := inv.code_view taken
  have active : s.pc t ≠ .idle := by
    intro idle
    rw [idle] at destroys
    contradiction
  have intact := inv.intact t active
  have depth := inv.depth t active
  have idle (u : T) (other : u ≠ t) : s'.pc u = .idle :=
    (congrArg View.pc (others u other)).trans (inv.calm t destroys u other)
  have own (u : T) : Own d (s'.view u) := by
    by_cases here : u = t
    · rw [here]
      exact (inv.own t).step positive step
    · rw [others u here]
      exact inv.own u
  have stable := inv.stable t
  have kept (m : TreeMutex) (tree : InTree d m) : s.alive m = false ↔ (s.pc t).gone m = true := by
    rw [inv.kept m tree]
    constructor
    · rintro (freed | ⟨u,gone⟩)
      · rw [intact] at freed
        contradiction
      · by_cases here : u = t
        · exact here ▸ gone
        · rw [inv.calm t destroys u here] at gone
          contradiction
    · intro gone
      exact .inr ⟨t,gone⟩
  -- the loops of `dealloc` only move on
  have moved (m : TrnmntTree T) (pc : TreePc) (same : s' = m.goto t pc)
      (rest : (m.threadMap,m.freed,m.depth) = (s.threadMap,s.freed,s.depth))
      (told : Stable s.threadMap pc)
      (gone : ∀ x, InTree d x → (m.alive x = false ↔ pc.gone x = true)) : Sound d s' := by
    obtain ⟨map,freed,deep⟩ := by simpa only [Prod.mk.injEq] using rest
    have here : s'.pc t = pc := by simp [same,TrnmntTree.goto]
    refine alone own idle ?_ ?_ ?_ ?_
    · rw [here,same]
      exact map ▸ told
    · intro free
      rw [same] at free
      exact absurd (free.symm.trans (freed.trans intact)) (by simp)
    · intro _
      rw [same]
      exact deep.trans depth
    · intro x tree
      have still : s'.freed = false := by
        rw [same]
        exact freed.trans intact
      have alive : s'.alive x = m.alive x := by rw [same]; rfl
      rw [here,still,alive,gone x tree]
      simp
  cases place : s.pc t with
  | deallocNode i =>
    rw [place] at stable
    simp only [TrnmntTree.code,place,Option.some.injEq,deallocNode,powordepth_eq,depth] at taken
    split at taken
    next inside =>
      have there : s.alive (.node i) = true := by
        have here := kept (.node i) inside
        rw [place] at here
        simpa [TreePc.gone] using here
      rw [if_pos ⟨there,inv.unheld stable i⟩] at taken
      refine moved (s.kill (.node i)) _ taken.symm rfl stable ?_
      intro x tree
      have before := kept x tree
      rw [place] at before
      cases x with
      | lock => simpa [TrnmntTree.kill,TreePc.gone] using before
      | node j =>
        by_cases here : j = i
        · simp [TrnmntTree.kill,TreePc.gone,here]
        · have below : j < i+1 ↔ j < i := by omega
          simpa [TrnmntTree.kill,TreePc.gone,here,below] using before
    next past =>
      refine moved s _ taken.symm rfl stable ?_
      intro x tree
      have before := kept x tree
      rw [place] at before
      cases x with
      | lock => simpa [TreePc.gone] using before
      | node j =>
        have below : j < i := lt_of_lt_of_le tree (by omega)
        simpa [TreePc.gone,below] using before
  | deallocUnlock =>
    rw [place] at stable
    simp only [TrnmntTree.code,place,Option.some.injEq,inv.unlocks (t := t) (by rw [place]; rfl)] at taken
    refine moved (s.setHolder .lock none) _ taken.symm rfl stable ?_
    intro x tree
    have before := kept x tree
    rw [place] at before
    cases x with
    | lock | node j => exact before
  | deallocLast =>
    rw [place] at stable
    have free : s.holder .lock = none := by
      cases held : s.holder .lock with
      | none => rfl
      | some u =>
        have lock : (s.pc u).hasLock = true := (inv.own u).lock.mp held
        by_cases here : u = t
        · rw [here,place] at lock
          contradiction
        · rw [inv.calm t destroys u here] at lock
          contradiction
    have there := inv.alive t active .lock trivial (by rw [place]; rfl)
    simp only [TrnmntTree.code,place,Option.some.injEq] at taken
    rw [if_pos ⟨there,free⟩] at taken
    refine moved (s.kill .lock) _ taken.symm rfl stable ?_
    intro x tree
    have before := kept x tree
    rw [place] at before
    cases x with
    | lock => simp [TrnmntTree.kill,TreePc.gone]
    | node j => simpa [TrnmntTree.kill,TreePc.gone] using before
  | deallocFree =>
    simp only [TrnmntTree.code,place,Option.some.injEq] at taken
    subst s'
    refine alone (t := t) own idle ?_ ?_ ?_ ?_
    · simp [ret,TrnmntTree.goto,Stable]
    · intro _
      simp [ret,TrnmntTree.goto]
    · intro kept
      contradiction
    · intro x tree
      have before := kept x tree
      rw [place] at before
      have dead : s.alive x = false := before.mpr (by cases x <;> rfl)
      simpa [ret,TrnmntTree.goto] using dead
  | _ =>
    rw [place] at destroys
    contradiction

theorem called (inv : Sound d s) (idle : s.pc t = .idle) (apart : s.freed = false ∧ ∀ u, (s.pc u).destroys = false)
    (m : TrnmntTree T) (same : (m.threadMap,m.holder,m.alive,m.freed,m.depth,m.pc) =
      (s.threadMap,s.holder,s.alive,s.freed,s.depth,s.pc)) (pc : TreePc) (lock : pc.hasLock = false)
    (tame : pc.destroys = false) (fits : ∀ v : View, FitsPlace d (v.goto pc)) : Sound d (m.goto t pc) := by
  obtain ⟨map,holder,alive,freed,depth,place⟩ := by simpa only [Prod.mk.injEq] using same
  have view (u : T) : m.view u = (s.view u).setDue (m.due u) := by
    simp only [TrnmntTree.view,View.setDue,map,holder,place]
  have here : (m.goto t pc).pc t = pc := by simp [TrnmntTree.goto]
  have elsewhere (u : T) (other : u ≠ t) : (m.goto t pc).pc u = s.pc u := by
    simp [TrnmntTree.goto,other,place]
  have quiet (u : T) : ((m.goto t pc).pc u).destroys = false := by
    by_cases same : u = t
    · rw [same,here]
      exact tame
    · rw [elsewhere u same]
      exact apart.2 u
  have none (u : T) (x : TreeMutex) : ((m.goto t pc).pc u).gone x = false := by
    by_contra gone
    have destroys := gone_destroys (by simpa using gone : ((m.goto t pc).pc u).gone x = true)
    rw [quiet u] at destroys
    contradiction
  refine ⟨?_,?_,?_,?_,?_,?_⟩
  · intro u
    by_cases same : u = t
    · rw [same,view_goto_self,view]
      refine ((inv.own t).setDue _).goto pc ?_ (fits _)
      rw [lock]
      exact congrArg TreePc.hasLock idle
    · rw [view_goto m same,view]
      exact (inv.own u).setDue _
  · intro u
    by_cases same : u = t
    · rw [same,here]
      cases pc <;> trivial
    · rw [elsewhere u same]
      exact map ▸ inv.stable u
  · intro u destroys
    rw [quiet u] at destroys
    contradiction
  · intro gone
    exact absurd (gone.symm.trans (freed.trans apart.1)) (by simp)
  · intro _
    exact depth.trans (inv.whole apart.1)
  · intro x tree
    have before := inv.kept x tree
    have nobody : ¬ ∃ u, (s.pc u).gone x = true := by
      rintro ⟨u,gone⟩
      have destroys := gone_destroys gone
      rw [apart.2 u] at destroys
      contradiction
    have still : (m.goto t pc).alive x = s.alive x := congrFun alive x
    have free : (m.goto t pc).freed = s.freed := freed
    rw [still,free,before]
    simp [none,nobody]

theorem start (T : Type) [DecidableEq T] (d : Nat) : Sound d (newTree T d) where
  own t := ⟨by simp [TrnmntTree.view,newTree,TreePc.hasLock],by simp [TrnmntTree.view,newTree],
    by simp [TrnmntTree.view,newTree],trivial⟩
  stable t := trivial
  calm t destroys := by contradiction
  done freed := by contradiction
  whole _ := rfl
  kept m tree := by
    have there : (newTree T d).alive m = true := by
      cases m with
      | lock => rfl
      | node i =>
        have inside : i < 2^d - 1 := tree
        simpa [newTree] using inside
    rw [there]
    simp [newTree,TreePc.gone]

theorem step {a : TreeAction T} (inv : Sound d s) (positive : 0 < d) (apart : Apart s a)
    (taken : treeStep s a = some s') : Sound d s' := by
  cases a with
  | acquire t id =>
    simp only [treeStep] at taken
    split at taken
    next idle =>
      cases taken
      exact inv.called idle apart ((s.setDue t _).setAttempt t _) rfl (.acquire id) rfl rfl (fun _ => trivial)
    next => contradiction
  | release t id =>
    simp only [treeStep] at taken
    split at taken
    next ready =>
      cases taken
      obtain ⟨idle,low,high⟩ := ready
      rw [powordepth_eq,inv.whole apart.1] at high
      exact inv.called idle apart (s.setDue t _) rfl (.releaseLock id) rfl rfl (fun _ => ⟨low,by simpa using high⟩)
    next => contradiction
  | dealloc t =>
    simp only [treeStep] at taken
    split at taken
    next idle =>
      cases taken
      exact inv.called idle apart s rfl .deallocLock rfl rfl (fun _ => trivial)
    next => contradiction
  | run t =>
    obtain ⟨m,code,eq⟩ := Option.map_eq_some_iff.mp taken
    have next : Sound d m := by
      by_cases destroys : (s.pc t).destroys = true
      · exact inv.destroyed positive code destroys
      · exact inv.gentle positive apart code (by simpa using destroys)
    rw [← eq]
    split
    · exact ⟨next.own,next.stable,next.calm,next.done,next.whole,next.kept⟩
    · exact next

end Sound

end Runs

end Kthreads
