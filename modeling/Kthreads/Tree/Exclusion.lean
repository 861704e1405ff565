import Kthreads.Tree.Invariant

/-! Mutual exclusion and progress in the tournament tree. A thread with one id holds exactly
the first part of the way from its leaf to the root, so that whoever is inside holds the root,
and a thread that waits for a node waits for one that is further up. -/
namespace Kthreads
open TrnmntTree

def Has (d : Nat) (v : View) (id : Int) (h : Nat) : Prop :=
  (∀ j, v.mine j ↔ j = id) ∧ ∀ p, v.holds (.node p) ↔ ∃ k, 0 < k ∧ k ≤ h ∧ p = up d id k

def Bare (v : View) : Prop := (∀ j, ¬ v.mine j) ∧ ∀ p, ¬ v.holds (.node p)

def Rests (d : Nat) (v : View) : Prop :=
  v.due = [] ∧ Bare v ∨ ∃ id, v.due = [(id,.inside)] ∧ Has d v id d

def Stands (d : Nat) (v : View) : Prop :=
  match v.pc with
  | .acquire id | .acquireLock id | .acquireWait id | .acquireTest id | .acquireRefuse id
  | .acquireSet id => v.due = [(id,.trying)] ∧ Bare v
  | .acquireUnlock id | .acquireLeaf id => v.due = [(id,.trying)] ∧ Has d v id 0
  | .climb id pos => v.due = [(id,.trying)] ∧ ∃ h, h ≤ d ∧ pos = up d id h ∧ Has d v id h
  | .climbWait id pos => v.due = [(id,.trying)] ∧ ∃ h, h < d ∧ pos = up d id h ∧ Has d v id h
  | .releaseLock id | .releaseWait id | .releaseTest id =>
    Rests d v ∧ (id,.inside) ∉ v.due ∨ v.due = [(id,.leaving)] ∧ Has d v id d
  | .releaseRec id _ _ => v.due = [(id,.leaving)] ∧ Has d v id d
  | .releaseNode id pos stack => v.due = [(id,.leaving)] ∧
      ∃ h, h < d ∧ pos = up d id h ∧ stack = frames d id h ∧ Has d v id (h+1)
  | .releaseClear id => v.due = [(id,.leaving)] ∧ Has d v id 0
  | .releaseUnlock id => v.due = [(id,.leaving)] ∧ Bare v
  | _ => Rests d v

section Holding
variable {d : Nat} {v : View} {id : Int} {h : Nat}

theorem Has.take (has : Has d v id h) : Has d (v.take (.node (up d id (h+1)))) id (h+1) := by
  refine ⟨has.1,?_⟩
  intro p
  constructor
  · rintro (same | held)
    · cases same
      exact ⟨h+1,by omega,le_rfl,rfl⟩
    · obtain ⟨k,low,high,rfl⟩ := (has.2 p).mp held
      exact ⟨k,low,by omega,rfl⟩
  · rintro ⟨k,low,high,rfl⟩
    rcases Nat.lt_or_ge h k with last | before
    · have here : k = h+1 := by omega
      rw [here]
      exact .inl rfl
    · exact .inr ((has.2 _).mpr ⟨k,low,before,rfl⟩)

theorem Has.drop (has : Has d v id (h+1)) (low : h+1 ≤ d) : Has d (v.drop (.node (up d id (h+1)))) id h := by
  refine ⟨has.1,?_⟩
  intro p
  constructor
  · rintro ⟨other,held⟩
    obtain ⟨k,positive,high,rfl⟩ := (has.2 p).mp held
    refine ⟨k,positive,?_,rfl⟩
    by_contra last
    have here : k = h+1 := by omega
    exact other (by rw [here])
  · rintro ⟨k,positive,high,rfl⟩
    refine ⟨?_,(has.2 _).mpr ⟨k,positive,by omega,rfl⟩⟩
    intro same
    have equal := up_inj id k (h+1) (by omega) low (by simpa using same)
    omega

theorem Bare.set (bare : Bare v) (id : Int) : Has d (v.set id) id 0 := by
  refine ⟨fun j => ⟨?_,.inl⟩,fun p => ⟨fun held => absurd held (bare.2 p),?_⟩⟩
  · rintro (same | mine)
    · exact same
    · exact absurd mine (bare.1 j)
  · rintro ⟨k,low,high,_⟩
    omega

theorem Has.clear (has : Has d v id 0) : Bare (v.clear id) := by
  refine ⟨?_,?_⟩
  · rintro j ⟨other,mine⟩
    exact other ((has.1 j).mp mine)
  · intro p held
    obtain ⟨k,low,high,_⟩ := (has.2 p).mp held
    omega

theorem Has.lock (has : Has d v id h) : Has d (v.take .lock) id h ∧ Has d (v.drop .lock) id h := by
  refine ⟨⟨has.1,fun p => Iff.trans ⟨?_,.inr⟩ (has.2 p)⟩,
    ⟨has.1,fun p => Iff.trans ⟨And.right,fun held => ⟨by simp,held⟩⟩ (has.2 p)⟩⟩
  rintro (same | held)
  · contradiction
  · exact held

theorem Bare.lock (bare : Bare v) : Bare (v.take .lock) ∧ Bare (v.drop .lock) := by
  refine ⟨⟨bare.1,?_⟩,⟨bare.1,fun p held => bare.2 p held.2⟩⟩
  rintro p (same | held)
  · contradiction
  · exact bare.2 p held

theorem Rests.lock (rests : Rests d v) : Rests d (v.take .lock) ∧ Rests d (v.drop .lock) := by
  rcases rests with ⟨none,bare⟩ | ⟨id,due,has⟩
  · exact ⟨.inl ⟨none,bare.lock.1⟩,.inl ⟨none,bare.lock.2⟩⟩
  · exact ⟨.inr ⟨id,due,has.lock.1⟩,.inr ⟨id,due,has.lock.2⟩⟩

end Holding

theorem Stands.above {d : Nat} {v : View} (own : Own d v) (stands : Stands d v) {id : Int} {pos : Nat}
    (place : v.pc = .climb id pos) (inner : pos ≠ 0) :
    ∃ h, h < d ∧ pos = up d id h ∧ Has d v id h ∧ ¬ v.holds (.node (father pos)) := by
  unfold Stands at stands
  rw [place] at stands
  obtain ⟨_,h,low,rfl,has⟩ := stands
  have below : h ≠ d := by
    rintro rfl
    exact inner (up_root (own.ranged id ((has.1 id).mpr rfl)))
  refine ⟨h,by omega,rfl,has,?_⟩
  intro held
  obtain ⟨k,_,high,same⟩ := (has.2 _).mp held
  rw [← up_succ] at same
  have equal := up_inj id (h+1) k (by omega) (by omega) same
  omega

theorem Stands.step {d : Nat} {v v' : View} (own : Own d v) (stands : Stands d v) (taken : ViewStep d v v') :
    Stands d v' := by
  have fits := own.fits
  unfold FitsPlace at fits
  have above {id : Int} {pos : Nat} := @Stands.above d v own stands id pos
  unfold Stands at stands
  cases taken with
  | outside id place =>
    rw [place] at stands
    obtain ⟨due,bare⟩ := stands
    exact .inl ⟨by simp [View.goto,View.setDue,due],bare⟩
  | enter id place | acquireLock id place | taken id place | vacant id place | deallocLock place
  | releaseLock id place =>
    rw [place] at stands
    exact stands
  | acquireWait id place =>
    rw [place] at stands
    exact ⟨stands.1,stands.2.lock.1⟩
  | acquireRefuse id place =>
    rw [place] at stands
    obtain ⟨due,bare⟩ := stands
    exact .inl ⟨by simp [View.goto,View.setDue,due],bare.lock.2⟩
  | acquireSet id place free =>
    rw [place] at stands
    exact ⟨stands.1,stands.2.set id⟩
  | acquireUnlock id place =>
    rw [place] at stands
    exact ⟨stands.1,stands.2.lock.2⟩
  | acquireLeaf id place =>
    rw [place] at stands
    exact ⟨stands.1,0,by omega,rfl,stands.2⟩
  | wins id place =>
    rw [place] at stands
    obtain ⟨due,h,low,root,has⟩ := stands
    have top : h = d := by
      by_contra below
      have := up_pos id h (by omega : h < d)
      omega
    subst h
    exact .inr ⟨id,by simp [View.goto,View.setDue,due],has⟩
  | climb id pos place inner free =>
    obtain ⟨h,low,same,has,_⟩ := above place inner
    rw [place] at stands
    exact ⟨stands.1,h,low,same,has⟩
  | shared id pos place inner held =>
    obtain ⟨_,_,_,_,free⟩ := above place inner
    exact absurd held free
  | climbWait id pos place =>
    rw [place] at stands
    obtain ⟨due,h,low,rfl,has⟩ := stands
    rw [← up_succ]
    exact ⟨due,h+1,low,rfl,has.take⟩
  | releaseWait id place =>
    rw [place] at stands
    rcases stands with ⟨rests,other⟩ | ⟨due,has⟩
    · exact .inl ⟨rests.lock.1,other⟩
    · exact .inr ⟨due,has.lock.1⟩
  | owns id place mine =>
    rw [place] at stands
    rcases stands with ⟨⟨_,bare⟩ | ⟨j,due,has⟩,other⟩ | leaving
    · exact absurd mine (bare.1 id)
    · rw [due,(has.1 id).mp mine] at other
      simp at other
    · exact leaving
  | disowns id place foreign =>
    rw [place] at stands
    rcases stands with ⟨rests,_⟩ | ⟨due,has⟩
    · exact rests
    · exact absurd ((has.1 id).mpr rfl) foreign
  | inner id pos stack place below =>
    rw [place] at stands
    exact stands
  | root id pos stack place top =>
    rw [place] at stands fits
    obtain ⟨mine,h,low,rfl,rfl⟩ := fits
    have last := (father_up (own.ranged id mine) h low).mp top
    exact ⟨stands.1,h,low,rfl,rfl,last.symm ▸ stands.2⟩
  | last id pos place held =>
    rw [place] at stands
    obtain ⟨due,h,low,rfl,empty,has⟩ := stands
    cases h with
    | succ h => simp [frames] at empty
    | zero =>
      rw [← up_succ]
      exact ⟨due,has.drop low⟩
  | down id pos outer rest place held =>
    rw [place] at stands
    obtain ⟨due,h,low,rfl,stack,has⟩ := stands
    cases h with
    | zero => simp [frames] at stack
    | succ h =>
      obtain ⟨rfl,rfl⟩ := List.cons.inj stack
      rw [← up_succ]
      exact ⟨due,h,by omega,rfl,rfl,has.drop low⟩
  | stuck id pos stack place other =>
    rw [place] at stands
    obtain ⟨due,h,low,rfl,stack,has⟩ := stands
    rw [← up_succ] at other
    exact absurd ((has.2 _).mpr ⟨h+1,by omega,le_rfl,rfl⟩) other
  | releaseClear id place =>
    rw [place] at stands
    exact ⟨stands.1,stands.2.clear⟩
  | releaseUnlock id place =>
    rw [place] at stands
    obtain ⟨due,bare⟩ := stands
    exact .inl ⟨by simp [View.goto,View.setDue,due],bare.lock.2⟩
  | releaseRefuse id place | deallocUnlock place | deallocRefuse place =>
    rw [place] at stands
    exact stands.lock.2
  | deallocWait place =>
    rw [place] at stands
    exact stands.lock.1
  | deallocFree place | deallocScan i j place | found i place | scanned i place =>
    rw [place] at stands
    exact stands
  | destroys pc before after lock =>
    have rests : Rests d v := by
      cases at_ : v.pc <;> rw [at_] at before stands <;> first | contradiction | exact stands
    cases pc <;> first | contradiction | exact rests

theorem Stands.inside {d : Nat} {v : View} (stands : Stands d v) (id : Int) (member : (id,.inside) ∈ v.due) :
    Has d v id d := by
  have resting (rests : Rests d v) : Has d v id d := by
    rcases rests with ⟨none,_⟩ | ⟨j,due,has⟩
    · simp [none] at member
    · have same : id = j := by simpa [due] using member
      exact same ▸ has
  have releasing (j : Int) (stands : Rests d v ∧ (j,.inside) ∉ v.due ∨ v.due = [(j,.leaving)] ∧ Has d v j d) :
      Has d v id d := by
    rcases stands with ⟨rests,_⟩ | ⟨due,_⟩
    · exact resting rests
    · simp [due] at member
  unfold Stands at stands
  split at stands
  all_goals
    first
    | exact resting stands
    | exact releasing _ stands
    | exact absurd member (by simp [stands.1])

section Runs
variable {T : Type} [DecidableEq T] {d : Nat} {s s' : TrnmntTree T}

abbrev Singly (s : TrnmntTree T) : TreeAction T → Prop
  | .acquire t _ => s.due t = []
  | _ => True

abbrev Turns (s : TrnmntTree T) : TreeAction T → Prop
  | .acquire t _ => s.due t = []
  | .dealloc _ => False
  | _ => True

theorem stands_called (stands : ∀ t, Stands d (s.view t)) (t : T) (ids : List (Int × Phase)) (pc : TreePc)
    (m : TrnmntTree T) (same : m.view = (s.setDue t ids).view)
    (now : Stands d (((s.view t).setDue ids).goto pc)) (u : T) : Stands d ((m.goto t pc).view u) := by
  by_cases here : u = t
  · rw [here,view_goto_self,same,view_setDue_self]
    exact now
  · rw [view_goto m here,same,view_setDue s here]
    exact stands u

theorem stands_step {a : TreeAction T} (inv : Sound d s) (stands : ∀ t, Stands d (s.view t)) (single : Singly s a)
    (taken : treeStep s a = some s') (u : T) : Stands d (s'.view u) := by
  have resting (t : T) (idle : s.pc t = .idle) : Rests d (s.view t) := by
    have rests := stands t
    unfold Stands at rests
    rw [show (s.view t).pc = .idle from idle] at rests
    exact rests
  cases a with
  | acquire t id =>
    simp only [treeStep] at taken
    split at taken
    next idle =>
      cases taken
      have due : s.due t = [] := single
      refine stands_called stands t [(id,.trying)] (.acquire id) _ (by rw [due]; rfl) ?_ u
      rcases resting t idle with ⟨_,bare⟩ | ⟨j,other,_⟩
      · exact ⟨rfl,bare⟩
      · exact absurd (due.symm.trans other) (by simp)
    next => contradiction
  | release t id =>
    simp only [treeStep] at taken
    split at taken
    next ready =>
      cases taken
      refine stands_called stands t _ (.releaseLock id) _ rfl ?_ u
      have rests := resting t ready.1
      split
      next member =>
        rcases rests with ⟨none,_⟩ | ⟨j,due,has⟩
        · rw [show s.due t = [] from none] at member
          simp at member
        · have own : s.due t = [(j,.inside)] := due
          have same : id = j := by simpa [own] using member
          exact .inr ⟨by simp [View.goto,View.setDue,own,same],same ▸ has⟩
      next other => exact .inl ⟨rests,other⟩
    next => contradiction
  | dealloc t =>
    simp only [treeStep] at taken
    split at taken
    next idle =>
      cases taken
      exact stands_called stands t (s.due t) .deallocLock s (by simp [setDue]) (resting t idle) u
    next => contradiction
  | run t =>
    obtain ⟨m,code,eq⟩ := Option.map_eq_some_iff.mp taken
    obtain ⟨step,others⟩ := inv.code_view code
    have next : Stands d (m.view u) := by
      by_cases here : u = t
      · rw [here]
        exact (stands t).step (inv.own t) step
      · rw [others u here]
        exact stands u
    rw [← eq]
    split <;> exact next

def TreePc.ofDealloc : TreePc → Bool
  | .deallocLock | .deallocWait | .deallocScan _ | .deallocRefuse => true
  | pc => pc.destroys

theorem ViewStep.undestroyed {v v' : View} (taken : ViewStep d v v') (before : v.pc.ofDealloc = false) :
    v'.pc.ofDealloc = false := by
  cases taken with
  | destroys pc inside => cases at_ : v.pc <;> rw [at_] at inside before <;> contradiction
  | deallocLock place | deallocWait place | deallocUnlock place | deallocScan i j place | found i place
  | scanned i place =>
    rw [place] at before
    contradiction
  | _ => rfl

structure Turning (d : Nat) (s : TrnmntTree T) : Prop where
  sound : Sound d s
  kept : s.freed = false
  undestroyed : ∀ t, (s.pc t).ofDealloc = false
  stands : ∀ t, Stands d (s.view t)

namespace Turning

theorem start (T : Type) [DecidableEq T] (d : Nat) : Turning d (newTree T d) where
  sound := .start T d
  kept := rfl
  undestroyed _ := rfl
  stands _ := .inl ⟨rfl,by simp [Bare,TrnmntTree.view,newTree]⟩

omit [DecidableEq T] in
theorem tame (inv : Turning d s) (t : T) : (s.pc t).destroys = false := by
  have before := inv.undestroyed t
  cases at_ : s.pc t <;> rw [at_] at before <;> first | rfl | contradiction

theorem step {a : TreeAction T} (inv : Turning d s) (positive : 0 < d) (turns : Turns s a)
    (taken : treeStep s a = some s') : Turning d s' := by
  have single : Singly s a := by
    cases a with
    | acquire t id => exact turns
    | _ => trivial
  have apart : Apart s a := by
    cases a with
    | run t =>
      intro i scans
      have before := inv.undestroyed t
      rw [scans] at before
      contradiction
    | _ => exact ⟨inv.kept,inv.tame⟩
  have moved (t : T) (pc : TreePc) (free : pc.ofDealloc = false) (m : TrnmntTree T) (same : m.pc = s.pc) (u : T) :
      ((m.goto t pc).pc u).ofDealloc = false := by
    by_cases here : u = t
    · simpa [TrnmntTree.goto,here] using free
    · simpa [TrnmntTree.goto,here,same] using inv.undestroyed u
  have rest : s'.freed = false ∧ ∀ u, (s'.pc u).ofDealloc = false := by
    cases a with
    | acquire t id =>
      simp only [treeStep] at taken
      split at taken
      · cases taken
        exact ⟨inv.kept,moved t (.acquire id) rfl _ rfl⟩
      · contradiction
    | release t id =>
      simp only [treeStep] at taken
      split at taken
      · cases taken
        exact ⟨inv.kept,moved t (.releaseLock id) rfl _ rfl⟩
      · contradiction
    | dealloc t => exact turns.elim
    | run t =>
      obtain ⟨m,code,eq⟩ := Option.map_eq_some_iff.mp taken
      obtain ⟨step,others⟩ := inv.sound.code_view code
      have active := code_active code
      have gentle := (inv.sound.code_view code).gentle (inv.tame t)
      have freed : m.freed = s.freed := congrArg (·.2.1) gentle.rest
      have next : m.freed = false ∧ ∀ u, (m.pc u).ofDealloc = false := by
        refine ⟨freed.trans inv.kept,?_⟩
        intro u
        by_cases here : u = t
        · rw [here]
          exact step.undestroyed (inv.undestroyed t)
        · rw [show m.pc u = s.pc u from congrArg View.pc (others u here)]
          exact inv.undestroyed u
      rw [← eq]
      split <;> exact next
  exact ⟨inv.sound.step positive apart taken,rest.1,rest.2,stands_step inv.sound inv.stands single taken⟩

theorem of_reaches (positive : 0 < d) (reached : TreeReaches Turns (newTree T d) s) : Turning d s :=
  reached.invariant (Turning d) (.start T d) fun _ _ _ held => held.step positive

end Turning

/-- A step is refused only to a thread that is idle or waits for a mutex that is held. -/
theorem blocked {t : T} (stops : s.code t = none) : s.pc t = .idle ∨
    (∃ id, s.pc t = .acquireWait id ∨ s.pc t = .releaseWait id ∨ s.pc t = .deallocWait) ∧ s.holder .lock ≠ none ∨
      ∃ id pos, s.pc t = .climbWait id pos ∧ s.holder (.node (father pos)) ≠ none := by
  have refused (m : TreeMutex) (pc : TreePc) (r : TrnmntTree T) (same : r.holder = s.holder)
      (none : r.grant t m pc = none) : s.holder m ≠ Option.none := by
    intro free
    simp [grant,same,free] at none
  unfold TrnmntTree.code at stops
  split at stops
  case h_1 idle => exact .inl idle
  case h_4 id place => exact .inr (.inl ⟨⟨id,.inl place⟩,refused _ _ s rfl stops⟩)
  case h_11 id pos place => exact .inr (.inr ⟨id,pos,place,refused _ _ s rfl stops⟩)
  case h_13 id place => exact .inr (.inl ⟨⟨id,.inr (.inl place)⟩,refused _ _ s rfl stops⟩)
  case h_21 place =>
    exact .inr (.inl ⟨⟨0,.inr (.inr place)⟩,
      refused _ _ {s with seen := s.due, hist := .deallocTakes t :: s.hist} rfl stops⟩)
  case h_2 | h_10 => split at stops <;> contradiction
  all_goals contradiction

end Runs

/-- At most one thread is inside, a node is held only by a thread that is registered below it,
and a climbing thread holds exactly the first part of its way. -/
theorem tree_exclusion (T : Type) [DecidableEq T] (d : Nat) (positive : 0 < d) (s : TrnmntTree T)
    (reached : TreeReaches Turns (newTree T d) s) :
    (∀ t u i j, (i,.inside) ∈ s.due t → (j,.inside) ∈ s.due u → t = u) ∧
    (∀ p t, s.holder (.node p) = some t → ∃ id, InRange d id ∧ s.threadMap id = some t ∧ OnPath d id p) ∧
    ∀ t id pos, s.pc t = .climb id pos ∨ s.pc t = .climbWait id pos → ∃ h, h ≤ d ∧ pos = up d id h ∧
      ∀ p, s.holder (.node p) = some t ↔ ∃ k, 0 < k ∧ k ≤ h ∧ p = up d id k := by
  have inv := Turning.of_reaches positive reached
  refine ⟨?_,?_,?_⟩
  · have root (t : T) (i : Int) (member : (i,.inside) ∈ s.due t) : s.holder (.node 0) = some t := by
      have has := (inv.stands t).inside i member
      have range := (inv.sound.own t).ranged i ((has.1 i).mpr rfl)
      exact (has.2 0).mpr ⟨d,positive,le_rfl,(up_root range).symm⟩
    intro t u i j first second
    exact Option.some.inj ((root t i first).symm.trans (root u j second))
  · intro p t held
    obtain ⟨id,mine,path⟩ := (inv.sound.own t).registered p held
    exact ⟨id,(inv.sound.own t).ranged id mine,mine,path⟩
  · intro t id pos place
    have stands := inv.stands t
    unfold Stands at stands
    rcases place with climbs | waits
    · rw [show (s.view t).pc = _ from climbs] at stands
      obtain ⟨_,h,low,same,has⟩ := stands
      exact ⟨h,low,same,has.2⟩
    · rw [show (s.view t).pc = _ from waits] at stands
      obtain ⟨_,h,low,same,has⟩ := stands
      exact ⟨h,low.le,same,has.2⟩

/-- While some thread is inside a call and none is in the critical section, some thread inside
a call can take a step. -/
theorem tree_progress (T : Type) [DecidableEq T] (d : Nat) (positive : 0 < d) (s : TrnmntTree T)
    (reached : TreeReaches Turns (newTree T d) s) (busy : ∃ t, s.pc t ≠ .idle)
    (outside : ∀ t id, (id,.inside) ∉ s.due t) : ∃ t s', s.pc t ≠ .idle ∧ treeStep s (.run t) = some s' := by
  have inv := Turning.of_reaches positive reached
  by_contra stuck
  have stops (t : T) (active : s.pc t ≠ .idle) : s.code t = none := by
    cases code : s.code t with
    | none => rfl
    | some m => exact absurd ⟨t,_,active,by rw [treeStep,code]; rfl⟩ stuck
  -- whoever has `Lock` is not blocked, so all threads wait for nodes
  have unlocked : s.holder .lock = none := by
    cases held : s.holder .lock with
    | none => rfl
    | some u =>
      have lock : (s.pc u).hasLock = true := (inv.sound.own u).lock.mp held
      have active : s.pc u ≠ .idle := by
        intro idle
        rw [idle] at lock
        contradiction
      rcases blocked (stops u active) with idle | ⟨⟨id,place | place | place⟩,_⟩ | ⟨id,pos,place,_⟩
      · exact absurd idle active
      all_goals
        rw [place] at lock
        contradiction
  have climbs (t : T) (active : s.pc t ≠ .idle) :
      ∃ id pos, s.pc t = .climbWait id pos ∧ s.holder (.node (father pos)) ≠ none := by
    rcases blocked (stops t active) with idle | ⟨_,held⟩ | climbs
    · exact absurd idle active
    · exact absurd unlocked held
    · exact climbs
  have waiting (t : T) (id : Int) (pos : Nat) (place : s.pc t = .climbWait id pos) :
      ∃ h, h < d ∧ pos = up d id h ∧ Has d (s.view t) id h := by
    have stands := inv.stands t
    unfold Stands at stands
    rw [show (s.view t).pc = _ from place] at stands
    exact stands.2
  -- a thread that waits for the highest node waits for a thread further up
  have none (pos : Nat) : ∀ t id, s.pc t ≠ .climbWait id pos := by
    induction pos using Nat.strong_induction_on with
    | h pos ih =>
      intro t id place
      obtain ⟨h,low,same,_⟩ := waiting t id pos place
      obtain ⟨j,pos',again,held⟩ := climbs t (by simp [place])
      obtain ⟨rfl,rfl⟩ : id = j ∧ pos = pos' := by simpa [place] using again
      obtain ⟨u,owner⟩ := Option.ne_none_iff_exists'.mp held
      rw [same,← up_succ] at owner
      by_cases idle : s.pc u = .idle
      · have rests := inv.stands u
        unfold Stands at rests
        rw [show (s.view u).pc = _ from idle] at rests
        rcases rests with ⟨_,bare⟩ | ⟨j,due,_⟩
        · exact bare.2 _ owner
        · exact outside u j (by rw [show s.due u = _ from due]; simp)
      · obtain ⟨j,pos',place',_⟩ := climbs u idle
        obtain ⟨h',low',same',has⟩ := waiting u j pos' place'
        obtain ⟨k,_,high,equal⟩ := (has.2 _).mp owner
        have below : up d j h' ≤ up d j k := by
          rcases Nat.lt_or_ge k h' with less | more
          · exact (up_lt j k h' less low'.le).le
          · have here : k = h' := by omega
            rw [here]
        have above : up d id (h+1) < up d id h := up_lt id h (h+1) (by omega) low
        exact ih pos' (by omega) u j place'
  obtain ⟨t,active⟩ := busy
  obtain ⟨id,pos,place,_⟩ := climbs t active
  exact none pos t id place

instance {T : Type} [DecidableEq T] (s : TrnmntTree T) (a : TreeAction T) : Decidable (Turns s a) :=
  match a with
  | .acquire t _ => inferInstanceAs (Decidable (s.due t = []))
  | .dealloc _ => isFalse id
  | .release _ _ | .run _ => isTrue trivial

def turnsScript (n : Nat) : List (TreeAction Bool) :=
  .acquire true 0 :: List.replicate n (.run true) ++ .acquire false 1 :: List.replicate 8 (.run false)

theorem tree_exclusion_waits : ∃ s, TreeReaches Turns (newTree Bool 1) s ∧ s.pc false = .climbWait 1 2 ∧
    s.due true = [(0,.inside)] ∧ (∀ i, (i,.inside) ∉ s.due false) ∧ ∀ p, s.holder (.node p) ≠ some false := by
  obtain ⟨s,reached,place,due⟩ := Interleave.play_shows treeStep Turns (newTree Bool 1) (turnsScript 10)
    (fun s => s.pc false = .climbWait 1 2 ∧ s.due true = [(0,.inside)]) (by decide +kernel)
  obtain ⟨unique,_,climbs⟩ := tree_exclusion Bool 1 (by decide) s reached
  refine ⟨s,reached,place,due,?_,?_⟩
  · intro i member
    exact absurd (unique true false 0 i (by simp [due]) member) (by decide)
  · obtain ⟨h,low,same,held⟩ := climbs false 1 2 (.inr place)
    intro p owner
    obtain ⟨k,positive,below,_⟩ := (held p).mp owner
    have here : h = 1 := by omega
    rw [here] at same
    simp [up,father] at same

/-- One thread has the node and has not returned yet, the other waits for the node. -/
theorem tree_progress_enters : ∃ s, TreeReaches Turns (newTree Bool 1) s ∧ (treeStep s (.run false)).isNone ∧
    ∃ t s', s.pc t ≠ .idle ∧ treeStep s (.run t) = some s' := by
  obtain ⟨s,reached,active,blocked,first,second⟩ := Interleave.play_shows treeStep Turns (newTree Bool 1)
    (turnsScript 9) (fun s => s.pc true ≠ .idle ∧ (treeStep s (.run false)).isNone ∧ s.due true = [(0,.trying)] ∧
      s.due false = [(1,.trying)]) (by decide +kernel)
  refine ⟨s,reached,blocked,tree_progress Bool 1 (by decide) s reached ⟨true,active⟩ ?_⟩
  intro t id
  cases t with
  | false => simp [second]
  | true => simp [first]

end Kthreads
