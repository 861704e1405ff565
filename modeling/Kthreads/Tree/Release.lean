import Kthreads.Tree.Dealloc

/-! `trnmnt_tree_release` undoes `trnmnt_tree_acquire`. The node mutexes that a thread locks in `acquire`
and unlocks in `release` are recorded beside the tree. The loop of `acquire` locks the way from the leaf
to the root; the recursion of `release` unlocks it from the root down, and no unlock fails. -/
open Function

namespace Kthreads
open TrnmntTree

/-- The nodes that the last `acquire` of a thread has locked, and the unlock calls on nodes of its last
`release` with what they returned. -/
structure Notes where
  locks : List Nat
  unlocks : List (Nat × Bool)
  deriving DecidableEq

/-- What a step from a place adds; `done` tells which unlocks succeed. -/
def Notes.add (n : Notes) (done : Nat → Bool) : TreePc → Notes
  | .climbWait _ pos => {n with locks := n.locks ++ [father pos]}
  | .releaseNode _ pos _ => {n with unlocks := n.unlocks ++ [(father pos,done (father pos))]}
  | _ => n

def way (d : Nat) (id : Int) (h : Nat) : List Nat := (List.range h).map fun k => up d id (k+1)

def wayDown (d : Nat) (id : Int) (h : Nat) : List (Nat × Bool) := ((way d id d).drop h).reverse.map fun p => (p,true)

theorem way_succ (d : Nat) (id : Int) (h : Nat) : way d id (h+1) = way d id h ++ [up d id (h+1)] := by
  simp [way,List.range_succ]

@[simp]
theorem way_length (d : Nat) (id : Int) (h : Nat) : (way d id h).length = h := by simp [way]

theorem wayDown_top (d : Nat) (id : Int) : wayDown d id d = [] := by
  simp [wayDown,List.drop_eq_nil_of_le]

theorem wayDown_step (d : Nat) (id : Int) (h : Nat) (low : h < d) :
    wayDown d id h = wayDown d id (h+1) ++ [(up d id (h+1),true)] := by
  have inside : h < (way d id d).length := by simpa using low
  rw [wayDown,wayDown,List.drop_eq_getElem_cons inside]
  simp [way]

def Recorded (d : Nat) (n : Notes) : TreePc → Prop
  | .acquire _ | .acquireLock _ | .acquireWait _ | .acquireTest _ | .acquireRefuse _ | .acquireSet _
  | .acquireUnlock _ | .acquireLeaf _ => n.locks = []
  | .climb id pos | .climbWait id pos => ∃ h, h ≤ d ∧ pos = up d id h ∧ n.locks = way d id h
  | .releaseLock _ | .releaseWait _ | .releaseTest _ | .releaseRec _ _ _ | .releaseRefuse _ => n.unlocks = []
  | .releaseNode id pos _ => ∃ h, h < d ∧ pos = up d id h ∧ n.unlocks = wayDown d id (h+1)
  | .releaseClear id | .releaseUnlock id => n.unlocks = wayDown d id 0
  | _ => True

structure Follows (d : Nat) (n : Notes) (v : View) : Prop where
  got : ∀ id phase, (id,phase) ∈ v.due → phase ≠ .trying → n.locks = way d id d
  place : Recorded d n v.pc

namespace Follows

variable {d : Nat} {n : Notes} {v v' : View}

theorem step (own : Own d v) (stands : Stands d v) (follows : Follows d n v) (taken : ViewStep d v v')
    (done : Nat → Bool)
    (result : ∀ id pos stack, v.pc = .releaseNode id pos stack → v.holds (.node (father pos)) → done (father pos) = true) :
    Follows d (n.add done v.pc) v' := by
  have fits := own.fits
  unfold FitsPlace at fits
  have above {id : Int} {pos : Nat} := @Stands.above d v own stands id pos
  unfold Stands at stands
  obtain ⟨got,recorded⟩ := follows
  have erased (id : Int) (gone : Phase) (j : Int) (phase : Phase) (member : (j,phase) ∈ v.due.erase (id,gone)) :=
    got j phase (List.mem_of_mem_erase member)
  cases taken with
  | enter id place | acquireLock id place | taken id place | vacant id place | acquireSet id place
  | acquireWait id place | acquireUnlock id place | climb id pos place | releaseLock id place | releaseWait id place
  | owns id place | disowns id place | inner id pos stack place | releaseClear id place =>
    rw [place] at recorded ⊢
    exact ⟨got,recorded⟩
  | outside id place | acquireRefuse id place | releaseUnlock id place =>
    rw [place]
    exact ⟨erased id _,trivial⟩
  | acquireLeaf id place =>
    rw [place] at recorded ⊢
    exact ⟨got,0,by omega,rfl,recorded⟩
  | wins id place =>
    rw [place] at recorded stands ⊢
    obtain ⟨h,low,root,locks⟩ := recorded
    have top : h = d := by
      by_contra below
      have := up_pos id h (by omega : h < d)
      omega
    refine ⟨?_,trivial⟩
    intro j phase member _
    have same : j = id := by
      simp only [View.goto,View.setDue,stands.1] at member
      simp at member
      exact member.1
    rw [same]
    exact top ▸ locks
  | shared id pos place inner held =>
    obtain ⟨_,_,_,_,free⟩ := above place inner
    exact absurd held free
  | climbWait id pos place =>
    rw [place] at recorded stands ⊢
    obtain ⟨due,k,low,same,_⟩ := stands
    obtain ⟨h,high,rfl,locks⟩ := recorded
    have here := up_inj id h k high (by omega) same
    refine ⟨?_,h+1,by omega,(up_succ d id h).symm,?_⟩
    · intro j phase member tried
      simp [View.goto,View.take,due] at member
      exact absurd member.2 tried
    · simp only [Notes.add]
      rw [locks,way_succ,up_succ]
  | root id pos stack place top =>
    rw [place] at recorded fits ⊢
    obtain ⟨mine,h,low,rfl,_⟩ := fits
    have last := (father_up (own.ranged id mine) h low).mp top
    refine ⟨got,h,low,rfl,?_⟩
    rw [last,wayDown_top]
    exact recorded
  | last id pos place held =>
    have success := result id pos [] place held
    rw [place] at recorded stands ⊢
    obtain ⟨_,k,below,same,empty,_⟩ := stands
    obtain ⟨h,low,rfl,unlocks⟩ := recorded
    have here := up_inj id h k (by omega) (by omega) same
    subst k
    cases h with
    | succ h => simp [frames] at empty
    | zero =>
      refine ⟨got,?_⟩
      simp only [Recorded,View.goto,Notes.add]
      rw [unlocks,success,wayDown_step d id 0 low,up_succ]
  | down id pos outer rest place held =>
    have success := result id pos _ place held
    rw [place] at recorded stands ⊢
    obtain ⟨_,k,below,same,stack,_⟩ := stands
    obtain ⟨h,low,rfl,unlocks⟩ := recorded
    have here := up_inj id h k (by omega) (by omega) same
    subst k
    cases h with
    | zero => simp [frames] at stack
    | succ h =>
      obtain ⟨rfl,_⟩ := List.cons.inj stack
      refine ⟨got,h,by omega,rfl,?_⟩
      simp only [Notes.add]
      rw [unlocks,success,wayDown_step d id (h+1) low,up_succ d id (h+1)]
  | stuck id pos stack place other =>
    rw [place] at stands
    obtain ⟨_,h,low,rfl,_,has⟩ := stands
    refine absurd ((has.2 _).mpr ⟨h+1,by omega,le_rfl,?_⟩) other
    exact (up_succ d id h).symm
  | releaseRefuse id place | deallocLock place | deallocWait place | deallocScan i j place | found i place
  | scanned i place | deallocUnlock place | deallocRefuse place | deallocFree place =>
    rw [place]
    exact ⟨got,trivial⟩
  | destroys pc before after lock =>
    have same : n.add done v.pc = n := by
      cases place : v.pc <;> first | rfl | (rw [place] at before; contradiction)
    rw [same]
    refine ⟨got,?_⟩
    cases pc <;> trivial

end Follows

def TreePc.left (d : Nat) : TreePc → Nat
  | .releaseLock _ => 2*d+5
  | .releaseWait _ => 2*d+4
  | .releaseTest _ => 2*d+3
  | .releaseRec _ _ stack => d - stack.length + d + 2
  | .releaseNode _ _ stack => stack.length + 3
  | .releaseClear _ => 2
  | .releaseUnlock _ | .releaseRefuse _ => 1
  | _ => 0

theorem frames_length (d : Nat) (id : Int) (h : Nat) : (frames d id h).length = h := by
  induction h with
  | zero => rfl
  | succ h ih => rw [frames,List.length_cons,ih]

theorem ViewStep.left {d : Nat} {v v' : View} (own : Own d v) (taken : ViewStep d v v') (id : Int)
    (calls : v.pc.releases = some id) :
    (v'.pc.releases = some id ∨ v.pc = .releaseUnlock id ∨ v.pc = .releaseRefuse id) ∧
      v'.pc.left d < v.pc.left d := by
  have fits := own.fits
  unfold FitsPlace at fits
  cases taken with
  | releaseLock j place | releaseWait j place | disowns j place =>
    rw [place] at calls ⊢
    refine ⟨.inl calls,?_⟩
    simp only [View.goto,TreePc.left]
    omega
  | owns j place mine =>
    rw [place] at calls ⊢
    refine ⟨.inl calls,?_⟩
    simp only [View.goto,TreePc.left,List.length_nil]
    omega
  | inner j pos stack place | root j pos stack place =>
    rw [place] at calls fits ⊢
    obtain ⟨_,h,low,_,rfl⟩ := fits
    refine ⟨.inl calls,?_⟩
    simp only [View.goto,TreePc.left,List.length_cons,frames_length]
    omega
  | last j pos place =>
    rw [place] at calls ⊢
    exact ⟨.inl calls,by simp [View.goto,TreePc.left]⟩
  | down j pos outer rest place =>
    rw [place] at calls ⊢
    exact ⟨.inl calls,by simp [View.goto,TreePc.left]⟩
  | stuck j pos stack place =>
    rw [place] at calls ⊢
    exact ⟨.inl calls,by simp only [View.goto,TreePc.left]; omega⟩
  | releaseClear j place =>
    rw [place] at calls ⊢
    exact ⟨.inl calls,by simp [View.goto,TreePc.left]⟩
  | releaseUnlock j place =>
    rw [place] at calls ⊢
    cases calls
    exact ⟨.inr (.inl rfl),by simp [View.goto,TreePc.left]⟩
  | releaseRefuse j place =>
    rw [place] at calls ⊢
    cases calls
    exact ⟨.inr (.inr rfl),by simp [View.goto,TreePc.left]⟩
  | destroys pc before =>
    cases place : v.pc <;> rw [place] at before calls <;> contradiction
  | outside j place | enter j place | acquireLock j place | acquireWait j place | taken j place | vacant j place
  | acquireRefuse j place | acquireSet j place | acquireUnlock j place | acquireLeaf j place | wins j place
  | climb j pos place | shared j pos place | climbWait j pos place | deallocLock place | deallocWait place
  | deallocScan i j place | found i place | scanned i place | deallocUnlock place | deallocRefuse place
  | deallocFree place =>
    rw [place] at calls
    contradiction

structure Traced (T : Type) where
  tree : TrnmntTree T
  notes : T → Notes

section Traces
variable {T : Type} [DecidableEq T] {d : Nat}

/-- The notes after a step: a call starts its part of them afresh. -/
def Traced.note (g : Traced T) : TreeAction T → T → Notes
  | .acquire t _ => update g.notes t {g.notes t with locks := []}
  | .release t _ => update g.notes t {g.notes t with unlocks := []}
  | .dealloc _ => g.notes
  | .run t => update g.notes t
      ((g.notes t).add (fun p => decide (g.tree.Unlockable t (.node p))) (g.tree.pc t))

def tracedStep (g : Traced T) (a : TreeAction T) : Option (Traced T) :=
  (treeStep g.tree a).map fun s => ⟨s,g.note a⟩

def newTraced (T : Type) (d : Nat) : Traced T := ⟨newTree T d,fun _ => ⟨[],[]⟩⟩

abbrev TracedReaches (d : Nat) (g : Traced T) : Prop :=
  Interleave.Reaches tracedStep (fun g a => ApartSingly g.tree a) (newTraced T d) g

theorem TracedReaches.tree {g : Traced T} (reached : TracedReaches d g) :
    TreeReaches ApartSingly (newTree T d) g.tree := by
  induction reached with
  | refl => exact .refl
  | tail reached allowed taken held =>
    obtain ⟨s,step,rfl⟩ := Option.map_eq_some_iff.mp taken
    exact .tail held allowed step

theorem follows_called {s m : TrnmntTree T} {n : T → Notes} (follows : ∀ t, Follows d (n t) (s.view t)) (t : T)
    (ids : List (Int × Phase)) (pc : TreePc) (same : m.view = (s.setDue t ids).view) (fresh : Notes)
    (now : Follows d fresh (((s.view t).setDue ids).goto pc)) (u : T) :
    Follows d (update n t fresh u) ((m.goto t pc).view u) := by
  by_cases here : u = t
  · rw [here,update_self,view_goto_self,same,view_setDue_self]
    exact now
  · rw [update_of_ne here,view_goto m here,same,view_setDue s here]
    exact follows u

theorem follows_step {g g' : Traced T} {a : TreeAction T} (inv : Lawful d g.tree) (single : Singly g.tree a)
    (follows : ∀ t, Follows d (g.notes t) (g.tree.view t)) (taken : tracedStep g a = some g') (u : T) :
    Follows d (g'.notes u) (g'.tree.view u) := by
  obtain ⟨s,step,rfl⟩ := Option.map_eq_some_iff.mp taken
  cases a with
  | acquire t id =>
    simp only [treeStep] at step
    split at step
    next idle =>
      cases step
      have due : g.tree.due t = [] := single
      refine follows_called follows t [(id,.trying)] (.acquire id) (by rw [due]; rfl) {g.notes t with locks := []}
        ⟨?_,rfl⟩ u
      intro j phase member tried
      simp [View.goto,View.setDue] at member
      exact absurd member.2 tried
    next => contradiction
  | release t id =>
    simp only [treeStep] at step
    split at step
    next ready =>
      cases step
      refine follows_called follows t _ (.releaseLock id) rfl {g.notes t with unlocks := []} ⟨?_,rfl⟩ u
      intro j phase member tried
      simp only [View.goto,View.setDue] at member
      split at member
      next inside =>
        rcases List.mem_cons.mp member with same | before
        · cases same
          exact (follows t).got id .inside inside (by simp)
        · exact (follows t).got j phase (List.mem_of_mem_erase before) tried
      next => exact (follows t).got j phase member tried
    next => contradiction
  | dealloc t =>
    simp only [treeStep] at step
    split at step
    next idle =>
      cases step
      have called := follows_called follows t (g.tree.due t) .deallocLock (m := g.tree)
        (by simp [setDue]) (g.notes t) ⟨(follows t).got,trivial⟩ u
      rwa [update_eq_self] at called
    next => contradiction
  | run t =>
    obtain ⟨m,code,eq⟩ := Option.map_eq_some_iff.mp step
    obtain ⟨seen,others⟩ := inv.sound.code_view code
    have active := code_active code
    have next : Follows d (g.note (.run t) u) (m.view u) := by
      by_cases here : u = t
      · rw [here]
        simp only [Traced.note,update_self]
        refine (follows t).step (inv.sound.own t) (inv.stands t) seen _ ?_
        intro id pos stack place held
        obtain ⟨j,mine,h,low,high,same⟩ := (inv.sound.own t).registered _ held
        have node : InTree d (.node (father pos)) := by
          rw [same]
          exact up_node ((inv.sound.own t).ranged j mine) h low high
        exact decide_eq_true ⟨inv.sound.alive t active _ node (by rw [show g.tree.pc t = _ from place]; rfl),held⟩
      · simp only [Traced.note,update_of_ne here]
        rw [others u here]
        exact follows u
    rw [← eq]
    split <;> exact next

def Cleared (s : TrnmntTree T) : Prop := ∀ t id, s.pc t = .releaseUnlock id → s.threadMap id = none

theorem cleared_step {s s' : TrnmntTree T} {a : TreeAction T} (inv : Sound d s) (cleared : Cleared s)
    (taken : treeStep s a = some s') : Cleared s' := by
  intro u id place
  by_cases call : ∀ t, a ≠ .run t
  · obtain ⟨t,idle,called,others,same⟩ := treeStep_call call taken
    have map : s'.threadMap = s.threadMap := congrArg (·.1) same
    rw [map]
    by_cases here : u = t
    · rw [here] at place
      generalize seen : s'.view t = v at called
      have at_ : v.pc = .releaseUnlock id := seen ▸ place
      cases called <;> contradiction
    · exact cleared u id ((congrArg View.pc (others u here)).symm.trans place)
  · obtain ⟨t,rfl⟩ : ∃ t, a = .run t := by
      by_contra none
      exact call fun t same => none ⟨t,same⟩
    obtain ⟨m,code,eq⟩ := Option.map_eq_some_iff.mp taken
    have same : (s'.threadMap,s'.pc) = (m.threadMap,m.pc) := by
      rw [← eq]
      split <;> rfl
    obtain ⟨map,places⟩ := by simpa only [Prod.mk.injEq] using same
    rw [places] at place
    rw [map]
    obtain ⟨seen,others⟩ := inv.code_view code
    have active := code_active code
    by_cases here : u = t
    · have clears : s.pc t = .releaseClear id := by
        rw [here] at place
        have at_ : (m.view t).pc = .releaseUnlock id := place
        generalize m.view t = v at seen at_
        cases seen with
        | releaseClear j place =>
          cases at_
          exact place
        | destroys pc before after =>
          cases pc <;> contradiction
        | _ => contradiction
      simp only [TrnmntTree.code,clears,Option.some.injEq] at code
      rw [← code]
      simp [TrnmntTree.goto]
    · have before : s.pc u = .releaseUnlock id := (congrArg View.pc (others u here)).symm.trans place
      have tame : (s.pc t).destroys = false := by
        by_contra destroys
        have idle := inv.calm t (by simpa using destroys) u here
        rw [before] at idle
        contradiction
      rcases ((inv.code_view code).gentle tame).map with same | lock
      · rw [same]
        exact cleared u id before
      · have first := (inv.own t).lock.mpr lock
        have second := (inv.own u).lock.mpr (by rw [show (s.view u).pc = _ from before]; rfl)
        exact absurd (Option.some.inj (second.symm.trans first)) here

structure Traceable (d : Nat) (g : Traced T) : Prop where
  lawful : Lawful d g.tree
  follows : ∀ t, Follows d (g.notes t) (g.tree.view t)
  cleared : Cleared g.tree

theorem Traceable.of_reaches {g : Traced T} (positive : 0 < d) (reached : TracedReaches d g) : Traceable d g := by
  induction reached with
  | refl =>
    refine ⟨.of_reaches positive .refl,fun t => ⟨?_,trivial⟩,?_⟩
    · intro id phase member
      simp [newTraced,newTree,TrnmntTree.view] at member
    · intro t id place
      contradiction
  | tail reached allowed taken held =>
    have lawful := Lawful.of_reaches positive (TracedReaches.tree (.tail reached allowed taken))
    obtain ⟨s,step,rfl⟩ := Option.map_eq_some_iff.mp taken
    exact ⟨lawful,follows_step held.lawful allowed.2 held.follows taken,cleared_step held.lawful.sound held.cleared step⟩

/-- A release that does not belong to the caller's own id writes nothing of the tree but `Lock`. -/
theorem release_other {s s' : TrnmntTree T} {t : T} (inv : Lawful d s) (id : Int) (calls : (s.pc t).releases = some id)
    (other : (id,.leaving) ∉ s.due t) (taken : s.code t = some s') :
    (∀ p, s'.holder (.node p) = s.holder (.node p)) ∧ s'.threadMap = s.threadMap := by
  have stands := inv.stands t
  unfold Stands at stands
  have unowned (due : s.due t = [(id,.leaving)]) : False := other (by simp [due])
  have unlocked (lock : (s.pc t).hasLock = true) := inv.sound.unlocks lock
  cases place : s.pc t with
  | releaseLock j =>
    simp only [TrnmntTree.code,place,Option.some.injEq,lockCall] at taken
    split at taken
    all_goals
      rw [← taken]
      exact ⟨fun _ => rfl,rfl⟩
  | releaseWait j =>
    simp only [TrnmntTree.code,place,grant] at taken
    split at taken
    · cases taken
      exact ⟨fun p => by simp [TrnmntTree.goto,setHolder],rfl⟩
    · contradiction
  | releaseTest j =>
    simp only [TrnmntTree.code,place,Option.some.injEq] at taken
    rw [← taken]
    exact ⟨fun _ => rfl,rfl⟩
  | releaseRefuse j =>
    simp only [TrnmntTree.code,place,Option.some.injEq] at taken
    rw [← taken,unlocked (by rw [place]; rfl)]
    exact ⟨fun p => by simp [ret,TrnmntTree.goto,setHolder],rfl⟩
  | releaseRec j pos stack | releaseNode j pos stack | releaseClear j | releaseUnlock j =>
    rw [place] at calls
    cases calls
    rw [show (s.view t).pc = _ from place] at stands
    exact (unowned stands.1).elim
  | _ =>
    rw [place] at calls
    contradiction

theorem release_ends {s s' : TrnmntTree T} {t : T} (inv : Sound d s) (id : Int) (taken : s.code t = some s')
    (result : Int) (ended : s'.hist = .releaseRet t id result :: s.hist) :
    s.pc t = .releaseUnlock id ∧ result = 0 ∨ s.pc t = .releaseRefuse id ∧ result = -1 := by
  have records := (inv.code_view taken).noted.event ended
  generalize s.pc t = pc at records
  cases records with
  | released => exact .inl ⟨rfl,rfl⟩
  | unreleased => exact .inr ⟨rfl,rfl⟩

theorem Sound.lock_moves {s : TrnmntTree T} (inv : Sound d s) {u : T} (held : s.holder .lock = some u) :
    ∃ s', s.code u = some s' := by
  have lock : (s.pc u).hasLock = true := (inv.own u).lock.mp held
  cases taken : s.code u with
  | some s' => exact ⟨s',rfl⟩
  | none =>
    rcases blocked taken with idle | ⟨⟨id,waits | waits | waits⟩,_⟩ | ⟨id,pos,waits,_⟩
    · rw [idle] at lock
      contradiction
    all_goals
      rw [waits] at lock
      contradiction

theorem release_moves {s : TrnmntTree T} (inv : Sound d s) (t : T) (id : Int) (calls : (s.pc t).releases = some id) :
    (∃ s', s.code t = some s' ∧ (s'.pc t).left d < (s.pc t).left d ∧
      ((s'.pc t).releases = some id ∨ ∃ result, s'.hist = .releaseRet t id result :: s.hist)) ∨
    ∃ u s', u ≠ t ∧ s.holder .lock = some u ∧ s.code u = some s' := by
  cases taken : s.code t with
  | some s' =>
    obtain ⟨goes,less⟩ := (inv.code_view taken).1.left (inv.own t) id calls
    refine .inl ⟨s',rfl,less,?_⟩
    rcases goes with still | place | place
    · exact .inl still
    all_goals
      have at_ : s.pc t = _ := place
      simp only [TrnmntTree.code,at_,Option.some.injEq] at taken
      rw [← taken,inv.unlocks (by rw [at_]; rfl)]
      exact .inr ⟨_,rfl⟩
  | none =>
    rcases blocked taken with idle | ⟨⟨j,waits⟩,locked⟩ | ⟨j,pos,waits,_⟩
    · rw [idle] at calls
      contradiction
    · obtain ⟨u,held⟩ := Option.ne_none_iff_exists'.mp locked
      obtain ⟨s',moves⟩ := inv.lock_moves held
      refine .inr ⟨u,s',?_,held,moves⟩
      rintro rfl
      rw [moves] at taken
      contradiction
    · rw [waits] at calls
      contradiction

end Traces

/-- A `release` by the thread that has got the id returns 0 with `threadMap` cleared. Its unlocks are one for
each of the `d` nodes that `acquire` has locked, in the reverse order, and all of them succeed. A `release` by
another thread returns -1; none of its steps changes a node or `threadMap`. Each step of a `release` brings it
closer to its end, and a thread that waits for `Lock` waits for one that can go on. -/
theorem release_undoes_acquire (T : Type) [DecidableEq T] (d : Nat) (positive : 0 < d) (g : Traced T)
    (reached : TracedReaches d g) (t : T) (id : Int) (calls : (g.tree.pc t).releases = some id) :
    ((id,.leaving) ∈ g.tree.due t → ∀ g' result, tracedStep g (.run t) = some g' →
      g'.tree.hist = .releaseRet t id result :: g.tree.hist →
        result = 0 ∧ (g'.notes t).locks = way d id d ∧ (g'.notes t).locks.length = d ∧
        (g'.notes t).unlocks = (g'.notes t).locks.reverse.map (fun p => (p,true)) ∧
        g'.tree.threadMap id = none) ∧
    ((id,.leaving) ∉ g.tree.due t → ∀ g', tracedStep g (.run t) = some g' →
      (∀ p, g'.tree.holder (.node p) = g.tree.holder (.node p)) ∧ g'.tree.threadMap = g.tree.threadMap ∧
      ∀ result, g'.tree.hist = .releaseRet t id result :: g.tree.hist →
        result = -1 ∧ (g'.notes t).unlocks = []) ∧
    ((∃ g', tracedStep g (.run t) = some g' ∧ (g'.tree.pc t).left d < (g.tree.pc t).left d ∧
        ((g'.tree.pc t).releases = some id ∨
          ∃ result, g'.tree.hist = .releaseRet t id result :: g.tree.hist)) ∨
      (∃ u g', u ≠ t ∧ g.tree.holder .lock = some u ∧ tracedStep g (.run u) = some g')) := by
  have inv := Traceable.of_reaches positive reached
  have stands := inv.lawful.stands t
  unfold Stands at stands
  have follows := inv.follows t
  have recorded := follows.place
  -- the step of the tree behind a step with notes
  have behind (g' : Traced T) (u : T) (taken : tracedStep g (.run u) = some g') : ∃ m, g.tree.code u = some m ∧
      (g'.tree.holder,g'.tree.threadMap,g'.tree.hist) = (m.holder,m.threadMap,m.hist) ∧
      g'.notes = g.note (.run u) := by
    obtain ⟨s,step,rfl⟩ := Option.map_eq_some_iff.mp taken
    obtain ⟨m,code,rfl⟩ := Option.map_eq_some_iff.mp step
    refine ⟨m,code,?_,rfl⟩
    simp only
    split <;> rfl
  have ahead (m : TrnmntTree T) (u : T) (code : g.tree.code u = some m) :
      ∃ g', tracedStep g (.run u) = some g' ∧ (g'.tree.pc,g'.tree.hist) = (m.pc,m.hist) := by
    simp only [tracedStep,treeStep,code,Option.map_some]
    refine ⟨_,rfl,?_⟩
    simp only
    split <;> rfl
  refine ⟨?_,?_,?_⟩
  · intro owned g' result taken ended
    obtain ⟨m,code,same,notes⟩ := behind g' t taken
    obtain ⟨_,map,hist⟩ := by simpa only [Prod.mk.injEq] using same
    rcases release_ends inv.lawful.sound id code result (hist ▸ ended) with ⟨place,zero⟩ | ⟨place,_⟩
    · have locks := follows.got id .leaving owned (by simp)
      rw [show (g.tree.view t).pc = _ from place] at recorded
      have still : g'.notes t = g.notes t := by simp [notes,Traced.note,place,Notes.add]
      rw [still]
      refine ⟨zero,locks,?_,?_,?_⟩
      · rw [locks,way_length]
      · rw [locks]
        exact recorded
      · rw [map]
        simp only [TrnmntTree.code,place,Option.some.injEq] at code
        rw [← code,inv.lawful.sound.unlocks (by rw [place]; rfl)]
        exact inv.cleared t id place
    · rw [show (g.tree.view t).pc = _ from place] at stands
      rcases stands with ⟨due,_⟩ | ⟨j,due,_⟩
      all_goals
        rw [show g.tree.due t = _ from due] at owned
        simp at owned
  · intro other g' taken
    obtain ⟨m,code,same,notes⟩ := behind g' t taken
    obtain ⟨holder,map,hist⟩ := by simpa only [Prod.mk.injEq] using same
    obtain ⟨nodes,entries⟩ := release_other inv.lawful id calls other code
    rw [holder,map]
    refine ⟨nodes,entries,?_⟩
    intro result ended
    rcases release_ends inv.lawful.sound id code result (hist ▸ ended) with ⟨place,_⟩ | ⟨place,refused⟩
    · rw [show (g.tree.view t).pc = _ from place] at stands
      exact absurd (by rw [show g.tree.due t = _ from stands.1]; simp) other
    · rw [show (g.tree.view t).pc = _ from place] at recorded
      have still : g'.notes t = g.notes t := by simp [notes,Traced.note,place,Notes.add]
      rw [still]
      exact ⟨refused,recorded⟩
  · rcases release_moves inv.lawful.sound t id calls with ⟨m,code,less,goes⟩ | ⟨u,m,other,held,code⟩
    · obtain ⟨g',taken,same⟩ := ahead m t code
      obtain ⟨places,hist⟩ := by simpa only [Prod.mk.injEq] using same
      refine .inl ⟨g',taken,?_⟩
      rw [places,hist]
      exact ⟨less,goes⟩
    · obtain ⟨g',taken,_⟩ := ahead m u code
      exact .inr ⟨u,g',other,held,taken⟩

def releaseScript : List (TreeAction Bool) :=
  [[.acquire true 2],List.replicate 12 (.run true),[.release true 2],List.replicate 8 (.run true)].flatten

def thiefScript : List (TreeAction Bool) :=
  [[.acquire true 2],List.replicate 12 (.run true),[.release false 2],List.replicate 3 (.run false)].flatten

theorem release_undoes_acquire_both :
    (∃ g g' : Traced Bool, TracedReaches 2 g ∧ (g.tree.pc true).releases = some 2 ∧ (2,.leaving) ∈ g.tree.due true ∧
      tracedStep g (.run true) = some g' ∧ g'.tree.hist = .releaseRet true 2 0 :: g.tree.hist ∧
      (g'.notes true).unlocks = [(0,true),(2,true)] ∧ g'.tree.threadMap 2 = none) ∧
    ∃ g g' : Traced Bool, TracedReaches 2 g ∧ (g.tree.pc false).releases = some 2 ∧ (2,.leaving) ∉ g.tree.due false ∧
      tracedStep g (.run false) = some g' ∧ g'.tree.hist = .releaseRet false 2 (-1) :: g.tree.hist ∧
      g'.tree.threadMap = g.tree.threadMap := by
  refine ⟨?_,?_⟩
  · obtain ⟨g,g',reached,_,taken,calls,owned,ended⟩ := Interleave.play_shows_step tracedStep
      (fun g a => ApartSingly g.tree a) (newTraced Bool 2) releaseScript (.run true)
      (fun g g' => (g.tree.pc true).releases = some 2 ∧ (2,.leaving) ∈ g.tree.due true ∧
        g'.tree.hist = .releaseRet true 2 0 :: g.tree.hist)
      (by decide +kernel)
    obtain ⟨_,locks,_,unlocks,clear⟩ :=
      (release_undoes_acquire Bool 2 (by decide) g reached true 2 calls).1 owned g' 0 taken ended
    refine ⟨g,g',reached,calls,owned,taken,ended,?_,clear⟩
    rw [unlocks,locks]
    rfl
  · obtain ⟨g,g',reached,_,taken,calls,other,ended⟩ := Interleave.play_shows_step tracedStep
      (fun g a => ApartSingly g.tree a) (newTraced Bool 2) thiefScript (.run false)
      (fun g g' => (g.tree.pc false).releases = some 2 ∧ (2,.leaving) ∉ g.tree.due false ∧
        g'.tree.hist = .releaseRet false 2 (-1) :: g.tree.hist)
      (by decide +kernel)
    obtain ⟨_,map,_⟩ := (release_undoes_acquire Bool 2 (by decide) g reached false 2 calls).2.1 other g' taken
    exact ⟨g,g',reached,calls,other,taken,ended,map⟩

end Kthreads
