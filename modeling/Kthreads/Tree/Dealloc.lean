import Mathlib.Data.Fintype.Basic
import Kthreads.Lib.History
import Kthreads.Tree.Exclusion

/-! What `acquire` reports, and how `trnmnt_tree_dealloc` and the other calls meet. -/
namespace Kthreads
open TrnmntTree

def TreePc.tries : TreePc → Option Int
  | .acquire id | .acquireLock id | .acquireWait id | .acquireTest id | .acquireRefuse id | .acquireSet id
  | .acquireUnlock id | .acquireLeaf id | .climb id _ | .climbWait id _ => some id
  | _ => none

def TreePc.early : TreePc → Bool
  | .acquire _ | .acquireLock _ | .acquireWait _ | .acquireTest _ | .acquireRefuse _ | .acquireSet _ => true
  | _ => false

theorem ViewStep.tries {d : Nat} {v v' : View} (taken : ViewStep d v v') (after : v'.pc.tries ≠ none) :
    v'.pc.tries = v.pc.tries ∧ (v'.pc.early = true → v.pc.early = true ∧ ∀ id, v.pc ≠ .acquireSet id) := by
  cases taken with
  | enter id place | acquireLock id place | acquireWait id place | taken id place | vacant id place
  | acquireSet id place | acquireUnlock id place | acquireLeaf id place | climb id pos place
  | shared id pos place | climbWait id pos place =>
    rw [place]
    refine ⟨rfl,?_⟩
    intro early
    first | contradiction | exact ⟨rfl,by simp⟩
  | destroys pc before inside => cases pc <;> contradiction
  | _ => exact absurd rfl after

section Attempts
variable {T : Type} [DecidableEq T] {d : Nat} {s s' : TrnmntTree T}

structure Tried (s : TrnmntTree T) (t : T) : Prop where
  fresh : (s.pc t).tries ≠ none → (s.attempt t).refused = false ∧ ∀ p, (s.attempt t).had p = false
  unwritten : (s.pc t).early = true → (s.attempt t).wrote = false

theorem code_attempt (inv : Sound d s) {t : T} (stands : Stands d (s.view t)) (taken : s.code t = some s') :
    s'.attempt t = s.attempt t ∨
      (∃ id, s.pc t = .acquireSet id) ∧ s'.attempt t = {s.attempt t with wrote := true} := by
  rcases (inv.code_view taken).attempt with same | wrote | ⟨id,pos,place,inner,held⟩
  · exact .inl same
  · exact .inr wrote
  · obtain ⟨_,_,_,_,free⟩ := stands.above (inv.own t) place inner
    exact absurd held free

theorem tried_step {a : TreeAction T} (inv : Sound d s) (stands : ∀ t, Stands d (s.view t)) (single : Singly s a)
    (tried : ∀ t, Tried s t) (taken : treeStep s a = some s') (u : T) : Tried s' u := by
  have called (t : T) (m : TrnmntTree T) (pc : TreePc) (places : m.pc = s.pc)
      (others : ∀ u, u ≠ t → m.attempt u = s.attempt u) (own : Tried (m.goto t pc) t) (u : T) :
      Tried (m.goto t pc) u := by
    by_cases here : u = t
    · rw [here]
      exact own
    · have place : (m.goto t pc).pc u = s.pc u := by simp [TrnmntTree.goto,here,places]
      have attempt : (m.goto t pc).attempt u = s.attempt u := others u here
      refine ⟨?_,?_⟩
      · rw [place,attempt]
        exact (tried u).fresh
      · rw [place,attempt]
        exact (tried u).unwritten
  cases a with
  | acquire t id =>
    simp only [treeStep] at taken
    split at taken
    next idle =>
      cases taken
      refine called t ((s.setDue t _).setAttempt t _) (.acquire id) rfl ?_ ?_ u
      · intro u other
        simp [setAttempt,setDue,other]
      · have rests := stands t
        unfold Stands at rests
        rw [show (s.view t).pc = _ from idle] at rests
        have due : s.due t = [] := single
        rcases rests with ⟨_,bare⟩ | ⟨j,other,_⟩
        · have none (p : Nat) : ¬ s.holder (.node p) = some t := bare.2 p
          refine ⟨fun _ => ?_,fun _ => ?_⟩
          · simp [TrnmntTree.goto,setAttempt,none]
          · simp [TrnmntTree.goto,setAttempt]
        · exact absurd (due.symm.trans other) (by simp)
    next => contradiction
  | release t id =>
    simp only [treeStep] at taken
    split at taken
    · cases taken
      refine called t (s.setDue t _) (.releaseLock id) rfl (fun _ _ => rfl) ⟨?_,?_⟩ u
      · simp [TrnmntTree.goto,TreePc.tries]
      · simp [TrnmntTree.goto,TreePc.early]
    · contradiction
  | dealloc t =>
    simp only [treeStep] at taken
    split at taken
    · cases taken
      refine called t s .deallocLock rfl (fun _ _ => rfl) ⟨?_,?_⟩ u
      · simp [TrnmntTree.goto,TreePc.tries]
      · simp [TrnmntTree.goto,TreePc.early]
    · contradiction
  | run t =>
    obtain ⟨m,code,eq⟩ := Option.map_eq_some_iff.mp taken
    obtain ⟨step,others⟩ := inv.code_view code
    have next : Tried m u := by
      by_cases here : u = t
      · subst u
        refine ⟨?_,?_⟩
        · intro tries
          have before : (s.pc t).tries ≠ none := by
            rw [show (s.pc t).tries = _ from (step.tries tries).1.symm]
            exact tries
          have fresh := (tried t).fresh before
          rcases code_attempt inv (stands t) code with same | ⟨_,wrote⟩
          · rw [same]
            exact fresh
          · rw [wrote]
            exact fresh
        · intro early
          have tries : (m.pc t).tries ≠ none := by
            cases place : m.pc t <;> rw [place] at early <;> first | contradiction | simp [TreePc.tries]
          obtain ⟨was,unset⟩ := (step.tries tries).2 early
          rcases code_attempt inv (stands t) code with still | ⟨⟨id,place⟩,_⟩
          · rw [still]
            exact (tried t).unwritten was
          · exact absurd place (unset id)
      · have place : m.pc u = s.pc u := congrArg View.pc (others u here)
        have attempt := (inv.code_view code).noted.others u here
        refine ⟨?_,?_⟩
        · rw [place,attempt]
          exact (tried u).fresh
        · rw [place,attempt]
          exact (tried u).unwritten
    rw [← eq]
    split
    · exact ⟨next.fresh,next.unwritten⟩
    · exact next

structure Lawful (d : Nat) (s : TrnmntTree T) : Prop where
  sound : Sound d s
  stands : ∀ t, Stands d (s.view t)
  tried : ∀ t, Tried s t

/-- Threads use one id at a time and keep apart from `dealloc`. -/
abbrev ApartSingly (s : TrnmntTree T) (a : TreeAction T) : Prop := Apart s a ∧ Singly s a

theorem Lawful.of_reaches (positive : 0 < d) (reached : TreeReaches ApartSingly (newTree T d) s) : Lawful d s := by
  induction reached with
  | refl =>
    refine ⟨.start T d,(Turning.start T d).stands,fun t => ⟨?_,?_⟩⟩
    · intro tries
      exact absurd rfl tries
    · intro early
      contradiction
  | tail reached allowed taken held =>
    exact ⟨held.sound.step positive allowed.1 taken,stands_step held.sound held.stands allowed.2 taken,
      tried_step held.sound held.stands allowed.2 held.tried taken⟩

end Attempts

def TreePc.scans : TreePc → Option Nat
  | .deallocScan i => some i
  | _ => none

theorem TreePc.scans_eq (pc : TreePc) (i : Nat) : i ∈ pc.scans ↔ pc = .deallocScan i := by
  cases pc <;> simp [TreePc.scans]

instance {T : Type} [DecidableEq T] [Fintype T] (s : TrnmntTree T) (a : TreeAction T) : Decidable (Apart s a) :=
  match a with
  | .run t => decidable_of_iff (∀ i ∈ (s.pc t).scans, powordepth s.depth ≤ i → ∀ u, u ≠ t → s.pc u = .idle)
      (by simp only [TreePc.scans_eq])
  | .acquire _ _ | .release _ _ | .dealloc _ =>
    inferInstanceAs (Decidable (s.freed = false ∧ ∀ u, (s.pc u).destroys = false))

instance {T : Type} [DecidableEq T] (s : TrnmntTree T) (a : TreeAction T) : Decidable (Singly s a) :=
  match a with
  | .acquire t _ => inferInstanceAs (Decidable (s.due t = []))
  | .release _ _ | .dealloc _ | .run _ => isTrue trivial

def acquireScript : List (TreeAction Bool) :=
  .acquire true 0 :: List.replicate 10 (.run true) ++ .acquire false 0 :: List.replicate 4 (.run false)

def TreePc.won : TreePc → Option Int
  | .acquireUnlock id | .acquireLeaf id | .climb id _ | .climbWait id _ => some id
  | _ => none

def TreePc.releases : TreePc → Option Int
  | .releaseLock id | .releaseWait id | .releaseTest id | .releaseRec id _ _ | .releaseNode id _ _
  | .releaseClear id | .releaseUnlock id | .releaseRefuse id => some id
  | _ => none

structure Dues (v : View) : Prop where
  nodup : v.due.Nodup
  trying : ∀ id, (id,.trying) ∈ v.due → v.pc.tries = some id
  inside : ∀ id, (id,.inside) ∈ v.due → v.mine id ∧ v.pc.won ≠ some id ∧ v.pc.releases ≠ some id
  leaving : ∀ id, (id,.leaving) ∈ v.due →
    (v.mine id ∨ v.pc = .releaseUnlock id) ∧ v.pc.won ≠ some id ∧ (id,.inside) ∉ v.due

inductive ViewCall (v : View) : View → Prop
  | acquire (id : Int) : ViewCall v ((v.setDue ((id,.trying) :: v.due)).goto (.acquire id))
  | release (id : Int) : ViewCall v ((v.setDue (if (id,Phase.inside) ∈ v.due then
      (id,.leaving) :: v.due.erase (id,.inside) else v.due)).goto (.releaseLock id))
  | dealloc : ViewCall v (v.goto .deallocLock)

namespace Dues

variable {v v' : View}

theorem goto (dues : Dues v) (pc : TreePc) (holds : TreeMutex → Prop) (tries : pc.tries = v.pc.tries)
    (won : pc.won = none ∨ pc.won = v.pc.won) (releases : pc.releases = none ∨ pc.releases = v.pc.releases)
    (unlocks : ∀ id, v.pc ≠ .releaseUnlock id) : Dues {v with pc := pc, holds := holds} := by
  have apart (id : Int) (before : v.pc.won ≠ some id) : pc.won ≠ some id := by
    rcases won with none | same
    · simp [none]
    · rw [same]
      exact before
  refine ⟨dues.nodup,?_,?_,?_⟩
  · intro id member
    exact tries.trans (dues.trying id member)
  · intro id member
    obtain ⟨mine,other,others⟩ := dues.inside id member
    refine ⟨mine,apart id other,?_⟩
    rcases releases with none | same
    · simp [none]
    · simpa [same] using others
  · intro id member
    obtain ⟨mine | unlock,other,outside⟩ := dues.leaving id member
    · exact ⟨.inl mine,apart id other,outside⟩
    · exact absurd unlock (unlocks id)

theorem fails (dues : Dues v) (id : Int) (holds : TreeMutex → Prop) (tries : v.pc.tries = some id) :
    Dues {v with due := v.due.erase (id,.trying), pc := .idle, holds := holds} := by
  refine ⟨dues.nodup.erase _,?_,?_,?_⟩
  · intro j member
    obtain ⟨other,before⟩ := (dues.nodup.mem_erase_iff).mp member
    have same := tries.symm.trans (dues.trying j before)
    simp_all
  · intro j member
    exact ⟨(dues.inside j (List.mem_of_mem_erase member)).1,by simp [TreePc.won],by simp [TreePc.releases]⟩
  · intro j member
    obtain ⟨mine | unlock,_,outside⟩ := dues.leaving j (List.mem_of_mem_erase member)
    · exact ⟨.inl mine,by simp [TreePc.won],fun member => outside (List.mem_of_mem_erase member)⟩
    · rw [unlock] at tries
      contradiction

theorem step {d : Nat} (dues : Dues v) (own : Own d v) (taken : ViewStep d v v') : Dues v' := by
  have fits := own.fits
  unfold FitsPlace at fits
  cases taken with
  | outside id place => exact dues.fails id v.holds (by rw [place]; rfl)
  | acquireRefuse id place => exact dues.fails id _ (by rw [place]; rfl)
  | acquireSet id place free =>
    refine ⟨dues.nodup,?_,?_,?_⟩
    · intro j member
      have tries := dues.trying j member
      rw [place] at tries
      exact tries
    · intro j member
      have mine := (dues.inside j member).1
      refine ⟨.inr mine,?_,by simp [View.set,View.goto,TreePc.releases]⟩
      rintro ⟨rfl⟩
      exact free mine
    · intro j member
      obtain ⟨mine | unlock,_,outside⟩ := dues.leaving j member
      · refine ⟨.inl (.inr mine),?_,outside⟩
        rintro ⟨rfl⟩
        exact free mine
      · exact absurd (place.symm.trans unlock) (by simp)
  | wins id place =>
    rw [place] at fits
    have fresh : (id,.inside) ∉ v.due := fun member => (dues.inside id member).2.1 (by rw [place]; rfl)
    have failed := dues.fails id v.holds (by rw [place]; rfl)
    refine ⟨List.nodup_cons.mpr ⟨fun member => fresh (List.mem_of_mem_erase member),failed.nodup⟩,?_,?_,?_⟩
    · intro j member
      exact failed.trying j (by simpa [View.setDue,View.goto] using member)
    · intro j member
      rcases List.mem_cons.mp member with same | before
      · cases same
        exact ⟨fits.1,by simp [View.setDue,View.goto,TreePc.won],by simp [View.setDue,View.goto,TreePc.releases]⟩
      · exact failed.inside j before
    · intro j member
      have before : (j,.leaving) ∈ v.due.erase (id,.trying) := by
        simpa [View.setDue,View.goto] using member
      obtain ⟨mine,other,outside⟩ := failed.leaving j before
      refine ⟨mine,other,?_⟩
      intro inside
      rcases List.mem_cons.mp inside with same | tail
      · cases same
        exact (dues.leaving id (List.mem_of_mem_erase before)).2.1 (by rw [place]; rfl)
      · exact outside tail
  | releaseClear id place =>
    refine ⟨dues.nodup,?_,?_,?_⟩
    · intro j member
      have tries := dues.trying j member
      rw [place] at tries
      contradiction
    · intro j member
      obtain ⟨mine,_,other⟩ := dues.inside j member
      rw [place] at other
      refine ⟨⟨?_,mine⟩,by simp [View.clear,View.goto,TreePc.won],other⟩
      rintro rfl
      exact other rfl
    · intro j member
      obtain ⟨mine | unlock,_,outside⟩ := dues.leaving j member
      · refine ⟨?_,by simp [View.clear,View.goto,TreePc.won],outside⟩
        by_cases here : j = id
        · exact .inr (by rw [here]; rfl)
        · exact .inl ⟨here,mine⟩
      · exact absurd (place.symm.trans unlock) (by simp)
  | releaseUnlock id place =>
    refine ⟨dues.nodup.erase _,?_,?_,?_⟩
    · intro j member
      have tries := dues.trying j (List.mem_of_mem_erase member)
      rw [place] at tries
      contradiction
    · intro j member
      exact ⟨(dues.inside j (List.mem_of_mem_erase member)).1,by simp [View.setDue,View.goto,TreePc.won],
        by simp [View.setDue,View.goto,TreePc.releases]⟩
    · intro j member
      obtain ⟨other,before⟩ := (dues.nodup.mem_erase_iff).mp member
      obtain ⟨mine | unlock,_,outside⟩ := dues.leaving j before
      · exact ⟨.inl mine,by simp [View.setDue,View.goto,TreePc.won],
          fun member => outside (List.mem_of_mem_erase member)⟩
      · have same : id = j := by simpa using place.symm.trans unlock
        exact absurd (by rw [same]) other
  | destroys pc before after lock =>
    have same (q : TreePc) (destroys : q.destroys = true) :
        q.tries = none ∧ q.won = none ∧ q.releases = none ∧ ∀ id, q ≠ .releaseUnlock id := by
      cases q <;> simp [TreePc.destroys] at destroys <;> simp [TreePc.tries,TreePc.won,TreePc.releases]
    obtain ⟨tries,won,releases,_⟩ := same pc after
    obtain ⟨none,_,_,unlocks⟩ := same v.pc before
    exact dues.goto pc v.holds (tries.trans none.symm) (.inl won) (.inl releases) unlocks
  | _ =>
    refine dues.goto _ _ ?_ ?_ ?_ ?_
    all_goals simp_all [TreePc.tries,TreePc.won,TreePc.releases]

theorem call (dues : Dues v) (idle : v.pc = .idle) (called : ViewCall v v') : Dues v' := by
  have fresh (id : Int) : (id,.trying) ∉ v.due := by
    intro member
    have tries := dues.trying id member
    rw [idle] at tries
    contradiction
  have mine (id : Int) (member : (id,.leaving) ∈ v.due) : v.mine id := by
    rcases (dues.leaving id member).1 with mine | unlock
    · exact mine
    · exact absurd (idle.symm.trans unlock) (by simp)
  cases called with
  | acquire id =>
    refine ⟨List.nodup_cons.mpr ⟨fresh id,dues.nodup⟩,?_,?_,?_⟩
    · intro j member
      rcases List.mem_cons.mp member with same | before
      · cases same
        rfl
      · exact absurd before (fresh j)
    · intro j member
      have before : (j,.inside) ∈ v.due := by simpa [View.setDue,View.goto] using member
      exact ⟨(dues.inside j before).1,by simp [View.setDue,View.goto,TreePc.won],
        by simp [View.setDue,View.goto,TreePc.releases]⟩
    · intro j member
      have before : (j,.leaving) ∈ v.due := by simpa [View.setDue,View.goto] using member
      refine ⟨.inl (mine j before),by simp [View.setDue,View.goto,TreePc.won],?_⟩
      simpa [View.setDue,View.goto] using (dues.leaving j before).2.2
  | release id =>
    -- the id of the call leaves the list of those inside
    have marked (j : Int) (inside : (j,.inside) ∈ v.due) (other : j ≠ id) :
        v.mine j ∧ (TreePc.releaseLock id).won ≠ some j ∧ (TreePc.releaseLock id).releases ≠ some j := by
      refine ⟨(dues.inside j inside).1,by simp [TreePc.won],?_⟩
      simpa [TreePc.releases] using Ne.symm other
    split
    next member =>
      have unique : (id,.leaving) ∉ v.due := fun left => (dues.leaving id left).2.2 member
      refine ⟨List.nodup_cons.mpr ⟨fun left => unique (List.mem_of_mem_erase left),dues.nodup.erase _⟩,?_,?_,?_⟩
      · intro j tries
        exact absurd (List.mem_of_mem_erase ((List.mem_cons.mp tries).resolve_left (by simp))) (fresh j)
      · intro j inside
        obtain ⟨other,before⟩ := (dues.nodup.mem_erase_iff).mp ((List.mem_cons.mp inside).resolve_left (by simp))
        exact marked j before (fun same => other (by rw [same]))
      · intro j left
        refine ⟨.inl ?_,by simp [View.setDue,View.goto,TreePc.won],?_⟩
        · rcases List.mem_cons.mp left with same | before
          · cases same
            exact (dues.inside id member).1
          · exact mine j (List.mem_of_mem_erase before)
        · intro inside
          obtain ⟨other,before⟩ := (dues.nodup.mem_erase_iff).mp ((List.mem_cons.mp inside).resolve_left (by simp))
          rcases List.mem_cons.mp left with same | after
          · cases same
            exact other rfl
          · exact (dues.leaving j (List.mem_of_mem_erase after)).2.2 before
    next none =>
      refine ⟨dues.nodup,fun j tries => absurd tries (fresh j),?_,?_⟩
      · intro j inside
        exact marked j inside (fun same => none (same ▸ inside))
      · intro j left
        exact ⟨.inl (mine j left),by simp [View.setDue,View.goto,TreePc.won],(dues.leaving j left).2.2⟩
  | dealloc => exact dues.goto .deallocLock v.holds (by rw [idle]; rfl) (.inl rfl) (.inl rfl) (by simp [idle])

end Dues

section Watch
variable {T : Type} [DecidableEq T] {d : Nat} {s s' : TrnmntTree T}

def TreeEvent.wins : TreeEvent T → Bool
  | .acquireRet _ _ r => decide (r = 0)
  | _ => false

def TreeEvent.takes : TreeEvent T → Bool
  | .deallocTakes _ => true
  | _ => false

/-- `dealloc` has `Lock` and looks for entries, or has found none. -/
def TreePc.watches : TreePc → Bool
  | .deallocScan _ => true
  | pc => pc.destroys

def Settled (s : TrnmntTree T) : Prop :=
  (∀ u, ∀ e ∈ s.seen u, e.2 = .trying) ∧ History.since TreeEvent.wins TreeEvent.takes s.hist = false

structure Watch (s : TrnmntTree T) : Prop where
  dues : ∀ t, Dues (s.view t)
  scan : ∀ t, (s.pc t).watches = true → (∀ id, s.threadMap id = none) → Settled s
  freed : s.freed = true → Settled s
  ended : ∀ t, .deallocRet t 0 ∈ s.hist → s.freed = true
  stray : s.stray = none

omit [DecidableEq T] in
theorem Settled.step (settled : Settled s) (seen : s'.seen = s.seen)
    (hist : s'.hist = s.hist ∨ ∃ e, s'.hist = e :: s.hist ∧ e.wins = false) : Settled s' := by
  refine ⟨seen ▸ settled.1,?_⟩
  rcases hist with same | ⟨e,more,lost⟩
  · exact same ▸ settled.2
  · rw [more]
    simp [History.since,lost,settled.2]

theorem ViewStep.watches {v v' : View} (taken : ViewStep d v v') (after : v'.pc.watches = true) :
    v.pc = .deallocWait ∨ v.pc.watches = true := by
  cases taken with
  | deallocWait place => exact .inl place
  | deallocScan i j place | scanned i place => exact .inr (by rw [place]; rfl)
  | destroys pc before => exact .inr (by cases at_ : v.pc <;> rw [at_] at before <;> first | rfl | contradiction)
  | deallocUnlock place => exact .inr (by rw [place]; rfl)
  | _ => contradiction

theorem ViewCall.watches {v v' : View} (called : ViewCall v v') : v'.pc.watches = false := by
  cases called <;> rfl

theorem treeStep_call {a : TreeAction T} (call : ∀ t, a ≠ .run t) (taken : treeStep s a = some s') :
    ∃ t, s.pc t = .idle ∧ ViewCall (s.view t) (s'.view t) ∧ (∀ u, u ≠ t → s'.view u = s.view u) ∧
      (s'.threadMap,s'.freed,s'.seen,s'.stray,s'.hist) = (s.threadMap,s.freed,s.seen,s.stray,s.hist) := by
  cases a with
  | acquire t id =>
    simp only [treeStep] at taken
    split at taken
    next idle =>
      cases taken
      refine ⟨t,idle,?_,?_,rfl⟩
      · rw [view_goto_self]
        exact (view_setDue_self s t _) ▸ ViewCall.acquire id
      · intro u other
        rw [view_goto _ other]
        exact view_setDue s other _
    next => contradiction
  | release t id =>
    simp only [treeStep] at taken
    split at taken
    next ready =>
      cases taken
      refine ⟨t,ready.1,?_,?_,rfl⟩
      · rw [view_goto_self,view_setDue_self]
        exact .release id
      · intro u other
        rw [view_goto _ other,view_setDue s other]
    next => contradiction
  | dealloc t =>
    simp only [treeStep] at taken
    split at taken
    next idle =>
      cases taken
      refine ⟨t,idle,?_,fun u other => view_goto s other _,rfl⟩
      rw [view_goto_self]
      exact .dealloc
    next => contradiction
  | run t => exact absurd rfl (call t)

section
variable (watch : Watch s)
include watch

theorem Watch.destroyed {t : T} (inv : Sound d s) (taken : s.code t = some s')
    (destroys : (s.pc t).destroys = true) : Settled s' ∧ ∀ u, .deallocRet u 0 ∈ s'.hist → s'.freed = true := by
  have noted := (inv.code_view taken).noted
  have active : s.pc t ≠ .idle := by
    intro idle
    rw [idle] at destroys
    contradiction
  have empty : ∀ id, s.threadMap id = none := by
    have stable := inv.stable t
    cases place : s.pc t <;> rw [place] at destroys stable <;> first | contradiction | exact stable
  have watches : (s.pc t).watches = true := by
    cases place : s.pc t <;> rw [place] at destroys <;> first | contradiction | rfl
  have settled := watch.scan t watches empty
  refine ⟨settled.step ?_ ?_,?_⟩
  · rcases noted.seen with same | ⟨place,_⟩
    · exact same
    · rw [place] at destroys
      contradiction
  · refine noted.hist.imp id ?_
    rintro ⟨e,more,records⟩
    refine ⟨e,more,?_⟩
    generalize s.pc t = pc at records destroys
    cases records <;> first | rfl | contradiction
  · intro u ended
    rcases noted.hist with same | ⟨e,more,records⟩
    · exact absurd (inv.done (watch.ended u (same ▸ ended)) t) active
    · rw [more] at ended
      rcases List.mem_cons.mp ended with new | old
      · have place : s.pc t = .deallocFree := by
          rw [← new] at records
          generalize s.pc t = pc at records
          cases records
          rfl
        simp only [TrnmntTree.code,place,Option.some.injEq] at taken
        rw [← taken]
        rfl
      · exact absurd (inv.done (watch.ended u old) t) active

/-- `dealloc` takes `Lock`: who is inside then is registered. -/
theorem Watch.taken {t : T} (inv : Sound d s) (taken : s.code t = some s')
    (place : s.pc t = .deallocWait) (empty : ∀ id, s.threadMap id = none) : Settled s' := by
  simp only [TrnmntTree.code,place,grant] at taken
  split at taken
  next free =>
    cases taken
    refine ⟨?_,History.since_off rfl⟩
    intro u e member
    have dues := watch.dues u
    have none (id : Int) : ¬ (s.view u).mine id := by
      intro mine
      exact absurd ((empty id).symm.trans mine) (by simp)
    obtain ⟨id,phase⟩ := e
    cases phase with
    | trying => rfl
    | inside => exact absurd (dues.inside id member).1 (none id)
    | leaving =>
      rcases (dues.leaving id member).1 with mine | unlock
      · exact absurd mine (none id)
      · have held : s.holder .lock = some u := (inv.own u).lock.mpr (by rw [unlock]; rfl)
        exact absurd (held.symm.trans free) (by simp)
  next => contradiction

/-- A thread that wins an id while another one scans is seen by the scan. -/
theorem Watch.scanned {t u : T} (inv : Sound d s) (taken : s.code t = some s') (other : u ≠ t)
    (watches : (s.pc u).watches = true) (tame : (s.pc u).destroys = false)
    (empty : ∀ id, s'.threadMap id = none) : Settled s' := by
  have noted := (inv.code_view taken).noted
  have active := code_active taken
  have lock : (s.pc u).hasLock = true := by
    cases place : s.pc u <;> rw [place] at watches tame <;> first | rfl | contradiction
  have held : s.holder .lock = some u := (inv.own u).lock.mpr lock
  have unlocked : (s.pc t).hasLock = false := by
    by_contra locked
    have mine : s.holder .lock = some t := (inv.own t).lock.mpr (Bool.eq_true_of_not_eq_false locked)
    exact other (Option.some.inj (held.symm.trans mine))
  have tame : (s.pc t).destroys = false := by
    by_contra destroys
    have idle := inv.calm t (Bool.eq_true_of_not_eq_false destroys) u other
    rw [idle] at watches
    contradiction
  have map : s'.threadMap = s.threadMap := by
    rcases ((inv.code_view taken).gentle tame).map with same | locked
    · exact same
    · rw [unlocked] at locked
      contradiction
  rw [map] at empty
  refine (watch.scan u watches empty).step ?_ ?_
  · rcases noted.seen with same | ⟨_,_,free⟩
    · exact same
    · exact absurd (held.symm.trans free) (by simp)
  · refine noted.hist.imp id ?_
    rintro ⟨e,more,records⟩
    refine ⟨e,more,?_⟩
    generalize place : s.pc t = pc at records
    cases records with
    | wins id =>
      have fits := (inv.own t).fits
      unfold FitsPlace at fits
      rw [show (s.view t).pc = _ from place] at fits
      exact absurd ((empty id).symm.trans fits.1) (by simp)
    | _ => rfl

theorem Watch.gentle {t : T} (inv : Sound d s) (taken : s.code t = some s')
    (tame : (s.pc t).destroys = false) (u : T) (watches : (s'.pc u).watches = true)
    (empty : ∀ id, s'.threadMap id = none) : Settled s' := by
  obtain ⟨step,others⟩ := inv.code_view taken
  have active := code_active taken
  by_cases here : u = t
  · subst u
    rcases step.watches watches with place | before
    · have map : s'.threadMap = s.threadMap := by
        rcases ((inv.code_view taken).gentle tame).map with same | locked
        · exact same
        · rw [show s.pc t = _ from place] at locked
          contradiction
      rw [map] at empty
      exact watch.taken inv taken place empty
    · obtain ⟨i,place⟩ : ∃ i, s.pc t = .deallocScan i := by
        cases place : s.pc t with
        | deallocScan i => exact ⟨i,rfl⟩
        | _ =>
          rw [show (s.view t).pc = _ from place] at before
          rw [place] at tame
          exact absurd (before.symm.trans tame) (by simp)
      have same : (s'.threadMap,s'.seen,s'.hist) = (s.threadMap,s.seen,s.hist) := by
        simp only [TrnmntTree.code,place,Option.some.injEq,deallocScan] at taken
        rw [← taken]
        split
        · split <;> rfl
        · rfl
      obtain ⟨map,seen,hist⟩ := by simpa only [Prod.mk.injEq] using same
      rw [map] at empty
      exact (watch.scan t before empty).step seen (.inl hist)
  · have place : s'.pc u = s.pc u := congrArg View.pc (others u here)
    rw [place] at watches
    have quiet : (s.pc u).destroys = false := by
      by_contra destroys
      exact active (inv.calm u (Bool.eq_true_of_not_eq_false destroys) t (Ne.symm here))
    exact watch.scanned inv taken here watches quiet empty

theorem Watch.code {t : T} (inv : Sound d s) (taken : s.code t = some s') : Watch s' := by
  have same := (inv.code_view taken).noted.stray.trans watch.stray
  obtain ⟨step,others⟩ := inv.code_view taken
  have active := code_active taken
  have dues (u : T) : Dues (s'.view u) := by
    by_cases here : u = t
    · rw [here]
      exact (watch.dues t).step (inv.own t) step
    · rw [others u here]
      exact watch.dues u
  by_cases destroys : (s.pc t).destroys = true
  · obtain ⟨settled,ended⟩ := watch.destroyed inv taken destroys
    exact ⟨dues,fun _ _ _ => settled,fun _ => settled,ended,same⟩
  · have tame : (s.pc t).destroys = false := by simpa using destroys
    obtain ⟨_,freed,_⟩ := by simpa only [Prod.mk.injEq] using ((inv.code_view taken).gentle tame).rest
    refine ⟨dues,watch.gentle inv taken tame,?_,?_,same⟩
    · intro gone
      exact absurd (inv.done (freed ▸ gone) t) active
    · intro u ended
      rcases (inv.code_view taken).noted.hist with still | ⟨e,more,records⟩
      · exact freed ▸ watch.ended u (still ▸ ended)
      · rw [more] at ended
        rcases List.mem_cons.mp ended with new | old
        · rw [← new] at records
          generalize s.pc t = pc at records tame
          cases records
          contradiction
        · exact freed ▸ watch.ended u old

theorem Watch.call {a : TreeAction T} (call : ∀ t, a ≠ .run t) (taken : treeStep s a = some s') : Watch s' := by
  obtain ⟨t,idle,called,others,rest⟩ := treeStep_call call taken
  obtain ⟨map,freed,seen,stray,hist⟩ := by simpa only [Prod.mk.injEq] using rest
  have settled (before : Settled s) : Settled s' := before.step seen (.inl hist)
  refine ⟨?_,?_,fun gone => settled (watch.freed (freed ▸ gone)),?_,stray.trans watch.stray⟩
  · intro u
    by_cases here : u = t
    · rw [here]
      exact (watch.dues t).call idle called
    · rw [others u here]
      exact watch.dues u
  · intro u watches empty
    by_cases here : u = t
    · rw [here] at watches
      exact absurd (watches.symm.trans called.watches) (by simp)
    · have place : s'.pc u = s.pc u := congrArg View.pc (others u here)
      exact settled (watch.scan u (place ▸ watches) (map ▸ empty))
  · intro u ended
    exact freed ▸ watch.ended u (hist ▸ ended)

theorem Watch.step {a : TreeAction T} (inv : Sound d s) (taken : treeStep s a = some s') : Watch s' := by
  by_cases runs : ∃ t, a = .run t
  · obtain ⟨t,rfl⟩ := runs
    obtain ⟨m,code,eq⟩ := Option.map_eq_some_iff.mp taken
    have active := code_active code
    rw [if_neg (by simp [inv.intact t active])] at eq
    subst m
    exact watch.code inv code
  · exact watch.call (fun t same => runs ⟨t,same⟩) taken

end

theorem Watch.of_reaches (positive : 0 < d) (reached : TreeReaches Apart (newTree T d) s) :
    Sound d s ∧ Watch s := by
  induction reached with
  | refl =>
    refine ⟨.start T d,?_,?_,?_,?_,rfl⟩
    · intro t
      refine ⟨List.nodup_nil,?_,?_,?_⟩
      all_goals
        intro id member
        contradiction
    all_goals
      intros
      contradiction
  | tail reached allowed taken held =>
    exact ⟨held.1.step positive allowed taken,held.2.step held.1 taken⟩

end Watch

/-- After `trnmnt_tree_dealloc` has returned 0, no `acquire` that had not been released when it
took `Lock` has returned 0, no mutex of the tree is left and no thread has used the tree since;
when it returns -1 all mutexes are there. -/
theorem dealloc_excludes_acquire (T : Type) [DecidableEq T] (d : Nat) (positive : 0 < d) (s : TrnmntTree T)
    (reached : TreeReaches Apart (newTree T d) s) :
    s.stray = none ∧
    (∀ t, .deallocRet t 0 ∈ s.hist → (∀ u, ∀ e ∈ s.seen u, e.2 = .trying) ∧
      History.since TreeEvent.wins TreeEvent.takes s.hist = false ∧ ∀ m, InTree d m → s.alive m = false) ∧
    ∀ t s', treeStep s (.run t) = some s' → s'.hist = .deallocRet t (-1) :: s.hist →
      ∀ m, InTree d m → s'.alive m = true := by
  obtain ⟨inv,watch⟩ := Watch.of_reaches positive reached
  refine ⟨watch.stray,?_,?_⟩
  · intro t ended
    have freed := watch.ended t ended
    obtain ⟨seen,since⟩ := watch.freed freed
    exact ⟨seen,since,fun m tree => (inv.kept m tree).mpr (.inl freed)⟩
  · intro t s' taken ended m tree
    obtain ⟨next,code,eq⟩ := Option.map_eq_some_iff.mp taken
    have same : (s'.hist,s'.alive) = (next.hist,next.alive) := by
      rw [← eq]
      split <;> rfl
    obtain ⟨hist,alive⟩ := Prod.mk.inj same
    rw [hist] at ended
    have place : s.pc t = .deallocRefuse := by
      have records := (inv.code_view code).noted.event ended
      generalize s.pc t = pc at records
      cases records
      rfl
    have active : s.pc t ≠ .idle := by simp [place]
    obtain ⟨kept,_⟩ := by simpa only [Prod.mk.injEq] using ((inv.code_view code).gentle (by rw [place]; rfl)).rest
    rw [alive,kept]
    exact inv.alive t active m tree (by rw [place]; rfl)

def deallocScript : List (TreeAction Bool) := .dealloc true :: List.replicate 10 (.run true)

def keptScript : List (TreeAction Bool) :=
  .acquire false 0 :: List.replicate 10 (.run false) ++ .dealloc true :: List.replicate 3 (.run true)

theorem dealloc_excludes_acquire_both : (∃ s, TreeReaches Apart (newTree Bool 1) s ∧ .deallocRet true 0 ∈ s.hist ∧
      s.alive .lock = false ∧ s.alive (.node 0) = false) ∧
    ∃ s s', TreeReaches Apart (newTree Bool 1) s ∧ treeStep s (.run true) = some s' ∧
      s'.hist = .deallocRet true (-1) :: s.hist ∧ s'.alive .lock = true ∧ s'.alive (.node 0) = true := by
  refine ⟨?_,?_⟩
  · obtain ⟨s,reached,ended⟩ := Interleave.play_shows treeStep Apart (newTree Bool 1) deallocScript
      (fun s => .deallocRet true 0 ∈ s.hist) (by decide +kernel)
    obtain ⟨_,freed,_⟩ := dealloc_excludes_acquire Bool 1 (by decide) s reached
    obtain ⟨_,_,dead⟩ := freed true ended
    exact ⟨s,reached,ended,dead .lock trivial,dead (.node 0) (by decide : 0 < 2^1 - 1)⟩
  · obtain ⟨s,s',reached,_,taken,ended⟩ := Interleave.play_shows_step treeStep Apart (newTree Bool 1)
      keptScript (.run true) (fun s s' => s'.hist = .deallocRet true (-1) :: s.hist) (by decide +kernel)
    have kept := (dealloc_excludes_acquire Bool 1 (by decide) s reached).2.2 true s' taken ended
    exact ⟨s,s',reached,taken,ended,kept .lock trivial,kept (.node 0) (by decide : 0 < 2^1 - 1)⟩

/-- A thread waits for `Lock` while `dealloc` has it, gets it before `dealloc` deallocates it,
and registers in the tree after `free`. -/
def strayScript : List (TreeAction Bool) :=
  [.acquire false 0,.run false,.dealloc true,.run true,.run true,.run false] ++ List.replicate 6 (.run true) ++
    [.run false,.run true,.run true] ++ List.replicate 5 (.run false)

theorem acquire_after_free : ∃ s, TreeReaches (fun _ _ => True) (newTree Bool 1) s ∧ .deallocRet true 0 ∈ s.hist ∧
    (0,.trying) ∈ s.seen false ∧ s.hist.head? = some (.acquireRet false 0 0) ∧ s.stray = some false ∧
    s.alive .lock = true := by
  exact Interleave.play_shows _ _ _ strayScript _ (by decide +kernel)

end Kthreads
