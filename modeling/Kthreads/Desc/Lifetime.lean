import Kthreads.Desc.Use

/-! Files stay usable while calls use them, when no sibling closes a descriptor in use and no call
looks at a table in which a sibling works. -/
open Function

namespace Kthreads
variable {fd : Fd} {f : FileIx}

section Guard
variable {T P : Type} (proc : T → P)

def FdAction.looks (s : FdState T P) (a : FdAction T P) : Option T :=
  match a with
  | .start t (.read _ _) | .start t (.write _ _ _) | .start t (.fstat _) => some t
  | _ => a.enters s

def FdAction.closes : FdAction T P → Option (T × Int)
  | .start t (.close n) => some (t,n)
  | _ => none

def FdAction.dies : FdAction T P → Option T
  | .die t => some t
  | _ => none

/-- A thread looks at the table of its process only when no sibling works on it or completes a new
file, closes only descriptors that no sibling uses, and is not told to die while it completes a file. -/
def Undisturbed (s : FdState T P) (a : FdAction T P) : Prop :=
  (∀ t ∈ a.looks s, ∀ u, u ≠ t → proc u = proc t → (s.pc u).busy = false) ∧
  (∀ x ∈ a.closes, ∀ u, u ≠ x.1 → proc u = proc x.1 → ∀ y ∈ (s.pc u).uses, (y.1 : Int) ≠ x.2) ∧
  ∀ t ∈ a.dies, (s.pc t).opens = none

theorem Undisturbed.exclusive {s : FdState T P} {a : FdAction T P} (allowed : Undisturbed proc s a) :
    Exclusive proc s a := by
  intro t enters u other sibling
  have looks : t ∈ a.looks s := by
    unfold FdAction.looks
    split <;> first | exact enters | contradiction
  have idle := allowed.1 t looks u other sibling
  simp only [FdPc.busy,Bool.or_eq_false_iff] at idle
  exact idle.1

end Guard

namespace FdState
variable {T P : Type} {proc : T → P} {s s' : FdState T P}

theorem argfd_index {p : P} {n : Int} (found : s.argfd p n = some (fd,f)) : (fd : Int) = n := by
  unfold argfd at found
  split at found
  next range =>
    obtain ⟨g,_,same⟩ := Option.map_eq_some_iff.mp found
    cases same
    exact Int.toNat_of_nonneg range.1
  next => contradiction

theorem setRef_type (f g : FileIx) (r : Int) : ((s.setRef f r).file g).type = (s.file g).type := by
  by_cases here : g = f
  · simp [setRef,setFile,here]
  · simp [setRef,setFile,here]

theorem setRef_pipe (f g : FileIx) (r : Int) : ((s.setRef f r).file g).pipe = (s.file g).pipe := by
  by_cases here : g = f
  · simp [setRef,setFile,here]
  · simp [setRef,setFile,here]

variable [DecidableEq T]

theorem Usable.recounts (usable : s.Usable proc) {t : T} {c₀ c : FdPc T P} {r : Int} (place : s.pc t = c₀)
    (panic : s.panic = none) (pos : 1 ≤ r) (unowned : ∀ u, u ≠ t → f ∉ (s.pc u).owns) (suits : s.Suits proc t c)
    (mine : ((s.setRef f r).goto t c).Relies proc t c) (counted : ∀ fd ∈ c₀.uncounted, c.uncounted = some fd ∨
      ∀ g, s.ofile (proc t) fd = some g → (s.file g).type ≠ .none)
    (opens : c₀.opens = none) : ((s.setRef f r).goto t c).Usable proc := by
  subst place
  have types (g : FileIx) : (((s.setRef f r).goto t c).file g).type = (s.file g).type := setRef_type f g r
  have refs (g : FileIx) (other : g ≠ f) : ((s.setRef f r).goto t c).ref g = s.ref g := by
    simp [ref,goto,setRef,setFile,other]
  refine usable.refiles t c rfl rfl (fun _ _ g _ => ⟨types g,setRef_pipe f g r⟩) ?_ suits mine (fun g typed => by rwa [types g]) (by simp [opens]) ?_ ?_ panic
  · intro u other g member
    refine refs g ?_
    rintro rfl
    exact unowned u other member
  · intro fd member
    rcases counted fd member with still | typed
    · exact .inl still
    · exact .inr (fun g entry => by rw [types g]; exact typed g entry)
  · intro g low
    rw [types g]
    by_cases here : g = f
    · subst here
      simp only [ref,goto,setRef,setFile,update_self] at low
      omega
    · rw [refs g here] at low
      exact usable.idle g low

theorem Usable.allocs (usable : s.Usable proc) {t : T} {c₀ c : FdPc T P} (place : s.pc t = c₀)
    (panic : s.panic = none) (found : s.filealloc = some f) (suits : s.Suits proc t c)
    (owns : ∀ g ∈ c.owns, g = f ∨ g ∈ c₀.owns) (uses : c.uses = none := by rfl) (ready : c.ready = [] := by rfl)
    (opening : c.opening = none := by rfl) (opens : c₀.opens = none := by rfl)
    (counted : c₀.uncounted = none := by rfl) : ((s.setRef f 1).goto t c).Usable proc := by
  subst place
  have zero := filealloc_ref found
  have fresh (u : T) : f ∉ (s.pc u).owns := by
    intro member
    have one := (usable.relies u).owns f member
    rw [zero] at one
    contradiction
  refine usable.recounts rfl panic (Int.le_refl 1) (fun u _ => fresh u) suits (.plain uses ready opening ?_)
    (by simp [counted]) opens
  intro g member
  by_cases here : g = f
  · subst here
    simp [ref,goto,setRef,setFile]
  · simp only [ref,goto,setRef,setFile,update_of_ne here]
    rcases owns g member with same | before
    · exact absurd same here
    · exact (usable.relies t).owns g before

theorem Usable.stores [DecidableEq P] (usable : s.Usable proc) {t : T} {c₀ c : FdPc T P} {p : P}
    {v : Option FileIx} (place : s.pc t = c₀) (panic : s.panic = none)
    (used : ∀ u, u ≠ t → ∀ x ∈ (s.pc u).uses, (proc u,x.1) ≠ (p,fd))
    (opening : ∀ u, u ≠ t → ∀ x ∈ (s.pc u).opening, (proc u,x.1) ≠ (p,fd)) (suits : s.Suits proc t c)
    (mine : ((s.setEntry p fd v).goto t c).Relies proc t c)
    (typed : ∀ f, v = some f → (s.file f).type ≠ .none ∨ proc t = p ∧ (c.opens = some (fd,f) ∨ c.uncounted = some fd))
    (before : ∀ fd' ∈ c₀.uncounted, proc t = p ∧ fd' = fd) (opens : c₀.opens = none) :
    ((s.setEntry p fd v).goto t c).Usable proc := by
  subst place
  refine usable.goes t c rfl suits mine ?_ ?_ (usable.idle) (by simp [goto,setEntry,panic])
  · intro u other
    exact (usable.relies u).keep (fun _ _ => ⟨rfl,rfl⟩) (fun _ _ => rfl)
      (fun x member => setEntry_away p fd v (proc u) x.1 (used u other x member))
      (fun x member => setEntry_away p fd v (proc u) x.1 (opening u other x member))
  · intro q fd' f entry free
    by_cases here : (q,fd') = (p,fd)
    · cases here
      have value : v = some f := by rw [← setEntry_here (s := s) p fd v]; exact entry
      rcases typed f value with done | ⟨rfl,now | uncounted⟩
      · exact .inl done
      · refine .inr ⟨t,rfl,?_⟩
        simp only [goto,update_self]
        exact now
      · refine absurd ?_ (free t rfl)
        simp only [goto,update_self]
        exact uncounted
    · have old : s.ofile q fd' = some f := by rw [← setEntry_away p fd v q fd' here]; exact entry
      have counted (u : T) (member : proc u = q) : (s.pc u).uncounted ≠ some fd' := by
        intro uncounted
        by_cases self : u = t
        · subst self
          obtain ⟨there,same⟩ := before fd' uncounted
          exact here (by rw [← member,there,same])
        · refine free u member ?_
          simp only [goto,update_of_ne self]
          exact uncounted
      rcases usable.typed q fd' f old counted with done | ⟨u,member,now⟩
      · exact .inl done
      · refine .inr ⟨u,member,?_⟩
        have self : u ≠ t := by
          rintro rfl
          rw [opens] at now
          contradiction
        simp only [goto,update_of_ne self]
        exact now

end FdState

theorem FdAfter.next_detached {T P : Type} (after : FdAfter) : (after.next : FdPc T P).Detached := by
  cases after <;> exact ⟨rfl,rfl,rfl,rfl,rfl⟩

theorem FdAfter.next_uncounted {T P : Type} (after : FdAfter) : (after.next : FdPc T P).uncounted = after.clears := by
  cases after <;> rfl

namespace FdState
variable {T P : Type} {proc : T → P} {s s' : FdState T P}

theorem Usable.complete_free (usable : s.Usable proc) (t : T) (fd : Fd) (f : FileIx) (free : s.Free proc t (proc t))
    (entry : s.ofile (proc t) fd = some f) (counted : (s.pc t).uncounted ≠ some fd)
    (opens : (s.pc t).opens = none) (apart : s.Alone proc t) : (s.file f).type ≠ .none := by
  refine usable.complete entry ?_ ?_
  · intro u sibling
    by_cases here : u = t
    · rwa [here]
    · rw [(free.quiet u here sibling).uncounted]
      exact nofun
  · intro u sibling
    by_cases here : u = t
    · rwa [here]
    · exact FdPc.idle_opens (apart u here sibling)

variable [DecidableEq T] [DecidableEq P]

theorem Usable.fdStore (usable : s.Usable proc) (tables : s.Tables proc) (panic : s.panic = none) {t : T}
    {use : FdUse} (place : s.pc t = .fdStore f fd use) :
    ((s.setEntry (proc t) fd (some f)).goto t (use.done f fd)).Usable proc := by
  have empty := (tables.stands t).finds fd (by rw [place]; rfl)
  have inside : (s.pc t).inTable = true := by rw [place]; rfl
  -- Whoever uses an entry has found it with a file.
  have used (u : T) (x : Fd × FileIx) (entry : s.ofile (proc u) x.1 = some x.2) : (proc u,x.1) ≠ (proc t,fd) := by
    intro same
    simp only [Prod.mk.injEq] at same
    rw [same.1,same.2,empty] at entry
    contradiction
  have relies := usable.relies t
  rw [place] at relies
  have stores (c : FdPc T P) := usable.stores (c := c) (v := some f) place panic
    (fun u _ x member => used u x ((usable.relies u).uses x member).1)
    (fun u _ x member => used u x ((usable.relies u).opening x member))
  have claims (fd' : Fd) (member : fd' ∈ (some fd : Option Fd)) (u : T) (_ : u ≠ t) (sibling : proc u = proc t)
      (x : Fd × FileIx) (uses : x ∈ (s.pc u).uses) : x.1 ≠ fd' := by
    cases member
    intro same
    exact used u x ((usable.relies u).uses x uses).1 (by rw [sibling,same])
  have busy := FdPc.inTable_busy inside
  cases use with
  | «open» ip omode =>
    refine stores _ ⟨fun _ => .inl busy,claims,none_all⟩ ⟨none_all,none_all,List.forall_mem_nil _,relies.owns,?_,none_all⟩
      (fun g same => .inr ⟨rfl,.inl (by cases same; rfl)⟩) none_all rfl
    intro x member
    cases member
    exact setEntry_here (proc t) fd (some f)
  | dup old =>
    exact stores _ ⟨fun _ => .inl busy,claims,none_all⟩ (.plain rfl rfl rfl (List.forall_mem_nil _))
      (fun g same => .inr ⟨rfl,.inr rfl⟩) none_all rfl
  | pipeRead wf =>
    have ready := relies.ready
    refine stores _ ⟨fun _ => .inl busy,claims,none_all⟩ ⟨none_all,none_all,?_,List.forall_mem_nil _,none_all,none_all⟩ (fun g same => .inl ?_) none_all rfl
    · intro g member
      simp only [FdUse.done,FdPc.ready,FdUse.ready,List.mem_singleton] at member
      subst member
      exact ready g (by simp [FdPc.ready,FdUse.ready])
    · cases same
      exact ready f (by simp [FdPc.ready,FdUse.ready])
  | pipeWrite rf fd0 =>
    refine stores _ (.detached ⟨rfl,rfl,rfl,rfl,rfl⟩) (.plain rfl rfl rfl (List.forall_mem_nil _)) (fun g same => .inl ?_) none_all rfl
    cases same
    exact relies.ready f (by simp [FdPc.ready,FdUse.ready])

theorem Usable.clears (usable : s.Usable proc) (panic : s.panic = none) {t : T} {c₀ c : FdPc T P}
    (place : s.pc t = c₀) (inside : c₀.inTable = true := by rfl) (claims : c₀.claims = some fd := by rfl)
    (counted : c₀.uncounted = none := by rfl) (detached : c.Detached := by exact ⟨rfl,rfl,rfl,rfl,rfl⟩) :
    ((s.setEntry (proc t) fd none).goto t c).Usable proc := by
  subst place
  have busy := FdPc.inTable_busy inside
  refine usable.stores rfl panic ?_ ?_ (.detached detached) (.detached detached) nofun (by simp [counted])
    (FdPc.inTable_opens inside)
  · intro u other x uses same
    simp only [Prod.mk.injEq] at same
    exact usable.claims t u other.symm same.1.symm x uses fd claims same.2
  · intro u other x opening same
    simp only [Prod.mk.injEq] at same
    have idle := usable.apart t u other.symm same.1.symm busy
    simp [(FdPc.opening_claims opening).2.1] at idle

theorem Usable.forkStore (usable : s.Usable proc) (tables : s.Tables proc) (panic : s.panic = none) {t : T} {np : P}
    {nt : T} {i : Fd} (place : s.pc t = .forkStore np nt i f) :
    ((s.setEntry np i (some f)).goto t (.forkRead np nt (i+1))).Usable proc := by
  have into : s.Into proc np nt i := (tables.stands t).forks (np,nt,i.val) (by rw [place]; rfl)
  have typed := (usable.relies t).ready f (by rw [place]; simp [FdPc.ready])
  refine usable.stores place panic ?_ ?_ (.detached ⟨rfl,rfl,rfl,rfl,rfl⟩) (.plain rfl rfl rfl (List.forall_mem_nil _))
    (fun g same => .inl (by cases same; exact typed)) none_all rfl
  · intro u _ x uses same
    rw [into.threads u (congrArg Prod.fst same)] at uses
    contradiction
  · intro u _ x opening same
    rw [into.threads u (congrArg Prod.fst same)] at opening
    contradiction

theorem Usable.exitClear (usable : s.Usable proc) (tables : s.Tables proc) (panic : s.panic = none) {t : T}
    (place : s.pc t = .exitClear fd) :
    ((s.setEntry (proc t) fd none).goto t (.exitRead (fd+1))).Usable proc := by
  have gone := ((tables.stands t).exits fd (by rw [place]; rfl)).1
  refine usable.stores place panic ?_ ?_ ⟨nofun,nofun,nofun⟩ ⟨nofun,nofun,nofun,nofun,nofun,nofun⟩ nofun ?_ rfl
  · intro u other x uses same
    rw [gone u other (congrArg Prod.fst same)] at uses
    contradiction
  · intro u other x opening same
    rw [gone u other (congrArg Prod.fst same)] at opening
    contradiction
  · intro fd' member
    cases member
    exact ⟨rfl,rfl⟩

variable [Fintype T] [Fintype P] {ptr : FdHolder T P → Option FileIx}

omit [DecidableEq P] in
theorem Usable.dupCount (usable : s.Usable proc) (tables : s.Tables proc) (acc : s.Accounts proc ptr)
    (panic : s.panic = none) {t : T} {old new : Fd} (place : s.pc t = .dupCount f old new) :
    (s.filedup t f .user).Usable proc := by
  have inside : (s.pc t).inTable = true := by rw [place]; rfl
  have busy := FdPc.inTable_busy inside
  have free := tables.free_table inside
  have stands := tables.stands t
  rw [place] at stands
  have entry := stands.knows (old,f) (by simp [FdPc.knows])
  have uncounted : (s.pc t).uncounted ≠ some old := by
    rw [place]
    intro same
    exact stands.distinct f old new rfl (Option.some.inj same).symm
  have held : ptr (.inl (proc t,old)) = some f := by
    rw [acc.counted t (proc t) old free (fun _ => uncounted)]
    exact entry
  have live : 1 ≤ s.ref f := acc.counts.pos _ f held
  have typed := usable.complete_free t old f free entry uncounted (by rw [place]; rfl)
    (fun u other sibling => usable.apart t u other.symm sibling.symm busy)
  unfold FdState.filedup
  split
  next low =>
    unfold ref at live
    omega
  next =>
    refine usable.recounts place panic (by unfold ref at live; omega) (usable.unowned tables acc busy held)
      (.detached ⟨rfl,rfl,rfl,rfl,rfl⟩) (.plain rfl rfl rfl (List.forall_mem_nil _)) ?_ rfl
    intro fd member
    cases member
    refine .inr ?_
    intro g known
    rw [stands.knows (new,f) (by simp [FdPc.knows])] at known
    cases known
    exact typed

omit [DecidableEq P] in
theorem Usable.forkDup (usable : s.Usable proc) (tables : s.Tables proc) (acc : s.Accounts proc ptr)
    (panic : s.panic = none) {t : T} {np : P} {nt : T} {i : Fd} (place : s.pc t = .forkDup np nt i f) :
    (s.filedup t f (.forkStore np nt i f)).Usable proc := by
  have inside : (s.pc t).inTable = true := by rw [place]; rfl
  have busy := FdPc.inTable_busy inside
  have free := tables.free_table inside
  have entry := (tables.stands t).knows (i,f) (by rw [place]; simp [FdPc.knows])
  have counted : (s.pc t).uncounted = none := by rw [place]; rfl
  have held : ptr (.inl (proc t,i)) = some f := by
    rw [acc.counted t (proc t) i free (by simp [counted])]
    exact entry
  have live : 1 ≤ s.ref f := acc.counts.pos _ f held
  have typed := usable.complete_free t i f free entry (by simp [counted]) (by rw [place]; rfl)
    (fun u other sibling => usable.apart t u other.symm sibling.symm busy)
  unfold FdState.filedup
  split
  next low =>
    unfold ref at live
    omega
  next =>
    refine usable.recounts place panic (by unfold ref at live; omega) (usable.unowned tables acc busy held)
      ⟨(absurd · Bool.false_ne_true),none_all,none_all⟩ ⟨none_all,none_all,?_,List.forall_mem_nil _,none_all,none_all⟩ none_all rfl
    intro g member
    simp only [FdPc.ready,List.mem_singleton] at member
    subst member
    exact (setRef_type g g _).symm ▸ typed

/-- `fileclose` frees a file only when it gives back the last reference. -/
theorem Usable.fileclose (usable : s.Usable proc) (tables : s.Tables proc) (acc : s.Accounts proc ptr)
    (panic : s.panic = none) {t : T} {after : FdAfter} (place : s.pc t = .fileclose f after) :
    (s.fileclose t f after).Usable proc := by
  have opens : (s.pc t).opens = none := by rw [place]; rfl
  have counted : (s.pc t).uncounted = none := by rw [place]; rfl
  obtain ⟨h,held,owner⟩ : ∃ h, ptr h = some f ∧ ((∃ b, h = .inr (t,b)) ∨ ∃ fd, h = .inl (proc t,fd) ∧
      ((s.pc t).opening = some (fd,f) ∨ ∃ n, (s.pc t).exitAt = some n)) := by
    cases after with
    | exitClear fd =>
      have exits : (s.pc t).exitAt = some fd.val := by rw [place]; rfl
      refine ⟨.inl (proc t,fd),?_,.inr ⟨fd,rfl,.inr ⟨fd,exits⟩⟩⟩
      rw [acc.counted t (proc t) fd (tables.free_exit exits) (by simp [counted])]
      exact (tables.stands t).knows (fd,f) (by rw [place]; simp [FdPc.knows])
    | _ => exact ⟨.inr (t,false),by rw [acc.first t,place]; rfl,.inl ⟨false,rfl⟩⟩
  have live : 1 ≤ s.ref f := acc.counts.pos _ f held
  obtain ⟨ptr',now⟩ := (acc.fileclose tables panic place).1
  unfold FdState.fileclose at now ⊢
  simp only at now ⊢
  split at now
  next low =>
    unfold ref at live
    omega
  next =>
    rw [if_neg (by assumption)]
    split at now
    next more =>
      rw [if_pos more]
      have next := FdAfter.next_detached (T := T) (P := P) after
      refine usable.recounts place panic (by omega) ?_ (.detached next) (.detached next) none_all rfl
      intro u _ member
      have one := (usable.relies u).owns f member
      unfold ref at one
      omega
    next last =>
      rw [if_neg last]
      have one : s.ref f = 1 := by
        unfold ref at live ⊢
        omega
      have alone := usable.untouched tables acc one h held owner
      have away (g : FileIx) (other : g ≠ f) :
          ((s.setFile f {s.file f with ref := 0, type := .none}).goto t (.closing (s.file f) after)).file g = s.file g :=
        update_of_ne other _ _
      refine usable.goes t _ rfl (.detached ⟨rfl,rfl,rfl,rfl,rfl⟩) (.detached ⟨rfl,rfl,rfl,rfl,rfl⟩) ?_ ?_ ?_
        (by simp [goto,setFile,panic])
      · intro u other
        have distinct (g : FileIx) (touches : s.Touches u g) : g ≠ f := by
          rintro rfl
          exact alone u other touches
        refine (usable.relies u).keep ?_ ?_ (fun _ _ => rfl) (fun _ _ => rfl)
        · intro g touches
          rw [away g (distinct g touches)]
          exact ⟨rfl,rfl⟩
        · intro g member
          unfold ref
          rw [away g (distinct g (.inr (.inr member)))]
      · -- No counted entry points to the file any more.
        intro p fd g entry free
        have points := now.entry p fd free
        have other : g ≠ f := by
          rintro rfl
          have pos := now.counts.pos _ g (points.trans entry)
          simp [ref,goto,setFile] at pos
        rw [away g other]
        have before (u : T) (member : proc u = p) : (s.pc u).uncounted ≠ some fd := by
          by_cases here : u = t
          · rw [here,counted]
            simp
          · have still := free u member
            simp only [goto,update_of_ne here] at still
            exact still
        rcases usable.typed p fd g entry before with done | ⟨u,member,opening⟩
        · exact .inl done
        · refine .inr ⟨u,member,?_⟩
          have here : u ≠ t := by
            rintro rfl
            rw [opens] at opening
            contradiction
          simp only [goto,update_of_ne here]
          exact opening
      · intro g low
        by_cases here : g = f
        · subst here
          simp [goto,setFile]
        · rw [away g here]
          unfold ref at low
          rw [away g here] at low
          exact usable.idle g low

omit [DecidableEq P] in
theorem Usable.openEnd (usable : s.Usable proc) (tables : s.Tables proc) (acc : s.Accounts proc ptr)
    (panic : s.panic = none) {t : T} {ip : Nat} {omode : BitVec 32}
    (place : s.pc t = .openEnd fd f ip omode) :
    ((s.setFile f {s.file f with type := .inode}).goto t (.openRest fd f ip omode)).Usable proc := by
  have relies := usable.relies t
  have opening : (s.pc t).opening = some (fd,f) := by rw [place]; rfl
  have one := relies.owns f (by rw [place]; simp [FdPc.owns])
  have entry := relies.opening _ opening
  have touches : s.Touches t f := .inr (.inr (by rw [place]; simp [FdPc.owns]))
  have held : ptr (.inl (proc t,fd)) = some f := by
    rcases usable.holder tables acc touches with ⟨b,mine⟩ | ⟨fd',mine,reason⟩
    · cases b with
      | false =>
        rw [acc.first t,place] at mine
        contradiction
      | true =>
        rw [acc.second t,place] at mine
        contradiction
    · rcases reason with uses | same
      · rw [place] at uses
        contradiction
      · rw [opening] at same
        cases same
        exact mine
  have alone := usable.untouched tables acc one _ held (.inr ⟨fd,rfl,.inl opening⟩)
  have away (g : FileIx) (other : g ≠ f) :
      ((s.setFile f {s.file f with type := .inode}).goto t (.openRest fd f ip omode)).file g = s.file g :=
    update_of_ne other _ _
  have refs : ((s.setFile f {s.file f with type := .inode}).goto t (.openRest fd f ip omode)).ref = s.ref :=
    setFile_same f _ rfl
  refine usable.refiles t _ rfl rfl ?_ (fun _ _ g _ => by rw [refs])
    ⟨fun _ => .inl (FdPc.opening_claims opening).2.1,?_,none_all⟩ ⟨none_all,none_all,List.forall_mem_nil _,?_,?_,?_⟩ ?_ ?_
    (by rw [place]; exact none_all) ?_ panic
  · intro u other g touched
    have distinct : g ≠ f := by
      rintro rfl
      exact alone u other touched
    rw [away g distinct]
    exact ⟨rfl,rfl⟩
  · intro fd' member u other sibling x uses
    exact usable.claims t u other.symm sibling.symm x uses fd' (by rw [place]; exact member)
  · intro g member
    rw [refs]
    exact relies.owns g (by rw [place]; exact member)
  · intro x member
    cases member
    exact entry
  · intro g member
    cases member
    simp [goto,setFile]
  · intro g typed
    by_cases here : g = f
    · simp [goto,setFile,here]
    · rwa [away g here]
  · rw [place]
    intro x member
    cases member
    simp [goto,setFile]
  · intro g low
    rw [refs] at low
    have here : g ≠ f := by
      rintro rfl
      omega
    rw [away g here]
    exact usable.idle g low

omit [DecidableEq P] in
theorem Usable.pipeFill (usable : s.Usable proc) (tables : s.Tables proc) (acc : s.Accounts proc ptr)
    (panic : s.panic = none) {t : T} {rf wf : FileIx} (place : s.pc t = .pipeKalloc rf wf) (apart : s.Alone proc t) :
    ((s.pipeFill rf wf).goto t (.fdRead rf 0 (.pipeRead wf))).Usable proc := by
  have relies := usable.relies t
  have ones (g : FileIx) (member : g = rf ∨ g = wf) : s.ref g = 1 :=
    relies.owns g (by rw [place]; simpa [FdPc.owns] using member)
  have alone (g : FileIx) (member : g = rf ∨ g = wf) (u : T) (other : u ≠ t) : ¬ s.Touches u g := by
    rcases member with rfl | rfl
    · exact usable.untouched tables acc (ones g (.inl rfl)) (.inr (t,false)) (by rw [acc.first t,place]; rfl)
        (.inl ⟨false,rfl⟩) u other
    · exact usable.untouched tables acc (ones g (.inr rfl)) (.inr (t,true)) (by rw [acc.second t,place]; rfl)
        (.inl ⟨true,rfl⟩) u other
  have away (g : FileIx) (first : g ≠ rf) (second : g ≠ wf) :
      ((s.pipeFill rf wf).goto t (.fdRead rf 0 (.pipeRead wf))).file g = s.file g := by
    simp [goto,FdState.pipeFill,setFile,first,second]
  have filled (g : FileIx) (member : g = rf ∨ g = wf) :
      (((s.pipeFill rf wf).goto t (.fdRead rf 0 (.pipeRead wf))).file g).type = .pipe ∧
      (((s.pipeFill rf wf).goto t (.fdRead rf 0 (.pipeRead wf))).file g).ref = s.ref g := by
    by_cases second : g = wf
    · simp [goto,FdState.pipeFill,setFile,second,ref]
    · have first : g = rf := by tauto
      subst first
      simp [goto,FdState.pipeFill,setFile,second,ref]
  have refs (g : FileIx) : ((s.pipeFill rf wf).goto t (.fdRead rf 0 (.pipeRead wf))).ref g = s.ref g := by
    by_cases member : g = rf ∨ g = wf
    · exact (filled g member).2
    · simp only [not_or] at member
      unfold ref
      rw [away g member.1 member.2]
  refine usable.refiles t _ rfl rfl ?_ (fun _ _ g _ => refs g) ⟨fun _ => .inr apart,none_all,none_all⟩
    ⟨none_all,none_all,?_,List.forall_mem_nil _,none_all,none_all⟩ ?_ (by rw [place]; exact none_all) (by rw [place]; exact none_all) ?_ panic
  · intro u other g touched
    have distinct : ¬ (g = rf ∨ g = wf) := fun member => alone g member u other touched
    simp only [not_or] at distinct
    rw [away g distinct.1 distinct.2]
    exact ⟨rfl,rfl⟩
  · intro g member
    simp only [FdPc.ready,FdUse.ready,List.mem_cons,List.not_mem_nil,or_false] at member
    rw [(filled g member).1]
    simp
  · intro g typed
    by_cases member : g = rf ∨ g = wf
    · rw [(filled g member).1]
      simp
    · simp only [not_or] at member
      rwa [away g member.1 member.2]
  · intro g low
    rw [refs] at low
    have member : ¬ (g = rf ∨ g = wf) := by
      intro member
      have := ones g member
      omega
    simp only [not_or] at member
    rw [away g member.1 member.2]
    exact usable.idle g low

omit [DecidableEq P] [Fintype T] [Fintype P] in
theorem Usable.goesOn (usable : s.Usable proc) {t : T} {c₀ c : FdPc T P} (place : s.pc t = c₀) (panic : s'.panic = none)
    (pcs : s'.pc = update s.pc t c)
    (pipes : ∀ x ∈ c.pipes, (s.file x.1).type = .pipe ∧ (s.file x.1).pipe = x.2) (used : c.uses = c₀.uses := by rfl)
    (uses : c₀.uses.isSome = true := by rfl) (ofile : s'.ofile = s.ofile := by rfl)
    (file : s'.file = s.file := by rfl) : s'.Usable proc := by
  subst place
  obtain ⟨x,member⟩ := Option.isSome_iff_exists.mp uses
  obtain ⟨counted,_,_,_⟩ := FdPc.uses_idle member
  obtain ⟨_,_,owns,free⟩ := FdPc.uses_idle (used.trans member)
  obtain ⟨claims,ready,opening,opened,_⟩ := FdPc.uses_plain (used.trans member)
  refine usable.walks rfl panic pcs ⟨by simp [free],by simp [claims],?_⟩
    ⟨by rw [used]; exact (usable.relies t).uses,pipes,by simp [ready],by simp [owns],by simp [opening],
      by simp [opened]⟩ (FdPc.uses_plain member).2.2.2.2 (by simp [counted]) ofile file
  intro y same u other sibling fd claims
  exact usable.claims u t other sibling y (by rw [← used]; exact same) fd claims

omit [Fintype T] [Fintype P] [DecidableEq P] in
/-- A call looks at its table: the entry that it finds is complete, and nobody is about to change it. -/
theorem Usable.opens (usable : s.Usable proc) (tables : s.Tables proc) (panic : s.panic = none) {t : T} {c : FdPc T P}
    {n : Int} (place : s.pc t = .user) (found : s.argfd (proc t) n = some (fd,f))
    (apart : s.Alone proc t) (uses : c.uses = some (fd,f) := by rfl) (pipes : c.pipes = none := by rfl) :
    (s.goto t c).Usable proc := by
  have entry := argfd_entry found
  have home := tables.home (t := t) (by rw [place]; rfl)
  have free : s.Free proc t (proc t) := by
    refine ⟨home.used,?_,fun u _ => home.grown u⟩
    intro u other sibling
    have idle := apart u other sibling
    simp only [FdPc.busy,Bool.or_eq_false_iff] at idle
    exact ⟨idle.1,home.stays u other sibling⟩
  have typed := usable.complete_free t fd f free entry (by simp [place,FdPc.uncounted]) (by rw [place]; rfl) apart
  obtain ⟨_,_,owns,quiet⟩ := FdPc.uses_idle uses
  obtain ⟨claims,ready,opening,opened,_⟩ := FdPc.uses_plain uses
  refine usable.walks place panic rfl ⟨by simp [quiet],by simp [claims],?_⟩
    ⟨?_,by simp [pipes],by simp [ready],by simp [owns],by simp [opening],by simp [opened]⟩ rfl none_all rfl rfl
  · intro x _ u other sibling fd' claims
    have idle := apart u other sibling
    simp [FdPc.claims_busy claims] at idle
  · intro x member
    rw [uses] at member
    cases member
    exact ⟨entry,typed⟩

omit [Fintype T] [Fintype P] [DecidableEq P] in
theorem Usable.openRest (usable : s.Usable proc) (panic : s.panic = none) {t : T} {ip : Nat}
    {omode : BitVec 32} (file : File) (place : s.pc t = .openRest fd f ip omode) (type : file.type = (s.file f).type)
    (pipe : file.pipe = (s.file f).pipe) (count : file.ref = s.ref f) : ((s.setFile f file).goto t .user).Usable proc := by
  have same (g : FileIx) : (update s.file f file g).type = (s.file g).type ∧
      (update s.file f file g).pipe = (s.file g).pipe := by
    by_cases here : g = f
    · simp [here,type,pipe]
    · simp [here]
  have refs : (s.setFile f file).ref = s.ref := setFile_same f _ count
  refine usable.refiles t _ rfl rfl (fun _ _ g _ => same g) (fun _ _ g _ => congrFun refs g) ⟨nofun,nofun,nofun⟩
    ⟨nofun,nofun,nofun,nofun,nofun,nofun⟩ ?_ (by rw [place]; exact nofun) (by rw [place]; exact nofun) ?_ panic
  · intro g typed
    exact (same g).1.symm ▸ typed
  · intro g low
    exact (same g).1.trans (usable.idle g (by rw [← congrFun refs g]; exact low))

omit [Fintype T] [Fintype P] [DecidableEq P] in
theorem Usable.moves (usable : s.Usable proc) (tables : s.Tables proc) (panic : s.panic = none) {t : T}
    {a : FdAction T P} {c₀ c : FdPc T P} (place : s.pc t = c₀) (moves : FdMoves proc s t a c₀ c)
    (allowed : Undisturbed proc s a) : (s.goto t c).Usable proc := by
  cases moves with
  | rests rest => exact usable.rests place panic rfl rest.detached rest.plain.1 (by simp [rest.plain.2])
  | read found | write found | fstat found => exact usable.opens tables panic place found (allowed.1 _ rfl)
  | readPipe pipe | writePipe pipe =>
    refine usable.goesOn place panic rfl ?_
    intro x member
    cases member
    exact ⟨pipe,rfl⟩
  | readInode | writeInode | statInode => exact usable.goesOn place panic rfl nofun

theorem Usable.step (usable : s.Usable proc) (tables : s.Tables proc) (exact : s.Exact proc) {a : FdAction T P}
    (allowed : Undisturbed proc s a) (taken : fdStep proc s a = some s') : s'.Usable proc := by
  obtain ⟨⟨ptr,acc⟩,_⟩ := exact
  obtain ⟨panic,steps⟩ := fdStep_cases taken
  cases steps with
  | same => exact usable
  | kill =>
    refine ⟨usable.apart,usable.claims,?_,usable.typed,usable.idle,usable.panic⟩
    intro t
    exact (usable.relies t).keep (fun _ _ => ⟨rfl,rfl⟩) (fun _ _ => rfl) (fun _ _ => rfl) (fun _ _ => rfl)
  | moves place moves => exact usable.moves tables panic place moves allowed
  | fork place | exit place | forkNext place | exitNext place | exitEntry place | exitDone place | pipeDies place =>
    exact usable.rests place panic
  | create _ _ gone => exact usable.rests (FdPc.isGone_eq gone) panic
  | openDies place =>
    have opens := allowed.2.2 _ rfl
    rw [place] at opens
    contradiction
  | dup place =>
    exact usable.walks place panic rfl ⟨fun _ => .inr (allowed.1 _ rfl),none_all,none_all⟩
      (.plain rfl rfl rfl (List.forall_mem_nil _))
  | @close t n fd f place found =>
    refine usable.walks place panic rfl ⟨fun _ => .inr (allowed.1 _ rfl),?_,none_all⟩
      (.plain rfl rfl rfl (List.forall_mem_nil _))
    intro fd' member u other sibling x uses same
    cases member
    refine allowed.2.1 (t,n) rfl u other sibling x uses ?_
    rw [same]
    exact argfd_index found
  | openAlloc place found =>
    exact usable.allocs place panic found
      ⟨fun _ => .inr (allowed.1 _ (by simp [FdAction.looks,FdAction.enters,place])),none_all,none_all⟩
      (by simp [FdPc.owns,FdUse.owns])
  | pipeFirst place found | pipeSecond place found =>
    exact usable.allocs place panic found ⟨(absurd · Bool.false_ne_true),none_all,none_all⟩ (by simp [FdPc.owns])
  | pipeFill place =>
    exact usable.pipeFill tables acc panic place (allowed.1 _ (by simp [FdAction.looks,FdAction.enters,place]))
  | @fdEmpty t _ _ _ _ place | @fdNext t _ _ _ _ place | @fdUndo t _ _ _ _ _ place =>
    have relies := usable.relies t
    rw [place] at relies
    refine usable.walks place panic rfl ⟨fun _ => .inl (FdPc.inTable_busy (by rw [place]; rfl)),?_,none_all⟩
      ⟨none_all,none_all,?_,?_,none_all,none_all⟩
    · intro fd member u other sibling x uses
      exact usable.claims t u other.symm sibling.symm x uses fd (by rw [place]; exact member)
    · first | exact relies.ready | exact List.forall_mem_nil _
    · exact relies.owns
  | fdStore place => exact usable.fdStore tables panic place
  | openEnd place => exact usable.openEnd tables acc panic place
  | openRest place => exact usable.openRest panic _ place rfl rfl rfl
  | dupCount place => exact usable.dupCount tables acc panic place
  | closeEntry place | pipeUndo place => exact usable.clears panic place
  | fileclose place => exact usable.fileclose tables acc panic place
  | @closing t _ ff after place =>
    have counted (fd : Fd) (member : fd ∈ after.clears) : (after.next : FdPc T P).uncounted = some fd := by
      rw [FdAfter.next_uncounted]
      exact member
    unfold FdState.closeRest
    split
    · exact usable.rests place panic rfl (FdAfter.next_detached after) rfl counted
    · exact usable.rests place panic rfl (FdAfter.next_detached after) rfl counted
  | forkEntry place =>
    exact usable.walks place panic rfl
      ⟨fun _ => .inr (allowed.1 _ (by simp [FdAction.looks,FdAction.enters,place])),none_all,none_all⟩
      (.plain rfl rfl rfl (List.forall_mem_nil _))
  | @forkDone t _ np nt n place =>
    have into : s.Into proc np nt n := (tables.stands t).forks (np,nt,n) (by rw [place]; rfl)
    have idle : s.pc nt = .gone := into.threads nt into.thread
    have mid : (s.goto t .user).Usable proc := usable.rests place panic
    have other : nt ≠ t := by
      rintro rfl
      rw [place] at idle
      contradiction
    exact mid.rests ((update_of_ne other _ _).trans idle) panic
  | forkDup place => exact usable.forkDup tables acc panic place
  | forkStore place => exact usable.forkStore tables panic place
  | exitClear place => exact usable.exitClear tables panic place
  | @readPanics t _ fd f _ place untyped | @writePanics t _ fd f _ _ place untyped =>
    exact absurd untyped ((usable.relies t).uses (fd,f) (by rw [place]; rfl)).2
  | @pipeEnter t _ _ _ _ _ _ place | @pipeInside t _ _ _ _ _ place =>
    split
    · refine usable.goesOn place panic rfl ?_
      intro x member
      exact (usable.relies t).pipes x (by rw [place]; exact member)
    · exact usable.rests place panic

omit [Fintype T] [Fintype P] in
theorem Usable.boot (t₀ : T) : (FdState.boot proc t₀ : FdState T P).Usable proc := by
  have places (t : T) : ((FdState.boot proc t₀ : FdState T P).pc t).Detached := by
    simp only [FdState.boot]
    split <;> exact ⟨rfl,rfl,rfl,rfl,rfl⟩
  refine ⟨?_,?_,fun t => .detached (places t),?_,fun _ _ => rfl,by simp [FdState.boot]⟩
  · intro t u _ _ busy
    simp [(places t).busy] at busy
  · intro t u _ _ x uses
    simp [(places u).uses] at uses
  · intro p fd f entry
    contradiction

end FdState

end Kthreads
