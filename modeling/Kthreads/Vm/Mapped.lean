import Kthreads.Vm.Machine

/-! While `growproc` releases pages, the size of the process is still the old one. The floor is the size
below which nothing is being released; what a thread relies on lies below it as long as no sibling
lowers it within the call, and no sibling changes the size while `fork` copies. -/
open Function

namespace Kthreads

namespace VmPc

def growing : VmPc → Bool
  | .grow _ _ _ | .undo _ _ _ | .shrink _ _ _ | .store _ => true
  | _ => false

def forking : VmPc → Bool
  | .copy _ _ _ | .child _ => true
  | _ => false

def scanning : VmPc → Bool
  | .scan _ _ => true
  | _ => false

def idle : VmPc → Bool
  | .gone | .user => true
  | _ => false

/-- The size that is left of `sz` when `growproc` has released what it releases. -/
def level (sz : Nat) : VmPc → Nat
  | .shrink _ new _ => min new sz
  | .store m => min m sz
  | _ => sz

theorem level_calm {c : VmPc} (calm : c.growing = false) (sz : Nat) : c.level sz = sz := by
  cases c <;> first | contradiction | rfl

theorem isGone_eq {c : VmPc} (gone : c.isGone = true) : c = .gone := by
  cases c <;> first | contradiction | rfl

theorem isCall_eq {c : VmPc} (call : c.isCall = true) : c = .call := by
  cases c <;> first | contradiction | rfl

end VmPc

section Guard
variable {T : Type} [DecidableEq T] [Fintype T]

/-- No sibling is between two steps of a call that the step would disturb: memory is released only while no
sibling relies on memory or looks for the end of a string, and looked at only while no sibling releases it;
the size changes only while no sibling copies, and is copied only while no sibling changes it. A call that
releases memory itself, or replaces the image, keeps the ranges that it has been given. -/
def CallsApart (s : VmState T) : VmAction T → Prop
  | .fetchint t _ | .argptr t _ _ | .fetchstr t _ => ∀ u, u ≠ t → (s.pc u).level s.sz = s.sz
  | .fork t => ∀ u, u ≠ t → (s.pc u).growing = false
  | .sbrk t n =>
    (∀ u, u ≠ t → (s.pc u).forking = false ∧ (n < 0 → s.spans u = [] ∧ (s.pc u).scanning = false)) ∧
    (n < 0 → ∀ r ∈ s.spans t, r.below (uint (s.sz+n)))
  | .exec t (some size) => ∀ r ∈ s.spans t, r.below size
  | _ => True

instance (s : VmState T) (a : VmAction T) : Decidable (CallsApart s a) := by
  unfold CallsApart
  split <;> infer_instance

abbrev VmReaches (guard : VmState T → VmAction T → Prop) (a : AddrSpace) (t₀ : T) (s : VmState T) : Prop :=
  Interleave.Reaches vmStep guard (VmState.start a t₀) s

/-- The address spaces that processes start with: that of the first process, and those that `fork` makes. -/
inductive Started (T : Type) [DecidableEq T] [Fintype T] (guard : VmState T → VmAction T → Prop) : AddrSpace → Prop
  | init : Started T guard ⟨.image pgsize,pgsize⟩
  | child (a c : AddrSpace) (t₀ : T) (s : VmState T) (started : Started T guard a) (run : VmReaches guard a t₀ s)
      (member : c ∈ s.children) : Started T guard c

end Guard

namespace VmState
variable {T : Type} {s : VmState T}

def floor (s : VmState T) : Nat :=
  match s.lock with
  | some t => (s.pc t).level s.sz
  | none => s.sz

/-- What holds where a thread is. -/
def Stands (s : VmState T) : VmPc → Prop
  | .scan _ ep => ep ≤ s.floor
  | .grow old new a => old = s.sz ∧ old ≤ new ∧ new < kernbase ∧ a%pgsize = 0 ∧ pgroundup old ≤ a ∧ s.pgdir.Covers a
  | .undo _ _ a => pgroundup s.sz ≤ a
  | .shrink _ new a => 0 < new ∧ new ≤ s.sz ∧ pgroundup new ≤ a
  | .store m => m < kernbase ∧ s.pgdir.Covers m
  | .copy d sz i => s.lock = none ∧ sz = s.sz ∧ i%pgsize = 0 ∧ d.Covers i
  | .child d => s.lock = none ∧ d.Covers s.sz
  | _ => True

structure Mapped (s : VmState T) : Prop where
  size : s.sz < kernbase
  pages : s.pgdir.Covers s.floor
  spans : ∀ t, ∀ r ∈ s.spans t, r.below s.floor
  idle : ∀ t, (s.pc t).idle = true → s.spans t = []
  holder : ∀ t, (s.pc t).growing = true ↔ s.lock = some t
  stands : ∀ t, s.Stands (s.pc t)
  children : ∀ c ∈ s.children, c.sz < kernbase ∧ c.pgdir.Covers c.sz
  safe : s.panicked ≠ some .pteShouldExist ∧ s.panicked ≠ some .pageNotPresent

/-- The size is the floor where no sibling releases memory. -/
theorem floor_apart {t : T} (own : (s.pc t).growing = false) (apart : ∀ u, u ≠ t → (s.pc u).level s.sz = s.sz) :
    s.floor = s.sz := by
  unfold VmState.floor
  cases held : s.lock with
  | none => rfl
  | some u =>
    by_cases here : u = t
    · subst u
      exact VmPc.level_calm own s.sz
    · exact apart u here

namespace Mapped
variable (mapped : s.Mapped) {t : T}
include mapped

/-- While `growproc` holds the lock nobody copies. -/
theorem calm (grows : (s.pc t).growing = true) (u : T) : (s.pc u).forking = false := by
  have held := (mapped.holder t).mp grows
  have stands := mapped.stands u
  cases place : s.pc u with
  | copy =>
    rw [place] at stands
    rw [stands.1] at held
    contradiction
  | child =>
    rw [place] at stands
    rw [stands.1] at held
    contradiction
  | _ => rfl

theorem floor_held (grows : (s.pc t).growing = true) : s.floor = (s.pc t).level s.sz := by
  rw [VmState.floor,(mapped.holder t).mp grows]

theorem holding {c : VmPc} (place : s.pc t = c) (grows : c.growing = true) :
    s.lock = some t ∧ s.pgdir.Covers (c.level s.sz) ∧ s.Stands c := by
  subst place
  refine ⟨(mapped.holder t).mp grows,?_,mapped.stands t⟩
  rw [← mapped.floor_held grows]
  exact mapped.pages

/-- A panic that is not one of those of `copyuvm`. -/
theorem halts : Mapped {s with panicked := some .remap} :=
  ⟨mapped.size,mapped.pages,mapped.spans,mapped.idle,mapped.holder,mapped.stands,mapped.children,nofun,nofun⟩

variable [DecidableEq T]

/-- A step of a thread that is not in `growproc` changes its place and its ranges, and may make a child. -/
theorem moves {s' : VmState T} (c : VmPc) (spans : List Span) (before : (s.pc t).growing = false)
    (after : c.growing = false) (same : s' = {s with pc := update s.pc t c, spans := update s.spans t spans})
    (below : ∀ r ∈ spans, r.below s.floor) (idle : c.idle = true → spans = []) (stands : s.Stands c) : s'.Mapped := by
  subst same
  have other (u : T) (held : s.lock = some u) : u ≠ t := by
    rintro rfl
    rw [(mapped.holder u).mpr held] at before
    contradiction
  have floor : floor {s with pc := update s.pc t c, spans := update s.spans t spans} = s.floor := by
    unfold VmState.floor
    cases held : s.lock with
    | none => rfl
    | some u => simp [update_of_ne (other u held)]
  have keeps (e : VmPc) (old : s.Stands e) :
      Stands {s with pc := update s.pc t c, spans := update s.spans t spans} e := by
    cases e with
    | scan => exact old.trans_eq floor.symm
    | _ => exact old
  refine ⟨mapped.size,?_,?_,?_,?_,?_,mapped.children,mapped.safe⟩
  · rw [floor]
    exact mapped.pages
  · intro u r member
    rw [floor]
    by_cases here : u = t
    · subst u
      simp only [update_self] at member
      exact below r member
    · simp only [update_of_ne here] at member
      exact mapped.spans u r member
  · intro u rests
    by_cases here : u = t
    · subst u
      simp only [update_self] at rests ⊢
      exact idle rests
    · simp only [update_of_ne here] at rests ⊢
      exact mapped.idle u rests
  · intro u
    by_cases here : u = t
    · subst u
      simp only [update_self,after,Bool.false_eq_true,false_iff]
      exact fun held => other _ held rfl
    · simp only [update_of_ne here]
      exact mapped.holder u
  · intro u
    apply keeps
    by_cases here : u = t
    · subst u
      simpa using stands
    · simpa [here] using mapped.stands u

theorem goes (c : VmPc) (before : (s.pc t).growing = false) (after : c.growing = false) (active : c.idle = false)
    (stands : s.Stands c) : Mapped (s.goto t c) :=
  mapped.moves c (s.spans t) before after (by simp [goto]) (mapped.spans t) (by simp [active]) stands

/-- A step of `growproc`. It lowers the floor only where nobody relies on memory or reads a string. -/
theorem grows {s' : VmState T} {d : Pgdir} {sz : Nat} {lock : Option T} (c : VmPc)
    (free : s.lock = none ∨ s.lock = some t) (takes : lock = if c.growing then some t else none)
    (active : c.idle = false)
    (same : s' = {s with pgdir := d, sz := sz, lock := lock, pc := update s.pc t c})
    (size : sz < kernbase) (pages : d.Covers (c.level sz))
    (calm : ∀ u, u ≠ t → (s.pc u).forking = false)
    (lowers : s.floor ≤ c.level sz ∨
      (∀ u, u ≠ t → s.spans u = [] ∧ (s.pc u).scanning = false) ∧ ∀ r ∈ s.spans t, r.below (c.level sz))
    (stands : s'.Stands c) : s'.Mapped := by
  have floor : s'.floor = c.level sz := by
    subst same
    unfold VmState.floor
    subst takes
    cases grows : c.growing with
    | true => simp
    | false => simp [VmPc.level_calm grows]
  have others (u : T) (other : u ≠ t) : (s.pc u).growing = false := by
    rw [← Bool.not_eq_true,mapped.holder]
    rcases free with none | own
    · simp [none]
    · simp [own,Ne.symm other]
  have fields : s'.sz = sz ∧ s'.pgdir = d ∧ s'.spans = s.spans ∧ s'.pc = update s.pc t c ∧ s'.lock = lock ∧
      s'.children = s.children ∧ s'.panicked = s.panicked := by
    subst same
    exact ⟨rfl,rfl,rfl,rfl,rfl,rfl,rfl⟩
  obtain ⟨size',pgdir',spans',pc',lock',children',panicked'⟩ := fields
  refine ⟨?_,?_,?_,?_,?_,?_,?_,?_⟩
  · rw [size']
    exact size
  · rw [pgdir',floor]
    exact pages
  · intro u r member
    rw [spans'] at member
    rw [floor]
    rcases lowers with higher | ⟨alone,own⟩
    · exact Span.below_mono (mapped.spans u r member) higher
    · by_cases here : u = t
      · subst u
        exact own r member
      · rw [(alone u here).1] at member
        contradiction
  · intro u rests
    rw [pc'] at rests
    rw [spans']
    by_cases here : u = t
    · subst u
      rw [update_self,active] at rests
      contradiction
    · rw [update_of_ne here] at rests
      exact mapped.idle u rests
  · intro u
    rw [pc',lock',takes]
    by_cases here : u = t
    · subst u
      rw [update_self]
      cases c.growing <;> simp
    · rw [update_of_ne here,others u here]
      cases c.growing <;> simp [Ne.symm here]
  · intro u
    rw [pc']
    by_cases here : u = t
    · subst u
      rw [update_self]
      exact stands
    · rw [update_of_ne here]
      have before := mapped.stands u
      have quiet := others u here
      have still := calm u here
      cases place : s.pc u with
      | scan addr ep =>
        rw [place] at before
        rcases lowers with higher | ⟨alone,own⟩
        · change ep ≤ s'.floor
          rw [floor]
          exact le_trans before higher
        · have silent := (alone u here).2
          rw [place] at silent
          contradiction
      | grow => simp [place,VmPc.growing] at quiet
      | undo => simp [place,VmPc.growing] at quiet
      | shrink => simp [place,VmPc.growing] at quiet
      | store => simp [place,VmPc.growing] at quiet
      | copy => simp [place,VmPc.forking] at still
      | child => simp [place,VmPc.forking] at still
      | _ => trivial
  · rw [children']
    exact mapped.children
  · rw [panicked']
    exact mapped.safe

/-- A step of `growproc` that has the lock. -/
theorem holds {s' : VmState T} {d : Pgdir} {sz : Nat} {lock : Option T} {c₀ : VmPc} (c : VmPc) (place : s.pc t = c₀)
    (grows : c₀.growing = true) (takes : lock = if c.growing then some t else none) (active : c.idle = false)
    (same : s' = {s with pgdir := d, sz := sz, lock := lock, pc := update s.pc t c}) (size : sz < kernbase)
    (pages : d.Covers (c.level sz)) (higher : c₀.level s.sz ≤ c.level sz) (stands : s'.Stands c) : s'.Mapped := by
  subst place
  refine mapped.grows c (.inr ((mapped.holder t).mp grows)) takes active same size pages
    (fun u _ => mapped.calm grows u) (.inl ?_) stands
  rw [mapped.floor_held grows]
  exact higher

section Run
variable {s' : VmState T} {memory : Bool} (step : s.run t memory = some s')
include step

theorem run_grow {old new a : Nat} (place : s.pc t = .grow old new a) : s'.Mapped := by
  obtain ⟨held,pages,rfl,more,user,aligned,above,covers⟩ := mapped.holding place rfl
  simp only [run,place] at step
  split at step
  next inside =>
    split at step
    · split at step
      · cases step
        exact mapped.halts
      next d done =>
        cases step
        have next := Pgdir.mappages_covers done aligned covers
        refine mapped.holds (.grow _ new (a+pgsize)) place rfl held rfl rfl mapped.size ?_ le_rfl ?_
        · exact next.mono ((le_pgroundup _).trans (above.trans (Nat.le_add_right _ _)))
        · exact ⟨rfl,more,user,by rw [Nat.add_mod_right,aligned],above.trans (Nat.le_add_right _ _),next⟩
    · cases step
      exact mapped.holds (.undo s.sz new _) place rfl held rfl rfl mapped.size pages le_rfl le_rfl
  next full =>
    cases step
    have level : VmPc.level s.sz (.store new) = s.sz := Nat.min_eq_right more
    refine mapped.holds (.store new) place rfl held rfl rfl mapped.size ?_ level.ge
      ⟨user,covers.mono (Nat.le_of_not_lt full)⟩
    rw [level]
    exact pages

theorem run_undo {old new a : Nat} (place : s.pc t = .undo old new a) : s'.Mapped := by
  obtain ⟨held,pages,stands⟩ := mapped.holding place rfl
  simp only [run,place] at step
  split at step
  · cases step
    exact mapped.holds (.undo old new _) place rfl held rfl rfl mapped.size (Pgdir.unmap_covers pages stands) le_rfl
      (stands.trans (Pgdir.unmap_next a))
  · cases step
    exact mapped.holds .call place rfl rfl rfl rfl mapped.size pages le_rfl trivial

theorem run_shrink {old new a : Nat} (place : s.pc t = .shrink old new a) : s'.Mapped := by
  obtain ⟨held,pages,positive,less,above⟩ := mapped.holding place rfl
  have level : VmPc.level s.sz (.shrink old new a) = new := Nat.min_eq_left less
  rw [level] at pages
  simp only [run,place] at step
  split at step
  · cases step
    refine mapped.holds (.shrink old new _) place rfl held rfl rfl mapped.size ?_ le_rfl
      ⟨positive,less,above.trans (Pgdir.unmap_next a)⟩
    exact (Pgdir.unmap_covers pages above).mono (Nat.min_le_left _ _)
  · rw [if_neg positive.ne'] at step
    cases step
    exact mapped.holds (.store new) place rfl held rfl rfl mapped.size (pages.mono (Nat.min_le_left _ _)) le_rfl
      ⟨less.trans_lt mapped.size,pages⟩

theorem run_store {m : Nat} (place : s.pc t = .store m) : s'.Mapped := by
  obtain ⟨_,_,small,covers⟩ := mapped.holding place rfl
  simp only [run,place,Option.some.injEq] at step
  exact mapped.holds .call place rfl rfl rfl step.symm small covers (Nat.min_le_left _ _) trivial

theorem run_copy {d : Pgdir} {sz i : Nat} (place : s.pc t = .copy d sz i) : s'.Mapped := by
  have calm : (s.pc t).growing = false := by rw [place]; rfl
  have stands := mapped.stands t
  rw [place] at stands
  obtain ⟨free,rfl,aligned,covers⟩ := stands
  have floor : s.floor = s.sz := by rw [VmState.floor,free]
  simp only [run,place] at step
  split at step
  next inside =>
    -- the copy goes on below the floor, where every page is there
    have there : s.pgdir.walkpgdir i = some true := by
      rw [Pgdir.walkpgdir_mapped]
      refine mapped.pages _ ?_
      rw [floor]
      exact (Nat.div_mul_le_self i pgsize).trans_lt inside
    simp only [there] at step
    split at step
    · split at step
      · cases step
        exact mapped.halts
      next d' done =>
        cases step
        refine mapped.goes (.copy d' s.sz (i+pgsize)) calm rfl rfl ?_
        exact ⟨free,rfl,by rw [Nat.add_mod_right,aligned],Pgdir.mappages_covers done aligned covers⟩
    · cases step
      exact mapped.goes .call calm rfl rfl trivial
  next full =>
    cases step
    exact mapped.goes (.child d) calm rfl rfl ⟨free,covers.mono (Nat.le_of_not_lt full)⟩

theorem run_child {d : Pgdir} (place : s.pc t = .child d) : s'.Mapped := by
  have calm : (s.pc t).growing = false := by rw [place]; rfl
  have stands := mapped.stands t
  rw [place] at stands
  simp only [run,place,Option.some.injEq] at step
  have born : Mapped {s with children := ⟨d,s.sz⟩ :: s.children} :=
    ⟨mapped.size,mapped.pages,mapped.spans,mapped.idle,mapped.holder,mapped.stands,
      List.forall_mem_cons.mpr ⟨⟨mapped.size,stands.2⟩,mapped.children⟩,mapped.safe⟩
  rw [← step]
  exact born.goes .call calm rfl rfl trivial

theorem run_step : s'.Mapped := by
  cases place : s.pc t with
  | grow => exact mapped.run_grow step place
  | undo => exact mapped.run_undo step place
  | shrink => exact mapped.run_shrink step place
  | store => exact mapped.run_store step place
  | copy => exact mapped.run_copy step place
  | child => exact mapped.run_child step place
  | _ => simp [run,place] at step

end Run

/-- A check against the size, while the size is the floor. -/
theorem checked {a : VmAction T} {addr size : Nat} (place : s.pc t = .call) (level : s.floor = s.sz)
    (small : size < 2147483648)
    (test : s.accepts a = if addr ≥ s.sz ∨ uint (addr+size) > s.sz then none else some (t,⟨addr,size⟩)) :
    Mapped (s.check a) := by
  have user := mapped.size
  unfold check
  rw [test]
  by_cases outside : addr ≥ s.sz ∨ uint (addr+size) > s.sz
  · simpa only [if_pos outside] using mapped
  · simp only [if_neg outside]
    refine mapped.moves .call (⟨addr,size⟩ :: s.spans t) (by rw [place]; rfl) rfl (by simp [setSpans,← place]) ?_ nofun
      trivial
    refine List.forall_mem_cons.mpr ⟨?_,mapped.spans t⟩
    rw [level]
    refine Span.below_of_le ?_
    simp only [kernbase] at user
    simp only [uint] at outside
    change addr+size ≤ s.sz
    omega

theorem scanned (length : Option Nat) {addr ep : Nat} (place : s.pc t = .scan addr ep) :
    Mapped ((s.check (.scanned t length)).goto t .call) := by
  have stands := mapped.stands t
  have calm : (s.pc t).growing = false := by rw [place]; rfl
  rw [place] at stands
  have fails : Mapped (s.goto t .call) := mapped.goes .call calm rfl rfl trivial
  cases length with
  | none => exact fails
  | some length =>
    by_cases inside : addr+length < ep
    · simp only [check,accepts,place,if_pos inside]
      refine mapped.moves .call (⟨addr,length+1⟩ :: s.spans t) calm rfl rfl ?_ nofun trivial
      exact List.forall_mem_cons.mpr ⟨Span.below_of_le (le_trans inside stands),mapped.spans t⟩
    · simpa only [check,accepts,place,if_neg inside] using fails

theorem sbrk {n : Int} (free : s.lock = none) (word : ∃ r ∈ s.spans t, r.size = 4)
    (guard : CallsApart s (.sbrk t n)) : Mapped (s.growproc t n) := by
  obtain ⟨others,own⟩ := guard
  have user := mapped.size
  have floor : s.floor = s.sz := by rw [VmState.floor,free]
  have pages := mapped.pages
  rw [floor] at pages
  have begins (c : VmPc) (grows : c.growing = true) (active : c.idle = false) (level : c.level s.sz = s.sz)
      (stands : Stands {s with lock := some t, pc := update s.pc t c} c) :
      Mapped ({s with lock := some t}.goto t c) :=
    mapped.grows c (.inl free) (by simp [grows]) active rfl user (by rwa [level]) (fun u other => (others u other).1)
      (.inl (floor.trans level.symm).le) stands
  have stays := begins (.store s.sz) rfl rfl (Nat.min_self _) ⟨user,pages⟩
  unfold growproc resize
  by_cases up : 0 < n
  · simp only [if_pos up]
    by_cases big : kernbase ≤ uint (s.sz+n)
    · simpa only [if_pos big] using mapped
    · by_cases wraps : uint (s.sz+n) < s.sz
      · simpa only [if_neg big,if_pos wraps] using stays
      · simp only [if_neg big,if_neg wraps]
        exact begins _ rfl rfl rfl ⟨rfl,Nat.le_of_not_lt wraps,Nat.lt_of_not_le big,pgroundup_mod _,le_rfl,
          pages.pgroundup⟩
  · simp only [if_neg up]
    by_cases down : n < 0
    · simp only [if_pos down]
      by_cases same : s.sz ≤ uint (s.sz+n)
      · by_cases empty : s.sz = 0
        · simpa only [if_pos same,if_pos empty] using mapped
        · simpa only [if_pos same,if_neg empty] using stays
      · simp only [if_neg same]
        have less : uint (s.sz+n) ≤ s.sz := Nat.le_of_not_le same
        have level : VmPc.level s.sz (.shrink s.sz (uint (s.sz+n)) (pgroundup (uint (s.sz+n)))) = uint (s.sz+n) :=
          Nat.min_eq_left less
        -- the argument of the call itself keeps the new size above zero
        have positive : 0 < uint (s.sz+n) := by
          obtain ⟨r,member,four⟩ := word
          have below := own down r member
          rw [Nat.pos_iff_ne_zero]
          intro zero
          rw [zero] at below
          simp only [Span.below,pgroundup,pgsize] at below
          omega
        refine mapped.grows _ (.inl free) rfl rfl rfl user ?_ (fun u other => (others u other).1) (.inr ⟨?_,?_⟩)
          ⟨positive,less,le_rfl⟩
        · rw [level]
          exact pages.mono less
        · exact fun u other => (others u other).2 down
        · rw [level]
          exact own down
    · simpa only [if_neg down] using stays

theorem exec {sz : Nat} (alone : ∀ u, u ≠ t → (s.pc u).isGone = true) (free : s.lock = none)
    (user : sz < kernbase) (guard : ∀ r ∈ s.spans t, r.below sz) :
    Mapped ({s with pgdir := .image sz, sz := sz}.goto t .committed) := by
  have gone (u : T) (other : u ≠ t) : s.pc u = .gone := VmPc.isGone_eq (alone u other)
  refine mapped.grows .committed (.inl free) free rfl rfl user (Pgdir.image_covers sz) ?_ (.inr ⟨?_,guard⟩) trivial
  · intro u other
    rw [gone u other]
    rfl
  · intro u other
    refine ⟨mapped.idle u ?_,?_⟩
    · rw [gone u other]
      rfl
    · rw [gone u other]
      rfl

theorem step [Fintype T] {s' : VmState T} (a : VmAction T) (guard : CallsApart s a) (step : vmStep s a = some s') :
    s'.Mapped := by
  unfold vmStep at step
  split at step
  · contradiction
  cases a with
  | enter t =>
    simp only at step
    split at step
    next place =>
      cases step
      exact mapped.goes .call (by rw [place]; rfl) rfl rfl trivial
    next => contradiction
  | fetchint t addr =>
    simp only [Option.ite_none_right_eq_some,Option.some.injEq] at step
    obtain ⟨⟨call,_⟩,rfl⟩ := step
    have place := VmPc.isCall_eq call
    exact mapped.checked place (floor_apart (by rw [place]; rfl) guard) (by decide) rfl
  | argptr t addr size =>
    simp only [Option.ite_none_right_eq_some,Option.some.injEq] at step
    obtain ⟨⟨call,_,small⟩,rfl⟩ := step
    have place := VmPc.isCall_eq call
    exact mapped.checked place (floor_apart (by rw [place]; rfl) guard) small rfl
  | fetchstr t addr =>
    simp only [Option.ite_none_right_eq_some] at step
    obtain ⟨call,step⟩ := step
    have place := VmPc.isCall_eq call
    split at step
    · cases step
      exact mapped
    · cases step
      exact mapped.goes (.scan addr s.sz) (by rw [place]; rfl) rfl rfl (floor_apart (by rw [place]; rfl) guard).ge
  | scanned t length =>
    simp only at step
    split at step
    next place =>
      cases step
      exact mapped.scanned length place
    next => contradiction
  | sbrk t n =>
    simp only [Option.ite_none_right_eq_some,Option.some.injEq] at step
    obtain ⟨⟨_,free,word,_⟩,rfl⟩ := step
    exact mapped.sbrk free word guard
  | fork t =>
    simp only [Option.ite_none_right_eq_some,Option.some.injEq] at step
    obtain ⟨call,rfl⟩ := step
    have place := VmPc.isCall_eq call
    refine mapped.goes (.copy .empty s.sz 0) (by rw [place]; rfl) rfl rfl
      ⟨?_,rfl,rfl,fun k below => absurd below (Nat.not_lt_zero _)⟩
    -- nobody is in `growproc`, so the lock is free
    rw [Option.eq_none_iff_forall_ne_some]
    intro u held
    have grows := (mapped.holder u).mpr held
    by_cases here : u = t
    · rw [here,place] at grows
      contradiction
    · rw [guard u here] at grows
      contradiction
  | exec t size =>
    simp only [Option.ite_none_right_eq_some] at step
    obtain ⟨⟨_,alone,free,user⟩,step⟩ := step
    cases size with
    | none =>
      cases step
      exact mapped
    | some size =>
      cases step
      exact mapped.exec alone free user guard
  | run t memory => exact mapped.run_step step
  | ret t =>
    have returns (calm : (s.pc t).growing = false) : Mapped ((s.setSpans t []).goto t .user) :=
      mapped.moves .user [] calm rfl rfl nofun (fun _ => rfl) trivial
    simp only at step
    split at step
    next place =>
      cases step
      exact returns (by rw [place]; rfl)
    next place =>
      cases step
      exact returns (by rw [place]; rfl)
    next => contradiction
  | create t u =>
    simp only [Option.ite_none_right_eq_some,Option.some.injEq] at step
    obtain ⟨⟨_,gone⟩,rfl⟩ := step
    have place := VmPc.isGone_eq gone
    have none := mapped.idle u (by rw [place]; rfl)
    exact mapped.moves .user (s.spans u) (by rw [place]; rfl) rfl (by simp [goto]) (mapped.spans u) (fun _ => none)
      trivial
  | leave t =>
    have leaves (calm : (s.pc t).growing = false) : Mapped ((s.setSpans t []).goto t .gone) :=
      mapped.moves .gone [] calm rfl rfl nofun (fun _ => rfl) trivial
    simp only at step
    split at step
    next place =>
      cases step
      exact leaves (by rw [place]; rfl)
    next place =>
      cases step
      exact leaves (by rw [place]; rfl)
    next place =>
      cases step
      exact leaves (by rw [place]; rfl)
    next => contradiction

end Mapped

theorem Mapped.start [DecidableEq T] {a : AddrSpace} (t₀ : T) (user : a.sz < kernbase) (covers : a.pgdir.Covers a.sz) :
    (VmState.start a t₀).Mapped := by
  have quiet (t : T) : (VmState.start a t₀).pc t = .user ∨ (VmState.start a t₀).pc t = .gone := by
    simp only [VmState.start]
    split
    · exact .inl rfl
    · exact .inr rfl
  refine ⟨user,covers,nofun,fun _ _ => rfl,?_,?_,nofun,nofun,nofun⟩
  · intro t
    rcases quiet t with place | place <;> rw [place] <;> exact ⟨nofun,nofun⟩
  · intro t
    rcases quiet t with place | place <;> rw [place] <;> trivial

end VmState

section Run
variable {T : Type} [DecidableEq T] [Fintype T]

theorem mapped_reached {a : AddrSpace} {t₀ : T} {s : VmState T} (first : a.sz < kernbase ∧ a.pgdir.Covers a.sz)
    (run : VmReaches CallsApart a t₀ s) : s.Mapped :=
  run.invariant VmState.Mapped (.start t₀ first.1 first.2) (fun _ a _ mapped guard step => mapped.step a guard step)

theorem started_covers {a : AddrSpace} (started : Started T CallsApart a) : a.sz < kernbase ∧ a.pgdir.Covers a.sz := by
  induction started with
  | init => exact ⟨by decide,Pgdir.image_covers pgsize⟩
  | child a c t₀ s _ run member held => exact (mapped_reached held run).children c member

/-- While no sibling disturbs a call, what it relies on is there until it returns, and so is what `copyuvm`
looks at, in every process. -/
theorem user_memory_stays_mapped (a : AddrSpace) (started : Started T CallsApart a) (t₀ : T) (s : VmState T)
    (run : VmReaches CallsApart a t₀ s) :
    (∀ t, ∀ r ∈ s.spans t, ∀ x, r.lo ≤ x → x < r.lo+r.size → s.pgdir.mapped (x/pgsize) = true) ∧
    s.panicked ≠ some .pteShouldExist ∧ s.panicked ≠ some .pageNotPresent := by
  have mapped := mapped_reached (started_covers started) run
  exact ⟨fun t r member x lower upper => mapped.pages _ (Span.below_page (mapped.spans t r member) lower upper),
    mapped.safe⟩

end Run

def callSbrk {T : Type} (t : T) (n : Int) (rounds : Nat) : List (VmAction T) :=
  [.enter t,.fetchint t 8,.sbrk t n] ++ List.replicate rounds (.run t true)

/-- The process has grown, shrunk and forked; a thread relies on a buffer while its sibling makes it grow. -/
theorem user_memory_stays_mapped_sbrk : ∃ s : VmState Bool,
    VmReaches CallsApart ⟨.image pgsize,pgsize⟩ true s ∧ ⟨5000,100⟩ ∈ s.spans false ∧ s.sz = 12288 ∧
    s.children.map (·.sz) = [8192] ∧ s.pgdir.mapped (5099/pgsize) = true := by
  obtain ⟨s,reached,member,size,children⟩ := Interleave.play_shows vmStep CallsApart
    (VmState.start ⟨.image pgsize,pgsize⟩ true)
    ([.enter true,.create true false,.ret true] ++ callSbrk true 8192 4 ++ [.ret true] ++ callSbrk true (-4096) 3 ++
      [.ret true,.enter false,.fork false] ++ List.replicate 4 (.run false true) ++
      [.argptr false 5000 100] ++ callSbrk true 4096 3)
    (fun s => ⟨5000,100⟩ ∈ s.spans false ∧ s.sz = 12288 ∧ s.children.map (·.sz) = [8192]) (by decide +kernel)
  exact ⟨s,reached,member,size,children,
    (user_memory_stays_mapped _ .init true s reached).1 false _ member 5099 (by simp) (by simp)⟩

/-- The first thread has made the process three pages long and created the second. -/
def threePages : List (VmAction Bool) := callSbrk true 8192 4 ++ [.create true false,.ret true]

/-- A sibling's `sbrk` takes away a buffer that `argptr` has accepted; the page that `copyuvm` looks at
next; or, by growing the process before `fork` stores the size of the child, makes the child rely on a page
that was not copied, which its own `fork` runs into. `exec` gives up its own arguments. -/
theorem user_memory_taken_away :
    (∃ s : VmState Bool, VmReaches (fun _ _ => True) ⟨.image pgsize,pgsize⟩ true s ∧
      ⟨8192,100⟩ ∈ s.spans true ∧ s.pgdir.mapped (8192/pgsize) = false) ∧
    (∃ s : VmState Bool, VmReaches (fun _ _ => True) ⟨.image pgsize,pgsize⟩ true s ∧
      s.panicked = some .pageNotPresent) ∧
    (∃ a, Started Bool (fun _ _ => True) a ∧ ∃ s : VmState Bool, VmReaches (fun _ _ => True) a true s ∧
      s.panicked = some .pageNotPresent) ∧
    ∃ s : VmState Bool, VmReaches (fun _ _ => True) ⟨.image pgsize,pgsize⟩ true s ∧
      ⟨12300,5⟩ ∈ s.spans true ∧ s.pgdir.mapped (12300/pgsize) = false := by
  refine ⟨?_,?_,?_,?_⟩
  · exact Interleave.play_shows _ _ _
      (threePages ++ [.enter true,.argptr true 8192 100] ++ callSbrk false (-8192) 4) _ (by decide +kernel)
  · exact Interleave.play_shows _ _ _
      (threePages ++ [.enter true,.fork true,.run true true] ++ callSbrk false (-8192) 4 ++ [.run true true]) _
      (by decide +kernel)
  · obtain ⟨s,reached,c,member,passed⟩ := Interleave.play_shows vmStep (fun _ _ => True)
      (VmState.start ⟨.image pgsize,pgsize⟩ true)
      (threePages ++ [.enter true,.fork true] ++ List.replicate 4 (.run true true) ++ callSbrk false 4096 3 ++
        [.run true true])
      (fun s => ∃ c ∈ s.children, (Interleave.play vmStep (fun _ _ => True) (VmState.start c true)
        ([.enter true,.fork true] ++ List.replicate 4 (.run true true))).any
        (fun s => decide (s.panicked = some .pageNotPresent)) = true) (by decide +kernel)
    exact ⟨c,.child _ c true s .init reached member,Interleave.play_shows _ _ _ _ _ passed⟩
  · exact Interleave.play_shows _ _ _
      (callSbrk true 12288 5 ++ [.fetchstr true 12300,.scanned true (some 4),.exec true (some 12288)]) _
      (by decide +kernel)

end Kthreads
