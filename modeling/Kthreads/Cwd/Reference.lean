import Kthreads.Cwd.Places
import Kthreads.Lib.Refs

/-! A current directory holds a reference, when no `iput` gives back the last reference to a directory
that a process still stands in. The references are those of current directories, of threads inside a
lookup and of open files; a thread that ends on its way leaves its references behind. -/
open Function

namespace Kthreads

section Places
variable {T P F : Type}

def CwdPc.holds : CwdPc T P F → Option InoIx
  | .walk e _ _ | .next e _ _ _ | .put e | .chdirRead e _ | .chdirDrop _ e _ | .chdirStore e _
  | .forkStore _ _ e _ => some e
  | _ => none

def CwdPc.found : CwdPc T P F → Option InoIx
  | .next _ e' _ _ => some e'
  | _ => none

def CwdPc.names : CwdPc T P F → Option (InoIx × Nat)
  | .walk e i _ | .next _ e i _ | .chdirRead e i | .chdirDrop _ e i | .chdirStore e i | .forkStore _ _ e i =>
    some (e,i)
  | _ => none

def CwdPc.leaves : CwdPc T P F → Bool
  | .exitStore => true
  | _ => false

theorem CwdPc.names_held {c : CwdPc T P F} {x : InoIx × Nat} (names : c.names = some x) :
    c.holds = some x.1 ∨ c.found = some x.1 := by
  cases c <;> first | contradiction | cases names
  all_goals first | exact .inl rfl | exact .inr rfl

theorem CwdPc.leaves_dropped {c : CwdPc T P F} (leaves : c.leaves = true) : c.dropped = true ∧ c.exits = true := by
  cases c <;> first | contradiction | exact ⟨rfl,rfl⟩

end Places

section Guard
variable {T P F : Type} (proc : T → P)

def CwdState.Live (s : CwdState T P F) (p : P) : Prop :=
  s.slot p = .used ∧ ∀ t, proc t = p → (s.pc t).leaves = false

def CwdAction.iput (s : CwdState T P F) : CwdAction T P F → Option (T × InoIx)
  | .run t _ =>
    match s.pc t with
    | .next e _ _ _ | .put e | .chdirDrop e _ _ | .exitDrop e => some (t,e)
    | _ => none
  | _ => none

def CwdAction.ends : CwdAction T P F → Option T
  | .die t => some t
  | _ => none

/-- `sys_chdir` keeps apart from its siblings, neither its own `iput` nor one between the drop and the store
takes the last reference to the old directory, and no thread ends there. -/
def Retained (s : CwdState T P F) (a : CwdAction T P F) : Prop :=
  CwdApart proc s a ∧
  (∀ x ∈ a.iput s, ∀ t, (s.pc t).dropped = true ∨ t = x.1 ∧ (s.pc t).moves = true → s.Live proc (proc t) →
    s.cwd (proc t) = some x.2 → 2 ≤ s.ref x.2) ∧
  ∀ t ∈ a.ends, (s.pc t).dropped = false

end Guard

/-- A process holds its directory, a thread up to two entries, an open file its inode. -/
abbrev CwdHolder (T P F : Type) := (P ⊕ T × Bool) ⊕ F

namespace CwdState
variable {T P F : Type} (proc : T → P) (s : CwdState T P F)

structure Held [Fintype T] [Fintype P] [Fintype F] (ptr : CwdHolder T P F → Option InoIx) : Prop where
  covers : Refs.Covers ptr s.ref
  first : ∀ t, ptr (.inl (.inr (t,false))) = (s.pc t).holds
  second : ∀ t, ptr (.inl (.inr (t,true))) = (s.pc t).found
  kept : ∀ k, ptr (.inr k) = s.file k
  counted : ∀ p, (∀ t, proc t = p → (s.pc t).dropped = false) → ptr (.inl (.inl p)) = s.cwd p
  uncounted : ∀ t, (s.pc t).dropped = true → ptr (.inl (.inl (proc t))) = none

structure Caches : Prop where
  names : ∀ t x, (s.pc t).names = some x → (s.entry x.1).inum = x.2
  home : ∀ p e, s.cwd p = some e → (∀ t, proc t = p → (s.pc t).leaves = false) →
    1 ≤ s.ref e ∧ (s.entry e).inum = s.setTo p

variable {proc s} {s' : CwdState T P F}

/-- What `iget` returns. An entry in use goes on caching its inode. -/
theorem iget_entry {inum : Nat} {e : InoIx} (found : s.iget inum = some (e,s')) :
    s'.ref = update s.ref e (s.ref e+1) ∧ (s'.entry e).inum = inum ∧
      ∀ x, 1 ≤ s.ref x → (s'.entry x).inum = (s.entry x).inum := by
  unfold iget at found
  split at found
  next y hit =>
    have cached := List.find?_some hit
    simp only [decide_eq_true_eq] at cached
    simp only [Option.some.injEq,Prod.mk.injEq] at found
    obtain ⟨rfl,rfl⟩ := found
    refine ⟨?_,by simp [setRef,cached.2],?_⟩
    · funext x
      by_cases here : x = y
      · subst here
        simp [setRef,ref]
      · simp [setRef,ref,here]
    · intro x _
      by_cases here : x = y
      · subst here
        simp [setRef]
      · simp [setRef,here]
  next =>
    split at found
    next y hit =>
      have free : s.ref y = 0 := by simpa using List.find?_some hit
      simp only [Option.some.injEq,Prod.mk.injEq] at found
      obtain ⟨rfl,rfl⟩ := found
      refine ⟨?_,by simp,?_⟩
      · funext x
        by_cases here : x = y
        · subst here
          simp [ref] at free ⊢
          omega
        · simp [ref,here]
      · intro x used
        have other : x ≠ y := by
          rintro rfl
          omega
        simp [other]
    next => contradiction

@[simp] theorem setRef_ref (e : InoIx) (n : Int) : (s.setRef e n).ref = update s.ref e n := by
  funext x
  by_cases here : x = e
  · subst here
    simp [setRef,ref]
  · simp [setRef,ref,here]

@[simp] theorem setRef_inum (e x : InoIx) (n : Int) : ((s.setRef e n).entry x).inum = (s.entry x).inum := by
  by_cases here : x = e
  · subst here
    simp [setRef]
  · simp [setRef,here]

variable [DecidableEq T]

section Held
variable [Fintype T] [Fintype P] [Fintype F] {ptr ptr' : CwdHolder T P F → Option InoIx}

theorem Held.goes (held : s.Held proc ptr) (t : T) (c : CwdPc T P F) (pcs : s'.pc = update s.pc t c)
    (cwd : s'.cwd = s.cwd) (before : (s.pc t).dropped = false) (after : c.dropped = false)
    (covers : Refs.Covers ptr' s'.ref) (dirs : ∀ p, ptr' (.inl (.inl p)) = ptr (.inl (.inl p)))
    (others : ∀ u b, u ≠ t → ptr' (.inl (.inr (u,b))) = ptr (.inl (.inr (u,b))))
    (first : ptr' (.inl (.inr (t,false))) = c.holds) (second : ptr' (.inl (.inr (t,true))) = c.found)
    (kept : ∀ k, ptr' (.inr k) = s'.file k) : s'.Held proc ptr' := by
  have here : s'.pc t = c := by rw [pcs,update_self]
  have there (u : T) (other : u ≠ t) : s'.pc u = s.pc u := by rw [pcs,update_of_ne other]
  have same (u : T) : (s'.pc u).dropped = (s.pc u).dropped := by
    by_cases this : u = t
    · rw [this,here,before,after]
    · rw [there u this]
  refine ⟨covers,?_,?_,kept,?_,?_⟩
  · intro u
    by_cases this : u = t
    · rw [this,here]
      exact first
    · rw [others u false this,there u this]
      exact held.first u
  · intro u
    by_cases this : u = t
    · rw [this,here]
      exact second
    · rw [others u true this,there u this]
      exact held.second u
  · intro p free
    rw [dirs,cwd]
    exact held.counted p fun u member => by rw [← same]; exact free u member
  · intro u dropped
    rw [same] at dropped
    rw [dirs]
    exact held.uncounted u dropped

theorem Held.goesOn (held : s.Held proc ptr) (t : T) (c : CwdPc T P F) (pcs : s'.pc = update s.pc t c)
    (ref : s'.ref = s.ref) (cwd : s'.cwd = s.cwd) (file : s'.file = s.file) (before : (s.pc t).dropped = false)
    (after : c.dropped = false) (first : (s.pc t).holds = c.holds) (second : (s.pc t).found = c.found) :
    s'.Held proc ptr :=
  held.goes t c pcs cwd before after (by rw [ref]; exact held.covers) (fun _ => rfl) (fun _ _ _ => rfl)
    ((held.first t).trans first) ((held.second t).trans second) (by rw [file]; exact held.kept)

variable [DecidableEq P] [DecidableEq F]

section
variable (held : s.Held proc ptr) (t : T) (c : CwdPc T P F) (e : InoIx) (pcs : s'.pc = update s.pc t c)
include held t c e pcs

theorem Held.takes (ref : s'.ref = update s.ref e (s.ref e+1))
    (cwd : s'.cwd = s.cwd) (file : s'.file = s.file) (before : (s.pc t).dropped = false) (after : c.dropped = false)
    (empty : (s.pc t).holds = none) (first : c.holds = some e) (second : (s.pc t).found = c.found) :
    s'.Held proc (update ptr (.inl (.inr (t,false))) (some e)) := by
  refine held.goes t c pcs cwd before after ?_ (by simp) ?_ (by simp [first]) ?_ ?_
  · rw [ref]
    exact held.covers.take _ e ((held.first t).trans empty)
  · intro u b other
    simp [other]
  · rw [update_of_ne (by simp),held.second,second]
  · intro k
    rw [update_of_ne (by simp),file,held.kept]

section
variable (ref : s'.ref = update s.ref e (s.ref e-1)) (cwd : s'.cwd = s.cwd) (file : s'.file = s.file)
include ref cwd file

theorem Held.drops (before : (s.pc t).dropped = false) (after : c.dropped = false)
    (has : (s.pc t).holds = some e) (first : c.holds = none) (second : (s.pc t).found = c.found) :
    s'.Held proc (update ptr (.inl (.inr (t,false))) none) := by
  refine held.goes t c pcs cwd before after ?_ (by simp) ?_ (by simp [first]) ?_ ?_
  · rw [ref]
    exact held.covers.drop _ e ((held.first t).trans has)
  · intro u b other
    simp [other]
  · rw [update_of_ne (by simp),held.second,second]
  · intro k
    rw [update_of_ne (by simp),file,held.kept]

theorem Held.leaves (stands : s.cwd (proc t) = some e)
    (free : ∀ u, proc u = proc t → (s.pc u).dropped = false) (after : c.dropped = true)
    (first : (s.pc t).holds = c.holds) (second : (s.pc t).found = c.found) :
    s'.Held proc (update ptr (.inl (.inl (proc t))) none) := by
  have here : s'.pc t = c := by rw [pcs,update_self]
  have there (u : T) (other : u ≠ t) : s'.pc u = s.pc u := by rw [pcs,update_of_ne other]
  refine ⟨?_,?_,?_,?_,?_,?_⟩
  · rw [ref]
    exact held.covers.drop _ e ((held.counted _ free).trans stands)
  · intro u
    rw [update_of_ne (by simp),held.first]
    by_cases this : u = t
    · rw [this,here,first]
    · rw [there u this]
  · intro u
    rw [update_of_ne (by simp),held.second]
    by_cases this : u = t
    · rw [this,here,second]
    · rw [there u this]
  · intro k
    rw [update_of_ne (by simp),file,held.kept]
  · intro p others
    have other : p ≠ proc t := by
      rintro rfl
      have dropped := others t rfl
      rw [here,after] at dropped
      contradiction
    rw [update_of_ne (by simpa using other),cwd]
    refine held.counted p fun u member => ?_
    rw [← there u (by rintro rfl; exact other member.symm)]
    exact others u member
  · intro u dropped
    by_cases same : proc u = proc t
    · rw [same,update_self]
    · rw [there u (by rintro rfl; exact same rfl)] at dropped
      rw [update_of_ne (by simpa using same)]
      exact held.uncounted u dropped

end

end

theorem Held.stores (held : s.Held proc ptr) (t : T) (c : CwdPc T P F) (p : P) (e : InoIx)
    (pcs : s'.pc = update s.pc t c) (ref : s'.ref = s.ref)
    (cwd : s'.cwd = update s.cwd p (some e)) (file : s'.file = s.file)
    (has : (s.pc t).holds = some e) (empty : ptr (.inl (.inl p)) = none)
    (others : ∀ u, u ≠ t → proc u = p → (s.pc u).dropped = false)
    (own : (s.pc t).dropped = false ∨ proc t = p) (after : c.dropped = false) (first : c.holds = none)
    (second : (s.pc t).found = c.found) :
    s'.Held proc (update (update ptr (.inl (.inr (t,false))) none) (.inl (.inl p)) (some e)) := by
  have here : s'.pc t = c := by rw [pcs,update_self]
  have there (u : T) (other : u ≠ t) : s'.pc u = s.pc u := by rw [pcs,update_of_ne other]
  refine ⟨?_,?_,?_,?_,?_,?_⟩
  · rw [ref]
    exact held.covers.move _ _ e ((held.first t).trans has) empty
  · intro u
    rw [update_of_ne (by simp)]
    by_cases this : u = t
    · rw [this,here,first,update_self]
    · rw [there u this,update_of_ne (by simpa using this),held.first]
  · intro u
    rw [update_of_ne (by simp),update_of_ne (by simp),held.second]
    by_cases this : u = t
    · rw [this,here,second]
    · rw [there u this]
  · intro k
    rw [update_of_ne (by simp),update_of_ne (by simp),file,held.kept]
  · intro q free
    rw [cwd]
    by_cases same : q = p
    · rw [same,update_self,update_self]
    · rw [update_of_ne (by simpa using same),update_of_ne (by simp),update_of_ne same]
      refine held.counted q fun u member => ?_
      by_cases this : u = t
      · subst this
        rcases own with quiet | mine
        · exact quiet
        · exact absurd (member.symm.trans mine) same
      · rw [← there u this]
        exact free u member
  · intro u dropped
    by_cases this : u = t
    · subst this
      rw [here,after] at dropped
      contradiction
    · rw [there u this] at dropped
      have other : proc u ≠ p := by
        intro member
        rw [others u this member] at dropped
        contradiction
      rw [update_of_ne (by simpa using other),update_of_ne (by simp)]
      exact held.uncounted u dropped

end Held

section Caches
variable [Fintype T] [Fintype P] [Fintype F] {ptr : CwdHolder T P F → Option InoIx}

omit [DecidableEq T] in
theorem Held.named (held : s.Held proc ptr) (t : T) (x : InoIx × Nat) (names : (s.pc t).names = some x) :
    1 ≤ s.ref x.1 := by
  rcases CwdPc.names_held names with holds | found
  · exact held.covers.pos _ _ ((held.first t).trans holds)
  · exact held.covers.pos _ _ ((held.second t).trans found)

theorem Caches.goes (caches : s.Caches proc) (held : s.Held proc ptr) (t : T) (c : CwdPc T P F)
    (pcs : s'.pc = update s.pc t c) (cwd : s'.cwd = s.cwd) (setTo : s'.setTo = s.setTo)
    (entries : ∀ e, 1 ≤ s.ref e → (s'.entry e).inum = (s.entry e).inum)
    (stays : ∀ p e, s.cwd p = some e → (∀ u, proc u = p → (s'.pc u).leaves = false) → 1 ≤ s.ref e → 1 ≤ s'.ref e)
    (before : (s.pc t).leaves = false) (names : ∀ x, c.names = some x → (s'.entry x.1).inum = x.2) :
    s'.Caches proc := by
  have here : s'.pc t = c := by rw [pcs,update_self]
  have there (u : T) (other : u ≠ t) : s'.pc u = s.pc u := by rw [pcs,update_of_ne other]
  refine ⟨?_,?_⟩
  · intro u x named
    by_cases this : u = t
    · rw [this,here] at named
      exact names x named
    · rw [there u this] at named
      rw [entries _ (held.named u x named)]
      exact caches.names u x named
  · intro p e stands free
    rw [cwd] at stands
    have old : ∀ u, proc u = p → (s.pc u).leaves = false := by
      intro u member
      by_cases this : u = t
      · rw [this]
        exact before
      · rw [← there u this]
        exact free u member
    obtain ⟨used,cached⟩ := caches.home p e stands old
    refine ⟨stays p e stands free used,?_⟩
    rw [entries e used,setTo]
    exact cached

theorem Caches.stores [DecidableEq P] (caches : s.Caches proc) (held : s.Held proc ptr) (t : T) (c : CwdPc T P F)
    (p : P) (e : InoIx) (i : Nat) (pcs : s'.pc = update s.pc t c)
    (cwd : s'.cwd = update s.cwd p (some e)) (setTo : s'.setTo = update s.setTo p i)
    (entry : s'.entry = s.entry) (named : (s.pc t).names = some (e,i)) (before : (s.pc t).leaves = false)
    (names : c.names = none) : s'.Caches proc := by
  have here : s'.pc t = c := by rw [pcs,update_self]
  have there (u : T) (other : u ≠ t) : s'.pc u = s.pc u := by rw [pcs,update_of_ne other]
  have ref : s'.ref = s.ref := by
    funext x
    rw [CwdState.ref,CwdState.ref,entry]
  refine ⟨?_,?_⟩
  · intro u x now
    by_cases this : u = t
    · rw [this,here,names] at now
      contradiction
    · rw [there u this] at now
      rw [entry]
      exact caches.names u x now
  · intro q x stands free
    rw [cwd] at stands
    rw [entry,setTo,ref]
    by_cases same : q = p
    · rw [same,update_self] at stands ⊢
      cases stands
      exact ⟨held.named t _ named,caches.names t _ named⟩
    · rw [update_of_ne same] at stands ⊢
      refine caches.home q x stands fun u member => ?_
      by_cases this : u = t
      · rw [this]
        exact before
      · rw [← there u this]
        exact free u member

end Caches

section Kept
variable [Fintype T] [Fintype P] [Fintype F]

def Kept (proc : T → P) (s : CwdState T P F) : Prop := (∃ ptr, s.Held proc ptr) ∧ s.Caches proc

omit [Fintype T] [Fintype P] [Fintype F] [DecidableEq T] in
theorem leaves_of_dropped {c : CwdPc T P F} (dropped : c.dropped = false) : c.leaves = false := by
  cases leaves : c.leaves with
  | false => rfl
  | true => rw [(CwdPc.leaves_dropped leaves).1] at dropped; contradiction

theorem Kept.goesOn (kept : s.Kept proc) {t : T} {c₀ c : CwdPc T P F} (place : s.pc t = c₀)
    (pcs : s'.pc = update s.pc t c := by rfl) (before : c₀.dropped = false := by rfl)
    (after : c.dropped = false := by rfl) (first : c₀.holds = c.holds := by rfl) (second : c₀.found = c.found := by rfl)
    (names : ∀ x, c.names = some x → c₀.names = some x := by
      first | exact fun _ named => named | exact fun _ named => absurd named (Option.not_mem_none _))
    (entry : s'.entry = s.entry := by rfl) (cwd : s'.cwd = s.cwd := by rfl) (setTo : s'.setTo = s.setTo := by rfl)
    (file : s'.file = s.file := by rfl) : s'.Kept proc := by
  subst place
  obtain ⟨⟨ptr,held⟩,caches⟩ := kept
  have ref : s'.ref = s.ref := by
    funext x
    rw [CwdState.ref,CwdState.ref,entry]
  refine ⟨⟨ptr,held.goesOn t c pcs ref cwd file before after first second⟩,?_⟩
  refine caches.goes held t c pcs cwd setTo (fun _ _ => by rw [entry]) ?_ (leaves_of_dropped before) ?_
  · intro p e _ _ used
    rw [ref]
    exact used
  · intro x named
    rw [entry]
    exact caches.names t x (names x named)

omit [DecidableEq T] in
theorem Kept.panics (kept : s.Kept proc) : {s with panicked := true}.Kept proc := by
  obtain ⟨⟨ptr,held⟩,caches⟩ := kept
  exact ⟨⟨ptr,held.covers,held.first,held.second,held.kept,held.counted,held.uncounted⟩,caches.names,caches.home⟩

variable [DecidableEq P] [DecidableEq F]

theorem Kept.takes (kept : s.Kept proc) {t : T} {c₀ : CwdPc T P F} (place : s.pc t = c₀) (c : CwdPc T P F)
    (e : InoIx) (i : Nat) (pcs : s'.pc = update s.pc t c) (ref : s'.ref = update s.ref e (s.ref e+1))
    (entries : ∀ x, 1 ≤ s.ref x → (s'.entry x).inum = (s.entry x).inum) (caching : (s'.entry e).inum = i)
    (cwd : s'.cwd = s.cwd := by rfl) (setTo : s'.setTo = s.setTo := by rfl) (file : s'.file = s.file := by rfl)
    (before : c₀.dropped = false := by rfl) (after : c.dropped = false := by rfl) (empty : c₀.holds = none := by rfl)
    (first : c.holds = some e := by rfl) (second : c₀.found = c.found := by rfl)
    (names : c.names = some (e,i) := by rfl) : s'.Kept proc := by
  subst place
  obtain ⟨⟨ptr,held⟩,caches⟩ := kept
  refine ⟨⟨_,held.takes t c e pcs ref cwd file before after empty first second⟩,?_⟩
  refine caches.goes held t c pcs cwd setTo entries ?_ (leaves_of_dropped before) ?_
  · intro p x _ _ used
    rw [ref]
    by_cases this : x = e
    · rw [this,update_self]
      rw [this] at used
      omega
    · rw [update_of_ne this]
      exact used
  · intro x named
    rw [names] at named
    cases named
    exact caching

omit [DecidableEq T] [DecidableEq P] [DecidableEq F] in
/-- An `iput` that the guard allows leaves a reference to every directory a process stands in. -/
theorem Held.outlasts {ptr : CwdHolder T P F → Option InoIx} (held : s'.Held proc ptr) (places : s'.Places proc)
    (e : InoIx) (ref : s'.ref = update s.ref e (s.ref e-1))
    (guard : ∀ p, s'.Live proc p → s.cwd p = some e → 2 ≤ s.ref e)
    (p : P) (x : InoIx) (stands : s'.cwd p = some x) (same : s'.cwd = s.cwd)
    (free : ∀ u, proc u = p → (s'.pc u).leaves = false) (used : 1 ≤ s.ref x) : 1 ≤ s'.ref x := by
  by_cases live : s'.slot p = .used
  · rw [ref]
    by_cases this : x = e
    · subst this
      have two := guard p ⟨live,free⟩ (by rw [← same]; exact stands)
      rw [update_self]
      omega
    · rw [update_of_ne this]
      exact used
  · -- a process that is not running yet has dropped nothing
    refine held.covers.pos (.inl (.inl p)) x ?_
    rw [← stands]
    refine held.counted p fun u member => ?_
    rw [(places.idle p live).1 u member]
    rfl

omit [Fintype T] [Fintype P] [Fintype F] [DecidableEq P] [DecidableEq F] in
theorem guard_live (t : T) (c : CwdPc T P F) (e : InoIx) (pcs : s'.pc = update s.pc t c)
    (slot : s'.slot = s.slot) (before : (s.pc t).leaves = false)
    (exits : (s.pc t).exits = true → c.leaves = true)
    (guard : ∀ p, s.Live proc p → s.cwd p = some e → 2 ≤ s.ref e ∨ p = proc t ∧ (s.pc t).exits = true)
    (p : P) (live : s'.Live proc p) (stands : s.cwd p = some e) : 2 ≤ s.ref e := by
  have old : s.Live proc p := by
    refine ⟨by rw [← slot]; exact live.1,?_⟩
    intro u member
    by_cases this : u = t
    · rw [this]
      exact before
    · have now := live.2 u member
      rwa [pcs,update_of_ne this] at now
  rcases guard p old stands with two | ⟨rfl,own⟩
  · exact two
  · have now := live.2 t rfl
    rw [pcs,update_self,exits own] at now
    contradiction

omit [DecidableEq P] [DecidableEq F] in
theorem Kept.puts (kept : s.Kept proc) {t : T} {c₀ : CwdPc T P F} (place : s.pc t = c₀) (c : CwdPc T P F) (e : InoIx)
    (after : ((s.iput e).goto t c).Places proc)
    (guard : ∀ p, s.Live proc p → s.cwd p = some e → 2 ≤ s.ref e ∨ p = proc t ∧ (s.pc t).exits = true)
    (counts : ∀ ptr, s.Held proc ptr → ∃ ptr', ((s.iput e).goto t c).Held proc ptr')
    (before : c₀.leaves = false := by rfl)
    (exits : c₀.exits = true → c.leaves = true := by
      first | exact fun _ => rfl | exact fun out => absurd out Bool.false_ne_true)
    (names : ∀ x, c.names = some x → c₀.names = some x := by
      first | exact fun _ named => named | exact fun _ named => absurd named (Option.not_mem_none _)) :
    ((s.iput e).goto t c).Kept proc := by
  subst place
  have ref : ((s.iput e).goto t c).ref = update s.ref e (s.ref e-1) := setRef_ref ..
  have entries (x : InoIx) : (((s.iput e).goto t c).entry x).inum = (s.entry x).inum := setRef_inum ..
  obtain ⟨⟨ptr,held⟩,caches⟩ := kept
  obtain ⟨ptr',held'⟩ := counts ptr held
  refine ⟨⟨ptr',held'⟩,caches.goes held t c rfl rfl rfl (fun x _ => entries x) ?_ before ?_⟩
  · intro p x stands free used
    exact held'.outlasts after e ref (guard_live t c e rfl rfl before exits guard) p x stands rfl free used
  · intro x named
    rw [entries]
    exact caches.names t x (names x named)

theorem Kept.finds (kept : s.Kept proc) (t : T) (e : InoIx) (i : Nat) (use : LookupUse F) (inum : Nat)
    (place : s.pc t = .walk e i use) : (s.igetThen t inum (.next e · inum use)).Kept proc := by
  unfold CwdState.igetThen
  split
  next y m found =>
    obtain ⟨⟨ptr,held⟩,caches⟩ := kept
    obtain ⟨pc,cwd,-,setTo,file⟩ := iget_rest found
    obtain ⟨ref,cached,entries⟩ := iget_entry found
    have pcs : (m.goto t (.next e y inum use)).pc = update s.pc t (.next e y inum use) := by
      rw [goto_pc,pc]
    refine ⟨⟨update ptr (.inl (.inr (t,true))) (some y),?_⟩,?_⟩
    · refine held.goes t (.next e y inum use) pcs cwd (by rw [place]; rfl) rfl ?_ (by simp) ?_ ?_ (by simp [CwdPc.found]) ?_
      · rw [show (m.goto t (.next e y inum use)).ref = m.ref from rfl,ref]
        exact held.covers.take _ y ((held.second t).trans (by rw [place]; rfl))
      · intro u b other
        simp [other]
      · rw [update_of_ne (by simp),held.first,place]
        rfl
      · intro k
        rw [update_of_ne (by simp),held.kept]
        exact (congrFun file k).symm
    · refine caches.goes held t _ pcs cwd setTo entries ?_ (by rw [place]; rfl) ?_
      · intro p x _ _ used
        rw [show (m.goto t (.next e y inum use)).ref = m.ref from rfl,ref]
        by_cases this : x = y
        · rw [this,update_self]
          rw [this] at used
          omega
        · rw [update_of_ne this]
          exact used
      · rintro x ⟨⟩
        exact cached
  next => exact kept.panics

theorem Kept.enter (kept : s.Kept proc) (t : T) (call : CwdCall T P F) (user : s.pc t = .user)
    (step : s.enter proc t call = some s') : s'.Kept proc := by
  have calm : (s.pc t).dropped = false := by rw [user]; rfl
  have empty : (s.pc t).holds = none ∧ (s.pc t).found = none := by rw [user]; exact ⟨rfl,rfl⟩
  cases call with
  | lookup absolute use =>
    simp only [CwdState.enter] at step
    split at step
    · cases step
      unfold CwdState.igetThen
      split
      next y m found =>
        obtain ⟨pc,cwd,-,setTo,file⟩ := iget_rest found
        obtain ⟨ref,cached,entries⟩ := iget_entry found
        exact kept.takes user (.walk y rootIno use) y rootIno (by rw [goto_pc,pc]) ref entries cached cwd setTo file
      next => exact kept.panics
    · cases step
      exact kept.goesOn user
  | close k =>
    simp only [CwdState.enter] at step
    split at step
    · contradiction
    next e stored =>
      cases step
      obtain ⟨⟨ptr,held⟩,caches⟩ := kept
      refine ⟨⟨update (update ptr (.inr k) none) (.inl (.inr (t,false))) (some e),?_⟩,?_⟩
      · refine held.goes t (.put e) rfl rfl calm rfl ?_ (by simp) ?_ (by simp [CwdPc.holds]) ?_ ?_
        · exact held.covers.move _ _ e ((held.kept k).trans stored) ((held.first t).trans empty.1)
        · intro u b other
          simp [other]
        · rw [update_of_ne (by simp),update_of_ne (by simp),held.second,empty.2]
          rfl
        · intro j
          rw [update_of_ne (by simp)]
          by_cases this : j = k
          · simp [this,goto]
          · simp [this,goto,held.kept]
      · exact caches.goes held t (.put e) rfl rfl rfl (fun _ _ => rfl) (fun _ _ _ _ used => used) (by rw [user]; rfl)
          (fun _ named => by contradiction)
  | fork np nt =>
    simp only [CwdState.enter] at step
    split at step
    · cases step
      exact kept.goesOn user
    · contradiction
  | exit =>
    simp only [CwdState.enter] at step
    split at step
    · cases step
      exact kept.goesOn user
    · contradiction
  | create u =>
    simp only [CwdState.enter] at step
    split at step
    next free =>
      cases step
      exact kept.goesOn (CwdPc.isGone_eq free.2)
    · contradiction

omit [DecidableEq F] in
theorem Kept.ends (kept : s.Kept proc) (t : T) (place : s.pc t = .exitStore) :
    ({s with
      cwd := update s.cwd (proc t) none
      slot := update s.slot (proc t) .unused}.goto t .gone).Kept proc := by
  obtain ⟨⟨ptr,held⟩,caches⟩ := kept
  have empty := held.uncounted t (by rw [place]; rfl)
  refine ⟨⟨ptr,held.covers,?_,?_,held.kept,?_,?_⟩,?_,?_⟩
  · intro u
    by_cases this : u = t
    · rw [this,held.first,goto_pc,update_self,place]
      rfl
    · rw [held.first,goto_pc,update_of_ne this]
  · intro u
    by_cases this : u = t
    · rw [this,held.second,goto_pc,update_self,place]
      rfl
    · rw [held.second,goto_pc,update_of_ne this]
  · intro p free
    rw [goto_cwd]
    by_cases here : p = proc t
    · subst here
      rw [empty]
      simp
    · refine (held.counted p fun u member => ?_).trans (update_of_ne here ..).symm
      have other : u ≠ t := by
        rintro rfl
        exact here member.symm
      have now := free u member
      rwa [goto_pc,update_of_ne other] at now
  · intro u dropped
    by_cases this : u = t
    · rw [this]
      exact empty
    · rw [goto_pc,update_of_ne this] at dropped
      exact held.uncounted u dropped
  · intro u x named
    by_cases this : u = t
    · rw [this,goto_pc,update_self] at named
      contradiction
    · rw [goto_pc,update_of_ne this] at named
      exact caches.names u x named
  · intro p e stands free
    have other : p ≠ proc t := by
      rintro rfl
      simp at stands
    refine caches.home p e ((update_of_ne other ..).symm.trans stands) fun u member => ?_
    have away : u ≠ t := by
      rintro rfl
      exact other member.symm
    have now := free u member
    rwa [goto_pc,update_of_ne away] at now

omit [Fintype T] [Fintype P] [Fintype F] [DecidableEq T] [DecidableEq P] [DecidableEq F] in
/-- While `t` is about to drop the directory of its process, no sibling has done so. -/
theorem Places.undropped (places : s.Places proc) (t : T) (own : (s.pc t).dropped = false)
    (busy : (s.pc t).moves = true ∨ (s.pc t).exits = true) (u : T) (sibling : proc u = proc t) :
    (s.pc u).dropped = false := by
  by_cases this : u = t
  · rw [this]
    exact own
  · cases dropped : (s.pc u).dropped with
    | false => rfl
    | true =>
      rcases busy with moves | exits
      · have quiet := places.apart t u (Ne.symm this) sibling.symm moves
        have stays := places.stays (CwdPc.moves_looks moves).2.1 u this sibling
        rcases CwdPc.dropped_moves dropped with also | also
        · rw [(CwdPc.moves_looks also).1] at quiet
          contradiction
        · rw [also] at stays
          contradiction
      · rw [places.exits t exits u this sibling] at dropped
        contradiction

omit [DecidableEq P] [DecidableEq F] in
theorem Held.walks {ptr : CwdHolder T P F → Option InoIx} [DecidableEq P] [DecidableEq F] (held : s.Held proc ptr)
    (t : T) (e e' : InoIx) (i' : Nat) (use : LookupUse F) (place : s.pc t = .next e e' i' use) :
    ((s.iput e).goto t (.walk e' i' use)).Held proc (update (update
      (update ptr (.inl (.inr (t,false))) none) (.inl (.inr (t,true))) none) (.inl (.inr (t,false)))
      (some e')) := by
  have dropped := held.covers.drop (.inl (.inr (t,false))) e ((held.first t).trans (by rw [place]; rfl))
  have moved := dropped.move (.inl (.inr (t,true))) (.inl (.inr (t,false))) e'
    (by rw [update_of_ne (by simp),held.second,place]; rfl) (update_self ..)
  refine held.goes t (.walk e' i' use) rfl rfl (by rw [place]; rfl) rfl ?_ (by simp) ?_ (by simp [CwdPc.holds])
    (by simp [CwdPc.found]) ?_
  · rw [show ((s.iput e).goto t (.walk e' i' use)).ref = (s.setRef e (s.ref e-1)).ref from rfl,setRef_ref]
    exact moved
  · intro u b other
    simp [other]
  · intro k
    rw [update_of_ne (by simp),update_of_ne (by simp),update_of_ne (by simp)]
    exact held.kept k

omit [DecidableEq T] [DecidableEq F] in
/-- Outside `sys_chdir` the process and whoever calls `iput` have a reference each. -/
theorem Kept.shared (kept : s.Kept proc) (places : s.Places proc) (t : T) (outcome : LookupStep)
    (guard : Retained proc s (.run t outcome)) (x : T × InoIx)
    (puts : x ∈ (CwdAction.run t outcome : CwdAction T P F).iput s) (p : P) (live : s.Live proc p)
    (stands : s.cwd p = some x.2) : 2 ≤ s.ref x.2 ∨ p = proc x.1 ∧ (s.pc x.1).exits = true := by
  obtain ⟨⟨ptr,held⟩,-⟩ := kept
  by_cases inside : ∃ u, proc u = p ∧ (s.pc u).dropped = true
  · obtain ⟨u,rfl,dropped⟩ := inside
    exact .inl (guard.2.1 x puts u (.inl dropped) live stands)
  have mine : ptr (.inl (.inl p)) = some x.2 := by
    rw [held.counted p fun u member => Bool.eq_false_of_not_eq_true fun dropped => inside ⟨u,member,dropped⟩]
    exact stands
  -- the reference of the old directory that `sys_chdir` and `exit` give back is that of their own process
  have other (e : InoIx) (reads : (s.pc t).reads = some e) (own : (s.pc t).dropped = false)
      (busy : (s.pc t).moves = true ∨ (s.pc t).exits = true) (here : e = x.2) (apart : p ≠ proc t) : 2 ≤ s.ref x.2 := by
    refine held.covers.pair _ (.inl (.inl (proc t))) _ (by simpa using apart) mine ?_
    rw [held.counted _ (places.undropped t own busy),places.knows t e reads,here]
  have single (e : InoIx) (holds : (s.pc t).holds = some e) (here : e = x.2) : 2 ≤ s.ref x.2 :=
    held.covers.pair _ (.inl (.inr (t,false))) _ (by simp) mine (by rw [held.first,holds,here])
  simp only [CwdAction.iput] at puts
  have window := guard.2.1 x
  split at puts <;> first | contradiction | cases puts
  next place => exact .inl (single _ (by rw [place]; rfl) rfl)
  next place => exact .inl (single _ (by rw [place]; rfl) rfl)
  next place =>
    by_cases own : p = proc t
    · subst own
      exact .inl (window (by simp [CwdAction.iput,place]) t (.inr ⟨rfl,by rw [place]; rfl⟩) live stands)
    · exact .inl (other _ (by rw [place]; rfl) (by rw [place]; rfl) (.inl (by rw [place]; rfl)) rfl own)
  next place =>
    by_cases own : p = proc t
    · exact .inr ⟨own,by rw [place]; rfl⟩
    · exact .inl (other _ (by rw [place]; rfl) (by rw [place]; rfl) (.inr (by rw [place]; rfl)) rfl own)

theorem Kept.code (kept : s.Kept proc) (places : s.Places proc) (after : s'.Places proc) (t : T)
    (outcome : LookupStep) (guard : Retained proc s (.run t outcome))
    (step : s.code proc t outcome = some s') : s'.Kept proc := by
  have lasts := kept.shared places t outcome guard
  simp only [CwdAction.iput] at lasts
  simp only [CwdState.code] at step
  cases place : s.pc t with
  | gone | user => simp [place] at step
  | cwdRead use | forkRead np nt | exitRead =>
    rw [place] at step
    obtain ⟨e,cwd,rfl⟩ := Option.map_eq_some_iff.mp step
    exact kept.goesOn place
  | cwdDup e use | forkDup np nt e =>
    rw [place] at step
    cases step
    exact kept.takes place _ e (s.entry e).inum rfl (setRef_ref ..) (fun x _ => setRef_inum ..) (setRef_inum ..)
  | walk e i use =>
    rw [place] at step
    cases outcome with
    | fail =>
      cases step
      exact kept.goesOn place
    | next inum =>
      cases step
      exact kept.finds t e i use inum place
    | done =>
      cases use with
      | chdir | visit =>
        cases step
        exact kept.goesOn place
      | «open» k =>
        simp only at step
        split at step
        next free =>
          cases step
          obtain ⟨⟨ptr,held⟩,caches⟩ := kept
          have holds : ptr (.inl (.inr (t,false))) = some e := by rw [held.first t,place]; rfl
          refine ⟨⟨update (update ptr (.inl (.inr (t,false))) none) (.inr k) (some e),?_⟩,?_⟩
          · refine held.goes t .user rfl rfl (by rw [place]; rfl) rfl ?_ (by simp) ?_ (by simp [CwdPc.holds]) ?_ ?_
            · exact held.covers.move _ _ e holds ((held.kept k).trans free)
            · intro u b other
              simp [other]
            · rw [update_of_ne (by simp),update_of_ne (by simp),held.second,place]
              rfl
            · intro j
              by_cases this : j = k
              · simp [this,goto]
              · simp [this,goto,held.kept]
          · exact caches.goes held t .user rfl rfl rfl (fun _ _ => rfl) (fun _ _ _ _ used => used)
              (by rw [place]; rfl) (by simp [CwdPc.names])
        next => contradiction
  | next e e' i' use =>
    rw [place] at step lasts
    cases step
    refine kept.puts place (.walk e' i' use) e after (lasts (t,e) rfl) ?_
    intro ptr held
    exact ⟨_,held.walks t e e' i' use place⟩
  | put e =>
    rw [place] at step lasts
    cases step
    refine kept.puts place .user e after (lasts (t,e) rfl) ?_
    intro ptr held
    exact ⟨_,held.drops t .user e rfl (setRef_ref ..) rfl rfl (by rw [place]; rfl) rfl (by rw [place]; rfl) rfl
      (by rw [place]; rfl)⟩
  | chdirRead e i =>
    rw [place] at step
    have replace (read : (s.cwd (proc t)).map (fun old => s.goto t (.chdirDrop old e i)) = some s') :
        s'.Kept proc := by
      obtain ⟨old,cwd,rfl⟩ := Option.map_eq_some_iff.mp read
      exact kept.goesOn place
    cases outcome with
    | fail =>
      cases step
      exact kept.goesOn place
    | next inum => exact replace step
    | done => exact replace step
  | chdirDrop old e i =>
    have stands := places.knows t old (by rw [place]; rfl)
    have free := places.undropped t (by rw [place]; rfl) (.inl (by rw [place]; rfl))
    rw [place] at step lasts
    cases step
    refine kept.puts place (.chdirStore e i) old after (lasts (t,old) rfl) ?_
    intro ptr held
    exact ⟨_,held.leaves t (.chdirStore e i) old rfl (setRef_ref ..) rfl rfl stands free rfl (by rw [place]; rfl)
      (by rw [place]; rfl)⟩
  | chdirStore e i =>
    have alive : (s.pc t).isGone = false := by rw [place]; rfl
    have moves : (s.pc t).moves = true := by rw [place]; rfl
    obtain ⟨⟨ptr,held⟩,caches⟩ := kept
    rw [place] at step
    cases step
    refine ⟨⟨_,held.stores t .user (proc t) e rfl rfl rfl rfl (by rw [place]; rfl) ?_ ?_ (.inr rfl) rfl rfl
      (by rw [place]; rfl)⟩,?_⟩
    · exact held.uncounted t (by rw [place]; rfl)
    · intro u other sibling
      cases dropped : (s.pc u).dropped with
      | false => rfl
      | true =>
        rcases CwdPc.dropped_moves dropped with also | also
        · have quiet := places.apart t u (Ne.symm other) sibling.symm moves
          rw [(CwdPc.moves_looks also).1] at quiet
          contradiction
        · rw [places.stays alive u other sibling] at also
          contradiction
    · exact caches.stores held t .user (proc t) e i rfl rfl rfl rfl (by rw [place]; rfl) (by rw [place]; rfl) rfl
  | forkStore np nt e i =>
    have child := places.forks t (np,nt,false) (by rw [place]; rfl)
    have gone := (places.idle np (by rw [child.slot]; simp)).1
    obtain ⟨⟨ptr,held⟩,caches⟩ := kept
    rw [place] at step
    cases step
    refine ⟨⟨_,held.stores t (.forkEnd np nt) np e rfl rfl rfl rfl (by rw [place]; rfl) ?_ ?_ (.inl (by rw [place]; rfl))
      rfl rfl (by rw [place]; rfl)⟩,?_⟩
    · rw [held.counted np fun u member => by rw [gone u member]; rfl]
      exact Option.isNone_iff_eq_none.mp (by simpa using child.cwd)
    · intro u _ member
      rw [gone u member]
      rfl
    · exact caches.stores held t (.forkEnd np nt) np e i rfl rfl rfl rfl (by rw [place]; rfl) (by rw [place]; rfl) rfl
  | forkEnd np nt =>
    have child := places.forks t (np,nt,true) (by rw [place]; rfl)
    have gone := (places.idle np (by rw [child.slot]; simp)).1 nt child.thread
    rw [place] at step
    cases step
    have back : ({s with slot := update s.slot np .used}.goto t .user).Kept proc := kept.goesOn place
    have other : nt ≠ t := by
      rintro rfl
      rw [place] at gone
      contradiction
    have there : ({s with slot := update s.slot np .used}.goto t .user).pc nt = .gone := by
      rw [goto_pc,update_of_ne other]
      exact gone
    exact back.goesOn there
  | exitDrop e =>
    have stands := places.knows t e (by rw [place]; rfl)
    have free := places.undropped t (by rw [place]; rfl) (.inr (by rw [place]; rfl))
    rw [place] at step lasts
    cases step
    refine kept.puts place .exitStore e after (lasts (t,e) rfl) ?_
    intro ptr held
    exact ⟨_,held.leaves t .exitStore e rfl (setRef_ref ..) rfl rfl stands free rfl (by rw [place]; rfl)
      (by rw [place]; rfl)⟩
  | exitStore =>
    rw [place] at step
    cases step
    exact kept.ends t place

theorem Kept.die (kept : s.Kept proc) (t : T) (safe : (s.pc t).dropped = false) (step : s.die t = some s') :
    s'.Kept proc := by
  have fate : s' = s.goto t .gone := by
    unfold CwdState.die at step
    cases place : s.pc t <;> simp [place] at step
    all_goals exact step.symm
  obtain ⟨⟨ptr,held⟩,caches⟩ := kept
  subst fate
  refine ⟨⟨update (update ptr (.inl (.inr (t,false))) none) (.inl (.inr (t,true))) none,?_⟩,?_⟩
  · refine held.goes t .gone rfl rfl safe rfl ((held.covers.forget _).forget _) (by simp) ?_ (by simp [CwdPc.holds])
      (by simp [CwdPc.found]) ?_
    · intro u b other
      simp [other]
    · intro k
      rw [update_of_ne (by simp),update_of_ne (by simp)]
      exact held.kept k
  · exact caches.goes held t .gone rfl rfl rfl (fun _ _ => rfl) (fun _ _ _ _ used => used) (leaves_of_dropped safe)
      (fun _ named => by contradiction)

theorem Kept.step (kept : s.Kept proc) (places : s.Places proc) (a : CwdAction T P F) (guard : Retained proc s a)
    (step : cwdStep proc s a = some s') : s'.Kept proc := by
  have after := places.step a guard.1 step
  unfold cwdStep at step
  split at step
  · contradiction
  cases a with
  | start t call =>
    simp only at step
    split at step
    next user => exact kept.enter t call user step
    next => contradiction
  | run t outcome => exact kept.code places after t outcome guard step
  | die t => exact kept.die t (guard.2.2 t rfl) step

theorem Kept.boot (t₀ : T) : (CwdState.boot proc t₀ : CwdState T P F).Kept proc := by
  have stand := boot_pc (F := F) proc t₀
  refine ⟨⟨update (fun _ => none) (.inl (.inl (proc t₀))) (some 0),?_⟩,?_⟩
  · refine ⟨?_,?_,?_,?_,?_,?_⟩
    · have empty : Refs.Covers (fun _ : CwdHolder T P F => (none : Option InoIx)) (fun _ => 0) := by
        intro e
        rw [Refs.count_none]
        rfl
      have ref : (CwdState.boot proc t₀ : CwdState T P F).ref = update (fun _ => 0) 0 (0+1) := by
        funext e
        by_cases here : e = 0
        · simp [CwdState.boot,CwdState.ref,here]
        · simp [CwdState.boot,CwdState.ref,here]
      rw [ref]
      exact empty.take _ 0 rfl
    · intro t
      rcases stand t with place | place <;> simp [place,CwdPc.holds]
    · intro t
      rcases stand t with place | place <;> simp [place,CwdPc.found]
    · intro k
      simp [CwdState.boot]
    · intro p _
      by_cases here : p = proc t₀
      · simp [CwdState.boot,here]
      · simp [CwdState.boot,here]
    · intro t dropped
      rcases stand t with place | place <;> simp [place,CwdPc.dropped] at dropped
  · refine ⟨?_,?_⟩
    · intro t x named
      rcases stand t with place | place <;> simp [place,CwdPc.names] at named
    · intro p e stands _
      by_cases here : p = proc t₀
      · simp only [CwdState.boot,if_pos here,Option.some.injEq] at stands
        subst stands
        simp [CwdState.boot,CwdState.ref]
      · simp [CwdState.boot,here] at stands

end Kept

end CwdState

section Run
variable {T P F : Type} [Fintype T] [Fintype P] [Fintype F] [DecidableEq T] [DecidableEq P] [DecidableEq F]

theorem cwd_holds_reference (proc : T → P) (t₀ : T) (s : CwdState T P F)
    (run : CwdReaches proc (Retained proc) t₀ s) :
    (∀ p, s.Live proc p → ∃ e, s.cwd p = some e ∧ 1 ≤ s.ref e ∧ (s.entry e).inum = s.setTo p) ∧
      ∀ e, 0 ≤ s.ref e := by
  have invariant : s.Places proc ∧ s.Kept proc := by
    refine run.invariant (fun s => s.Places proc ∧ s.Kept proc) ⟨.boot t₀,.boot t₀⟩ ?_
    rintro m a m' ⟨places,kept⟩ guard step
    exact ⟨places.step a guard.1 step,kept.step places a guard step⟩
  obtain ⟨places,⟨ptr,held⟩,caches⟩ := invariant
  refine ⟨?_,held.covers.nonneg⟩
  intro p live
  obtain ⟨e,stands⟩ := Option.isSome_iff_exists.mp (places.used p live.1)
  exact ⟨e,stands,caches.home p e stands live.2⟩

instance (proc : T → P) (s : CwdState T P F) (p : P) : Decidable (s.Live proc p) :=
  inferInstanceAs (Decidable (_ ∧ _))

instance (proc : T → P) (s : CwdState T P F) (a : CwdAction T P F) : Decidable (CwdApart proc s a) :=
  inferInstanceAs (Decidable (_ ∧ _))

instance (proc : T → P) (s : CwdState T P F) (a : CwdAction T P F) : Decidable (Retained proc s a) :=
  inferInstanceAs (Decidable (_ ∧ _ ∧ _))

end Run

def goThrough {T P F : Type} (t : T) (outcomes : List LookupStep) : List (CwdAction T P F) :=
  outcomes.map (.run t ·)

/-- `chdir` to a directory of the root, up to the drop of the old one. -/
def chdirDown {T P F : Type} (t : T) (inum : Nat) : List (CwdAction T P F) :=
  .start t (.lookup true .chdir) :: goThrough t [.next inum,.done,.done,.done]

/-- A process keeps the root open, goes to a directory and looks at it from another thread. -/
theorem cwd_holds_reference_open : ∃ s : CwdState Bool Unit Unit,
    CwdReaches (fun _ => ()) (Retained fun _ => ()) true s ∧ s.Live (fun _ => ()) () ∧ s.setTo () = 2 ∧
    ∃ e, s.cwd () = some e ∧ 1 ≤ s.ref e ∧ (s.entry e).inum = s.setTo () := by
  obtain ⟨s,reached,live,two⟩ := Interleave.play_shows (cwdStep fun _ => ()) (Retained fun _ => ())
    (CwdState.boot (fun _ => ()) true)
    (.start true (.create false) :: .start true (.lookup true (.open ())) :: goThrough true [.done] ++
      chdirDown true 2 ++ goThrough true [.done,.done] ++
      .start false (.lookup false .visit) :: goThrough false [.done,.done,.next 3,.done])
    (fun s => s.Live (fun _ => ()) () ∧ s.setTo () = 2) (by decide +kernel)
  exact ⟨s,reached,live,two,(cwd_holds_reference (fun _ => ()) true s reached).1 () live⟩

/-- Inside `sys_chdir` the old directory has no reference left; a lookup of a sibling then takes the
entry for another inode; and two `sys_chdir`s give one reference back twice. -/
theorem cwd_without_reference :
    (∃ s : CwdState Bool Unit Unit, CwdReaches (fun _ => ()) (fun _ _ => True) true s ∧
      s.Live (fun _ => ()) () ∧ s.cwd () = some 0 ∧ s.ref 0 = 0) ∧
    (∃ s : CwdState Bool Unit Unit, CwdReaches (fun _ => ()) (fun _ _ => True) true s ∧
      s.Live (fun _ => ()) () ∧ s.cwd () = some 1 ∧ s.setTo () = 2 ∧ (s.entry 1).inum = 5) ∧
    ∃ s : CwdState Bool Unit Unit, CwdReaches (fun _ => ()) (fun _ _ => True) true s ∧ s.ref 0 = -1 := by
  refine ⟨?_,?_,?_⟩
  · exact Interleave.play_shows _ _ _ (chdirDown true 2 ++ goThrough true [.done]) _ (by decide +kernel)
  · exact Interleave.play_shows _ _ _
      (.start true (.create false) :: .start true (.lookup true (.open ())) :: goThrough true [.done] ++
        chdirDown true 2 ++ goThrough true [.done,.done] ++ chdirDown true 3 ++ goThrough true [.done] ++
        .start false (.lookup true .visit) :: goThrough false [.next 5]) _ (by decide +kernel)
  · exact Interleave.play_shows _ _ _
      (.start true (.create false) :: chdirDown true 2 ++ chdirDown false 2 ++ goThrough true [.done] ++
        goThrough false [.done]) _ (by decide +kernel)

end Kthreads
