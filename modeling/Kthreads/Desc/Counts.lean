import Kthreads.Lib.Refs
import Kthreads.Desc.Tables

/-! The reference counts of the file table: `ref` counts the table entries that point to a file and
the references that threads hold on their way to or from a table. -/
open Function

namespace Kthreads
variable {f : FileIx} {fd : Fd}

abbrev FdHolder (T P : Type) := (P × Fd) ⊕ (T × Bool)

section Places
variable {T P : Type}

def FdUse.holds (f : FileIx) : FdUse → Option FileIx × Option FileIx
  | .open _ _ => (some f,none)
  | .dup _ => (none,none)
  | .pipeRead wf => (some f,some wf)
  | .pipeWrite _ _ => (none,some f)

def FdAfter.holds : FdAfter → Option FileIx
  | .fileclose g => some g
  | _ => none

def FdPc.holds : FdPc T P → Option FileIx × Option FileIx
  | .fdRead f _ use | .fdStore f _ use => use.holds f
  | .fileclose _ (.exitClear _) => (none,none)
  | .fileclose f after => (some f,after.holds)
  | .closing _ after => (none,after.holds)
  | .pipeSecond rf => (some rf,none)
  | .pipeKalloc rf wf => (some rf,some wf)
  | .pipeUndo _ _ wf => (none,some wf)
  | .forkStore _ _ _ f => (some f,none)
  | _ => (none,none)

variable {proc : T → P} {s : FdState T P} {t : T} {a : FdAction T P} {c₀ c : FdPc T P}

theorem FdMoves.holds (moves : FdMoves proc s t a c₀ c) : c.holds = c₀.holds := by
  rcases moves with ⟨⟨⟩⟩ <;> rfl

theorem FdMoves.uncounted (moves : FdMoves proc s t a c₀ c) : c.uncounted = c₀.uncounted := by
  rcases moves with ⟨⟨⟩⟩ <;> rfl

end Places

namespace FdState

def ref {T P : Type} (s : FdState T P) (f : FileIx) : Int := (s.file f).ref

variable {T P : Type} [Fintype T] [Fintype P]

structure Accounts (proc : T → P) (s : FdState T P) (ptr : FdHolder T P → Option FileIx) : Prop where
  counts : Refs.Counts ptr s.ref
  held : ∀ t, (ptr (.inr (t,false)),ptr (.inr (t,true))) = (s.pc t).holds
  entry : ∀ p fd, (∀ t, proc t = p → (s.pc t).uncounted ≠ some fd) → ptr (.inl (p,fd)) = s.ofile p fd
  uncounted : ∀ t fd, (s.pc t).uncounted = some fd → ptr (.inl (proc t,fd)) = none

variable {proc : T → P} {s s' : FdState T P} {ptr ptr' : FdHolder T P → Option FileIx}

section
variable (acc : s.Accounts proc ptr)
include acc

theorem Accounts.first (t : T) : ptr (.inr (t,false)) = (s.pc t).holds.1 := by
  rw [← acc.held t]

theorem Accounts.second (t : T) : ptr (.inr (t,true)) = (s.pc t).holds.2 := by
  rw [← acc.held t]

theorem Accounts.mine {t : T} {b : Bool} : ptr (.inr (t,b)) = if b then (s.pc t).holds.2 else (s.pc t).holds.1 := by
  cases b with
  | false => exact acc.first t
  | true => exact acc.second t

/-- An entry of a table in which only `t` works is counted, unless `t` is about to count it. -/
theorem Accounts.counted (t : T) (p : P) (fd : Fd) (free : s.Free proc t p)
    (mine : proc t = p → (s.pc t).uncounted ≠ some fd) : ptr (.inl (p,fd)) = s.ofile p fd := by
  refine acc.entry p fd ?_
  intro u member
  by_cases here : u = t
  · subst here
    exact mine member
  · rw [(free.quiet u here member).uncounted]
    exact nofun

end

variable [DecidableEq T]

theorem Accounts.keeps (acc : s.Accounts proc ptr) (t : T) (c : FdPc T P) (pcs : s'.pc = update s.pc t c)
    (ofile : s'.ofile = s.ofile) (counts : Refs.Counts ptr' s'.ref)
    (entries : ∀ x, ptr' (.inl x) = ptr (.inl x))
    (others : ∀ u, u ≠ t → ∀ b, ptr' (.inr (u,b)) = ptr (.inr (u,b)))
    (mine : (ptr' (.inr (t,false)),ptr' (.inr (t,true))) = c.holds)
    (uncounted : c.uncounted = (s.pc t).uncounted) : s'.Accounts proc ptr' := by
  have same (u : T) : (s'.pc u).uncounted = (s.pc u).uncounted := by
    by_cases here : u = t
    · rw [here,pcs,update_self,uncounted]
    · rw [pcs,update_of_ne here]
  refine ⟨counts,?_,?_,?_⟩
  · intro u
    by_cases here : u = t
    · rw [here,pcs,update_self,mine]
    · rw [pcs,update_of_ne here,others u here,others u here]
      exact acc.held u
  · intro p fd free
    rw [entries,ofile]
    exact acc.entry p fd (fun u member => by rw [← same u]; exact free u member)
  · intro u fd member
    rw [same u] at member
    rw [entries]
    exact acc.uncounted u fd member

theorem Accounts.stays (acc : s.Accounts proc ptr) {t : T} {c₀ c : FdPc T P} (place : s.pc t = c₀)
    (pcs : s'.pc = update s.pc t c := by rfl) (holds : c.holds = c₀.holds := by rfl)
    (uncounted : c.uncounted = c₀.uncounted := by rfl) (refs : s'.ref = s.ref := by rfl)
    (ofile : s'.ofile = s.ofile := by rfl) : s'.Accounts proc ptr := by
  subst place
  exact acc.keeps t c pcs ofile (by rw [refs]; exact acc.counts) (fun _ => rfl) (fun _ _ _ => rfl)
    (by rw [holds]; exact acc.held t) uncounted

variable [DecidableEq P]

theorem Accounts.changes (acc : s.Accounts proc ptr) (t : T) (c : FdPc T P) (p : P) (fd : Fd)
    (pcs : s'.pc = update s.pc t c) (free : s.Free proc t p) (counts : Refs.Counts ptr' s'.ref)
    (ofile : ∀ q fd', (q,fd') ≠ (p,fd) → s'.ofile q fd' = s.ofile q fd')
    (entries : ∀ x, x ≠ (p,fd) → ptr' (.inl x) = ptr (.inl x))
    (others : ∀ u, u ≠ t → ∀ b, ptr' (.inr (u,b)) = ptr (.inr (u,b)))
    (mine : (ptr' (.inr (t,false)),ptr' (.inr (t,true))) = c.holds)
    (before : ∀ fd' ∈ (s.pc t).uncounted, proc t = p ∧ fd' = fd)
    (after : ∀ fd' ∈ c.uncounted, proc t = p ∧ fd' = fd)
    (here : ptr' (.inl (p,fd)) = if c.uncounted = some fd then none else s'.ofile p fd) :
    s'.Accounts proc ptr' := by
  refine ⟨counts,?_,?_,?_⟩
  · intro u
    by_cases self : u = t
    · rw [self,pcs,update_self,mine]
    · rw [pcs,update_of_ne self,others u self,others u self]
      exact acc.held u
  · intro q fd' counted
    by_cases same : (q,fd') = (p,fd)
    · cases same
      rw [here]
      split
      next uncounted =>
        obtain ⟨member,_⟩ := after fd uncounted
        exact absurd (by rw [pcs,update_self]; exact uncounted) (counted t member)
      next => rfl
    · rw [entries _ same,ofile q fd' same]
      refine acc.entry q fd' ?_
      intro u member uncounted
      by_cases self : u = t
      · subst self
        obtain ⟨there,equal⟩ := before fd' uncounted
        exact same (by rw [← member,there,equal])
      · refine counted u member ?_
        rw [pcs,update_of_ne self]
        exact uncounted
  · intro u fd' uncounted
    by_cases self : u = t
    · subst self
      rw [pcs,update_self] at uncounted
      obtain ⟨there,equal⟩ := after fd' uncounted
      rw [there,equal,here,if_pos (by rw [← equal]; exact uncounted)]
    · rw [pcs,update_of_ne self] at uncounted
      have away : (proc u,fd') ≠ (p,fd) := by
        intro same
        have quiet := (free.quiet u self (congrArg Prod.fst same)).uncounted
        rw [quiet] at uncounted
        contradiction
      rw [entries _ away]
      exact acc.uncounted u fd' uncounted

omit [Fintype T] [Fintype P] [DecidableEq T] [DecidableEq P] in
theorem setFile_ref (f : FileIx) (file : File) : (s.setFile f file).ref = update s.ref f file.ref := by
  funext g
  by_cases here : g = f
  · simp [ref,setFile,here]
  · simp [ref,setFile,here]

omit [Fintype T] [Fintype P] [DecidableEq T] [DecidableEq P] in
theorem setFile_same (f : FileIx) (file : File) (same : file.ref = s.ref f) : (s.setFile f file).ref = s.ref := by
  rw [setFile_ref,same,update_eq_self]

omit [Fintype T] [Fintype P] [DecidableEq T] in
theorem setEntry_away (p : P) (fd : Fd) (v : Option FileIx) (q : P) (fd' : Fd) (away : (q,fd') ≠ (p,fd)) :
    (s.setEntry p fd v).ofile q fd' = s.ofile q fd' := by
  by_cases here : q = p
  · subst here
    exact setEntry_other q fd fd' v (fun same => away (by rw [same]))
  · simp [setEntry,here]

section
variable (acc : s.Accounts proc ptr)
include acc

theorem Accounts.takes {t : T} {c₀ c : FdPc T P} (b : Bool)
    (place : s.pc t = c₀) (refs : s'.ref = update s.ref f (s.ref f+1))
    (pcs : s'.pc = update s.pc t c := by rfl) (ofile : s'.ofile = s.ofile := by rfl)
    (empty : (if b then c₀.holds.2 else c₀.holds.1) = none := by rfl)
    (holds : c.holds = if b then (c₀.holds.1,some f) else (some f,c₀.holds.2) := by rfl)
    (uncounted : c.uncounted = c₀.uncounted := by rfl) :
    s'.Accounts proc (update ptr (.inr (t,b)) (some f)) := by
  subst place
  rw [← acc.mine] at empty
  refine acc.keeps t c pcs ofile ?_ (by simp) (by simp +contextual) ?_ uncounted
  · rw [refs]
    exact acc.counts.take _ f empty
  · rw [holds]
    cases b with
    | false => simp [acc.second t]
    | true => simp [acc.first t]

theorem Accounts.drops {t : T} {c₀ c : FdPc T P} (place : s.pc t = c₀)
    (pcs : s'.pc = update s.pc t c) (ofile : s'.ofile = s.ofile)
    (refs : s'.ref = update s.ref f (s.ref f-1)) (held : c₀.holds.1 = some f)
    (holds : c.holds = (none,c₀.holds.2)) (uncounted : c.uncounted = c₀.uncounted) :
    s'.Accounts proc (update ptr (.inr (t,false)) none) := by
  subst place
  rw [← acc.first t] at held
  refine acc.keeps t c pcs ofile ?_ (by simp) (by simp +contextual) ?_ uncounted
  · rw [refs]
    exact acc.counts.drop _ f held
  · rw [holds]
    simp [acc.second t]

theorem Accounts.shifts {t : T} {c₀ c : FdPc T P} {g : FileIx} (place : s.pc t = c₀)
    (pcs : s'.pc = update s.pc t c) (before : c₀.holds = (none,some g)) (ofile : s'.ofile = s.ofile)
    (refs : s'.ref = s.ref) (holds : c.holds = (some g,none)) (uncounted : c.uncounted = c₀.uncounted) :
    s'.Accounts proc (update (update ptr (.inr (t,true)) none) (.inr (t,false)) (some g)) := by
  subst place
  have first := acc.first t
  have second := acc.second t
  rw [before] at first second
  refine acc.keeps t c pcs ofile ?_ (by simp) (by simp +contextual) ?_ uncounted
  · rw [refs]
    exact acc.counts.move _ _ g second first
  · rw [holds]
    simp

theorem Accounts.publishes {t : T} {c₀ c : FdPc T P} {p : P}
    (b : Bool) (place : s.pc t = c₀) (free : s.Free proc t p) (empty : s.ofile p fd = none)
    (held : (if b then c₀.holds.2 else c₀.holds.1) = some f := by rfl)
    (holds : c.holds = if b then (c₀.holds.1,none) else (none,c₀.holds.2) := by rfl)
    (before : c₀.uncounted = none := by rfl) (after : c.uncounted = none := by rfl) :
    ((s.setEntry p fd (some f)).goto t c).Accounts proc
      (update (update ptr (.inr (t,b)) none) (.inl (p,fd)) (some f)) := by
  subst place
  rw [← acc.mine] at held
  have unheld := acc.counted t p fd free (by simp [before])
  rw [empty] at unheld
  refine acc.changes t c p fd rfl free (acc.counts.move _ _ f held unheld) (setEntry_away p fd (some f)) ?_ ?_ ?_
    (by simp [before]) (by simp [after]) ?_
  · intro x away
    simp [away]
  · intro u other b'
    simp [other]
  · rw [holds]
    cases b with
    | false => simp [acc.second t]
    | true => simp [acc.first t]
  · rw [update_self,after,if_neg nofun]
    exact (setEntry_here p fd (some f)).symm

theorem Accounts.unpublishes (tables : s.Tables proc) {t : T} {c₀ c : FdPc T P}
    (place : s.pc t = c₀) (known : (fd,f) ∈ c₀.knows) (inside : c₀.inTable = true := by rfl)
    (idle : c₀.holds.1 = none := by rfl) (holds : c.holds = (some f,c₀.holds.2) := by rfl)
    (before : c₀.uncounted = none := by rfl) (after : c.uncounted = none := by rfl) :
    ((s.setEntry (proc t) fd none).goto t c).Accounts proc
      (update (update ptr (.inl (proc t,fd)) none) (.inr (t,false)) (some f)) := by
  subst place
  have free := tables.free_table inside
  have held := acc.counted t (proc t) fd free (by simp [before])
  rw [(tables.stands t).knows _ known] at held
  have empty := acc.first t
  rw [idle] at empty
  refine acc.changes t c (proc t) fd rfl free (acc.counts.move _ _ f held empty) (setEntry_away (proc t) fd none)
    ?_ ?_ ?_ (by simp [before]) (by simp [after]) ?_
  · intro x away
    simp [away]
  · intro u other b'
    simp [other]
  · rw [holds]
    simp [acc.second t]
  · rw [update_of_ne (by simp),update_self,after,if_neg nofun]
    exact (setEntry_here (proc t) fd none).symm

end

/-- The counts are exact, and neither `filedup` nor `fileclose` has found one below 1. -/
def Exact (proc : T → P) (s : FdState T P) : Prop :=
  (∃ ptr, s.Accounts proc ptr) ∧ s.panic ≠ some .filedup ∧ s.panic ≠ some .fileclose

omit [DecidableEq T] [DecidableEq P] in
theorem Exact.fine (acc : s.Accounts proc ptr) (panic : s.panic = none) : s.Exact proc :=
  ⟨⟨ptr,acc⟩,by rw [panic]; exact nofun,by rw [panic]; exact nofun⟩

omit [Fintype T] [Fintype P] [DecidableEq T] [DecidableEq P] in
theorem filealloc_ref (found : s.filealloc = some f) : s.ref f = 0 := by
  have free := List.find?_some found
  exact of_decide_eq_true free

omit [Fintype T] [Fintype P] [DecidableEq P] in
theorem filealloc_refs (found : s.filealloc = some f) (t : T) (c : FdPc T P) :
    ((s.setRef f 1).goto t c).ref = update s.ref f (s.ref f+1) := by
  rw [filealloc_ref found]
  exact setFile_ref f _

omit [DecidableEq P] in
theorem Exact.filedup (panic : s.panic = none) (t : T) (f : FileIx) (c : FdPc T P)
    (live : 1 ≤ s.ref f) (moved : ∀ s' : FdState T P, s'.pc = update s.pc t c → s'.ofile = s.ofile →
      s'.ref = update s.ref f (s.ref f+1) → ∃ ptr', s'.Accounts proc ptr') :
    (s.filedup t f c).Exact proc := by
  unfold FdState.filedup
  split
  next low =>
    unfold ref at live
    omega
  next =>
    obtain ⟨ptr',now⟩ := moved ((s.setRef f ((s.file f).ref+1)).goto t c) rfl rfl (setFile_ref f _)
    exact .fine now panic

section
variable (acc : s.Accounts proc ptr) (tables : s.Tables proc)
include acc tables

theorem Accounts.fdStore {t : T} {use : FdUse} (place : s.pc t = .fdStore f fd use) :
    ∃ ptr', ((s.setEntry (proc t) fd (some f)).goto t (use.done f fd)).Accounts proc ptr' := by
  have free := tables.free_table (t := t) (by rw [place]; rfl)
  have empty := (tables.stands t).finds fd (by rw [place]; rfl)
  cases use with
  | «open» ip omode | pipeRead wf => exact ⟨_,acc.publishes false place free empty rfl rfl rfl rfl⟩
  | pipeWrite rf fd0 => exact ⟨_,acc.publishes true place free empty rfl rfl rfl rfl⟩
  | dup old =>
    -- The entry is there, but `filedup` has not counted it yet.
    have counted : (s.pc t).uncounted = none := by rw [place]; rfl
    have unheld := acc.counted t (proc t) fd free (by simp [counted])
    rw [empty] at unheld
    refine ⟨ptr,acc.changes t _ (proc t) fd rfl free acc.counts (setEntry_away (proc t) fd (some f)) (fun _ _ => rfl)
      (fun _ _ _ => rfl) ?_ (by simp [counted]) ?_ ?_⟩
    · rw [acc.held t,place]
      rfl
    · intro fd' member
      cases member
      exact ⟨rfl,rfl⟩
    · rw [unheld]
      exact (if_pos rfl).symm

theorem Accounts.dupCount (panic : s.panic = none) {t : T}
    {old new : Fd} (place : s.pc t = .dupCount f old new) : (s.filedup t f .user).Exact proc := by
  have free := tables.free_table (t := t) (by rw [place]; rfl)
  have stands := tables.stands t
  rw [place] at stands
  have uncounted : (s.pc t).uncounted = some new := by rw [place]; rfl
  have entry : ptr (.inl (proc t,old)) = some f := by
    rw [acc.counted t (proc t) old free ?_]
    · exact stands.knows (old,f) (by simp [FdPc.knows])
    · intro _ same
      rw [uncounted] at same
      exact stands.distinct f old new rfl (Option.some.inj same).symm
  refine Exact.filedup panic t f .user (acc.counts.pos _ f entry) ?_
  intro s' pcs ofile refs
  refine ⟨update ptr (.inl (proc t,new)) (some f),acc.changes t .user (proc t) new pcs free ?_ ?_ ?_ ?_ ?_ ?_ none_all ?_⟩
  · rw [refs]
    exact acc.counts.take _ f (acc.uncounted t new uncounted)
  · intro q fd' _
    rw [ofile]
  · intro x away
    simp [away]
  · intro u _ b
    simp
  · rw [update_of_ne (by simp),update_of_ne (by simp),acc.held t,place]
    rfl
  · intro fd' member
    rw [uncounted] at member
    cases member
    exact ⟨rfl,rfl⟩
  · rw [update_self,if_neg (by simp [FdPc.uncounted]),ofile]
    exact (stands.knows (new,f) (by simp [FdPc.knows])).symm

theorem Accounts.forkDup (panic : s.panic = none) {t : T}
    {np : P} {nt : T} {i : Fd} (place : s.pc t = .forkDup np nt i f) :
    (s.filedup t f (.forkStore np nt i f)).Exact proc := by
  have free := tables.free_table (t := t) (by rw [place]; rfl)
  have known := (tables.stands t).knows (i,f) (by rw [place]; simp [FdPc.knows])
  have entry : ptr (.inl (proc t,i)) = some f := by
    rw [acc.counted t (proc t) i free (by simp [place,FdPc.uncounted])]
    exact known
  refine Exact.filedup panic t f _ (acc.counts.pos _ f entry) ?_
  intro s' pcs ofile refs
  exact ⟨_,acc.takes false place refs pcs ofile rfl rfl rfl⟩

/-- `fileclose` gives back the reference of a thread, or that of the entry which `exit` clears. -/
theorem Accounts.fileclose (panic : s.panic = none) {t : T}
    {after : FdAfter} (place : s.pc t = .fileclose f after) : (s.fileclose t f after).Exact proc := by
  have live : 1 ≤ s.ref f := by
    cases after with
    | exitClear fd =>
      have exits : (s.pc t).exitAt = some fd.val := by rw [place]; rfl
      have known := (tables.stands t).knows (fd,f) (by rw [place]; simp [FdPc.knows])
      refine acc.counts.pos (.inl (proc t,fd)) f ?_
      rw [acc.counted t (proc t) fd (tables.free_exit exits) (by simp [place,FdPc.uncounted])]
      exact known
    | _ =>
      refine acc.counts.pos (.inr (t,false)) f ?_
      rw [acc.first t,place]
      rfl
  have closes (c : FdPc T P) (next : c = after.next ∨ c = .closing (s.file f) after) (s' : FdState T P)
      (pcs : s'.pc = update s.pc t c) (ofile : s'.ofile = s.ofile)
      (refs : s'.ref = update s.ref f (s.ref f-1)) : ∃ ptr', s'.Accounts proc ptr' := by
    cases after with
    | ret =>
      rcases next with rfl | rfl
      · exact ⟨_,acc.drops place pcs ofile refs rfl rfl rfl⟩
      · exact ⟨_,acc.drops place pcs ofile refs rfl rfl rfl⟩
    | fileclose g =>
      rcases next with rfl | rfl
      · -- The second reference becomes the first.
        have mid : ({s' with pc := update s.pc t (.closing (s.file f) (.fileclose g))}).Accounts proc _ :=
          acc.drops place rfl ofile refs rfl rfl rfl
        exact ⟨_,mid.shifts (c := .fileclose g .ret) (update_self t _ s.pc)
          (by rw [pcs,update_idem]; rfl) rfl rfl rfl rfl rfl⟩
      · exact ⟨_,acc.drops place pcs ofile refs rfl rfl rfl⟩
    | exitClear fd =>
      have exits : (s.pc t).exitAt = some fd.val := by rw [place]; rfl
      have free := tables.free_exit exits
      have known := (tables.stands t).knows (fd,f) (by rw [place]; simp [FdPc.knows])
      have entry : ptr (.inl (proc t,fd)) = some f := by
        rw [acc.counted t (proc t) fd free (by simp [place,FdPc.uncounted])]
        exact known
      have now : c.uncounted = some fd ∧ c.holds = (none,none) := by
        rcases next with rfl | rfl
        · exact ⟨rfl,rfl⟩
        · exact ⟨rfl,rfl⟩
      refine ⟨update ptr (.inl (proc t,fd)) none,acc.changes t c (proc t) fd pcs free ?_ ?_ ?_ ?_ ?_ ?_ ?_ ?_⟩
      · rw [refs]
        exact acc.counts.drop _ f entry
      · intro q fd' _
        rw [ofile]
      · intro x away
        simp [away]
      · intro u _ b
        simp
      · rw [update_of_ne (by simp),update_of_ne (by simp),acc.held t,place,now.2]
        rfl
      · rw [place]
        exact none_all
      · intro fd' member
        rw [now.1] at member
        cases member
        exact ⟨rfl,rfl⟩
      · rw [update_self,now.1,if_pos rfl]
  unfold FdState.fileclose
  simp only
  split
  next low =>
    unfold ref at live
    omega
  next =>
    split
    next =>
      obtain ⟨ptr',now⟩ := closes _ (.inl rfl) ((s.setRef f ((s.file f).ref-1)).goto t after.next) rfl rfl
        (setFile_ref f _)
      exact .fine now panic
    next last =>
      obtain ⟨ptr',now⟩ := closes _ (.inr rfl)
        ((s.setFile f {s.file f with ref := 0, type := .none}).goto t (.closing (s.file f) after)) rfl rfl (by
          have one : s.ref f-1 = 0 := by
            unfold ref at live ⊢
            omega
          rw [one]
          exact setFile_ref f _)
      exact .fine now panic

end

theorem Accounts.closeRest (acc : s.Accounts proc ptr) {t : T} {ff : File} {after : FdAfter}
    (place : s.pc t = .closing ff after) : ∃ ptr', (s.closeRest t ff after).Accounts proc ptr' := by
  have goes (s' : FdState T P) (pcs : s'.pc = update s.pc t after.next) (ofile : s'.ofile = s.ofile)
      (refs : s'.ref = s.ref) : ∃ ptr', s'.Accounts proc ptr' := by
    cases after with
    | fileclose g => exact ⟨_,acc.shifts place pcs rfl ofile refs rfl rfl⟩
    | _ => exact ⟨_,acc.stays place pcs rfl rfl refs ofile⟩
  unfold FdState.closeRest
  split
  · exact goes _ rfl rfl rfl
  · exact goes _ rfl rfl rfl

theorem Accounts.exitClear (acc : s.Accounts proc ptr) (tables : s.Tables proc) {t : T}
    (place : s.pc t = .exitClear fd) :
    ((s.setEntry (proc t) fd none).goto t (.exitRead (fd+1))).Accounts proc ptr := by
  have exits : (s.pc t).exitAt = some fd.val := by rw [place]; rfl
  have uncounted : (s.pc t).uncounted = some fd := by rw [place]; rfl
  refine acc.changes t _ (proc t) fd rfl (tables.free_exit exits) acc.counts (setEntry_away (proc t) fd none)
    (fun _ _ => rfl) (fun _ _ _ => rfl) ?_ ?_ nofun ?_
  · rw [acc.held t,place]
    rfl
  · intro fd' member
    rw [uncounted] at member
    cases member
    exact ⟨rfl,rfl⟩
  · rw [acc.uncounted t fd uncounted,if_neg nofun]
    exact (setEntry_here (proc t) fd none).symm

omit [Fintype T] [Fintype P] [DecidableEq P] in
theorem pipeFill_ref (t : T) (rf wf : FileIx) (c : FdPc T P) : ((s.pipeFill rf wf).goto t c).ref = s.ref := by
  funext g
  by_cases second : g = wf
  · simp [ref,goto,pipeFill,setFile,second]
  · by_cases first : g = rf
    · subst first
      simp [ref,goto,pipeFill,setFile,second]
    · simp [ref,goto,pipeFill,setFile,first,second]

theorem Exact.step (exact : s.Exact proc) (tables : s.Tables proc) {a : FdAction T P}
    (taken : fdStep proc s a = some s') : s'.Exact proc := by
  obtain ⟨⟨ptr,acc⟩,_⟩ := exact
  obtain ⟨panic,steps⟩ := fdStep_cases taken
  cases steps with
  | same => exact .fine acc panic
  | kill => exact .fine ⟨acc.counts,acc.held,acc.entry,acc.uncounted⟩ panic
  | readPanics | writePanics => exact ⟨⟨ptr,⟨acc.counts,acc.held,acc.entry,acc.uncounted⟩⟩,nofun,nofun⟩
  | moves place moves => exact .fine (acc.stays place rfl moves.holds moves.uncounted) panic
  | dup place | close place | fork place | exit place | fdEmpty place | fdNext place | fdUndo place | forkNext place
  | forkEntry place | exitNext place | exitEntry place | exitDone place | openDies place | pipeDies place =>
    exact .fine (acc.stays place) panic
  | create _ _ gone => exact .fine (acc.stays (FdPc.isGone_eq gone)) panic
  | openEnd place | openRest place => exact .fine (acc.stays place rfl rfl rfl (setFile_same _ _ rfl)) panic
  | pipeFill place => exact .fine (acc.stays place rfl rfl rfl (pipeFill_ref _ _ _ _)) panic
  | pipeEnter place | pipeInside place =>
    refine .fine (acc.stays place rfl ?_ ?_) panic
    · split <;> rfl
    · split <;> rfl
  | openAlloc place found | pipeFirst place found =>
    exact .fine (acc.takes false place (filealloc_refs found _ _)) panic
  | pipeSecond place found => exact .fine (acc.takes true place (filealloc_refs found _ _)) panic
  | fdStore place =>
    obtain ⟨ptr',now⟩ := acc.fdStore tables place
    exact .fine now panic
  | dupCount place => exact acc.dupCount tables panic place
  | closeEntry place | pipeUndo place =>
    exact .fine (acc.unpublishes tables place (List.mem_singleton_self _)) panic
  | fileclose place => exact acc.fileclose tables panic place
  | closing place =>
    obtain ⟨ptr',now⟩ := acc.closeRest place
    refine .fine now ?_
    unfold FdState.closeRest
    split <;> exact panic
  | @forkDone t _ np nt n place =>
    have into : s.Into proc np nt n := (tables.stands t).forks (np,nt,n) (by rw [place]; rfl)
    have idle : s.pc nt = .gone := into.threads nt into.thread
    have mid : (s.goto t .user).Accounts proc ptr := acc.stays place
    have other : nt ≠ t := by
      rintro rfl
      rw [place] at idle
      contradiction
    exact .fine (mid.stays ((update_of_ne other _ _).trans idle)) panic
  | forkDup place => exact acc.forkDup tables panic place
  | @forkStore t _ np nt i f place =>
    have forks : (s.pc t).forks = some (np,nt,i.val) := by rw [place]; rfl
    have into : s.Into proc np nt i := (tables.stands t).forks _ forks
    exact .fine (acc.publishes false place (tables.free_fork forks) (into.rest i (Nat.le_refl _))) panic
  | exitClear place => exact .fine (acc.exitClear tables place) panic

theorem Exact.boot (t₀ : T) : (FdState.boot proc t₀ : FdState T P).Exact proc := by
  have places := boot_pc proc t₀
  suffices acc : (FdState.boot proc t₀ : FdState T P).Accounts proc (fun _ => none) from .fine acc rfl
  refine ⟨?_,?_,fun _ _ _ => rfl,fun _ _ _ => rfl⟩
  · intro f
    rw [Refs.count_none]
    rfl
  · intro t
    rcases places t with place | place <;> rw [place] <;> rfl

end FdState

/-- Whether a thread is in a call that changes a table: `open`, `pipe`, `dup`, `close`, `fork` or `exit`. -/
def FdPc.changing {T P : Type} : FdPc T P → Bool
  | .gone | .user | .fileread _ _ _ | .filewrite _ _ _ _ | .filestat _ _ | .inodeUse _ _ | .pipeEnter _ _ _ _
  | .pipeInside _ _ _ => false
  | _ => true

theorem FdPc.changing_holds {T P : Type} {c : FdPc T P} (idle : c.changing = false) :
    c.holds = (none,none) ∧ c.uncounted = none := by
  cases c <;> first | contradiction | exact ⟨rfl,rfl⟩

theorem FdPc.finds_inTable {T P : Type} {c : FdPc T P} (finds : c.finds = some fd) : c.inTable = true := by
  cases c <;> first | contradiction | rfl

section Claims
variable {T P : Type} [Fintype T] [Fintype P] [DecidableEq T] [DecidableEq P]

/-- When no two threads of a process work on its descriptor table at the same time, `fdalloc` returns
descriptors that nobody has, the counts never fall below 1 where `filedup` and `fileclose` look at
them, and between such calls `ref` is the number of entries that point to the file. -/
theorem ofile_refs_agree (proc : T → P) (t₀ : T) {s : FdState T P}
    (reached : FdReaches proc (Exclusive proc) t₀ s) :
    (∀ t fd, (s.pc t).finds = some fd → s.ofile (proc t) fd = none) ∧
    (∀ t u fd, t ≠ u → proc t = proc u → (s.pc t).finds = some fd → (s.pc u).finds ≠ some fd) ∧
    s.panic ≠ some .filedup ∧ s.panic ≠ some .fileclose ∧
    ((∀ t, (s.pc t).changing = false) →
      ∀ f, s.ref f = Refs.count (fun x : P × Fd => s.ofile x.1 x.2) f) := by
  have inv : s.Tables proc ∧ s.Exact proc := by
    refine reached.invariant (fun s => s.Tables proc ∧ s.Exact proc) ⟨.boot t₀,.boot t₀⟩ ?_
    intro before action after held allowed taken
    exact ⟨held.1.step allowed taken,held.2.step held.1 taken⟩
  obtain ⟨tables,⟨ptr,acc⟩,dups,closes⟩ := inv
  refine ⟨fun t => (tables.stands t).finds,?_,dups,closes,?_⟩
  · intro t u fd other sibling finds same
    have outside := tables.alone t u other sibling (FdPc.finds_inTable finds)
    simp [FdPc.finds_inTable same] at outside
  · intro idle f
    have holds (t : T) := FdPc.changing_holds (idle t)
    rw [acc.counts f,Refs.count_left ptr (fun x => s.ofile x.1 x.2)]
    · rintro ⟨p,fd⟩
      exact acc.entry p fd (fun t _ => by rw [(holds t).2]; exact nofun)
    · rintro ⟨t,b⟩
      cases b with
      | false => rw [acc.first t,(holds t).1]
      | true => rw [acc.second t,(holds t).1]

instance (proc : T → P) (s : FdState T P) (a : FdAction T P) : Decidable (Exclusive proc s a) :=
  inferInstanceAs (Decidable (∀ t ∈ _, _))

end Claims

def goOn {T P : Type} (t : T) (n : Nat) : List (FdAction T P) := List.replicate n (.run t (some 0))

/-- Two threads of a process: one opens a file, the other duplicates the descriptor, the first closes it. -/
theorem ofile_refs_agree_dup : ∃ s : FdState Bool Unit,
    FdReaches (fun _ => ()) (Exclusive fun _ => ()) true s ∧ s.ref 0 = 1 ∧
    s.ref 0 = Refs.count (fun x : Unit × Fd => s.ofile x.1 x.2) 0 := by
  obtain ⟨s,reached,one,idle⟩ := Interleave.play_shows (fdStep fun _ => ()) (Exclusive fun _ => ())
    (FdState.boot (fun _ => ()) true)
    ([.start true (.create false),.start true (.open 0)] ++ goOn true 6 ++ [.start false (.dup 0)] ++
      goOn false 4 ++ [.start true (.close 0)] ++ goOn true 2)
    (fun s => s.ref 0 = 1 ∧ ∀ t, (s.pc t).changing = false) (by decide +kernel)
  exact ⟨s,reached,one,(ofile_refs_agree (fun _ => ()) true reached).2.2.2.2 idle 0⟩

/-- Two threads of a process: both `fdalloc`s find the same entry empty, and a file is lost with a
count of 1; both close one descriptor; one closes the descriptor that the other duplicates. -/
theorem ofile_races :
    (∃ s : FdState Bool Unit, FdReaches (fun _ => ()) (fun _ _ => True) true s ∧
      (s.pc true).finds = some 0 ∧ (s.pc false).finds = some 0) ∧
    (∃ s : FdState Bool Unit, FdReaches (fun _ => ()) (fun _ _ => True) true s ∧
      (∀ t, (s.pc t).changing = false) ∧ s.ref 0 = 1 ∧ Refs.count (fun x : Unit × Fd => s.ofile x.1 x.2) 0 = 0) ∧
    (∃ s : FdState Bool Unit, FdReaches (fun _ => ()) (fun _ _ => True) true s ∧ s.panic = some .fileclose) ∧
    ∃ s : FdState Bool Unit, FdReaches (fun _ => ()) (fun _ _ => True) true s ∧ s.panic = some .filedup := by
  refine ⟨?_,?_,?_,?_⟩
  · exact Interleave.play_shows _ _ _
      ([.start true (.create false),.start true (.open 0),.start false (.open 0)] ++ goOn true 3 ++ goOn false 3) _
      (by decide +kernel)
  · exact Interleave.play_shows _ _ _
      ([.start true (.create false),.start true (.open 0),.start false (.open 0)] ++ goOn true 3 ++ goOn false 3 ++
        goOn true 3 ++ goOn false 3) _
      (by decide +kernel)
  · exact Interleave.play_shows _ _ _
      ([.start true (.create false),.start true (.open 0)] ++ goOn true 6 ++
        [.start true (.close 0),.start false (.close 0)] ++ goOn true 3 ++ goOn false 2) _ (by decide +kernel)
  · exact Interleave.play_shows _ _ _
      ([.start true (.create false),.start true (.open 0)] ++ goOn true 6 ++
        [.start true (.dup 0),.start false (.close 0)] ++ goOn true 3 ++ goOn false 3 ++ goOn true 1)
      _ (by decide +kernel)

end Kthreads
