import Kthreads.Desc.Machine

/-! What a thread may rely on at each place of a call on the descriptor table of its process, when
the calls that change the table keep apart. -/
open Function

namespace Kthreads

section Places
variable {T P : Type}

/-- Between the first look at the table and the last step that relies on it. -/
def FdPc.inTable : FdPc T P → Bool
  | .fdRead _ _ _ | .fdStore _ _ _ | .dupCount _ _ _ | .closeEntry _ _ | .pipeUndo _ _ _ | .forkDup _ _ _ _ => true
  | _ => false

def FdUse.knows (f : FileIx) : FdUse → List (Fd × FileIx)
  | .dup old => [(old,f)]
  | .pipeWrite rf fd0 => [(fd0,rf)]
  | _ => []

def FdAfter.clears : FdAfter → Option Fd
  | .exitClear fd => some fd
  | _ => none

def FdPc.knows : FdPc T P → List (Fd × FileIx)
  | .fdRead f _ use | .fdStore f _ use => use.knows f
  | .dupCount f old new => [(old,f),(new,f)]
  | .closeEntry fd f => [(fd,f)]
  | .pipeUndo fd0 rf _ => [(fd0,rf)]
  | .forkDup _ _ i f => [(i,f)]
  | .fileclose f (.exitClear fd) => [(fd,f)]
  | _ => []

def FdPc.finds : FdPc T P → Option Fd
  | .fdStore _ fd _ => some fd
  | _ => none

def FdPc.exitAt : FdPc T P → Option Nat
  | .exitRead n => some n
  | .exitClear fd => some fd
  | .fileclose _ (.exitClear fd) | .closing _ (.exitClear fd) => some fd
  | _ => none

def FdPc.forks : FdPc T P → Option (P × T × Nat)
  | .forkRead np nt n => some (np,nt,n)
  | .forkDup np nt i _ | .forkStore np nt i _ => some (np,nt,i)
  | _ => none

/-- The entry that is not counted in `ref`: `dup` stores before `filedup`, `exit` closes before it clears. -/
def FdPc.uncounted : FdPc T P → Option Fd
  | .dupCount _ _ new => some new
  | .closing _ after => after.clears
  | .exitClear fd => some fd
  | _ => none

def FdPc.Quiet (c : FdPc T P) : Prop := c.inTable = false ∧ c.exitAt = none

theorem FdPc.Quiet.knows {c : FdPc T P} (quiet : c.Quiet) : c.knows = [] := by
  obtain ⟨outside,stays⟩ := quiet
  cases c with
  | fileclose f after => cases after <;> first | contradiction | rfl
  | _ => first | contradiction | rfl

theorem FdPc.Quiet.finds {c : FdPc T P} (quiet : c.Quiet) : c.finds = none := by
  obtain ⟨outside,_⟩ := quiet
  cases c <;> first | contradiction | rfl

theorem FdPc.Quiet.uncounted {c : FdPc T P} (quiet : c.Quiet) : c.uncounted = none := by
  obtain ⟨outside,stays⟩ := quiet
  cases c with
  | closing ff after => cases after <;> first | contradiction | rfl
  | _ => first | contradiction | rfl

theorem FdPc.isGone_eq {c : FdPc T P} (gone : c.isGone = true) : c = .gone := by
  cases c <;> first | rfl | contradiction

theorem FdPc.exitAt_gone {c : FdPc T P} {n : Nat} (exits : c.exitAt = some n) :
    c.isGone = false ∧ c.finds = none ∧ c.forks = none := by
  cases c <;> first | contradiction | exact ⟨rfl,rfl,rfl⟩

theorem FdPc.forks_gone {c : FdPc T P} {x : P × T × Nat} (forks : c.forks = some x) : c.isGone = false := by
  cases c <;> first | contradiction | rfl

theorem FdPc.inTable_gone {c : FdPc T P} (inside : c.inTable = true) : c.isGone = false := by
  cases c <;> first | contradiction | rfl

variable {proc : T → P} {s : FdState T P} {t : T} {a : FdAction T P} {c₀ c : FdPc T P}

theorem FdMoves.alive (moves : FdMoves proc s t a c₀ c) : c₀.isGone = false := by
  rcases moves with ⟨⟨⟩⟩ <;> rfl

theorem FdMoves.quiet (moves : FdMoves proc s t a c₀ c) : c.Quiet := by
  rcases moves with ⟨⟨⟩⟩ <;> exact ⟨rfl,rfl⟩

theorem FdMoves.forks (moves : FdMoves proc s t a c₀ c) : c.forks = none := by
  rcases moves with ⟨⟨⟩⟩ <;> rfl

end Places

namespace FdState
variable {T P : Type} (proc : T → P) (s : FdState T P)

structure Into (np : P) (nt : T) (n : Nat) : Prop where
  used : s.used np = true
  thread : proc nt = np
  threads : ∀ u, proc u = np → s.pc u = .gone
  rest : ∀ fd : Fd, n ≤ fd → s.ofile np fd = none

structure Stands (t : T) (c : FdPc T P) : Prop where
  knows : ∀ x ∈ c.knows, s.ofile (proc t) x.1 = some x.2
  finds : ∀ fd ∈ c.finds, s.ofile (proc t) fd = none
  distinct : ∀ f old new, c = .dupCount f old new → old ≠ new
  exits : ∀ n ∈ c.exitAt, (∀ u, u ≠ t → proc u = proc t → s.pc u = .gone) ∧
    ∀ fd : Fd, fd < n → s.ofile (proc t) fd = none
  forks : ∀ x ∈ c.forks, s.Into proc x.1 x.2.1 x.2.2

structure Tables : Prop where
  alone : ∀ t u, t ≠ u → proc t = proc u → (s.pc t).inTable = true → (s.pc u).inTable = false
  stands : ∀ t, s.Stands proc t (s.pc t)
  unused : ∀ p, s.used p = false → (∀ t, proc t = p → s.pc t = .gone) ∧ ∀ fd, s.ofile p fd = none
  forkers : ∀ t u, t ≠ u → ∀ x ∈ (s.pc t).forks, ∀ y ∈ (s.pc u).forks, x.1 ≠ y.1

structure Home (t : T) : Prop where
  used : s.used (proc t) = true
  grown : ∀ u, ∀ x ∈ (s.pc u).forks, x.1 ≠ proc t
  stays : ∀ u, u ≠ t → proc u = proc t → (s.pc u).exitAt = none

structure Free (t : T) (p : P) : Prop where
  used : s.used p = true
  quiet : ∀ u, u ≠ t → proc u = p → (s.pc u).Quiet
  grown : ∀ u, u ≠ t → ∀ x ∈ (s.pc u).forks, x.1 ≠ p

variable {proc s}

theorem Stands.plain {t : T} {c : FdPc T P} (knows : c.knows = []) (finds : c.finds = none)
    (counted : c.uncounted = none) (exits : c.exitAt = none) (forks : c.forks = none) : s.Stands proc t c := by
  refine ⟨by simp [knows],by simp [finds],?_,by simp [exits],by simp [forks]⟩
  rintro f old new rfl
  cases counted

namespace Tables
variable (tables : s.Tables proc)
include tables

theorem home {t : T} (alive : (s.pc t).isGone = false) : s.Home proc t := by
  refine ⟨?_,?_,?_⟩
  · cases used : s.used (proc t) with
    | true => rfl
    | false =>
      rw [(tables.unused _ used).1 t rfl] at alive
      cases alive
  · intro u x forks same
    have gone := ((tables.stands u).forks x forks).threads t same.symm
    rw [gone] at alive
    cases alive
  · intro u other sibling
    cases exits : (s.pc u).exitAt with
    | none => rfl
    | some n =>
      have gone := ((tables.stands u).exits n exits).1 t other.symm sibling.symm
      rw [gone] at alive
      cases alive

theorem free_table {t : T} (inside : (s.pc t).inTable = true) : s.Free proc t (proc t) := by
  have home := tables.home (FdPc.inTable_gone inside)
  refine ⟨home.used,?_,fun u _ => home.grown u⟩
  intro u other sibling
  exact ⟨tables.alone t u other.symm sibling.symm inside,home.stays u other sibling⟩

theorem free_exit {t : T} {n : Nat} (exits : (s.pc t).exitAt = some n) : s.Free proc t (proc t) := by
  have home := tables.home (FdPc.exitAt_gone exits).1
  refine ⟨home.used,?_,fun u _ => home.grown u⟩
  intro u other sibling
  rw [((tables.stands t).exits n exits).1 u other sibling]
  exact ⟨rfl,rfl⟩

theorem free_fork {t nt : T} {np : P} {n : Nat} (forks : (s.pc t).forks = some (np,nt,n)) : s.Free proc t np := by
  have into := (tables.stands t).forks _ forks
  refine ⟨into.used,?_,?_⟩
  · intro u _ child
    rw [into.threads u child]
    exact ⟨rfl,rfl⟩
  · intro u other x member
    exact (tables.forkers t u other.symm _ forks x member).symm

end Tables

theorem Tables.same {s' : FdState T P} (tables : s.Tables proc) (pcs : s'.pc = s.pc) (used : s'.used = s.used)
    (ofile : s'.ofile = s.ofile) : s'.Tables proc := by
  refine ⟨by rw [pcs]; exact tables.alone,?_,by rw [pcs,used,ofile]; exact tables.unused,
    by rw [pcs]; exact tables.forkers⟩
  intro t
  rw [pcs]
  obtain ⟨knows,finds,distinct,exits,forks⟩ := tables.stands t
  refine ⟨by rwa [ofile],by rwa [ofile],distinct,by rwa [ofile,pcs],?_⟩
  intro x member
  obtain ⟨into,thread,threads,rest⟩ := forks x member
  exact ⟨by rwa [used],thread,by rwa [pcs],by rwa [ofile]⟩

theorem argfd_entry {p : P} {n : Int} {fd : Fd} {f : FileIx} (found : s.argfd p n = some (fd,f)) :
    s.ofile p fd = some f := by
  unfold argfd at found
  split at found
  · obtain ⟨g,entry,same⟩ := Option.map_eq_some_iff.mp found
    cases same
    exact entry
  · contradiction

section Entry
variable [DecidableEq P]

theorem setEntry_writes (t : T) (p : P) (fd : Fd) (v : Option FileIx) (free : s.Free proc t p) (q : P) :
    (s.setEntry p fd v).ofile q = s.ofile q ∨ s.Free proc t q := by
  by_cases here : q = p
  · exact .inr (here ▸ free)
  · exact .inl (update_of_ne here _ _)

theorem setEntry_here (p : P) (fd : Fd) (v : Option FileIx) : (s.setEntry p fd v).ofile p fd = v := by
  simp [setEntry]

theorem setEntry_other (p : P) (fd fd' : Fd) (v : Option FileIx) (other : fd' ≠ fd) :
    (s.setEntry p fd v).ofile p fd' = s.ofile p fd' := by
  simp [setEntry,other]

omit [DecidableEq P] in
theorem Tables.marks (tables : s.Tables proc) {used : P → Bool}
    (keeps : ∀ t, ∀ x ∈ (s.pc t).forks, s.used x.1 = true → used x.1 = true)
    (unused : ∀ p, used p = false → (∀ t, proc t = p → s.pc t = .gone) ∧ ∀ fd, s.ofile p fd = none) :
    Tables proc {s with used := used} := by
  refine ⟨tables.alone,?_,unused,tables.forkers⟩
  intro t
  obtain ⟨knows,finds,distinct,exits,forks⟩ := tables.stands t
  refine ⟨knows,finds,distinct,exits,?_⟩
  intro x member
  obtain ⟨into,thread,threads,rest⟩ := forks x member
  exact ⟨keeps t x member into,thread,threads,rest⟩

theorem Tables.claims (tables : s.Tables proc) (np : P) :
    Tables proc {s with used := update s.used np true} := by
  have used (p : P) (before : s.used p = true) : update s.used np true p = true := by
    by_cases here : p = np
    · rw [here,update_self]
    · rwa [update_of_ne here]
  refine tables.marks (fun _ x _ => used x.1) ?_
  intro p idle
  refine tables.unused p ?_
  cases before : s.used p with
  | false => rfl
  | true => simp [used p before] at idle

theorem Tables.releases (tables : s.Tables proc) (p : P) (gone : ∀ t, proc t = p → s.pc t = .gone)
    (empty : ∀ fd, s.ofile p fd = none) (grown : ∀ u, ∀ x ∈ (s.pc u).forks, x.1 ≠ p) :
    Tables proc {s with used := update s.used p false} := by
  refine tables.marks (fun t x member used => by rwa [update_of_ne (grown t x member)]) ?_
  intro q idle
  by_cases here : q = p
  · subst here
    exact ⟨gone,empty⟩
  · rw [update_of_ne here] at idle
    exact tables.unused q idle

end Entry

end FdState

namespace FdState
variable {T P : Type} [DecidableEq T] {proc : T → P} {s s' : FdState T P}

section
variable (tables : s.Tables proc)
include tables

theorem Tables.goes (t : T) (c : FdPc T P) (pcs : s'.pc = update s.pc t c)
    (used : s'.used = s.used) (home : s.Home proc t)
    (writes : ∀ p, s'.ofile p = s.ofile p ∨ s.Free proc t p) (stands : s'.Stands proc t c)
    (table : c.inTable = true → (s.pc t).inTable = true ∨
      ∀ u, u ≠ t → proc u = proc t → (s.pc u).inTable = false)
    (forkers : ∀ x ∈ c.forks, ∀ u, u ≠ t → ∀ y ∈ (s.pc u).forks, x.1 ≠ y.1) : s'.Tables proc := by
  have mine : s'.pc t = c := by rw [pcs,update_self]
  have others (u : T) (other : u ≠ t) : s'.pc u = s.pc u := by rw [pcs,update_of_ne other]
  have outside (u : T) (other : u ≠ t) (sibling : proc u = proc t) (inside : c.inTable = true) :
      (s.pc u).inTable = false := by
    rcases table inside with before | free
    · exact tables.alone t u other.symm sibling.symm before
    · exact free u other sibling
  refine ⟨?_,?_,?_,?_⟩
  · intro u w distinct sibling inside
    by_cases first : u = t
    · subst first
      rw [mine] at inside
      rw [others w distinct.symm]
      exact outside w distinct.symm sibling.symm inside
    · rw [others u first] at inside
      by_cases second : w = t
      · subst second
        rw [mine]
        cases now : c.inTable with
        | false => rfl
        | true => simp [outside u first sibling now] at inside
      · rw [others w second]
        exact tables.alone u w distinct sibling inside
  · intro u
    by_cases here : u = t
    · rwa [here,mine]
    · rw [others u here]
      have old := tables.stands u
      -- The own table is the same, or nothing is known of it.
      have kept : (s.pc u).Quiet ∨ s'.ofile (proc u) = s.ofile (proc u) := by
        rcases writes (proc u) with same | free
        · exact .inr same
        · exact .inl (free.quiet u here rfl)
      refine ⟨?_,?_,old.distinct,?_,?_⟩
      · intro x member
        rcases kept with quiet | same
        · simp [quiet.knows] at member
        · rw [same]
          exact old.knows x member
      · intro fd member
        rcases kept with quiet | same
        · simp [quiet.finds] at member
        · rw [same]
          exact old.finds fd member
      · intro n member
        rcases kept with quiet | same
        · simp [quiet.2] at member
        · obtain ⟨gone,cleared⟩ := old.exits n member
          refine ⟨?_,by rwa [same]⟩
          intro w distinct sibling
          by_cases second : w = t
          · subst second
            have stays := home.stays u here sibling.symm
            simp [stays] at member
          · rw [others w second]
            exact gone w distinct sibling
      · intro x member
        have into := old.forks x member
        refine ⟨by rw [used]; exact into.used,into.thread,?_,?_⟩
        · intro w child
          by_cases second : w = t
          · subst second
            exact absurd child.symm (home.grown u x member)
          · rw [others w second]
            exact into.threads w child
        · rcases writes x.1 with same | free
          · rw [same]
            exact into.rest
          · exact absurd rfl (free.grown u here x member)
  · intro p idle
    rw [used] at idle
    obtain ⟨gone,empty⟩ := tables.unused p idle
    refine ⟨?_,?_⟩
    · intro w member
      by_cases here : w = t
      · subst here
        rw [← member,home.used] at idle
        contradiction
      · rw [others w here]
        exact gone w member
    · rcases writes p with same | free
      · rwa [same]
      · rw [free.used] at idle
        contradiction
  · intro u w distinct x first y second
    by_cases here : u = t
    · subst here
      rw [mine] at first
      rw [others w distinct.symm] at second
      exact forkers x first w distinct.symm y second
    · rw [others u here] at first
      by_cases there : w = t
      · subst there
        rw [mine] at second
        exact (forkers y second u here x first).symm
      · rw [others w there] at second
        exact tables.forkers u w distinct x first y second

theorem Tables.rests (t : T) (c : FdPc T P) (quiet : c.Quiet) (forks : c.forks = none)
    (pcs : s'.pc = update s.pc t c) (used : s'.used = s.used) (home : s.Home proc t)
    (writes : ∀ p, s'.ofile p = s.ofile p ∨ s.Free proc t p) : s'.Tables proc := by
  refine tables.goes t c pcs used home writes (.plain quiet.knows quiet.finds quiet.uncounted quiet.2 forks) ?_ ?_
  · intro inside
    simp [quiet.1] at inside
  · simp [forks]

theorem Tables.leaves {t : T} {c₀ c : FdPc T P} (place : s.pc t = c₀)
    (pcs : s'.pc = update s.pc t c := by rfl) (alive : c₀.isGone = false := by rfl)
    (quiet : c.Quiet := by exact ⟨rfl,rfl⟩) (forks : c.forks = none := by rfl) (used : s'.used = s.used := by rfl)
    (writes : ∀ p, s'.ofile p = s.ofile p ∨ s.Free proc t p := by exact fun _ => .inl rfl) : s'.Tables proc := by
  subst place
  exact tables.rests t c quiet forks pcs used (tables.home alive) writes

theorem Tables.looks {t : T} {c₀ c : FdPc T P} (place : s.pc t = c₀) (pcs : s'.pc = update s.pc t c)
    (table : c₀.inTable = true ∨ ∀ u, u ≠ t → proc u = proc t → (s.pc u).inTable = false)
    (knows : ∀ x ∈ c.knows, s'.ofile (proc t) x.1 = some x.2)
    (finds : ∀ fd ∈ c.finds, s'.ofile (proc t) fd = none)
    (distinct : ∀ f old new, c = .dupCount f old new → old ≠ new)
    (writes : ∀ p, s'.ofile p = s.ofile p ∨ s.Free proc t p := by exact fun _ => .inl rfl)
    (alive : c₀.isGone = false := by rfl) (used : s'.used = s.used := by rfl) (exits : c.exitAt = none := by rfl)
    (forks : c.forks = none := by rfl) : s'.Tables proc := by
  subst place
  refine tables.goes t c pcs used (tables.home alive) writes ⟨knows,finds,distinct,?_,?_⟩ (fun _ => table) ?_
  · simp [exits]
  · simp [forks]
  · simp [forks]

theorem Tables.filedup (t : T) (f : FileIx) (c : FdPc T P)
    (moved : ∀ s' : FdState T P, s'.pc = update s.pc t c → s'.used = s.used → s'.ofile = s.ofile →
      s'.Tables proc) : (s.filedup t f c).Tables proc := by
  unfold FdState.filedup
  split
  · exact tables.same rfl rfl rfl
  · exact moved _ rfl rfl rfl

theorem Tables.after (t : T) (after : FdAfter) (c : FdPc T P) (next : c = after.next ∨ ∃ ff, c = .closing ff after)
    (alive : (s.pc t).isGone = false) (exits : (s.pc t).exitAt = after.clears.map Fin.val)
    (pcs : s'.pc = update s.pc t c) (used : s'.used = s.used) (ofile : s'.ofile = s.ofile) :
    s'.Tables proc := by
  have home := tables.home alive
  have writes (p : P) : s'.ofile p = s.ofile p ∨ s.Free proc t p := .inl (by rw [ofile])
  cases after with
  | exitClear fd =>
    have stands := (tables.stands t).exits fd.val exits
    have now : c.knows = [] ∧ c.finds = none ∧ c.inTable = false ∧ c.forks = none ∧ c.exitAt = some fd.val := by
      rcases next with rfl | ⟨ff,rfl⟩
      · exact ⟨rfl,rfl,rfl,rfl,rfl⟩
      · exact ⟨rfl,rfl,rfl,rfl,rfl⟩
    obtain ⟨knows,finds,outside,forks,still⟩ := now
    refine tables.goes t c pcs used home writes ⟨by simp [knows],by simp [finds],?_,?_,by simp [forks]⟩
      (by simp [outside]) (by simp [forks])
    · rintro f old new rfl
      cases outside
    · intro n member
      rw [still] at member
      cases member
      refine ⟨?_,by rw [ofile]; exact stands.2⟩
      intro u other sibling
      rw [pcs,update_of_ne other]
      exact stands.1 u other sibling
  | _ =>
    rcases next with rfl | ⟨ff,rfl⟩
    · exact tables.rests t _ ⟨rfl,rfl⟩ rfl pcs used home writes
    · exact tables.rests t _ ⟨rfl,rfl⟩ rfl pcs used home writes

theorem Tables.fileclose (t : T) (f : FileIx) (after : FdAfter)
    (place : s.pc t = .fileclose f after) : (s.fileclose t f after).Tables proc := by
  have alive : (s.pc t).isGone = false := by rw [place]; rfl
  have exits : (s.pc t).exitAt = after.clears.map Fin.val := by
    rw [place]
    cases after <;> rfl
  unfold FdState.fileclose
  simp only
  split
  · exact tables.same rfl rfl rfl
  · split
    · exact tables.after t after _ (.inl rfl) alive exits rfl rfl rfl
    · exact tables.after t after _ (.inr ⟨_,rfl⟩) alive exits rfl rfl rfl

theorem Tables.closeRest (t : T) (ff : File) (after : FdAfter)
    (place : s.pc t = .closing ff after) : (s.closeRest t ff after).Tables proc := by
  have alive : (s.pc t).isGone = false := by rw [place]; rfl
  have exits : (s.pc t).exitAt = after.clears.map Fin.val := by
    rw [place]
    cases after <;> rfl
  unfold FdState.closeRest
  split
  · exact tables.after t after _ (.inl rfl) alive exits rfl rfl rfl
  · exact tables.after t after _ (.inl rfl) alive exits rfl rfl rfl

theorem Tables.forking (t : T) (c : FdPc T P) (np : P) (nt : T) (n m : Nat)
    (before : (s.pc t).forks = some (np,nt,n)) (now : c.forks = some (np,nt,m)) (finds : c.finds = none)
    (exits : c.exitAt = none) (counted : c.uncounted = none) (pcs : s'.pc = update s.pc t c)
    (used : s'.used = s.used) (writes : ∀ p, s'.ofile p = s.ofile p ∨ s.Free proc t p)
    (knows : ∀ x ∈ c.knows, s'.ofile (proc t) x.1 = some x.2)
    (rest : ∀ fd : Fd, m ≤ fd → s'.ofile np fd = none)
    (table : c.inTable = true → ∀ u, u ≠ t → proc u = proc t → (s.pc u).inTable = false) : s'.Tables proc := by
  have home := tables.home (FdPc.forks_gone before)
  have into := (tables.stands t).forks _ before
  refine tables.goes t c pcs used home writes ⟨knows,by simp [finds],?_,by simp [exits],?_⟩
    (fun inside => .inr (table inside)) ?_
  · rintro f old new rfl
    cases counted
  · intro x member
    rw [now] at member
    cases member
    refine ⟨by rw [used]; exact into.used,into.thread,?_,rest⟩
    intro u child
    have other : u ≠ t := by
      rintro rfl
      exact home.grown u _ before child.symm
    rw [pcs,update_of_ne other]
    exact into.threads u child
  · intro x member u other y forks
    rw [now] at member
    cases member
    exact tables.forkers t u other.symm _ before y forks

theorem Tables.exiting (t : T) (c : FdPc T P) (n m : Nat)
    (before : (s.pc t).exitAt = some n) (now : c.exitAt = some m) (outside : c.inTable = false)
    (pcs : s'.pc = update s.pc t c)
    (used : s'.used = s.used) (writes : ∀ p, s'.ofile p = s.ofile p ∨ s.Free proc t p)
    (knows : ∀ x ∈ c.knows, s'.ofile (proc t) x.1 = some x.2)
    (cleared : ∀ fd : Fd, fd < m → s'.ofile (proc t) fd = none) : s'.Tables proc := by
  obtain ⟨_,finds,forks⟩ := FdPc.exitAt_gone now
  refine tables.goes t c pcs used (tables.home (FdPc.exitAt_gone before).1) writes
    ⟨knows,by simp [finds],?_,?_,by simp [forks]⟩ (by simp [outside]) (by simp [forks])
  · rintro f old new rfl
    cases outside
  · intro k member
    rw [now] at member
    cases member
    refine ⟨?_,cleared⟩
    intro u other sibling
    rw [pcs,update_of_ne other]
    exact ((tables.stands t).exits n before).1 u other sibling

end

end FdState

section Exclusive
variable {T P : Type} (proc : T → P)

/-- The thread that may get into the table with this step: `dup` and `close` look at it when they
start, `open` and `pipe` go on to `fdalloc`, `fork` looks at one entry. -/
def FdAction.enters (s : FdState T P) : FdAction T P → Option T
  | .start t (.dup _) | .start t (.close _) => some t
  | .run t _ =>
    match s.pc t with
    | .openAlloc _ _ | .pipeKalloc _ _ | .forkRead _ _ _ => some t
    | _ => none
  | _ => none

/-- A thread gets into the table of its process only when no sibling is in it. -/
def Exclusive (s : FdState T P) (a : FdAction T P) : Prop :=
  ∀ t ∈ a.enters s, ∀ u, u ≠ t → proc u = proc t → (s.pc u).inTable = false

end Exclusive

namespace FdState
variable {T P : Type} [DecidableEq T] [DecidableEq P] {proc : T → P} {s s' : FdState T P}

theorem Tables.fdStore (tables : s.Tables proc) {t : T} {f : FileIx} {fd : Fd} {use : FdUse}
    (place : s.pc t = .fdStore f fd use) : ((s.setEntry (proc t) fd (some f)).goto t (use.done f fd)).Tables proc := by
  have inside : (s.pc t).inTable = true := by rw [place]; rfl
  have writes := setEntry_writes t (proc t) fd (some f) (tables.free_table inside)
  have stands := tables.stands t
  rw [place] at stands
  have empty := stands.finds fd rfl
  cases use with
  | dup old =>
    have known := stands.knows (old,f) (.head _)
    have distinct : old ≠ fd := by
      rintro rfl
      rw [empty] at known
      contradiction
    refine tables.looks place rfl (.inl rfl) ?_ nofun ?_ writes rfl rfl rfl rfl
    · intro x member
      simp only [FdUse.done,FdPc.knows,List.mem_cons,List.not_mem_nil,or_false] at member
      rcases member with rfl | rfl
      · exact (setEntry_other (proc t) fd old (some f) distinct).trans known
      · exact setEntry_here (proc t) fd (some f)
    · intro _ _ _ same
      cases same
      exact distinct
  | pipeRead wf =>
    refine tables.looks place rfl (.inl rfl) ?_ nofun nofun writes rfl rfl rfl rfl
    intro x member
    simp only [FdUse.done,FdPc.knows,FdUse.knows,List.mem_singleton] at member
    subst member
    exact setEntry_here (proc t) fd (some f)
  | _ => exact tables.leaves place rfl rfl ⟨rfl,rfl⟩ rfl rfl writes

omit [DecidableEq P] in
theorem Tables.forkDone (tables : s.Tables proc) {t : T} {np : P} {nt : T} {n : Nat}
    (place : s.pc t = .forkRead np nt n) : ((s.goto t .user).goto nt .user).Tables proc := by
  have before : (s.pc t).forks = some (np,nt,n) := by rw [place]; rfl
  have into : s.Into proc np nt n := (tables.stands t).forks _ before
  have home := tables.home (t := t) (by rw [place]; rfl)
  have mid : (s.goto t .user).Tables proc :=
    tables.leaves place rfl rfl ⟨rfl,rfl⟩ rfl rfl fun _ => .inl rfl
  refine mid.rests nt .user ⟨rfl,rfl⟩ rfl rfl rfl ⟨?_,?_,?_⟩ (fun _ => .inl rfl)
  · rw [into.thread]
    exact into.used
  · intro u x member same
    rw [into.thread] at same
    by_cases here : u = t
    · simp [goto,here,FdPc.forks] at member
    · simp only [goto,update_of_ne here] at member
      exact tables.forkers t u (Ne.symm here) _ before x member same.symm
  · intro u _ sibling
    have child : proc u = np := sibling.trans into.thread
    have other : u ≠ t := by
      rintro rfl
      exact home.grown u _ before child.symm
    simp only [goto,update_of_ne other,into.threads u child]
    rfl

theorem Tables.exitDone (tables : s.Tables proc) {t : T} {n : Nat} (place : s.pc t = .exitRead n) (ended : nofile ≤ n) :
    Tables proc ({s with
      used := update s.used (proc t) false
      killed := update s.killed (proc t) false}.goto t .gone) := by
  obtain ⟨gone,cleared⟩ := (tables.stands t).exits n (by rw [place]; rfl)
  have home := tables.home (t := t) (by rw [place]; rfl)
  have mid : (s.goto t .gone).Tables proc :=
    tables.leaves place rfl rfl ⟨rfl,rfl⟩ rfl rfl fun _ => .inl rfl
  refine (mid.releases (proc t) ?_ ?_ ?_).same rfl rfl rfl
  · intro u sibling
    by_cases here : u = t
    · simp [goto,here]
    · simp only [goto,update_of_ne here]
      exact gone u here sibling
  · intro fd
    exact cleared fd (by have := fd.isLt; omega)
  · intro u x member
    by_cases here : u = t
    · simp [goto,here,FdPc.forks] at member
    · simp only [goto,update_of_ne here] at member
      exact home.grown u x member

theorem Tables.fork (tables : s.Tables proc) {t nt : T} {np : P} (place : s.pc t = .user) (idle : s.used np = false)
    (child : proc nt = np) :
    Tables proc ({s with used := update s.used np true}.goto t (.forkRead np nt 0)) := by
  have home := tables.home (t := t) (by rw [place]; rfl)
  obtain ⟨gone,empty⟩ := tables.unused np idle
  have mid := tables.claims np
  have foreign : proc t ≠ np := by
    rintro rfl
    simp [gone t rfl] at place
  refine mid.goes t _ rfl rfl ⟨?_,home.grown,home.stays⟩ (fun _ => .inl rfl)
    ⟨nofun,nofun,nofun,nofun,?_⟩ nofun ?_
  · simp only
    rw [update_of_ne foreign]
    exact home.used
  · intro x member
    cases member
    refine ⟨by simp [goto],child,?_,fun fd _ => empty fd⟩
    intro u member
    have other : u ≠ t := by
      rintro rfl
      exact foreign member
    simp only [goto,update_of_ne other]
    exact gone u member
  · intro x member u _ y forks same
    cases member
    have busy := ((tables.stands u).forks y forks).used
    rw [← same,idle] at busy
    contradiction

/-- Every step that keeps out of a table in which a sibling works keeps the tables in order. -/
theorem Tables.step [Fintype T] (tables : s.Tables proc) {a : FdAction T P} (allowed : Exclusive proc s a)
    (taken : fdStep proc s a = some s') : s'.Tables proc := by
  obtain ⟨_,steps⟩ := fdStep_cases taken
  cases steps with
  | same => exact tables
  | kill | readPanics | writePanics => exact tables.same rfl rfl rfl
  | moves place moves => exact tables.leaves place rfl moves.alive moves.quiet moves.forks
  | openEnd place | openRest place | openDies place | pipeDies place | pipeFirst place | pipeSecond place =>
    exact tables.leaves place
  | pipeEnter place | pipeInside place =>
    refine tables.leaves place rfl rfl ?_ ?_
    · split <;> exact ⟨rfl,rfl⟩
    · split <;> rfl
  | dup place found | close place found =>
    refine tables.looks place rfl (.inr (allowed _ rfl)) ?_ nofun nofun
    intro x member
    simp only [FdPc.knows,FdUse.knows,List.mem_singleton] at member
    subst member
    exact argfd_entry found
  | openAlloc place | pipeFill place =>
    exact tables.looks place rfl (.inr (allowed _ (by simp [FdAction.enters,place]))) nofun nofun nofun
  | @fdEmpty t _ _ _ _ place _ empty =>
    have knows := (tables.stands t).knows
    rw [place] at knows
    refine tables.looks place rfl (.inl rfl) knows ?_ nofun
    intro fd found
    cases found
    exact empty
  | @fdNext t _ _ _ _ place | @fdUndo t _ _ _ _ _ place =>
    have knows := (tables.stands t).knows
    rw [place] at knows
    exact tables.looks place rfl (.inl rfl) knows nofun nofun
  | fdStore place => exact tables.fdStore place
  | dupCount place =>
    refine tables.filedup _ _ .user ?_
    intro s' pcs used ofile
    exact tables.leaves place pcs rfl ⟨rfl,rfl⟩ rfl used (fun _ => .inl (by rw [ofile]))
  | @closeEntry t _ fd _ place | @pipeUndo t _ fd _ _ place =>
    exact tables.leaves place rfl rfl ⟨rfl,rfl⟩ rfl rfl
      (setEntry_writes t (proc t) fd none (tables.free_table (by rw [place]; rfl)))
  | fileclose place => exact tables.fileclose _ _ _ place
  | closing place => exact tables.closeRest _ _ _ place
  | fork place idle child => exact tables.fork place idle child
  | @forkNext t _ np nt n place =>
    have before : (s.pc t).forks = some (np,nt,n) := by rw [place]; rfl
    have into : s.Into proc np nt n := (tables.stands t).forks _ before
    refine tables.forking t _ np nt n (n+1) before rfl rfl rfl rfl rfl rfl (fun _ => .inl rfl) nofun ?_ nofun
    intro fd later
    exact into.rest fd (by omega)
  | @forkEntry t _ np nt n f place _ entry =>
    have before : (s.pc t).forks = some (np,nt,n) := by rw [place]; rfl
    have into : s.Into proc np nt n := (tables.stands t).forks _ before
    refine tables.forking t _ np nt n n before rfl rfl rfl rfl rfl rfl (fun _ => .inl rfl) ?_ into.rest
      (fun _ => allowed _ (by simp [FdAction.enters,place]))
    intro x member
    simp only [FdPc.knows,List.mem_singleton] at member
    subst member
    exact entry
  | forkDone place => exact tables.forkDone place
  | @forkDup t _ np nt i f place =>
    have before : (s.pc t).forks = some (np,nt,i.val) := by rw [place]; rfl
    refine tables.filedup t f (.forkStore np nt i f) ?_
    intro s' pcs used ofile
    refine tables.forking t _ np nt i i before rfl rfl rfl rfl pcs used (fun _ => .inl (by rw [ofile])) nofun ?_ nofun
    rw [ofile]
    exact ((tables.stands t).forks _ before).rest
  | @forkStore t _ np nt i f place =>
    have before : (s.pc t).forks = some (np,nt,i.val) := by rw [place]; rfl
    refine tables.forking t _ np nt i (i+1) before rfl rfl rfl rfl rfl rfl
      (setEntry_writes t np i (some f) (tables.free_fork before)) nofun ?_ nofun
    intro fd later
    have other : fd ≠ i := by
      rintro rfl
      omega
    have into : s.Into proc np nt i := (tables.stands t).forks _ before
    exact (setEntry_other np i fd (some f) other).trans (into.rest fd (by omega))
  | @exit t place ended =>
    refine tables.goes t _ rfl rfl (tables.home (by rw [place]; rfl)) (fun _ => .inl rfl) ⟨nofun,nofun,nofun,?_,nofun⟩
      nofun nofun
    intro n member
    cases member
    refine ⟨?_,fun fd below => absurd below (Nat.not_lt_zero _)⟩
    intro u other sibling
    simp only [goto,update_of_ne other]
    exact FdPc.isGone_eq (ended u other sibling)
  | @exitNext t _ n place fits empty =>
    have before : (s.pc t).exitAt = some n := by rw [place]; rfl
    refine tables.exiting t _ n (n+1) before rfl rfl rfl rfl (fun _ => .inl rfl) nofun ?_
    intro fd below
    by_cases here : fd.val = n
    · have same : fd = ⟨n,fits⟩ := Fin.ext here
      rw [same]
      exact empty
    · exact ((tables.stands t).exits n before).2 fd (by omega)
  | @exitEntry t _ n f place _ entry =>
    have before : (s.pc t).exitAt = some n := by rw [place]; rfl
    refine tables.exiting t _ n n before rfl rfl rfl rfl (fun _ => .inl rfl) ?_ ((tables.stands t).exits n before).2
    intro x member
    simp only [FdPc.knows,List.mem_singleton] at member
    subst member
    exact entry
  | exitDone place ended => exact tables.exitDone place ended
  | @exitClear t _ fd place =>
    have before : (s.pc t).exitAt = some fd.val := by rw [place]; rfl
    refine tables.exiting t _ fd (fd+1) before rfl rfl rfl rfl
      (setEntry_writes t (proc t) fd none (tables.free_exit before)) nofun ?_
    intro fd' below
    by_cases here : fd' = fd
    · subst here
      exact setEntry_here (proc t) fd' none
    · exact (setEntry_other (proc t) fd fd' none here).trans (((tables.stands t).exits fd before).2 fd' (by
        have : fd'.val ≠ fd.val := fun same => here (Fin.ext same)
        omega))
  | @create t u place sibling _ =>
    have home := tables.home (t := t) (by rw [place]; rfl)
    refine tables.rests u .user ⟨rfl,rfl⟩ rfl rfl rfl ⟨?_,?_,?_⟩ (fun _ => .inl rfl)
    · rw [sibling]
      exact home.used
    · rw [sibling]
      exact home.grown
    · intro w _ member
      by_cases here : w = t
      · rw [here,place]
        rfl
      · exact home.stays w here (member.trans sibling)

theorem boot_pc (proc : T → P) (t₀ t : T) : (boot proc t₀).pc t = .user ∨ (boot proc t₀).pc t = .gone := by
  simp only [boot]
  split
  · exact .inl rfl
  · exact .inr rfl

theorem Tables.boot [Fintype T] (t₀ : T) : (FdState.boot proc t₀ : FdState T P).Tables proc := by
  have places := boot_pc proc t₀
  refine ⟨?_,?_,?_,?_⟩
  · intro t u _ _ inside
    rcases places t with place | place <;> simp [place,FdPc.inTable] at inside
  · intro t
    rcases places t with place | place <;> rw [place] <;> exact .plain rfl rfl rfl rfl rfl
  · intro p idle
    refine ⟨?_,fun _ => rfl⟩
    intro t member
    simp only [FdState.boot,decide_eq_false_iff_not] at idle ⊢
    split
    next first =>
      subst first
      exact absurd member.symm idle
    next => rfl
  · intro t u _ x first
    rcases places t with place | place <;> simp [place,FdPc.forks] at first

end FdState

end Kthreads
