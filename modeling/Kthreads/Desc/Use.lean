import Kthreads.Desc.Counts

/-! Files in use. A call that reads or writes a file takes no reference: it relies on the table entry
that it came through, on the fields that `sys_open` fills in after that entry is there, and for a
pipe on the end that the file stands for. -/
open Function

namespace Kthreads
variable {f : FileIx} {fd : Fd}

section Places
variable {T P : Type}

def FdPc.uses : FdPc T P → Option (Fd × FileIx)
  | .fileread fd f _ | .filewrite fd f _ _ | .filestat fd f | .inodeUse fd f | .pipeEnter fd f _ _
  | .pipeInside fd f _ => some (fd,f)
  | _ => none

def FdPc.pipes : FdPc T P → Option (FileIx × Nat)
  | .pipeEnter _ f k _ | .pipeInside _ f k => some (f,k)
  | _ => none

def FdPc.opens : FdPc T P → Option (Fd × FileIx)
  | .openEnd fd f _ _ => some (fd,f)
  | _ => none

def FdPc.opening : FdPc T P → Option (Fd × FileIx)
  | .openEnd fd f _ _ | .openRest fd f _ _ => some (fd,f)
  | _ => none

def FdPc.opened : FdPc T P → Option FileIx
  | .openRest _ f _ _ => some f
  | _ => none

def FdPc.busy (c : FdPc T P) : Bool := c.inTable || c.opening.isSome

def FdUse.claims : FdUse → Option Fd
  | .pipeWrite _ fd0 => some fd0
  | _ => none

def FdPc.claims : FdPc T P → Option Fd
  | .fdRead _ _ use | .fdStore _ _ use => use.claims
  | .openEnd fd _ _ _ | .openRest fd _ _ _ | .closeEntry fd _ | .pipeUndo fd _ _ => some fd
  | .dupCount _ _ new => some new
  | _ => none

def FdUse.ready (f : FileIx) : FdUse → List FileIx
  | .pipeRead wf => [f,wf]
  | .pipeWrite _ _ => [f]
  | _ => []

def FdPc.ready : FdPc T P → List FileIx
  | .fdRead f _ use | .fdStore f _ use => use.ready f
  | .forkStore _ _ _ f => [f]
  | _ => []

def FdUse.owns (f : FileIx) : FdUse → List FileIx
  | .open _ _ => [f]
  | _ => []

def FdPc.owns : FdPc T P → List FileIx
  | .fdRead f _ use | .fdStore f _ use => use.owns f
  | .openEnd _ f _ _ | .openRest _ f _ _ | .pipeSecond f => [f]
  | .pipeKalloc rf wf => [rf,wf]
  | _ => []

structure FdPc.Detached (c : FdPc T P) : Prop where
  busy : c.busy = false
  claims : c.claims = none
  uses : c.uses = none
  ready : c.ready = []
  owns : c.owns = []

theorem FdPc.ready_holds {c : FdPc T P} (member : f ∈ c.ready) :
    c.holds.1 = some f ∨ c.holds.2 = some f := by
  cases c <;> simp [FdPc.ready] at member
  case forkStore => exact .inl (by rw [member]; rfl)
  all_goals
    next use =>
      cases use <;> simp [FdUse.ready] at member
      all_goals simp [FdPc.holds,FdUse.holds,member]
      all_goals tauto

theorem FdPc.owns_holds {c : FdPc T P} (member : f ∈ c.owns) :
    (c.holds.1 = some f ∨ c.holds.2 = some f) ∨ ∃ fd, c.opening = some (fd,f) := by
  cases c <;> simp [FdPc.owns] at member
  case openEnd fd g ip omode => exact .inr ⟨fd,by rw [member]; rfl⟩
  case openRest fd g ip omode => exact .inr ⟨fd,by rw [member]; rfl⟩
  case pipeSecond => exact .inl (.inl (by rw [member]; rfl))
  case pipeKalloc =>
    rcases member with rfl | rfl
    · exact .inl (.inl rfl)
    · exact .inl (.inr rfl)
  all_goals
    next use =>
      cases use <;> simp [FdUse.owns] at member
      exact .inl (.inl (by rw [member]; rfl))

theorem FdPc.opening_claims {c : FdPc T P} (opening : c.opening = some (fd,f)) :
    c.claims = some fd ∧ c.busy = true ∧ c.isGone = false ∧ c.uncounted = none := by
  cases c <;> first | contradiction | (cases opening; exact ⟨rfl,rfl,rfl,rfl⟩)

theorem FdPc.uncounted_claims {c : FdPc T P} (uncounted : c.uncounted = some fd) :
    c.claims = some fd ∧ c.busy = true ∨ ∃ n, c.exitAt = some n := by
  cases c with
  | dupCount f old new => exact .inl ⟨uncounted,rfl⟩
  | closing ff after => cases after <;> first | contradiction | exact .inr ⟨_,rfl⟩
  | exitClear fd' => exact .inr ⟨_,rfl⟩
  | _ => contradiction

theorem FdPc.uses_idle {c : FdPc T P} {x : Fd × FileIx} (uses : c.uses = some x) :
    c.uncounted = none ∧ c.isGone = false ∧ c.owns = [] ∧ c.busy = false := by
  cases c <;> first | contradiction | exact ⟨rfl,rfl,rfl,rfl⟩

theorem FdPc.uses_plain {c : FdPc T P} {x : Fd × FileIx} (uses : c.uses = some x) :
    c.claims = none ∧ c.ready = [] ∧ c.opening = none ∧ c.opened = none ∧ c.opens = none := by
  cases c <;> first | contradiction | exact ⟨rfl,rfl,rfl,rfl,rfl⟩

theorem FdPc.pipes_uses {c : FdPc T P} {k : Nat} (pipes : c.pipes = some (f,k)) :
    ∃ fd, c.uses = some (fd,f) := by
  cases c <;> first | contradiction | (cases pipes; exact ⟨_,rfl⟩)

theorem FdPc.opened_owns {c : FdPc T P} (opened : c.opened = some f) :
    f ∈ c.owns ∧ c.opening.isSome = true := by
  cases c <;> first | contradiction | (cases opened; exact ⟨List.mem_singleton_self _,rfl⟩)

theorem FdPc.opens_opening {c : FdPc T P} {x : Fd × FileIx} (opens : c.opens = some x) : c.opening = some x := by
  cases c <;> first | contradiction | exact opens

theorem FdPc.claims_busy {c : FdPc T P} (claims : c.claims = some fd) : c.busy = true := by
  cases c <;> first | contradiction | rfl

theorem FdPc.inTable_opens {c : FdPc T P} (inside : c.inTable = true) : c.opens = none := by
  cases c <;> first | contradiction | rfl

theorem FdPc.idle_opens {c : FdPc T P} (idle : c.busy = false) : c.opens = none := by
  cases opens : c.opens with
  | none => rfl
  | some x => simp [(FdPc.opening_claims (FdPc.opens_opening opens)).2.1] at idle

theorem FdPc.inTable_busy {c : FdPc T P} (inside : c.inTable = true) : c.busy = true := by
  simp [FdPc.busy,inside]

theorem FdRests.detached {c₀ c : FdPc T P} (rest : FdRests c₀ c) : c.Detached := by
  cases rest <;> exact ⟨rfl,rfl,rfl,rfl,rfl⟩

theorem FdRests.plain {c₀ c : FdPc T P} (rest : FdRests c₀ c) : c₀.opens = none ∧ c₀.uncounted = none := by
  cases rest <;> exact ⟨rfl,rfl⟩

end Places

namespace FdState
variable {T P : Type} (proc : T → P) (s : FdState T P)

def Alone (t : T) : Prop := ∀ u, u ≠ t → proc u = proc t → (s.pc u).busy = false

structure Suits (t : T) (c : FdPc T P) : Prop where
  busy : c.busy = true → (s.pc t).busy = true ∨ s.Alone proc t
  claims : ∀ fd ∈ c.claims, ∀ u, u ≠ t → proc u = proc t → ∀ x ∈ (s.pc u).uses, x.1 ≠ fd
  uses : ∀ x ∈ c.uses, ∀ u, u ≠ t → proc u = proc t → ∀ fd ∈ (s.pc u).claims, x.1 ≠ fd

structure Relies (t : T) (c : FdPc T P) : Prop where
  uses : ∀ x ∈ c.uses, s.ofile (proc t) x.1 = some x.2 ∧ (s.file x.2).type ≠ .none
  pipes : ∀ x ∈ c.pipes, (s.file x.1).type = .pipe ∧ (s.file x.1).pipe = x.2
  ready : ∀ f ∈ c.ready, (s.file f).type ≠ .none
  owns : ∀ f ∈ c.owns, s.ref f = 1
  opening : ∀ x ∈ c.opening, s.ofile (proc t) x.1 = some x.2
  opened : ∀ f ∈ c.opened, (s.file f).type = .inode

def Typed : Prop := ∀ p fd f, s.ofile p fd = some f → (∀ t, proc t = p → (s.pc t).uncounted ≠ some fd) →
  (s.file f).type ≠ .none ∨ ∃ t, proc t = p ∧ (s.pc t).opens = some (fd,f)

structure Usable : Prop where
  apart : ∀ t u, t ≠ u → proc t = proc u → (s.pc t).busy = true → (s.pc u).busy = false
  claims : ∀ t u, t ≠ u → proc t = proc u → ∀ x ∈ (s.pc u).uses, ∀ fd ∈ (s.pc t).claims, x.1 ≠ fd
  relies : ∀ t, s.Relies proc t (s.pc t)
  typed : s.Typed proc
  idle : ∀ f, s.ref f < 1 → (s.file f).type = .none
  panic : s.panic ≠ some .fileread ∧ s.panic ≠ some .filewrite

def Touches (u : T) (f : FileIx) : Prop :=
  (∃ fd, (s.pc u).uses = some (fd,f)) ∨ f ∈ (s.pc u).ready ∨ f ∈ (s.pc u).owns

variable {proc s} {s' : FdState T P}

theorem Relies.keep {u : T} (relies : s.Relies proc u (s.pc u))
    (files : ∀ f, s.Touches u f → (s'.file f).type = (s.file f).type ∧ (s'.file f).pipe = (s.file f).pipe)
    (refs : ∀ f ∈ (s.pc u).owns, s'.ref f = s.ref f)
    (used : ∀ x ∈ (s.pc u).uses, s'.ofile (proc u) x.1 = s.ofile (proc u) x.1)
    (opening : ∀ x ∈ (s.pc u).opening, s'.ofile (proc u) x.1 = s.ofile (proc u) x.1) :
    s'.Relies proc u (s.pc u) := by
  refine ⟨?_,?_,?_,?_,?_,?_⟩
  · intro x member
    obtain ⟨entry,typed⟩ := relies.uses x member
    rw [used x member,(files x.2 (.inl ⟨x.1,member⟩)).1]
    exact ⟨entry,typed⟩
  · intro x member
    obtain ⟨type,pipe⟩ := files x.1 (.inl (FdPc.pipes_uses member))
    rw [type,pipe]
    exact relies.pipes x member
  · intro f member
    rw [(files f (.inr (.inl member))).1]
    exact relies.ready f member
  · intro f member
    rw [refs f member]
    exact relies.owns f member
  · intro x member
    rw [opening x member]
    exact relies.opening x member
  · intro f member
    rw [(files f (.inr (.inr (FdPc.opened_owns member).1))).1]
    exact relies.opened f member

theorem Relies.plain {t : T} {c : FdPc T P} (uses : c.uses = none) (ready : c.ready = []) (opening : c.opening = none)
    (owns : ∀ f ∈ c.owns, s.ref f = 1) : s.Relies proc t c := by
  refine ⟨by simp [uses],?_,by simp [ready],owns,by simp [opening],?_⟩
  · intro x member
    obtain ⟨fd,used⟩ := FdPc.pipes_uses member
    simp [uses] at used
  · intro f member
    have isOpen := (FdPc.opened_owns member).2
    simp [opening] at isOpen

theorem Relies.detached {t : T} {c : FdPc T P} (detached : c.Detached) : s.Relies proc t c := by
  have opening : c.opening = none := by
    have free := detached.busy
    simp only [FdPc.busy,Bool.or_eq_false_iff] at free
    simpa using free.2
  exact .plain detached.uses detached.ready opening (by simp [detached.owns])

theorem Suits.detached {t : T} {c : FdPc T P} (detached : c.Detached) : s.Suits proc t c :=
  ⟨by simp [detached.busy],by simp [detached.claims],by simp [detached.uses]⟩

theorem Usable.complete (usable : s.Usable proc) {t : T}
    (entry : s.ofile (proc t) fd = some f) (counted : ∀ u, proc u = proc t → (s.pc u).uncounted ≠ some fd)
    (free : ∀ u, proc u = proc t → (s.pc u).opens = none) : (s.file f).type ≠ .none := by
  rcases usable.typed (proc t) fd f entry counted with typed | ⟨u,sibling,opens⟩
  · exact typed
  · simp [free u sibling] at opens

end FdState

namespace FdState.Usable
variable {T P : Type} [Fintype T] [Fintype P] {proc : T → P} {s s' : FdState T P} {ptr : FdHolder T P → Option FileIx}

section
variable (usable : s.Usable proc) (tables : s.Tables proc) (acc : s.Accounts proc ptr)
include usable tables acc

/-- A file that a thread relies on has a reference of that thread, or one of an entry of its process. -/
theorem holder {u : T} (touches : s.Touches u f) : (∃ b, ptr (.inr (u,b)) = some f) ∨
      ∃ fd, ptr (.inl (proc u,fd)) = some f ∧ ((s.pc u).uses = some (fd,f) ∨ (s.pc u).opening = some (fd,f)) := by
  -- Nobody is about to count the entry, since that would be a call that works on it.
  have counted (fd : Fd) (alive : (s.pc u).isGone = false) (own : (s.pc u).uncounted = none)
      (clear : ∀ w, w ≠ u → proc w = proc u → (s.pc w).claims = some fd → (s.pc w).busy = false) :
      ptr (.inl (proc u,fd)) = s.ofile (proc u) fd := by
    refine acc.entry (proc u) fd ?_
    intro w sibling uncounted
    by_cases here : w = u
    · rw [here,own] at uncounted
      contradiction
    · rcases FdPc.uncounted_claims uncounted with ⟨claims,busy⟩ | ⟨n,exits⟩
      · simp [clear w here sibling claims] at busy
      · simp [(tables.home alive).stays w here sibling] at exits
  have privately (held : (s.pc u).holds.1 = some f ∨ (s.pc u).holds.2 = some f) : ∃ b, ptr (.inr (u,b)) = some f := by
    rcases held with first | second
    · exact ⟨false,by rw [acc.first u,first]⟩
    · exact ⟨true,by rw [acc.second u,second]⟩
  have relies := usable.relies u
  rcases touches with ⟨fd,uses⟩ | ready | owns
  · obtain ⟨own,alive,_,_⟩ := FdPc.uses_idle uses
    refine .inr ⟨fd,?_,.inl uses⟩
    rw [counted fd alive own]
    · exact (relies.uses _ uses).1
    · intro w other sibling claims
      exact absurd rfl (usable.claims w u other sibling _ uses fd claims)
  · exact .inl (privately (FdPc.ready_holds ready))
  · rcases FdPc.owns_holds owns with held | ⟨fd,opening⟩
    · exact .inl (privately held)
    · obtain ⟨_,busy,alive,own⟩ := FdPc.opening_claims opening
      refine .inr ⟨fd,?_,.inr opening⟩
      rw [counted fd alive own]
      · exact relies.opening _ opening
      · intro w other sibling _
        exact usable.apart u w other.symm sibling.symm busy

theorem touches_ref {u : T} (touches : s.Touches u f) : 1 ≤ s.ref f := by
  rcases usable.holder tables acc touches with ⟨b,held⟩ | ⟨fd,held,_⟩
  · exact acc.counts.pos _ f held
  · exact acc.counts.pos _ f held

/-- Nobody else relies on a file whose only reference is that of `t`, or of an entry that `t` has
just stored or is about to clear in `exit`. -/
theorem untouched {t : T} (one : s.ref f = 1) (h : FdHolder T P) (held : ptr h = some f)
    (owner : (∃ b, h = .inr (t,b)) ∨ ∃ fd, h = .inl (proc t,fd) ∧
      ((s.pc t).opening = some (fd,f) ∨ ∃ n, (s.pc t).exitAt = some n)) (u : T) (other : u ≠ t) : ¬ s.Touches u f := by
  intro touches
  have only : Refs.count ptr f = 1 := by
    have exact := acc.counts f
    rw [one] at exact
    omega
  rcases usable.holder tables acc touches with ⟨b,mine⟩ | ⟨fd,mine,reason⟩
  · have same := Refs.count_one ptr f only _ _ mine held
    rcases owner with ⟨b',rfl⟩ | ⟨fd,rfl,_⟩
    · exact other (by simpa using congrArg (fun x => x.elim (fun _ => u) Prod.fst) same)
    · contradiction
  · have same := Refs.count_one ptr f only _ _ mine held
    rcases owner with ⟨b',rfl⟩ | ⟨fd',rfl,cause⟩
    · contradiction
    · simp only [Sum.inl.injEq,Prod.mk.injEq] at same
      obtain ⟨sibling,rfl⟩ := same
      have alive : (s.pc u).isGone = false := by
        rcases reason with uses | opening
        · exact (FdPc.uses_idle uses).2.1
        · exact (FdPc.opening_claims opening).2.2.1
      rcases cause with opening | ⟨n,exits⟩
      · obtain ⟨claims,busy,_⟩ := FdPc.opening_claims opening
        rcases reason with uses | also
        · exact usable.claims t u other.symm sibling.symm _ uses fd claims rfl
        · have idle := usable.apart t u other.symm sibling.symm busy
          simp [(FdPc.opening_claims also).2.1] at idle
      · have gone := ((tables.stands t).exits n exits).1 u other sibling
        simp [gone,FdPc.isGone] at alive

theorem unowned {t : T}
    (busy : (s.pc t).busy = true) (held : ptr (.inl (proc t,fd)) = some f) (u : T) (other : u ≠ t) :
    f ∉ (s.pc u).owns := by
  intro owns
  have one := (usable.relies u).owns f owns
  have only : Refs.count ptr f = 1 := by
    have exact := acc.counts f
    rw [one] at exact
    omega
  rcases usable.holder tables acc (.inr (.inr owns)) with ⟨b,mine⟩ | ⟨fd',mine,reason⟩
  · have same := Refs.count_one ptr f only _ _ mine held
    contradiction
  · have same := Refs.count_one ptr f only _ _ mine held
    simp only [Sum.inl.injEq,Prod.mk.injEq] at same
    rcases reason with uses | opening
    · simp [(FdPc.uses_idle uses).2.2.1] at owns
    · have idle := usable.apart t u other.symm same.1.symm busy
      simp [(FdPc.opening_claims opening).2.1] at idle

end

end FdState.Usable

namespace FdState
variable {T P : Type} [DecidableEq T] {proc : T → P} {s s' : FdState T P}

theorem Usable.goes (usable : s.Usable proc) (t : T) (c : FdPc T P) (pcs : s'.pc = update s.pc t c)
    (suits : s.Suits proc t c) (mine : s'.Relies proc t c) (others : ∀ u, u ≠ t → s'.Relies proc u (s.pc u))
    (typed : s'.Typed proc) (idle : ∀ f, s'.ref f < 1 → (s'.file f).type = .none)
    (panic : s'.panic ≠ some .fileread ∧ s'.panic ≠ some .filewrite) : s'.Usable proc := by
  have here : s'.pc t = c := by rw [pcs,update_self]
  have there (u : T) (other : u ≠ t) : s'.pc u = s.pc u := by rw [pcs,update_of_ne other]
  have outside (u : T) (other : u ≠ t) (sibling : proc u = proc t) (now : c.busy = true) :
      (s.pc u).busy = false := by
    rcases suits.busy now with before | free
    · exact usable.apart t u other.symm sibling.symm before
    · exact free u other sibling
  refine ⟨?_,?_,?_,typed,idle,panic⟩
  · intro u w distinct sibling inside
    by_cases first : u = t
    · subst first
      rw [here] at inside
      rw [there w distinct.symm]
      exact outside w distinct.symm sibling.symm inside
    · rw [there u first] at inside
      by_cases second : w = t
      · subst second
        rw [here]
        cases now : c.busy with
        | false => rfl
        | true => simp [outside u first sibling now] at inside
      · rw [there w second]
        exact usable.apart u w distinct sibling inside
  · intro u w distinct sibling x used fd claimed
    by_cases first : u = t
    · subst first
      rw [here] at claimed
      rw [there w distinct.symm] at used
      exact suits.claims fd claimed w distinct.symm sibling.symm x used
    · rw [there u first] at claimed
      by_cases second : w = t
      · subst second
        rw [here] at used
        exact suits.uses x used u first sibling fd claimed
      · rw [there w second] at used
        exact usable.claims u w distinct sibling x used fd claimed
  · intro u
    by_cases first : u = t
    · rw [first,here]
      exact mine
    · rw [there u first]
      exact others u first

theorem Typed.keep (typed : s.Typed proc) (t : T) (c : FdPc T P) (pcs : s'.pc = update s.pc t c)
    (ofile : s'.ofile = s.ofile) (types : ∀ f, (s.file f).type ≠ .none → (s'.file f).type ≠ .none)
    (opens : ∀ x ∈ (s.pc t).opens, (s'.file x.2).type ≠ .none)
    (counted : ∀ fd ∈ (s.pc t).uncounted, c.uncounted = some fd ∨
      ∀ f, s.ofile (proc t) fd = some f → (s'.file f).type ≠ .none) : s'.Typed proc := by
  intro p fd f entry free
  rw [ofile] at entry
  by_cases before : ∀ u, proc u = p → (s.pc u).uncounted ≠ some fd
  · rcases typed p fd f entry before with done | ⟨u,member,opening⟩
    · exact .inl (types f done)
    · by_cases here : u = t
      · subst here
        exact .inl (opens _ opening)
      · refine .inr ⟨u,member,?_⟩
        rw [pcs,update_of_ne here]
        exact opening
  · simp only [not_forall,not_not] at before
    obtain ⟨u,member,uncounted⟩ := before
    by_cases here : u = t
    · subst here
      subst member
      rcases counted fd uncounted with still | typed'
      · exact absurd (by rw [pcs,update_self]; exact still) (free u rfl)
      · exact .inl (typed' f entry)
    · refine absurd ?_ (free u member)
      rw [pcs,update_of_ne here]
      exact uncounted

theorem Usable.refiles (usable : s.Usable proc) (t : T) (c : FdPc T P) (pcs : s'.pc = update s.pc t c)
    (ofile : s'.ofile = s.ofile)
    (files : ∀ u, u ≠ t → ∀ f, s.Touches u f → (s'.file f).type = (s.file f).type ∧ (s'.file f).pipe = (s.file f).pipe)
    (refs : ∀ u, u ≠ t → ∀ f ∈ (s.pc u).owns, s'.ref f = s.ref f)
    (suits : s.Suits proc t c) (mine : s'.Relies proc t c) (types : ∀ f, (s.file f).type ≠ .none → (s'.file f).type ≠ .none)
    (opens : ∀ x ∈ (s.pc t).opens, (s'.file x.2).type ≠ .none)
    (counted : ∀ fd ∈ (s.pc t).uncounted, c.uncounted = some fd ∨
      ∀ f, s.ofile (proc t) fd = some f → (s'.file f).type ≠ .none)
    (idle : ∀ f, s'.ref f < 1 → (s'.file f).type = .none) (panic : s'.panic = none) : s'.Usable proc := by
  refine usable.goes t c pcs suits mine ?_ (usable.typed.keep t c pcs ofile types opens counted) idle
    (by rw [panic]; exact ⟨nofun,nofun⟩)
  intro u other
  exact (usable.relies u).keep (files u other) (refs u other) (fun _ _ => by rw [ofile]) (fun _ _ => by rw [ofile])

theorem Usable.walks (usable : s.Usable proc) {t : T} {c₀ c : FdPc T P} (place : s.pc t = c₀) (panic : s'.panic = none)
    (pcs : s'.pc = update s.pc t c) (suits : s.Suits proc t c) (mine : s.Relies proc t c)
    (opens : c₀.opens = none := by rfl) (counted : ∀ fd ∈ c₀.uncounted, c.uncounted = some fd := by exact none_all)
    (ofile : s'.ofile = s.ofile := by rfl) (file : s'.file = s.file := by rfl) : s'.Usable proc := by
  subst place
  have refs : s'.ref = s.ref := by
    funext f
    unfold ref
    rw [file]
  refine usable.refiles t c pcs ofile (fun _ _ f _ => by rw [file]; exact ⟨rfl,rfl⟩) (fun _ _ f _ => by rw [refs])
    suits ?_ (fun f typed => by rwa [file]) (by simp [opens]) (fun fd member => .inl (counted fd member))
    (fun f low => by rw [file]; exact usable.idle f (by rwa [refs] at low)) panic
  exact ⟨by rw [ofile,file]; exact mine.uses,by rw [file]; exact mine.pipes,by rw [file]; exact mine.ready,
    by rw [refs]; exact mine.owns,by rw [ofile]; exact mine.opening,by rw [file]; exact mine.opened⟩

theorem Usable.rests (usable : s.Usable proc) {t : T} {c₀ c : FdPc T P} (place : s.pc t = c₀) (panic : s'.panic = none)
    (pcs : s'.pc = update s.pc t c := by rfl) (detached : c.Detached := by exact ⟨rfl,rfl,rfl,rfl,rfl⟩)
    (opens : c₀.opens = none := by rfl) (counted : ∀ fd ∈ c₀.uncounted, c.uncounted = some fd := by exact none_all)
    (ofile : s'.ofile = s.ofile := by rfl) (file : s'.file = s.file := by rfl) : s'.Usable proc :=
  usable.walks place panic pcs (.detached detached) (.detached detached) opens counted ofile file

end FdState

end Kthreads
