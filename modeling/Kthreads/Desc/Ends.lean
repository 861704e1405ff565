import Kthreads.Pipe.Wakeup
import Kthreads.Desc.Lifetime

/-! Pipes live as long as their files. Each end of a pipe belongs to one file, or to the thread that
has taken the last reference away and is about to call `pipeclose`. -/
open Function

namespace Kthreads

namespace PipeState
variable {T P : Type} (p : PipeState T P)

def ends : Bool × Bool × Bool := (p.readopen,p.writeopen,p.freed)

def isOpen (writable : Bool) : Bool := if writable then p.writeopen else p.readopen

variable {p} [DecidableEq T] {proc : T → P}

theorem piperead_ends (t : T) (n : Int) : (p.piperead proc t n).ends = p.ends := by
  unfold piperead
  split
  · split <;> rfl
  · obtain ⟨same,_⟩ := copy_drained p n.toNat
    generalize p.copy n.toNat = m at same
    obtain ⟨readopen,writeopen,freed,_⟩ := by simpa only [Prod.mk.injEq] using same
    simp [ends,goto,wakeWriters,readopen,writeopen,freed]

theorem writeFrom_ends (t : T) (addr : Nat → Byte) (n : Int) (i : Nat) :
    (p.writeFrom proc t addr n i).ends = p.ends := by
  obtain ⟨k,_,_,fed,_⟩ := fill_fed p t addr (n.toNat-i) i
  obtain ⟨readopen,writeopen,freed,_⟩ := by simpa only [Prod.mk.injEq] using fed.rest
  unfold writeFrom
  simp only
  generalize p.fill t addr (n.toNat-i) i = m at *
  split
  · split
    · simp [ends,writeReturn,goto,readopen,writeopen,freed]
    · simp [ends,goto,wakeReaders,readopen,writeopen,freed]
  · simp [ends,writeReturn,goto,wakeReaders,readopen,writeopen,freed]

theorem call_ends [DecidableEq P] {p' : PipeState T P} (t : T) (a : PipeAction T P)
    (calls : a = .resume t ∨ ∃ call : PipeCall, a = call.action t) (taken : pipeStep proc p a = some p') :
    p'.ends = p.ends := by
  unfold pipeStep at taken
  split at taken
  · contradiction
  · rcases calls with rfl | ⟨call,rfl⟩
    · simp only at taken
      split at taken <;> cases taken
      · exact piperead_ends t _
      · exact writeFrom_ends t _ _ _
    · cases call with
      | read n =>
        simp only [PipeCall.action,Option.ite_none_left_eq_some,Option.some.injEq] at taken
        obtain ⟨_,rfl⟩ := taken
        exact piperead_ends t n
      | write addr n =>
        simp only [PipeCall.action,Option.ite_none_left_eq_some,Option.some.injEq] at taken
        obtain ⟨_,rfl⟩ := taken
        exact writeFrom_ends t addr n 0

omit [DecidableEq T] in
theorem pipeclose_isOpen (w v : Bool) : (p.pipeclose w).isOpen v = (p.isOpen v && (v != w)) := by
  unfold pipeclose
  cases w <;> cases v <;> simp [isOpen,wakeReaders,wakeWriters] <;> split <;> simp_all

omit [DecidableEq T] in
theorem pipeclose_freed (w : Bool) (freed : (p.pipeclose w).freed = true) :
    p.freed = true ∨ ∀ v, (p.pipeclose w).isOpen v = false := by
  unfold pipeclose at freed ⊢
  simp only at freed ⊢
  generalize closing : (if w then {p with writeopen := false}.wakeReaders
    else {p with readopen := false}.wakeWriters : PipeState T P) = m at freed ⊢
  split at freed
  next closed =>
    rw [if_pos closed]
    refine .inr ?_
    intro v
    cases v
    · exact closed.1
    · exact closed.2
  next =>
    left
    rw [← closing] at freed
    cases w <;> exact freed

end PipeState

section Pending
variable {T P : Type}

def FdPc.pending : FdPc T P → Option (Nat × Bool)
  | .closing ff _ => if ff.type = .pipe then some (ff.pipe,ff.writable) else none
  | _ => none

variable {proc : T → P} {s : FdState T P} {t : T} {a : FdAction T P} {c₀ c : FdPc T P}

theorem FdMoves.pending (moves : FdMoves proc s t a c₀ c) : c.pending = none := by
  rcases moves with ⟨⟨⟩⟩ <;> rfl

end Pending

namespace FdState
variable {T P : Type} (s : FdState T P)

def endOf : FileIx ⊕ T → Option (Nat × Bool)
  | .inl f => if (s.file f).type = .pipe then some ((s.file f).pipe,(s.file f).writable) else none
  | .inr t => (s.pc t).pending

structure PipeEnds : Prop where
  distinct : ∀ x y e, s.endOf x = some e → s.endOf y = some e → x = y
  known : ∀ x e, s.endOf x = some e → e.1 < s.npipes
  isOpen : ∀ x e, s.endOf x = some e → (s.pipe e.1).isOpen e.2 = true
  freed : ∀ k, (s.pipe k).freed = true → ∀ w, (s.pipe k).isOpen w = false

variable {s} {s' : FdState T P}

theorem PipeEnds.alive (ends : s.PipeEnds) (f : FileIx) (pipe : (s.file f).type = .pipe) :
    (s.pipe (s.file f).pipe).freed = false := by
  cases freed : (s.pipe (s.file f).pipe).freed with
  | false => rfl
  | true =>
    have isOpen := ends.isOpen (.inl f) ((s.file f).pipe,(s.file f).writable) (by simp [endOf,pipe])
    rw [ends.freed _ freed] at isOpen
    contradiction

theorem isOpen_ends {p p' : PipeState T P} (same : p'.ends = p.ends) (w : Bool) :
    p'.isOpen w = p.isOpen w ∧ p'.freed = p.freed := by
  simp only [PipeState.ends,Prod.mk.injEq] at same
  cases w <;> simp [PipeState.isOpen,same]

theorem PipeEnds.renames (ends : s.PipeEnds) (σ : FileIx ⊕ T → FileIx ⊕ T) (inj : Injective σ)
    (held : ∀ x e, s'.endOf x = some e → s.endOf (σ x) = some e) (npipes : s'.npipes = s.npipes)
    (same : ∀ k, (s'.pipe k).ends = (s.pipe k).ends) : s'.PipeEnds := by
  refine ⟨?_,?_,?_,?_⟩
  · intro x y e first second
    exact inj (ends.distinct _ _ e (held x e first) (held y e second))
  · intro x e member
    rw [npipes]
    exact ends.known _ e (held x e member)
  · intro x e member
    rw [(isOpen_ends (same e.1) e.2).1]
    exact ends.isOpen _ e (held x e member)
  · intro k freed w
    rw [(isOpen_ends (same k) w).2] at freed
    rw [(isOpen_ends (same k) w).1]
    exact ends.freed k freed w

variable [DecidableEq T]

section
variable (ends : s.PipeEnds)
include ends

theorem PipeEnds.walks (t : T) (c : FdPc T P) (pcs : s'.pc = update s.pc t c) (pending : c.pending = none)
    (files : ∀ f, (s'.file f).type = .pipe → (s.file f).type = .pipe ∧ (s'.file f).pipe = (s.file f).pipe ∧
      (s'.file f).writable = (s.file f).writable)
    (npipes : s'.npipes = s.npipes) (same : ∀ k, (s'.pipe k).ends = (s.pipe k).ends) : s'.PipeEnds := by
  refine ends.renames id injective_id ?_ npipes same
  intro x e member
  cases x with
  | inl f =>
    simp only [endOf,Option.ite_none_right_eq_some,Option.some.injEq] at member
    obtain ⟨pipe,rfl⟩ := member
    obtain ⟨before,number,writable⟩ := files f pipe
    simp [endOf,before,number,writable]
  | inr u =>
    by_cases here : u = t
    · subst here
      simp [endOf,pcs,pending] at member
    · simp only [endOf,pcs,update_of_ne here] at member
      exact member

theorem PipeEnds.stays {t : T} {c : FdPc T P} (pcs : s'.pc = update s.pc t c := by rfl)
    (pending : c.pending = none := by rfl) (file : s'.file = s.file := by rfl) (npipes : s'.npipes = s.npipes := by rfl)
    (same : ∀ k, (s'.pipe k).ends = (s.pipe k).ends := by exact fun _ => rfl) : s'.PipeEnds :=
  ends.walks t c pcs pending (fun f typed => by rw [file] at typed ⊢; exact ⟨typed,rfl,rfl⟩) npipes same

theorem PipeEnds.recounts (t : T) (c : FdPc T P) (f : FileIx) (r : Int)
    (pending : c.pending = none := by rfl) : ((s.setRef f r).goto t c).PipeEnds := by
  refine ends.walks t c rfl pending ?_ rfl (fun _ => rfl)
  intro g pipe
  by_cases here : g = f
  · subst here
    simpa [goto,setRef,setFile] using pipe
  · simpa [goto,setRef,setFile,here] using pipe

theorem PipeEnds.fileclose (t : T) (f : FileIx) (after : FdAfter) : (s.fileclose t f after).PipeEnds := by
  have idle (c : FdPc T P) (next : c = after.next) : c.pending = none := by
    subst next
    cases after <;> rfl
  unfold FdState.fileclose
  simp only
  split
  · exact ends.renames id injective_id (fun _ _ => id) rfl (fun _ => rfl)
  · split
    · exact ends.recounts t _ f _ (idle _ rfl)
    · refine ends.renames (Equiv.swap (.inl f) (.inr t)) (Equiv.injective _) ?_ rfl (fun _ => rfl)
      intro x e member
      cases x with
      | inl g =>
        by_cases here : g = f
        · subst here
          simp [endOf,goto,setFile] at member
        · rw [Equiv.swap_apply_of_ne_of_ne (by simpa using here) (by simp)]
          simpa [endOf,goto,setFile,here] using member
      | inr u =>
        by_cases here : u = t
        · subst here
          rw [Equiv.swap_apply_right]
          simpa [endOf,goto,FdPc.pending] using member
        · rw [Equiv.swap_apply_of_ne_of_ne (by simp) (by simpa using here)]
          simpa [endOf,goto,setFile,here] using member

theorem PipeEnds.closeRest {t : T} {ff : File} {after : FdAfter}
    (place : s.pc t = .closing ff after) : (s.closeRest t ff after).PipeEnds := by
  have idle : (after.next : FdPc T P).pending = none := by
    cases after <;> rfl
  unfold FdState.closeRest
  split
  next pipe =>
    have mine : s.endOf (.inr t) = some (ff.pipe,ff.writable) := by simp [endOf,place,FdPc.pending,pipe]
    -- The other holders have other ends.
    have others (x : FileIx ⊕ T) (e : Nat × Bool) (member : ((s.setPipe ff.pipe ((s.pipe ff.pipe).pipeclose
        ff.writable)).goto t after.next).endOf x = some e) : s.endOf x = some e ∧ e ≠ (ff.pipe,ff.writable) := by
      have before : s.endOf x = some e ∧ x ≠ .inr t := by
        cases x with
        | inl f => exact ⟨member,nofun⟩
        | inr u =>
          by_cases here : u = t
          · subst here
            simp [endOf,goto,idle] at member
          · exact ⟨by simpa [endOf,goto,setPipe,here] using member,by simpa using here⟩
      refine ⟨before.1,?_⟩
      rintro rfl
      exact before.2 (ends.distinct _ _ _ before.1 mine)
    refine ⟨?_,?_,?_,?_⟩
    · intro x y e first second
      exact ends.distinct _ _ e (others x e first).1 (others y e second).1
    · intro x e member
      exact ends.known x e (others x e member).1
    · rintro x ⟨k,w⟩ member
      obtain ⟨before,other⟩ := others x _ member
      have isOpen := ends.isOpen x _ before
      simp only [goto,setPipe]
      by_cases here : k = ff.pipe
      · subst here
        have away : w ≠ ff.writable := fun same => other (by rw [same])
        simp only at isOpen
        rw [update_self,PipeState.pipeclose_isOpen,isOpen]
        simpa using away
      · rw [update_of_ne here]
        exact isOpen
    · intro k freed w
      simp only [goto,setPipe] at freed ⊢
      by_cases here : k = ff.pipe
      · subst here
        rw [update_self] at freed ⊢
        rcases PipeState.pipeclose_freed ff.writable freed with before | closed
        · rw [PipeState.pipeclose_isOpen,ends.freed _ before w]
          rfl
        · exact closed w
      · rw [update_of_ne here] at freed ⊢
        exact ends.freed k freed w
  next => exact ends.stays rfl idle

theorem PipeEnds.pipeFill (t : T) (rf wf : FileIx) :
    ((s.pipeFill rf wf).goto t (.fdRead rf 0 (.pipeRead wf))).PipeEnds := by
  have pipes (k : Nat) (old : k ≠ s.npipes) :
      ((s.pipeFill rf wf).goto t (.fdRead rf 0 (.pipeRead wf))).pipe k = s.pipe k := by
    simp [goto,FdState.pipeFill,setFile,old]
  have held (x : FileIx ⊕ T) (e : Nat × Bool)
      (member : ((s.pipeFill rf wf).goto t (.fdRead rf 0 (.pipeRead wf))).endOf x = some e) :
      (e = (s.npipes,true) ∧ x = .inl wf) ∨ (e = (s.npipes,false) ∧ x = .inl rf) ∨
        (s.endOf x = some e ∧ e.1 < s.npipes) := by
    cases x with
    | inl f =>
      by_cases second : f = wf
      · subst second
        simp [endOf,goto,FdState.pipeFill,setFile] at member
        exact .inl ⟨member.symm,rfl⟩
      · by_cases first : f = rf
        · subst first
          simp [endOf,goto,FdState.pipeFill,setFile,second] at member
          exact .inr (.inl ⟨member.symm,rfl⟩)
        · have before : s.endOf (.inl f) = some e := by
            simpa [endOf,goto,FdState.pipeFill,setFile,first,second] using member
          exact .inr (.inr ⟨before,ends.known _ e before⟩)
    | inr u =>
      by_cases here : u = t
      · subst here
        simp [endOf,goto,FdPc.pending] at member
      · have before : s.endOf (.inr u) = some e := by
          simpa [endOf,goto,FdState.pipeFill,setFile,here] using member
        exact .inr (.inr ⟨before,ends.known _ e before⟩)
  refine ⟨?_,?_,?_,?_⟩
  · intro x y e first second
    rcases held x e first with ⟨rfl,rfl⟩ | ⟨rfl,rfl⟩ | ⟨before,old⟩
    · rcases held y _ second with ⟨_,rfl⟩ | ⟨other,_⟩ | ⟨_,old⟩
      · rfl
      · simp at other
      · simp at old
    · rcases held y _ second with ⟨other,_⟩ | ⟨_,rfl⟩ | ⟨_,old⟩
      · simp at other
      · rfl
      · simp at old
    · rcases held y e second with ⟨rfl,_⟩ | ⟨rfl,_⟩ | ⟨also,_⟩
      · simp at old
      · simp at old
      · exact ends.distinct x y e before also
  · intro x e member
    have more : ((s.pipeFill rf wf).goto t (.fdRead rf 0 (.pipeRead wf))).npipes = s.npipes+1 := rfl
    rw [more]
    rcases held x e member with ⟨rfl,_⟩ | ⟨rfl,_⟩ | ⟨_,old⟩
    · exact Nat.lt_succ_self _
    · exact Nat.lt_succ_self _
    · omega
  · intro x e member
    rcases held x e member with ⟨rfl,_⟩ | ⟨rfl,_⟩ | ⟨before,old⟩
    · simp [goto,FdState.pipeFill,setFile,PipeState.alloc,PipeState.isOpen]
    · simp [goto,FdState.pipeFill,setFile,PipeState.alloc,PipeState.isOpen]
    · rw [pipes e.1 (by omega)]
      exact ends.isOpen x e before
  · intro k freed w
    by_cases new : k = s.npipes
    · subst new
      simp [goto,FdState.pipeFill,setFile,PipeState.alloc] at freed
    · rw [pipes k new] at freed ⊢
      exact ends.freed k freed w

end

variable {proc : T → P}

theorem PipeEnds.filedup (ends : s.PipeEnds) (t : T) (f : FileIx) (c : FdPc T P) (pending : c.pending = none) :
    (s.filedup t f c).PipeEnds := by
  unfold FdState.filedup
  split
  · exact ends.renames id injective_id (fun _ _ => id) rfl (fun _ => rfl)
  · exact ends.recounts t c f _ pending

variable [DecidableEq P]

theorem PipeEnds.pipeRun (ends : s.PipeEnds) {t : T} {c : FdPc T P} {k : Nat} {p : PipeState T P} (a : PipeAction T P)
    (calls : a = .resume t ∨ ∃ call : PipeCall, a = call.action t)
    (moved : pipeStep proc {s.pipe k with killed := s.killed} a = some p) (pending : c.pending = none) :
    ((s.setPipe k p).goto t c).PipeEnds := by
  have same := PipeState.call_ends t a calls moved
  refine ends.stays rfl pending rfl rfl ?_
  intro j
  by_cases here : j = k
  · subst here
    simp only [goto,setPipe,update_self]
    exact same
  · simp only [goto,setPipe,update_of_ne here]

theorem PipeEnds.step [Fintype T] (ends : s.PipeEnds) (usable : s.Usable proc) {a : FdAction T P}
    (taken : fdStep proc s a = some s') : s'.PipeEnds := by
  obtain ⟨_,steps⟩ := fdStep_cases taken
  cases steps with
  | same => exact ends
  | kill | readPanics | writePanics => exact ends.renames id injective_id (fun _ _ => id) rfl (fun _ => rfl)
  | moves _ moves => exact ends.stays rfl moves.pending
  | dup | close | fork | exit | create | fdEmpty | fdNext | fdUndo | closeEntry | pipeUndo | forkNext | forkEntry
  | forkStore | exitNext | exitEntry | exitDone | exitClear | openDies => exact ends.stays
  | @fdStore t _ f fd use => cases use <;> exact ends.stays
  | @forkDone t =>
    have mid : (s.goto t .user).PipeEnds := ends.stays
    exact mid.stays
  | openAlloc | pipeFirst | pipeSecond => exact ends.recounts _ _ _ 1
  | pipeFill => exact ends.pipeFill _ _ _
  | @openEnd t _ fd f ip omode =>
    refine ends.walks t _ rfl rfl ?_ rfl (fun _ => rfl)
    intro g pipe
    by_cases here : g = f
    · simp [goto,setFile,here] at pipe
    · simpa [goto,setFile,here] using pipe
  | @openRest t _ fd f ip omode place =>
    have inode := (usable.relies t).opened f (by rw [place]; rfl)
    refine ends.walks t _ rfl rfl ?_ rfl (fun _ => rfl)
    intro g pipe
    by_cases here : g = f
    · simp [goto,setFile,here,inode] at pipe
    · simpa [goto,setFile,here] using pipe
  | dupCount | forkDup => exact ends.filedup _ _ _ rfl
  | fileclose => exact ends.fileclose _ _ _
  | closing place => exact ends.closeRest place
  | pipeEnter _ moved => exact ends.pipeRun _ (.inr ⟨_,rfl⟩) moved (by split <;> rfl)
  | pipeInside _ moved => exact ends.pipeRun _ (.inl rfl) moved (by split <;> rfl)
  | @pipeDies t fd f k =>
    refine ends.stays rfl rfl rfl rfl ?_
    intro j
    by_cases here : j = k
    · subst here
      simp [goto,setPipe,PipeState.ends,PipeState.goto]
    · simp [goto,setPipe,here]

theorem PipeEnds.boot [Fintype T] (t₀ : T) : (FdState.boot proc t₀ : FdState T P).PipeEnds := by
  have none_ (x : FileIx ⊕ T) : (FdState.boot proc t₀ : FdState T P).endOf x = none := by
    cases x with
    | inl f => simp [endOf,FdState.boot]
    | inr t =>
      simp only [endOf,FdState.boot]
      split <;> rfl
  refine ⟨?_,?_,?_,?_⟩
  · intro x y e member
    simp [none_] at member
  · intro x e member
    simp [none_] at member
  · intro x e member
    simp [none_] at member
  · intro k freed
    simp [FdState.boot,PipeState.alloc] at freed

end FdState

section Claims
variable {T P : Type} [Fintype T] [Fintype P] [DecidableEq T] [DecidableEq P]

instance (proc : T → P) (s : FdState T P) (a : FdAction T P) : Decidable (Undisturbed proc s a) :=
  inferInstanceAs (Decidable (_ ∧ _ ∧ _))

/-- When no sibling disturbs them, calls read, write and ask about files that have a type and a
reference, `fileread` and `filewrite` do not reach their panics, and `piperead` and `pipewrite` are
inside of pipes that have not been freed. -/
theorem files_stay_usable (proc : T → P) (t₀ : T) {s : FdState T P}
    (reached : FdReaches proc (Undisturbed proc) t₀ s) :
    (∀ t fd f, (s.pc t).uses = some (fd,f) → (s.file f).type ≠ .none ∧ 1 ≤ s.ref f) ∧
    (∀ t f k, (s.pc t).pipes = some (f,k) → (s.pipe k).freed = false) ∧ s.panic = none := by
  have inv : s.Tables proc ∧ s.Exact proc ∧ s.Usable proc ∧ s.PipeEnds := by
    refine reached.invariant (fun s => s.Tables proc ∧ s.Exact proc ∧ s.Usable proc ∧ s.PipeEnds)
      ⟨.boot t₀,.boot t₀,.boot t₀,.boot t₀⟩ ?_
    intro before action after ⟨tables,exact,usable,ends⟩ allowed taken
    exact ⟨tables.step (allowed.exclusive proc) taken,exact.step tables taken,usable.step tables exact allowed taken,
      ends.step usable taken⟩
  obtain ⟨tables,⟨⟨ptr,acc⟩,dups,closes⟩,usable,ends⟩ := inv
  refine ⟨?_,?_,?_⟩
  · intro t fd f uses
    exact ⟨((usable.relies t).uses _ uses).2,usable.touches_ref tables acc (.inl ⟨fd,uses⟩)⟩
  · intro t f k pipes
    obtain ⟨pipe,number⟩ := (usable.relies t).pipes _ pipes
    have alive := ends.alive f pipe
    rwa [number] at alive
  · obtain ⟨reads,writes⟩ := usable.panic
    cases panic : s.panic with
    | none => rfl
    | some reason => cases reason <;> contradiction

end Claims

/-- A thread sleeps in `piperead`, and a sibling duplicates and closes another descriptor. -/
theorem files_stay_usable_pipe : ∃ s : FdState Bool Unit,
    FdReaches (fun _ => ()) (Undisturbed fun _ => ()) true s ∧ (s.pc false).pipes = some (0,0) ∧
    (s.pipe 0).freed = false := by
  obtain ⟨s,reached,inside⟩ := Interleave.play_shows (fdStep fun _ => ()) (Undisturbed fun _ => ())
    (FdState.boot (fun _ => ()) true)
    ([.start true (.create false),.start true .pipe] ++ goOn true 8 ++ [.start false (.read 0 1)] ++
      goOn false 2 ++ [.start true (.dup 1)] ++ goOn true 5 ++ [.start true (.close 1)] ++ goOn true 2)
    (fun s => (s.pc false).pipes = some (0,0)) (by decide +kernel)
  exact ⟨s,reached,inside,(files_stay_usable (fun _ => ()) true reached).2.1 false 0 0 inside⟩

/-- Two threads of a process. One reads from the descriptor that the other's `sys_open` has just
stored, in a file that was a readable one before: `fileread` panics. One sleeps in `piperead` while
the other closes both ends: it wakes up in a page that has been given back, and its file is free. -/
theorem file_used_after_close :
    (∃ s : FdState Bool Unit, FdReaches (fun _ => ()) (fun _ _ => True) true s ∧ s.panic = some .fileread) ∧
    ∃ s : FdState Bool Unit, FdReaches (fun _ => ()) (fun _ _ => True) true s ∧
      (s.pc false).uses = some (0,0) ∧ (s.file 0).type = .none ∧ s.ref 0 = 0 ∧
      (s.pc false).pipes = some (0,0) ∧ (s.pipe 0).freed = true ∧
      ((s.pipe 0).pc false).inside = true ∧ ((s.pipe 0).pc false).reading = none := by
  constructor
  · exact Interleave.play_shows _ _ _
      ([.start true (.create false),.start true (.open 0)] ++ goOn true 6 ++ [.start true (.close 0)] ++ goOn true 3 ++
        [.start true (.open 0)] ++ goOn true 4 ++ [.start false (.read 0 1)] ++ goOn false 1) _ (by decide +kernel)
  · exact Interleave.play_shows _ _ _
      ([.start true (.create false),.start true .pipe] ++ goOn true 8 ++ [.start false (.read 0 1)] ++ goOn false 2 ++
        [.start true (.close 1)] ++ goOn true 3 ++ [.start true (.close 0)] ++ goOn true 3) _ (by decide +kernel)

end Kthreads
