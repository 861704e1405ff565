import Kthreads.Cwd.Machine

/-! Who may look at `p->cwd` and who may replace it, when `sys_chdir` keeps apart from the lookups of
its siblings. -/
open Function

namespace Kthreads

section Places
variable {T P F : Type}

def CwdPc.moves : CwdPc T P F → Bool
  | .chdirDrop _ _ _ | .chdirStore _ _ => true
  | _ => false

def CwdPc.looks : CwdPc T P F → Bool
  | .chdirDrop _ _ _ | .chdirStore _ _ | .cwdDup _ _ | .forkDup _ _ _ => true
  | _ => false

def CwdPc.reads : CwdPc T P F → Option InoIx
  | .chdirDrop old _ _ => some old
  | .cwdDup e _ | .forkDup _ _ e | .exitDrop e => some e
  | _ => none

def CwdPc.exits : CwdPc T P F → Bool
  | .exitRead | .exitDrop _ | .exitStore => true
  | _ => false

def CwdPc.forks : CwdPc T P F → Option (P × T × Bool)
  | .forkRead np nt | .forkDup np nt _ | .forkStore np nt _ _ => some (np,nt,false)
  | .forkEnd np nt => some (np,nt,true)
  | _ => none

def CwdPc.dropped : CwdPc T P F → Bool
  | .chdirStore _ _ | .exitStore => true
  | _ => false

theorem CwdPc.isGone_eq {c : CwdPc T P F} (gone : c.isGone = true) : c = .gone := by
  cases c <;> first | contradiction | rfl

theorem CwdPc.moves_looks {c : CwdPc T P F} (moves : c.moves = true) :
    c.looks = true ∧ c.isGone = false ∧ c.exits = false := by
  cases c <;> first | contradiction | exact ⟨rfl,rfl,rfl⟩

theorem CwdPc.reads_looks {c : CwdPc T P F} {e : InoIx} (reads : c.reads = some e) :
    c.looks = true ∨ c.exits = true := by
  cases c <;> first | contradiction | exact .inl rfl | exact .inr rfl

theorem CwdPc.dropped_moves {c : CwdPc T P F} (dropped : c.dropped = true) : c.moves = true ∨ c.exits = true := by
  cases c <;> first | contradiction | exact .inl rfl | exact .inr rfl

end Places

section Guard
variable {T P F : Type}

def CwdAction.reader (s : CwdState T P F) : CwdAction T P F → Option T
  | .run t _ =>
    match s.pc t with
    | .cwdRead _ | .forkRead _ _ => some t
    | _ => none
  | _ => none

def CwdAction.mover (s : CwdState T P F) : CwdAction T P F → Option T
  | .run t _ =>
    match s.pc t with
    | .chdirRead _ _ => some t
    | _ => none
  | _ => none

/-- `sys_chdir` reads and replaces `p->cwd` only while no sibling relies on it, and no sibling reads it
meanwhile. -/
def CwdApart (proc : T → P) (s : CwdState T P F) (a : CwdAction T P F) : Prop :=
  (∀ t ∈ a.reader s, ∀ u, u ≠ t → proc u = proc t → (s.pc u).moves = false) ∧
  ∀ t ∈ a.mover s, ∀ u, u ≠ t → proc u = proc t → (s.pc u).looks = false

end Guard

namespace CwdState
variable {T P F : Type} (proc : T → P) (s : CwdState T P F)

structure Child (np : P) (nt : T) (set : Bool) : Prop where
  slot : s.slot np = .embryo
  thread : proc nt = np
  cwd : (s.cwd np).isSome = set

structure Places : Prop where
  apart : ∀ t u, t ≠ u → proc t = proc u → (s.pc t).moves = true → (s.pc u).looks = false
  knows : ∀ t e, (s.pc t).reads = some e → s.cwd (proc t) = some e
  exits : ∀ t, (s.pc t).exits = true → ∀ u, u ≠ t → proc u = proc t → s.pc u = .gone
  idle : ∀ p, s.slot p ≠ .used → (∀ t, proc t = p → s.pc t = .gone) ∧ (s.slot p = .unused → s.cwd p = none)
  used : ∀ p, s.slot p = .used → (s.cwd p).isSome = true
  forks : ∀ t x, (s.pc t).forks = some x → s.Child proc x.1 x.2.1 x.2.2
  forkers : ∀ t u, t ≠ u → ∀ x ∈ (s.pc t).forks, ∀ y ∈ (s.pc u).forks, x.1 ≠ y.1

variable {proc s} {s' : CwdState T P F}

theorem Places.running (places : s.Places proc) {t : T} (alive : (s.pc t).isGone = false) :
    s.slot (proc t) = .used := by
  by_contra other
  rw [(places.idle _ other).1 t rfl] at alive
  contradiction

theorem Places.stays (places : s.Places proc) {t : T} (alive : (s.pc t).isGone = false) (u : T) (other : u ≠ t)
    (sibling : proc u = proc t) : (s.pc u).exits = false := by
  cases exits : (s.pc u).exits with
  | false => rfl
  | true =>
    rw [places.exits u exits t other.symm sibling.symm] at alive
    contradiction

theorem Places.grown (places : s.Places proc) {t : T} (alive : (s.pc t).isGone = false) (u : T) (x : P × T × Bool)
    (forks : (s.pc u).forks = some x) : x.1 ≠ proc t := by
  intro same
  have embryo := (places.forks u x forks).slot
  rw [same,places.running alive] at embryo
  contradiction

theorem Places.changes (places : s.Places proc) (p : P) (pc : s'.pc = s.pc)
    (cwd : ∀ q, q ≠ p → s'.cwd q = s.cwd q) (slot : ∀ q, q ≠ p → s'.slot q = s.slot q)
    (quiet : ∀ t, proc t = p → (s.pc t).reads = none) (alone : ∀ t x, (s.pc t).forks = some x → x.1 ≠ p)
    (idle : s'.slot p ≠ .used → (∀ t, proc t = p → s.pc t = .gone) ∧ (s'.slot p = .unused → s'.cwd p = none))
    (used : s'.slot p = .used → (s'.cwd p).isSome = true) : s'.Places proc := by
  refine ⟨by rw [pc]; exact places.apart,?_,by rw [pc]; exact places.exits,?_,?_,?_,by rw [pc]; exact places.forkers⟩
  · intro t e reads
    rw [pc] at reads
    rw [cwd]
    · exact places.knows t e reads
    · intro here
      simp [quiet t here] at reads
  · intro q other
    rw [pc]
    by_cases here : q = p
    · subst here
      exact idle other
    · rw [slot q here] at other ⊢
      rw [cwd q here]
      exact places.idle q other
  · intro q now
    by_cases here : q = p
    · subst here
      exact used now
    · rw [slot q here] at now
      rw [cwd q here]
      exact places.used q now
  · intro t x forks
    rw [pc] at forks
    have child := places.forks t x forks
    have other := alone t x forks
    exact ⟨by rw [slot _ other]; exact child.slot,child.thread,by rw [cwd _ other]; exact child.cwd⟩

variable [DecidableEq T]

theorem Places.goes (places : s.Places proc) (t : T) (c : CwdPc T P F) (pcs : s'.pc = update s.pc t c)
    (cwd : s'.cwd = s.cwd) (slot : s'.slot = s.slot)
    (running : s.slot (proc t) = .used) (stays : ∀ u, u ≠ t → proc u = proc t → (s.pc u).exits = false)
    (moves : c.moves = true → (s.pc t).moves = true ∨ ∀ u, u ≠ t → proc u = proc t → (s.pc u).looks = false)
    (looks : c.looks = true → (s.pc t).looks = true ∨ ∀ u, u ≠ t → proc u = proc t → (s.pc u).moves = false)
    (reads : ∀ e ∈ c.reads, s.cwd (proc t) = some e)
    (exits : c.exits = true → ∀ u, u ≠ t → proc u = proc t → s.pc u = .gone)
    (forks : ∀ x ∈ c.forks, s.Child proc x.1 x.2.1 x.2.2)
    (forkers : ∀ x ∈ c.forks, ∀ u, u ≠ t → ∀ y ∈ (s.pc u).forks, x.1 ≠ y.1) : s'.Places proc := by
  have here : s'.pc t = c := by rw [pcs,update_self]
  have there (u : T) (other : u ≠ t) : s'.pc u = s.pc u := by rw [pcs,update_of_ne other]
  refine ⟨?_,?_,?_,?_,by rw [slot,cwd]; exact places.used,?_,?_⟩
  · intro u w distinct sibling now
    by_cases first : u = t
    · subst first
      rw [here] at now
      rw [there w distinct.symm]
      rcases moves now with before | free
      · exact places.apart u w distinct sibling before
      · exact free w distinct.symm sibling.symm
    · rw [there u first] at now
      by_cases second : w = t
      · subst second
        rw [here]
        cases also : c.looks with
        | false => rfl
        | true =>
          rcases looks also with before | free
          · have quiet := places.apart u w distinct sibling now
            rw [before] at quiet
            contradiction
          · have quiet := free u first sibling
            rw [now] at quiet
            contradiction
      · rw [there w second]
        exact places.apart u w distinct sibling now
  · intro u e member
    rw [cwd]
    by_cases first : u = t
    · subst first
      rw [here] at member
      exact reads e member
    · rw [there u first] at member
      exact places.knows u e member
  · intro u now w other sibling
    by_cases first : u = t
    · subst first
      rw [here] at now
      rw [there w other]
      exact exits now w other sibling
    · rw [there u first] at now
      by_cases second : w = t
      · subst second
        rw [stays u first sibling.symm] at now
        contradiction
      · rw [there w second]
        exact places.exits u now w other sibling
  · intro p other
    rw [slot] at other ⊢
    obtain ⟨gone,empty⟩ := places.idle p other
    refine ⟨?_,by rw [cwd]; exact empty⟩
    intro u member
    by_cases first : u = t
    · subst first
      rw [member] at running
      exact absurd running other
    · rw [there u first]
      exact gone u member
  · intro u x member
    have old : s.Child proc x.1 x.2.1 x.2.2 := by
      by_cases first : u = t
      · subst first
        rw [here] at member
        exact forks x member
      · rw [there u first] at member
        exact places.forks u x member
    exact ⟨by rw [slot]; exact old.slot,old.thread,by rw [cwd]; exact old.cwd⟩
  · intro u w distinct x first y second
    by_cases left : u = t
    · subst left
      rw [here] at first
      rw [there w distinct.symm] at second
      exact forkers x first w distinct.symm y second
    · rw [there u left] at first
      by_cases right : w = t
      · subst right
        rw [here] at second
        exact (forkers y second u left x first).symm
      · rw [there w right] at second
        exact places.forkers u w distinct x first y second

theorem Places.rests (places : s.Places proc) {t : T} {c₀ c : CwdPc T P F} (place : s.pc t = c₀)
    (pcs : s'.pc = update s.pc t c := by rfl) (alive : c₀.isGone = false := by rfl)
    (quiet : c.looks = false := by rfl) (reads : c.reads = none := by rfl) (stay : c.exits = false := by rfl)
    (forks : c.forks = none := by rfl) (cwd : s'.cwd = s.cwd := by rfl) (slot : s'.slot = s.slot := by rfl) :
    s'.Places proc := by
  subst place
  refine places.goes t c pcs cwd slot (places.running alive) (places.stays alive) ?_ (by simp [quiet]) (by simp [reads])
    (by simp [stay]) (by simp [forks]) (by simp [forks])
  intro now
  simp [(CwdPc.moves_looks now).1] at quiet

theorem Places.turns (places : s.Places proc) {t : T} {c₀ c : CwdPc T P F} (place : s.pc t = c₀)
    (pcs : s'.pc = update s.pc t c) (reads : ∀ e ∈ c.reads, s.cwd (proc t) = some e)
    (looks : c.looks = true → c₀.looks = true ∨ ∀ u, u ≠ t → proc u = proc t → (s.pc u).moves = false)
    (moves : c.moves = true → c₀.moves = true ∨ ∀ u, u ≠ t → proc u = proc t → (s.pc u).looks = false)
    (alive : c₀.isGone = false := by rfl) (forks : c.forks = c₀.forks := by rfl) (exits : c.exits = c₀.exits := by rfl)
    (cwd : s'.cwd = s.cwd := by rfl) (slot : s'.slot = s.slot := by rfl) : s'.Places proc := by
  subst place
  refine places.goes t c pcs cwd slot (places.running alive) (places.stays alive) moves looks reads ?_ ?_ ?_
  · rw [exits]
    exact places.exits t
  · rw [forks]
    exact places.forks t
  · intro x member u other
    rw [forks] at member
    exact places.forkers t u other.symm x member

@[simp] theorem goto_pc (t : T) (c : CwdPc T P F) : (s.goto t c).pc = update s.pc t c := rfl

@[simp] theorem goto_cwd (t : T) (c : CwdPc T P F) : (s.goto t c).cwd = s.cwd := rfl

@[simp] theorem goto_slot (t : T) (c : CwdPc T P F) : (s.goto t c).slot = s.slot := rfl

omit [DecidableEq T] in
theorem iget_rest {inum : Nat} {e : InoIx} (found : s.iget inum = some (e,s')) :
    s'.pc = s.pc ∧ s'.cwd = s.cwd ∧ s'.slot = s.slot ∧ s'.setTo = s.setTo ∧ s'.file = s.file := by
  unfold iget at found
  split at found
  · simp only [Option.some.injEq,Prod.mk.injEq] at found
    rw [← found.2]
    exact ⟨rfl,rfl,rfl,rfl,rfl⟩
  · split at found
    · simp only [Option.some.injEq,Prod.mk.injEq] at found
      rw [← found.2]
      exact ⟨rfl,rfl,rfl,rfl,rfl⟩
    · contradiction

theorem Places.igetThen (places : s.Places proc) (t : T) (inum : Nat) (c : InoIx → CwdPc T P F)
    (alive : (s.pc t).isGone = false)
    (rests : ∀ e, (c e).looks = false ∧ (c e).reads = none ∧ (c e).exits = false ∧ (c e).forks = none) :
    (s.igetThen t inum c).Places proc := by
  unfold CwdState.igetThen
  split
  next e s' found =>
    obtain ⟨pc,cwd,slot,-⟩ := iget_rest found
    obtain ⟨looks,reads,exits,forks⟩ := rests e
    exact places.rests rfl (by rw [goto_pc,pc]) alive looks reads exits forks cwd slot
  next =>
    refine ⟨places.apart,places.knows,places.exits,places.idle,places.used,?_,places.forkers⟩
    intro u x forks
    have child := places.forks u x forks
    exact ⟨child.slot,child.thread,child.cwd⟩

variable [DecidableEq P] [DecidableEq F]

theorem Places.enter [Fintype T] (places : s.Places proc) (t : T) (call : CwdCall T P F) (user : s.pc t = .user)
    (step : s.enter proc t call = some s') : s'.Places proc := by
  have alive : (s.pc t).isGone = false := by rw [user]; rfl
  cases call with
  | lookup absolute use =>
    simp only [CwdState.enter] at step
    split at step
    · cases step
      exact places.igetThen t rootIno _ alive fun _ => ⟨rfl,rfl,rfl,rfl⟩
    · cases step
      exact places.rests user
  | close k =>
    simp only [CwdState.enter] at step
    split at step
    · contradiction
    · cases step
      exact places.rests user
  | fork np nt =>
    simp only [CwdState.enter] at step
    split at step
    next free =>
      cases step
      obtain ⟨unused,thread⟩ := free
      obtain ⟨gone,empty⟩ := places.idle np (by rw [unused]; simp)
      have embryo : {s with slot := update s.slot np .embryo}.Places proc := by
        refine places.changes np rfl (fun _ _ => rfl) (fun _ other => update_of_ne other ..) ?_ ?_ ?_ ?_
        · intro u member
          rw [gone u member]
          rfl
        · rintro u x forks rfl
          have child := (places.forks u x forks).slot
          rw [unused] at child
          contradiction
        · intro _
          exact ⟨gone,fun now => by simp at now⟩
        · intro now
          simp at now
      refine embryo.goes t _ rfl rfl rfl (embryo.running alive) (embryo.stays alive) nofun
        nofun nofun nofun ?_ ?_
      · rintro x ⟨⟩
        exact ⟨update_self ..,thread,by simp [empty unused]⟩
      · rintro x ⟨⟩ u - y other same
        have child := (places.forks u y other).slot
        rw [← same,unused] at child
        contradiction
    next => contradiction
  | exit =>
    simp only [CwdState.enter] at step
    split at step
    next over' =>
      cases step
      exact places.goes t _ rfl rfl rfl (places.running alive) (places.stays alive) nofun
        nofun nofun
        (fun _ u other sibling => CwdPc.isGone_eq (over' u other sibling)) nofun
        nofun
    next => contradiction
  | create u =>
    simp only [CwdState.enter] at step
    split at step
    next free =>
      cases step
      have running := places.running alive
      rw [← free.1] at running
      refine places.goes u _ rfl rfl rfl running ?_ nofun nofun
        nofun nofun nofun nofun
      intro w _ sibling
      by_cases here : w = t
      · rw [here,user]
        rfl
      · exact places.stays alive w here (sibling.trans free.1)
    next => contradiction

omit [DecidableEq P] [DecidableEq F] in
theorem Places.others (places : s.Places proc) (t : T) {x : P × T × Bool} (forks : (s.pc t).forks = some x) (u : T)
    (y : P × T × Bool) (second : ((s.goto t .user).pc u).forks = some y) : y.1 ≠ x.1 := by
  by_cases here : u = t
  · simp [here,CwdPc.forks] at second
  · rw [goto_pc,update_of_ne here] at second
    exact (places.forkers t u (Ne.symm here) _ forks y second).symm

omit [DecidableEq T] [DecidableEq F] in
theorem Places.store (places : s.Places proc) (p : P) (e : InoIx) (i : Nat) (taken : s.slot p ≠ .unused)
    (quiet : ∀ t, proc t = p → (s.pc t).reads = none) (alone : ∀ t x, (s.pc t).forks = some x → x.1 ≠ p) :
    {s with cwd := update s.cwd p (some e), setTo := update s.setTo p i}.Places proc := by
  refine places.changes p rfl (fun _ other => update_of_ne other ..) (fun _ _ => rfl) quiet alone ?_ ?_
  · intro other
    exact ⟨(places.idle p other).1,fun unused => absurd unused taken⟩
  · intro _
    simp

theorem Places.code (places : s.Places proc) (t : T) (outcome : LookupStep) (apart : CwdApart proc s (.run t outcome))
    (step : s.code proc t outcome = some s') : s'.Places proc := by
  obtain ⟨reader,mover⟩ := apart
  simp only [CwdAction.reader,CwdAction.mover] at reader mover
  simp only [CwdState.code] at step
  cases place : s.pc t with
  | gone | user => simp [place] at step
  | cwdRead use | forkRead np nt =>
    rw [place] at step reader
    obtain ⟨e,cwd,rfl⟩ := Option.map_eq_some_iff.mp step
    refine places.turns place rfl ?_ (fun _ => .inr (reader t rfl)) nofun
    rintro _ ⟨⟩
    exact cwd
  | cwdDup e use | next e e' i use | put e =>
    rw [place] at step
    cases step
    exact places.rests place
  | walk e i use =>
    rw [place] at step
    cases outcome with
    | fail =>
      cases step
      exact places.rests place
    | next inum =>
      cases step
      exact places.igetThen t inum _ (by rw [place]; rfl) fun _ => ⟨rfl,rfl,rfl,rfl⟩
    | done =>
      cases use with
      | chdir | visit =>
        cases step
        exact places.rests place
      | «open» k =>
        simp only at step
        split at step
        · cases step
          exact places.rests place
        · contradiction
  | chdirRead e i =>
    rw [place] at step mover
    have replace (found : (s.cwd (proc t)).map (fun old => s.goto t (.chdirDrop old e i)) = some s') :
        s'.Places proc := by
      obtain ⟨old,cwd,rfl⟩ := Option.map_eq_some_iff.mp found
      have free := mover t rfl
      refine places.turns place rfl ?_ (fun _ => .inr ?_) (fun _ => .inr free)
      · rintro _ ⟨⟩
        exact cwd
      · intro u other sibling
        cases moves : (s.pc u).moves with
        | false => rfl
        | true =>
          have looks := (CwdPc.moves_looks moves).1
          rw [free u other sibling] at looks
          contradiction
    cases outcome with
    | fail =>
      cases step
      exact places.rests place
    | next inum => exact replace step
    | done => exact replace step
  | chdirDrop old e i =>
    rw [place] at step
    cases step
    exact places.turns place rfl nofun (fun _ => .inl rfl) (fun _ => .inl rfl)
  | chdirStore e i =>
    have alive : (s.pc t).isGone = false := by rw [place]; rfl
    rw [place] at step
    cases step
    have home : (s.goto t .user).Places proc := places.rests place
    refine home.store (proc t) e i (by simp [places.running alive]) ?_ ?_
    · intro u member
      by_cases here : u = t
      · simp [here,CwdPc.reads]
      · -- nobody else relies on the pointer
        have quiet := places.apart t u (Ne.symm here) member.symm (by rw [place]; rfl)
        have stays := places.stays alive u here member
        rw [goto_pc,update_of_ne here]
        cases reads : (s.pc u).reads with
        | none => rfl
        | some x =>
          rcases CwdPc.reads_looks reads with looks | exits
          · simp [quiet] at looks
          · simp [stays] at exits
    · exact home.grown (t := t) (by simp [CwdPc.isGone])
  | forkDup np nt e | exitDrop e =>
    rw [place] at step
    cases step
    exact places.turns place rfl nofun nofun nofun
  | forkStore np nt e i =>
    have forks : (s.pc t).forks = some (np,nt,false) := by rw [place]; rfl
    have child := places.forks t _ forks
    rw [place] at step
    cases step
    have home : (s.goto t .user).Places proc := places.rests place
    have others := places.others t forks
    have stored := home.store np e i (by simp [child.slot]) (by
      intro u member
      have gone := (home.idle np (by simp [child.slot])).1 u member
      rw [gone]
      rfl) others
    refine stored.goes t (.forkEnd np nt) (by simp) rfl rfl (stored.running (by simp [CwdPc.isGone]))
      (stored.stays (by simp [CwdPc.isGone])) nofun nofun nofun nofun ?_ ?_
    · rintro x ⟨⟩
      exact ⟨child.slot,child.thread,by simp⟩
    · rintro x ⟨⟩ u _ y second
      exact (others u y second).symm
  | forkEnd np nt =>
    have forks : (s.pc t).forks = some (np,nt,true) := by rw [place]; rfl
    have child := places.forks t _ forks
    rw [place] at step
    cases step
    have home : (s.goto t .user).Places proc := places.rests place
    have gone := (home.idle np (by simp [child.slot])).1
    have grown : {s.goto t .user with slot := update s.slot np .used}.Places proc := by
      refine home.changes np rfl (fun _ _ => rfl) (fun _ other => update_of_ne other ..) ?_
        (places.others t forks) ?_ ?_
      · intro u member
        rw [gone u member]
        rfl
      · intro other
        simp at other
      · intro _
        exact child.cwd
    refine grown.goes nt .user rfl rfl rfl (by simp [child.thread]) ?_ nofun nofun nofun nofun nofun nofun
    intro u _ sibling
    have gone' := gone u (sibling.trans child.thread)
    rw [gone']
    rfl
  | exitRead =>
    rw [place] at step
    obtain ⟨e,cwd,rfl⟩ := Option.map_eq_some_iff.mp step
    refine places.turns place rfl ?_ nofun nofun
    rintro _ ⟨⟩
    exact cwd
  | exitStore =>
    have alive : (s.pc t).isGone = false := by rw [place]; rfl
    have alone := places.exits t (by rw [place]; rfl)
    rw [place] at step
    cases step
    have home : (s.goto t .gone).Places proc := places.rests place
    have gone (u : T) (member : proc u = proc t) : (s.goto t .gone).pc u = .gone := by
      by_cases here : u = t
      · simp [here]
      · rw [goto_pc,update_of_ne here]
        exact alone u here member
    refine home.changes (proc t) rfl (fun _ other => update_of_ne other ..)
      (fun _ other => update_of_ne other ..) ?_ ?_ ?_ ?_
    · intro u member
      rw [gone u member]
      rfl
    · intro u y second
      by_cases here : u = t
      · simp [here,CwdPc.forks] at second
      · rw [goto_pc,update_of_ne here] at second
        exact places.grown alive u y second
    · intro _
      exact ⟨gone,fun _ => update_self ..⟩
    · intro now
      simp at now

omit [DecidableEq P] [DecidableEq F] in
theorem Places.die (places : s.Places proc) (t : T) (step : s.die t = some s') : s'.Places proc := by
  have fate : (s.pc t).isGone = false ∧ s' = s.goto t .gone := by
    unfold CwdState.die at step
    cases place : s.pc t <;> simp [place] at step
    all_goals exact ⟨rfl,step.symm⟩
  rw [fate.2]
  exact places.rests rfl rfl fate.1

theorem Places.step [Fintype T] (places : s.Places proc) (a : CwdAction T P F) (apart : CwdApart proc s a)
    (step : cwdStep proc s a = some s') : s'.Places proc := by
  unfold cwdStep at step
  split at step
  · contradiction
  cases a with
  | start t call =>
    simp only at step
    split at step
    next user => exact places.enter t call user step
    next => contradiction
  | run t outcome => exact places.code t outcome apart step
  | die t => exact places.die t step

omit [DecidableEq F] in
theorem boot_pc (proc : T → P) (t₀ t : T) : (boot proc t₀ : CwdState T P F).pc t = .user ∨
    (boot proc t₀ : CwdState T P F).pc t = .gone := by
  simp only [boot]
  split
  · exact .inl rfl
  · exact .inr rfl

omit [DecidableEq F] in
theorem Places.boot (t₀ : T) : (CwdState.boot proc t₀ : CwdState T P F).Places proc := by
  have stand := boot_pc (F := F) proc t₀
  refine ⟨?_,?_,?_,?_,?_,?_,?_⟩
  · intro t u _ _ moves
    rcases stand t with place | place <;> simp [place,CwdPc.moves] at moves
  · intro t e reads
    rcases stand t with place | place <;> simp [place,CwdPc.reads] at reads
  · intro t exits
    rcases stand t with place | place <;> simp [place,CwdPc.exits] at exits
  · intro p other
    have away : p ≠ proc t₀ := by
      rintro rfl
      simp [CwdState.boot] at other
    refine ⟨?_,fun _ => if_neg away⟩
    rintro t rfl
    exact if_neg (fun here => away (by rw [here]))
  · intro p used
    by_cases here : p = proc t₀
    · simp [CwdState.boot,here]
    · simp [CwdState.boot,here] at used
  · intro t x forks
    rcases stand t with place | place <;> simp [place,CwdPc.forks] at forks
  · intro t u _ x forks
    rcases stand t with place | place <;> simp [place,CwdPc.forks] at forks

end CwdState

end Kthreads
