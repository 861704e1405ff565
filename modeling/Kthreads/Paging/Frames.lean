import Kthreads.Paging.Machine
import Kthreads.Lib.Ledger
import Mathlib.Data.List.Nodup

/-! Who holds the pages. A page is a directory, a page table or a user page of one directory, or in the
hands of the function that runs; the directories are read off the frames. Each word that is written
changes what is held at one place. -/
open Function

namespace Kthreads.Paging

def pde (f : Nat → Nat → Nat) (d i : Nat) : Option Nat :=
  if present (f d i) then some (pteAddr (f d i)) else none

def pte (f : Nat → Nat → Nat) (d v : Nat) : Option Nat :=
  (pde f d (v/1024)).bind fun t => if present (f t (v % 1024)) then some (f t (v % 1024)) else none

inductive Place
  | hand
  | dir (d : Nat)
  | table (d i : Nat)
  | user (d v : Nat)

/-- The page at a place. The pages above `KERNBASE` belong to nobody. -/
def held (f : Nat → Nat → Nat) (dirs : List Nat) (hand : Option Nat) : Place → Option Nat
  | .hand => hand
  | .dir d => if d ∈ dirs then some d else none
  | .table d i => if d ∈ dirs ∧ i < 1024 then pde f d i else none
  | .user d v => if d ∈ dirs ∧ v < 524288 then (pte f d v).map pteAddr else none

structure Inv (k : Kernel) (all : List Nat) (m : Mem) (dirs : List Nat) (hand : Option Nat) : Prop where
  nodup : m.freelist.Nodup
  valid : ∀ p ∈ all, k.lo ≤ p ∧ p*pgsize < phystop
  sound : Ledger.Sound (· ∈ all) (· ∈ m.freelist) (held m.frame dirs hand)

def SamePages (f f' : Nat → Nat → Nat) (dirs : List Nat) : Prop :=
  ∀ d ∈ dirs, ∀ v < 1048576, pte f' d v = pte f d v

theorem SamePages.refl (f : Nat → Nat → Nat) (dirs : List Nat) : SamePages f f dirs := fun _ _ _ _ => rfl

theorem SamePages.trans {f g h : Nat → Nat → Nat} {dirs : List Nat} (first : SamePages f g dirs)
    (second : SamePages g h dirs) : SamePages f h dirs :=
  fun d member v bound => (second d member v bound).trans (first d member v bound)

def Leaf (f : Nat → Nat → Nat) (dirs : List Nat) (p : Nat) : Prop :=
  p ∉ dirs ∧ ∀ d ∈ dirs, ∀ i < 1024, pde f d i ≠ some p

def Within (f f' : Nat → Nat → Nat) (dirs : List Nat) (d lo hi : Nat) : Prop :=
  ∀ d' ∈ dirs, ∀ v < 1048576, (d' ≠ d ∨ v < lo ∨ hi ≤ v) → pte f' d' v = pte f d' v

def Intact (f f' : Nat → Nat → Nat) (dirs : List Nat) (d lo hi : Nat) : Prop :=
  ∀ d' ∈ dirs, ∀ v < 524288, (d' ≠ d ∨ v < lo ∨ hi ≤ v) → ∀ w, pte f d' v = some w → f' (pteAddr w) = f (pteAddr w)

theorem SamePages.within {f f' : Nat → Nat → Nat} {dirs : List Nat} (same : SamePages f f' dirs) (d lo hi : Nat) :
    Within f f' dirs d lo hi :=
  fun d' member v bound _ => same d' member v bound

theorem Within.trans {f g h : Nat → Nat → Nat} {dirs : List Nat} {d lo lo' hi hi' : Nat}
    (first : Within f g dirs d lo hi) (second : Within g h dirs d lo' hi') (low : lo ≤ lo') (high : hi' ≤ hi) :
    Within f h dirs d lo hi := by
  intro d' member v bound away
  refine (second d' member v bound ?_).trans (first d' member v bound away)
  omega

namespace Intact
variable {f g h : Nat → Nat → Nat} {dirs : List Nat} {d lo lo' hi hi' : Nat}

theorem refl (f : Nat → Nat → Nat) (dirs : List Nat) (d lo hi : Nat) : Intact f f dirs d lo hi :=
  fun _ _ _ _ _ _ _ => rfl

theorem mono (intact : Intact f g dirs d lo' hi') (low : lo ≤ lo') (high : hi' ≤ hi) : Intact f g dirs d lo hi :=
  fun d' member v bound away => intact d' member v bound (by omega)

theorem trans (first : Intact f g dirs d lo hi) (within : Within f g dirs d lo hi) (second : Intact g h dirs d lo' hi')
    (low : lo ≤ lo') (high : hi' ≤ hi) : Intact f h dirs d lo hi := by
  intro d' member v bound away w found
  have same := within d' member v (by omega) away
  exact (second d' member v bound (by omega) w (same.trans found)).trans (first d' member v bound away w found)

end Intact

section Views
variable {f f' : Nat → Nat → Nat} {dirs : List Nat} {d i v : Nat}

theorem pde_congr (same : f' d i = f d i) : pde f' d i = pde f d i := by
  rw [pde,pde,same]

theorem pte_congr (same : f' d (v/1024) = f d (v/1024))
    (table : ∀ t, pde f d (v/1024) = some t → f' t (v % 1024) = f t (v % 1024)) : pte f' d v = pte f d v := by
  rw [pte,pte,pde_congr same]
  cases found : pde f d (v/1024) with
  | none => rfl
  | some t => simp only [Option.bind_some,table t found]

theorem pte_some {w : Nat} (entry : pte f d v = some w) :
    ∃ t, pde f d (v/1024) = some t ∧ f t (v % 1024) = w ∧ present w = true := by
  obtain ⟨t,found,eq⟩ := Option.bind_eq_some_iff.mp entry
  split at eq
  next here =>
    obtain rfl := Option.some.inj eq
    exact ⟨t,found,rfl,here⟩
  next => contradiction

theorem Leaf.pde_update {p : Nat} {words : Nat → Nat} (leaf : Leaf f dirs p) (member : d ∈ dirs) :
    pde (update f p words) d i = pde f d i := by
  refine pde_congr ?_
  rw [update_of_ne]
  rintro rfl
  exact leaf.1 member

theorem Leaf.pte_update {p : Nat} {words : Nat → Nat} (leaf : Leaf f dirs p) (member : d ∈ dirs)
    (bound : v < 1048576) : pte (update f p words) d v = pte f d v := by
  refine pte_congr ?_ ?_
  · rw [update_of_ne]
    rintro rfl
    exact leaf.1 member
  · intro t found
    rw [update_of_ne]
    rintro rfl
    exact leaf.2 d member (v/1024) (by omega) found

theorem held_congr {hand hand' : Option Nat} {x : Place} (handed : x = .hand → hand' = hand)
    (pdes : ∀ d ∈ dirs, ∀ i < 1024, x = .table d i → pde f' d i = pde f d i)
    (ptes : ∀ d ∈ dirs, ∀ v < 524288, x = .user d v → (pte f' d v).map pteAddr = (pte f d v).map pteAddr) :
    held f' dirs hand' x = held f dirs hand x := by
  cases x with
  | hand => exact handed rfl
  | dir d => rfl
  | table d i =>
    simp only [held]
    split
    next inside => exact pdes d inside.1 i inside.2 rfl
    next => rfl
  | user d v =>
    simp only [held]
    split
    next inside => exact ptes d inside.1 v inside.2 rfl
    next => rfl

theorem mem_tail {p q : Nat} {list rest : List Nat} (head : list = p :: rest) (nodup : list.Nodup) :
    q ∈ rest ↔ q ∈ list ∧ q ≠ p := by
  rw [head] at nodup ⊢
  have fresh := (List.nodup_cons.mp nodup).1
  rw [List.mem_cons]
  constructor
  · intro member
    exact ⟨.inr member,fun same => fresh (same ▸ member)⟩
  · rintro ⟨same | member,other⟩
    · exact absurd same other
    · exact member

end Views

theorem entry_eq (p : Nat) {flags : Nat} (low : flags < 4096) : p*pgsize ||| flags = p*pgsize+flags := by
  rw [pgsize,Nat.mul_comm]
  exact (Nat.two_pow_add_eq_or_of_lt (i := 12) low p).symm

theorem pteAddr_entry (p : Nat) {perm : Nat} (low : perm < 4096) : pteAddr (p*pgsize ||| perm ||| pteP) = p := by
  rw [Nat.or_assoc,entry_eq p (Nat.or_lt_two_pow (n := 12) low (by decide)),pteAddr]
  have bound := Nat.or_lt_two_pow (n := 12) low (show pteP < 2^12 by decide)
  simp only [pgsize]
  omega

theorem present_entry (x : Nat) : present (x ||| pteP) = true := by
  simp [present,pteP,Nat.or_mod_two_eq_one]

theorem pteAddr_table (t : Nat) : pteAddr (t*pgsize ||| pteP ||| pteW ||| pteU) = t := by
  rw [Nat.or_assoc,Nat.or_assoc,Nat.or_comm pteP,← Nat.or_assoc]
  exact pteAddr_entry t (by decide)

theorem present_table (t : Nat) : present (t*pgsize ||| pteP ||| pteW ||| pteU) = true := by
  rw [Nat.or_assoc,Nat.or_assoc,Nat.or_comm pteP,← Nat.or_assoc]
  exact present_entry _

theorem pdx_eq {va : Nat} (bound : va < 4294967296) : pdx va = va/pgsize/1024 := by
  simp only [pdx,pgsize]
  omega

namespace Inv
variable {k : Kernel} {all : List Nat} {m m' : Mem} {dirs : List Nat} {hand : Option Nat}

theorem held_dir {d : Nat} (member : d ∈ dirs) : held m.frame dirs hand (.dir d) = some d := if_pos member

theorem held_table {d i t : Nat} (member : d ∈ dirs) (bound : i < 1024) (found : pde m.frame d i = some t) :
    held m.frame dirs hand (.table d i) = some t := (if_pos ⟨member,bound⟩).trans found

theorem held_user {d v w : Nat} (member : d ∈ dirs) (bound : v < 524288) (found : pte m.frame d v = some w) :
    held m.frame dirs hand (.user d v) = some (pteAddr w) := (if_pos ⟨member,bound⟩).trans (by rw [found]; rfl)

section Distinct
variable (inv : Inv k all m dirs hand)
include inv

theorem table_single {d d' i i' t : Nat} (member : d ∈ dirs) (member' : d' ∈ dirs) (bound : i < 1024)
    (bound' : i' < 1024) (found : pde m.frame d i = some t) (found' : pde m.frame d' i' = some t) :
    d = d' ∧ i = i' := by
  have same := inv.sound.single _ _ t (held_table member bound found) (held_table member' bound' found')
  exact Place.table.inj same

theorem table_ne {d d' i t : Nat} (member : d ∈ dirs) (member' : d' ∈ dirs) (bound : i < 1024)
    (found : pde m.frame d i = some t) : t ≠ d' := by
  rintro rfl
  cases inv.sound.single _ _ t (held_table member bound found) (held_dir member')

theorem leaf {p : Nat} (x : Place) (here : held m.frame dirs hand x = some p) (dir : ∀ d, x ≠ .dir d)
    (table : ∀ d i, x ≠ .table d i) : Leaf m.frame dirs p := by
  refine ⟨?_,?_⟩
  · intro member
    exact dir p (inv.sound.single _ _ p here (held_dir member))
  · intro d member i bound found
    exact table d i (inv.sound.single _ _ p here (held_table member bound found))

theorem user_leaf {d v w : Nat} (member : d ∈ dirs) (bound : v < 524288) (found : pte m.frame d v = some w) :
    Leaf m.frame dirs (pteAddr w) :=
  inv.leaf (.user d v) (held_user member bound found) (fun _ same => by cases same) fun _ _ same => by cases same

theorem freeable {x : Place} {p : Nat} (here : held m.frame dirs hand x = some p) :
    k.lo ≤ p ∧ p*pgsize < phystop :=
  inv.valid p ((inv.sound.covers p).mpr (.inr ⟨x,here⟩))

theorem intact_at {p d lo hi : Nat} {x : Place} (here : held m.frame dirs hand x = some p)
    (inside : ∀ d' v, x = .user d' v → d' = d ∧ lo ≤ v ∧ v < hi) (words : Nat → Nat) :
    Intact m.frame (update m.frame p words) dirs d lo hi := by
  intro d' member v bound away w found
  refine update_of_ne ?_ _ _
  rintro rfl
  obtain ⟨same,low,high⟩ := inside d' v (inv.sound.single _ _ _ here (held_user member bound found))
  omega

theorem intact_free {p : Nat} (free : p ∈ m.freelist) (words : Nat → Nat) (d lo hi : Nat) :
    Intact m.frame (update m.frame p words) dirs d lo hi := by
  intro d' member v bound away w found
  refine update_of_ne ?_ _ _
  rintro rfl
  exact inv.sound.apart _ _ (held_user member bound found) free

theorem intact_table {d i t : Nat} (member : d ∈ dirs) (bound : i < 1024) (found : pde m.frame d i = some t)
    (words : Nat → Nat) (e lo hi : Nat) : Intact m.frame (update m.frame t words) dirs e lo hi :=
  inv.intact_at (held_table member bound found) (fun _ _ same => by cases same) words

end Distinct

theorem hand_leaf {p : Nat} (inv : Inv k all m dirs (some p)) : Leaf m.frame dirs p :=
  inv.leaf .hand rfl (fun _ same => by cases same) fun _ _ same => by cases same

theorem of_eq (inv : Inv k all m dirs hand) (freelist : m'.freelist = m.freelist) (frame : m'.frame = m.frame) :
    Inv k all m' dirs hand := by
  refine ⟨?_,inv.valid,?_⟩
  · rw [freelist]
    exact inv.nodup
  · rw [freelist,frame]
    exact inv.sound

theorem lucky (inv : Inv k all m dirs hand) (luck : List Bool) : Inv k all {m with luck := luck} dirs hand :=
  inv.of_eq rfl rfl

theorem fill {p : Nat} (inv : Inv k all m dirs hand) (leaf : Leaf m.frame dirs p) (words : Nat → Nat) :
    Inv k all (m.fill p words) dirs hand ∧ SamePages m.frame (m.fill p words).frame dirs := by
  refine ⟨⟨inv.nodup,inv.valid,inv.sound.congr ?_⟩,fun d member v bound => leaf.pte_update member bound⟩
  exact fun x => held_congr (fun _ => rfl) (fun d member i _ _ => leaf.pde_update member) fun d member v bound _ =>
    congrArg _ (leaf.pte_update member (bound.trans (by decide)))

theorem kalloc {p : Nat} (inv : Inv k all m dirs none) (head : m.freelist = p :: m'.freelist)
    (frame : m'.frame = m.frame) : Inv k all m' dirs (some p) := by
  refine ⟨(List.nodup_cons.mp (head ▸ inv.nodup)).2,inv.valid,?_⟩
  rw [frame]
  refine inv.sound.take .hand p (by simp [head]) rfl rfl ?_ fun q => mem_tail head inv.nodup
  exact fun x other => held_congr (fun here => absurd here other) (fun _ _ _ _ _ => rfl) fun _ _ _ _ _ => rfl

theorem kfree {p : Nat} (inv : Inv k all m dirs (some p)) :
    ∃ m', m.kfree k p = some m' ∧ Inv k all m' dirs none ∧ SamePages m.frame m'.frame dirs := by
  have leaf := inv.hand_leaf
  have outside : p ∉ m.freelist := inv.sound.apart .hand p rfl
  obtain ⟨filled,same⟩ := inv.fill leaf fun _ => 16843009
  refine ⟨_,if_pos (inv.freeable (x := .hand) rfl),⟨List.nodup_cons.mpr ⟨outside,inv.nodup⟩,inv.valid,?_⟩,same⟩
  refine filled.sound.give .hand p rfl rfl ?_ fun q => List.mem_cons.trans or_comm
  exact fun x other => held_congr (fun here => absurd here other) (fun _ _ _ _ _ => rfl) fun _ _ _ _ _ => rfl

theorem free_leaf {p : Nat} (inv : Inv k all m dirs hand) (free : p ∈ m.freelist) : Leaf m.frame dirs p := by
  refine ⟨?_,?_⟩
  · intro member
    exact inv.sound.apart (.dir p) p (held_dir member) free
  · intro d member i bound found
    exact inv.sound.apart (.table d i) p (held_table member bound found) free

theorem install {d i p w : Nat} (inv : Inv k all m dirs hand) (member : d ∈ dirs) (bound : i < 1024)
    (missing : pde m.frame d i = none) (head : m.freelist = p :: m'.freelist) (zero : ∀ j, m.frame p j = 0)
    (entry : pteAddr w = p ∧ present w = true)
    (frames : m'.frame = update m.frame d (update (m.frame d) i w)) :
    Inv k all m' dirs hand ∧ SamePages m.frame m'.frame dirs ∧ pde m'.frame d i = some p := by
  have leaf := inv.free_leaf (p := p) (by simp [head])
  have other : p ≠ d := fun same => leaf.1 (same ▸ member)
  have here : pde m'.frame d i = some p := by
    simp [frames,pde,entry]
  have pdes (d' i' : Nat) (away : d' ≠ d ∨ i' ≠ i) : pde m'.frame d' i' = pde m.frame d' i' := by
    refine pde_congr ?_
    by_cases same : d' = d
    · subst d'
      simp [frames,away.resolve_left (by simp)]
    · simp [frames,same]
  have ptes (d' : Nat) (member' : d' ∈ dirs) (v : Nat) (low : v < 1048576) : pte m'.frame d' v = pte m.frame d' v := by
    by_cases target : d' = d ∧ v/1024 = i
    · obtain ⟨rfl,rfl⟩ := target
      rw [pte,pte,here,missing]
      simp [frames,other,zero,present]
    · have away : d' ≠ d ∨ v/1024 ≠ i := by tauto
      rw [pte,pte,pdes d' (v/1024) away]
      cases found : pde m.frame d' (v/1024) with
      | none => rfl
      | some t => simp [frames,inv.table_ne member' member (by omega) found]
  refine ⟨⟨(List.nodup_cons.mp (head ▸ inv.nodup)).2,inv.valid,?_⟩,ptes,here⟩
  refine inv.sound.take (.table d i) p (by simp [head]) ?_ ?_ ?_ fun q => mem_tail head inv.nodup
  · simp [held,member,bound,missing]
  · simp [held,member,bound,here]
  · intro x away
    refine held_congr (fun _ => rfl) ?_ fun d' member' v low _ => by rw [ptes d' member' v (by omega)]
    rintro d' _ i' _ rfl
    rw [Ne,Place.table.injEq,not_and_or] at away
    exact pdes d' i' away

theorem grow {d i p : Nat} (inv : Inv k all m dirs hand) (member : d ∈ dirs) (bound : i < 1024)
    (missing : pde m.frame d i = none) (head : m.freelist = p :: m'.freelist) (frame : m'.frame = m.frame) :
    Inv k all ((m'.fill p fun _ => 0).write d i (p*pgsize ||| pteP ||| pteW ||| pteU)) dirs hand ∧
    SamePages m.frame ((m'.fill p fun _ => 0).write d i (p*pgsize ||| pteP ||| pteW ||| pteU)).frame dirs ∧
    pde ((m'.fill p fun _ => 0).write d i (p*pgsize ||| pteP ||| pteW ||| pteU)).frame d i = some p := by
  have leaf := inv.free_leaf (p := p) (by simp [head])
  obtain ⟨filled,zeroed⟩ := inv.fill leaf fun _ => 0
  have missing' : pde (m.fill p fun _ => 0).frame d i = none := (leaf.pde_update member).trans missing
  have head' : (m.fill p fun _ => 0).freelist =
      p :: ((m'.fill p fun _ => 0).write d i (p*pgsize ||| pteP ||| pteW ||| pteU)).freelist := head
  obtain ⟨after,same,here⟩ := filled.install member bound missing' head'
    (fun j => by simp [Mem.fill]) ⟨pteAddr_table p,present_table p⟩ (by simp only [Mem.write,Mem.fill,frame])
  exact ⟨after,zeroed.trans same,here⟩

section Write
variable {d v t w : Nat}

section
variable (inv : Inv k all m dirs hand) (member : d ∈ dirs) (bound : v < 1048576)
  (table : pde m.frame d (v/1024) = some t)
include inv member bound table

theorem write_pde {d' i' : Nat} (member' : d' ∈ dirs) :
    pde (m.write t (v % 1024) w).frame d' i' = pde m.frame d' i' := by
  refine pde_congr ?_
  have other : d' ≠ t := (inv.table_ne member member' (by omega) table).symm
  simp [Mem.write,other]

theorem write_pte : pte (m.write t (v % 1024) w).frame d v = if present w then some w else none := by
  rw [pte,inv.write_pde member bound table member,table,Option.bind_some]
  simp [Mem.write]

theorem write_other {d' v' : Nat} (member' : d' ∈ dirs) (bound' : v' < 1048576)
    (away : d' ≠ d ∨ v' ≠ v) : pte (m.write t (v % 1024) w).frame d' v' = pte m.frame d' v' := by
  rw [pte,pte,inv.write_pde member bound table member']
  cases found : pde m.frame d' (v'/1024) with
  | none => rfl
  | some t' =>
    by_cases same : t' = t
    · subst t'
      obtain ⟨rfl,index⟩ := inv.table_single member' member (by omega) (by omega) found table
      have differs : v' % 1024 ≠ v % 1024 := by
        have := away.resolve_left (by simp)
        omega
      simp [Mem.write,differs]
    · simp [Mem.write,same]

end

theorem map_user (inv : Inv k all m dirs (some (pteAddr w))) (member : d ∈ dirs) (bound : v < 524288)
    (table : pde m.frame d (v/1024) = some t) (empty : pte m.frame d v = none) (here : present w = true) :
    Inv k all (m.write t (v % 1024) w) dirs none := by
  have low : v < 1048576 := bound.trans (by decide)
  refine ⟨inv.nodup,inv.valid,?_⟩
  refine inv.sound.hand .hand (.user d v) (pteAddr w) rfl ?_ rfl ?_ ?_
  · simp [held,empty]
  · simp [held,inv.write_pte member low table,member,bound,here]
  · intro x handless away
    refine held_congr (fun here => absurd here handless)
      (fun d' member' i' _ _ => inv.write_pde member low table member') ?_
    rintro d' member' v' bound' rfl
    rw [Ne,Place.user.injEq,not_and_or] at away
    rw [inv.write_other member low table member' (by omega) away]

theorem rewrite (inv : Inv k all m dirs hand) (member : d ∈ dirs) (bound : v < 1048576)
    (table : pde m.frame d (v/1024) = some t)
    (same : v < 524288 → (if present w then some (pteAddr w) else none) = (pte m.frame d v).map pteAddr) :
    Inv k all (m.write t (v % 1024) w) dirs hand := by
  refine ⟨inv.nodup,inv.valid,inv.sound.congr fun x => held_congr (fun _ => rfl)
    (fun d' member' i' _ _ => inv.write_pde member bound table member') ?_⟩
  intro d' member' v' bound' _
  by_cases target : d' = d ∧ v' = v
  · obtain ⟨rfl,rfl⟩ := target
    rw [inv.write_pte member bound table,← same bound']
    split <;> rfl
  · rw [inv.write_other member bound table member' (by omega) (by tauto)]

/-- The page of the entry `w` has been freed and the entry cleared. -/
structure Unmapped (k : Kernel) (all : List Nat) (m : Mem) (dirs : List Nat) (hand : Option Nat) (d v w : Nat)
    (m' : Mem) : Prop where
  freelist : m'.freelist = pteAddr w :: m.freelist
  inv : Inv k all m' dirs hand
  gone : pte m'.frame d v = none
  tables : ∀ d' ∈ dirs, ∀ i, pde m'.frame d' i = pde m.frame d' i
  within : Within m.frame m'.frame dirs d v (v+1)
  intact : Intact m.frame m'.frame dirs d v (v+1)

theorem unmap (inv : Inv k all m dirs hand) (member : d ∈ dirs) (bound : v < 524288)
    (table : pde m.frame d (v/1024) = some t) (entry : pte m.frame d v = some w) :
    ∃ m', m.kfree k (pteAddr w) = some m' ∧ pteAddr w ≠ 0 ∧ Unmapped k all m dirs hand d v w (m'.write t (v % 1024) 0) := by
  have low : v < 1048576 := bound.trans (by decide)
  have leaf := inv.user_leaf member bound entry
  have owned : held m.frame dirs hand (.user d v) = some (pteAddr w) := held_user member bound entry
  have valid := inv.freeable owned
  have positive := k.positive
  have outside : pteAddr w ∉ m.freelist := inv.sound.apart _ _ owned
  obtain ⟨filled,same⟩ := inv.fill leaf fun _ => 16843009
  have table' : pde (m.fill (pteAddr w) fun _ => 16843009).frame d (v/1024) = some t :=
    (leaf.pde_update member).trans table
  have cleared : pte ((m.fill (pteAddr w) fun _ => 16843009).write t (v % 1024) 0).frame d v = none :=
    filled.write_pte member low table'
  have others (d' : Nat) (member' : d' ∈ dirs) (v' : Nat) (low' : v' < 1048576) (away : d' ≠ d ∨ v' ≠ v) :
      pte ((m.fill (pteAddr w) fun _ => 16843009).write t (v % 1024) 0).frame d' v' = pte m.frame d' v' :=
    (filled.write_other member low table' member' low' away).trans (same d' member' v' low')
  have intact : Intact m.frame ((m.fill (pteAddr w) fun _ => 16843009).write t (v % 1024) 0).frame dirs d v (v+1) := by
    refine (inv.intact_at owned ?_ _).trans (same.within d v (v+1))
      (filled.intact_table member (by omega) table' _ d v (v+1)) le_rfl le_rfl
    intro d' v' place
    obtain ⟨rfl,rfl⟩ := Place.user.inj place
    omega
  have tables (d' : Nat) (member' : d' ∈ dirs) (i : Nat) :
      pde ((m.fill (pteAddr w) fun _ => 16843009).write t (v % 1024) 0).frame d' i = pde m.frame d' i :=
    (filled.write_pde member low table' member').trans (leaf.pde_update member')
  refine ⟨_,if_pos valid,by omega,rfl,⟨List.nodup_cons.mpr ⟨outside,inv.nodup⟩,inv.valid,?_⟩,cleared,tables,
    fun d' member' v' low' away => others d' member' v' low' (by omega),intact⟩
  refine inv.sound.give (.user d v) (pteAddr w) owned ?_ ?_ fun q => List.mem_cons.trans or_comm
  · exact (if_pos ⟨member,bound⟩).trans (congrArg (Option.map pteAddr) cleared)
  · intro x away
    refine held_congr (fun _ => rfl) (fun d' member' i' _ _ => tables d' member' i') ?_
    rintro d' member' v' bound' rfl
    rw [Ne,Place.user.injEq,not_and_or] at away
    exact congrArg _ (others d' member' v' (by omega) away)

end Write

theorem directory {p : Nat} (inv : Inv k all m dirs (some p)) (zero : ∀ i, m.frame p i = 0) :
    Inv k all m (p :: dirs) none ∧ ∀ v, pte m.frame p v = none := by
  have pdes (i : Nat) : pde m.frame p i = none := by simp [pde,zero,present]
  have ptes (v : Nat) : pte m.frame p v = none := by simp [pte,pdes]
  have leaf := inv.hand_leaf
  refine ⟨⟨inv.nodup,inv.valid,?_⟩,ptes⟩
  refine inv.sound.hand .hand (.dir p) p rfl ?_ rfl ?_ ?_
  · simp [held,leaf.1]
  · simp [held]
  · intro x handless away
    cases x with
    | hand => exact absurd rfl handless
    | dir d =>
      have other : d ≠ p := fun same => away (by rw [same])
      simp [held,other]
    | table d i =>
      by_cases same : d = p
      · simp [held,same,pdes]
      · simp [held,same]
    | user d v =>
      by_cases same : d = p
      · simp [held,same,ptes]
      · simp [held,same]

end Inv

/-- The loop of `freevm` frees the pages that the entries name. -/
theorem freeTables_spec (k : Kernel) (d n i : Nat) (m : Mem)
    (valid : ∀ j < i+n, ∀ t, pde m.frame d j = some t → k.lo ≤ t ∧ t*pgsize < phystop ∧ t ≠ d) :
    ∃ m', m.freeTables k d n i = some m' ∧
      m'.freelist = ((List.range' i n).filterMap (pde m.frame d)).reverse ++ m.freelist ∧
      ∀ q, q ∉ (List.range' i n).filterMap (pde m.frame d) → m'.frame q = m.frame q := by
  induction n generalizing i m with
  | zero => exact ⟨m,rfl,rfl,fun _ _ => rfl⟩
  | succ n ih =>
    unfold Mem.freeTables
    rw [List.range'_succ,List.filterMap_cons]
    split
    next here =>
      have found : pde m.frame d i = some (pteAddr (m.frame d i)) := if_pos here
      obtain ⟨low,high,other⟩ := valid i (by omega) _ found
      rw [Mem.kfree,if_pos ⟨low,high⟩]
      generalize pteAddr (m.frame d i) = t at *
      have views (j : Nat) : pde (m.fill t fun _ => 16843009).frame d j = pde m.frame d j := by
        refine pde_congr ?_
        simp [Mem.fill,other.symm]
      obtain ⟨m',run,freelist,frame⟩ := ih (i+1) {m.fill t (fun _ => 16843009) with freelist := t :: m.freelist} (by
        intro j bound t' found'
        exact valid j (by omega) t' ((views j).symm.trans found'))
      have tables : (List.range' (i+1) n).filterMap (pde (m.fill t fun _ => 16843009).frame d) =
          (List.range' (i+1) n).filterMap (pde m.frame d) := List.filterMap_congr fun j _ => views j
      simp only [tables] at freelist frame
      refine ⟨m',run,?_,?_⟩
      · simp [freelist,found]
      · intro q outside
        simp only [found,List.mem_cons,not_or] at outside
        rw [frame q outside.2]
        simp [Mem.fill,outside.1]
    next missing =>
      have none : pde m.frame d i = none := if_neg missing
      rw [none]
      exact ih (i+1) m fun j bound => valid j (by omega)

def Place.of (d : Nat) : Place → Prop
  | .hand => False
  | .dir d' | .table d' _ | .user d' _ => d' = d

theorem held_filter {f : Nat → Nat → Nat} {dirs : List Nat} {hand : Option Nat} {d : Nat} {x : Place} (away : ¬ x.of d) :
    held f (dirs.filter (· ≠ d)) hand x = held f dirs hand x := by
  cases x with
  | hand => rfl
  | dir d' | table d' i | user d' v =>
    have differs : d' ≠ d := away
    simp [held,differs]

namespace Inv
variable {k : Kernel} {all : List Nat} {m m' : Mem} {dirs : List Nat} {hand : Option Nat}

theorem free_tables {d : Nat} (inv : Inv k all m dirs hand) (member : d ∈ dirs)
    (empty : ∀ v < 524288, pte m.frame d v = none) :
    ∃ m' m'', m.freeTables k d 1024 0 = some m' ∧ m'.kfree k d = some m'' ∧
      Inv k all m'' (dirs.filter (· ≠ d)) hand ∧ SamePages m.frame m''.frame (dirs.filter (· ≠ d)) := by
  obtain ⟨m',run,freelist,frame⟩ := freeTables_spec k d 1024 0 m (by
    intro j bound t found
    have valid := inv.freeable (x := .table d _) (held_table member (by omega) found)
    exact ⟨valid.1,valid.2,inv.table_ne member member (by omega) found⟩)
  have valid := inv.freeable (x := .dir d) (held_dir member)
  generalize listed : (List.range' 0 1024).filterMap (pde m.frame d) = tables at freelist frame
  have table (t : Nat) : t ∈ tables ↔ ∃ i < 1024, pde m.frame d i = some t := by
    simp [← listed,List.mem_filterMap]
  have other {d' : Nat} (kept : d' ∈ dirs.filter (· ≠ d)) : d' ∈ dirs ∧ d' ≠ d := by
    simpa using kept
  -- the frames of the other directories and of their tables are left alone
  have frames (q : Nat) (first : q ≠ d) (second : q ∉ tables) :
      update m'.frame d (fun _ => 16843009) q = m.frame q := by
    rw [update_of_ne first,frame q second]
  have dir {d' : Nat} (kept : d' ∈ dirs.filter (· ≠ d)) : d' ∉ tables := by
    intro inside
    obtain ⟨i,bound,found⟩ := (table d').mp inside
    exact inv.table_ne member (other kept).1 bound found rfl
  have pdes (d' : Nat) (kept : d' ∈ dirs.filter (· ≠ d)) (i : Nat) :
      pde (update m'.frame d fun _ => 16843009) d' i = pde m.frame d' i :=
    pde_congr (congrFun (frames d' (other kept).2 (dir kept)) i)
  have ptes : SamePages m.frame (update m'.frame d fun _ => 16843009) (dirs.filter (· ≠ d)) := by
    intro d' kept v bound
    refine pte_congr (congrFun (frames d' (other kept).2 (dir kept)) _) ?_
    intro t found
    refine congrFun (frames t (inv.table_ne (other kept).1 member (by omega) found) ?_) _
    intro inside
    obtain ⟨i,low,here⟩ := (table t).mp inside
    exact (other kept).2 (inv.table_single (other kept).1 member (by omega) low found here).1
  refine ⟨m',_,run,if_pos valid,⟨?_,inv.valid,?_⟩,ptes⟩
  · have distinct : tables.Nodup := by
      rw [← listed,List.Nodup,List.pairwise_filterMap]
      refine (List.nodup_range' (s := 0) (n := 1024)).imp_of_mem ?_
      intro i j first second differs t found t' found' same
      subst same
      simp only [List.mem_range'_1] at first second
      exact differs (inv.table_single member member (by omega) (by omega) found found').2
    have fresh (x : Place) (q : Nat) (here : held m.frame dirs hand x = some q) : q ∉ m.freelist :=
      inv.sound.apart x q here
    show (d :: m'.freelist).Nodup
    rw [freelist,List.nodup_cons,List.nodup_append]
    refine ⟨?_,List.nodup_reverse.mpr distinct,inv.nodup,?_⟩
    · simp only [List.mem_append,List.mem_reverse,not_or]
      refine ⟨?_,fresh _ d (held_dir member)⟩
      intro inside
      obtain ⟨i,bound,found⟩ := (table d).mp inside
      exact inv.table_ne member member bound found rfl
    · intro q inside q' free same
      obtain ⟨i,bound,found⟩ := (table q).mp (List.mem_reverse.mp inside)
      exact fresh _ q (held_table member bound found) (same ▸ free)
  · refine inv.sound.giveAll (Place.of d) ?_ ?_ ?_
    · intro x own
      cases x with
      | hand => exact own.elim
      | dir d' | table d' i | user d' v =>
        obtain rfl : d' = d := own
        simp [held]
    · intro x away
      refine Eq.trans ?_ (held_filter away)
      exact held_congr (fun _ => rfl) (fun d' kept i _ _ => pdes d' kept i) fun d' kept v bound _ =>
        congrArg _ (ptes d' kept v (by omega))
    · intro q
      show q ∈ d :: m'.freelist ↔ _
      rw [freelist,List.mem_cons,List.mem_append,List.mem_reverse,table]
      constructor
      · rintro (rfl | ⟨i,bound,found⟩ | free)
        · exact .inr ⟨.dir q,rfl,held_dir member⟩
        · exact .inr ⟨.table d i,rfl,held_table member bound found⟩
        · exact .inl free
      · rintro (free | ⟨x,own,here⟩)
        · exact .inr (.inr free)
        · cases x with
          | hand => exact own.elim
          | dir d' =>
            obtain rfl : d' = d := own
            exact .inl (Option.some.inj ((held_dir member).symm.trans here)).symm
          | table d' i =>
            obtain rfl : d' = d := own
            simp only [held] at here
            split at here
            next inside => exact .inr (.inl ⟨i,inside.2,here⟩)
            next => contradiction
          | user d' v =>
            obtain rfl : d' = d := own
            simp only [held] at here
            split at here
            next inside =>
              rw [empty v inside.2] at here
              contradiction
            next => contradiction

end Inv

end Kthreads.Paging
