import Mathlib.Tactic.Linarith
import Kthreads.Tree.Machine

/-! Positions on the way from a leaf of the tree to its root, and what one thread can see of
the tree: its own entries of `threadMap`, the mutexes it holds and its place in the code. -/
open Function

namespace Kthreads

def InRange (d : Nat) (id : Int) : Prop := 0 ≤ id ∧ id < 2^d

instance (d : Nat) (id : Int) : Decidable (InRange d id) := inferInstanceAs (Decidable (_ ∧ _))

def up (d : Nat) (id : Int) (h : Nat) : Nat := father^[h] (2^d - 1 + id.toNat)

theorem up_zero (d : Nat) (id : Int) : up d id 0 = 2^d - 1 + id.toNat := rfl

theorem up_succ (d : Nat) (id : Int) (h : Nat) : up d id (h+1) = father (up d id h) :=
  iterate_succ_apply' father h _

theorem father_level (k x : Nat) : father (2^(k+1) - 1 + x) = 2^k - 1 + x/2 := by
  have positive : 0 < 2^k := Nat.two_pow_pos k
  unfold father
  rw [Nat.pow_succ]
  omega

theorem up_eq (d : Nat) (id : Int) (h : Nat) (low : h ≤ d) : up d id h = 2^(d-h) - 1 + id.toNat/2^h := by
  induction h with
  | zero => simp [up_zero]
  | succ h ih =>
    have split : d-h = d-(h+1)+1 := by omega
    rw [up_succ,ih (by omega),split,father_level,Nat.div_div_eq_div_mul,Nat.pow_succ]

theorem up_pos {d : Nat} (id : Int) (h : Nat) (low : h < d) : 0 < up d id h := by
  have level : 2 ≤ 2^(d-h) := Nat.pow_le_pow_right (by omega : 0 < 2) (by omega : 1 ≤ d-h)
  rw [up_eq d id h low.le]
  exact Nat.add_pos_left (by omega) _

theorem up_lt {d : Nat} (id : Int) (h k : Nat) (above : h < k) (low : k ≤ d) : up d id k < up d id h := by
  induction k with
  | zero => omega
  | succ k ih =>
    have positive : 0 < up d id k := up_pos id k (by omega)
    have step : up d id (k+1) < up d id k := by
      rw [up_succ]
      unfold father
      omega
    rcases Nat.lt_or_ge h k with further | same
    · exact step.trans (ih further (by omega))
    · have here : h = k := by omega
      rw [here]
      exact step

theorem up_inj {d : Nat} (id : Int) (h k : Nat) (first : h ≤ d) (second : k ≤ d)
    (same : up d id h = up d id k) : h = k := by
  rcases Nat.lt_trichotomy h k with less | equal | more
  · have := up_lt id h k less second
    omega
  · exact equal
  · have := up_lt id k h more first
    omega

section Range
variable {d : Nat} {id : Int} (range : InRange d id)
include range

theorem InRange.toNat_lt : id.toNat < 2^d := by
  obtain ⟨low,high⟩ := range
  have cast : ((2^d : Nat) : Int) = 2^d := by push_cast; rfl
  omega

theorem up_root : up d id d = 0 := by
  rw [up_eq d id d le_rfl,Nat.sub_self,Nat.div_eq_of_lt range.toNat_lt]
  rfl

theorem up_node (h : Nat) (above : 0 < h) (low : h ≤ d) : up d id h < 2^d - 1 := by
  have small := range.toNat_lt
  have leaf : up d id 1 < 2^d - 1 := by
    obtain ⟨k,rfl⟩ : ∃ k, d = k+1 := ⟨d-1,by omega⟩
    have positive : 0 < 2^k := Nat.two_pow_pos k
    rw [up_eq _ id 1 (by omega),Nat.add_sub_cancel,Nat.pow_one]
    rw [Nat.pow_succ] at small ⊢
    omega
  rcases Nat.lt_or_ge 1 h with further | first
  · exact (up_lt id 1 h further low).trans leaf
  · have here : h = 1 := by omega
    rw [here]
    exact leaf

theorem father_up (h : Nat) (low : h < d) : father (up d id h) = 0 ↔ h+1 = d := by
  rw [← up_succ]
  constructor
  · intro root
    by_contra below
    have := up_pos id (h+1) (by omega : h+1 < d)
    omega
  · intro top
    rw [top]
    exact up_root range

end Range

def OnPath (d : Nat) (id : Int) (p : Nat) : Prop := ∃ h, 0 < h ∧ h ≤ d ∧ p = up d id h

def frames (d : Nat) (id : Int) : Nat → List Nat
  | 0 => []
  | h+1 => up d id h :: frames d id h

structure View where
  mine : Int → Prop
  holds : TreeMutex → Prop
  due : List (Int × Phase)
  pc : TreePc

namespace TrnmntTree

variable {T : Type}

def view (s : TrnmntTree T) (u : T) : View :=
  ⟨fun id => s.threadMap id = some u,fun m => s.holder m = some u,s.due u,s.pc u⟩

section Others
variable (s : TrnmntTree T) {t u : T} (other : u ≠ t)
include other

theorem view_take (m : TreeMutex) (free : s.holder m = none) : (s.setHolder m (some t)).view u = s.view u := by
  have same (n : TreeMutex) : (update s.holder m (some t) n = some u) = (s.holder n = some u) := by
    by_cases here : n = m
    · simp [here,free,Ne.symm other]
    · simp [here]
  simp only [view,setHolder,same]

theorem view_drop (m : TreeMutex) (own : s.holder m = some t) : (s.setHolder m none).view u = s.view u := by
  have same (n : TreeMutex) : (update s.holder m none n = some u) = (s.holder n = some u) := by
    by_cases here : n = m
    · simp [here,own,Ne.symm other]
    · simp [here]
  simp only [view,setHolder,same]

theorem view_set (id : Int) (free : s.threadMap id = none) :
    ({s with threadMap := update s.threadMap id (some t)} : TrnmntTree T).view u = s.view u := by
  have same (j : Int) : (update s.threadMap id (some t) j = some u) = (s.threadMap j = some u) := by
    by_cases here : j = id
    · simp [here,free,Ne.symm other]
    · simp [here]
  simp only [view,same]

theorem view_clear (id : Int) (own : s.threadMap id = some t) :
    ({s with threadMap := update s.threadMap id none} : TrnmntTree T).view u = s.view u := by
  have same (j : Int) : (update s.threadMap id none j = some u) = (s.threadMap j = some u) := by
    by_cases here : j = id
    · simp [here,own,Ne.symm other]
    · simp [here]
  simp only [view,same]

variable [DecidableEq T]

theorem view_goto (pc : TreePc) : (s.goto t pc).view u = s.view u := by
  simp [view,goto,other]

theorem view_setDue (ids : List (Int × Phase)) : (s.setDue t ids).view u = s.view u := by
  simp [view,setDue,other]

end Others

section Own
variable (s : TrnmntTree T) (t : T)

theorem view_take_self (m : TreeMutex) :
    (s.setHolder m (some t)).view t = {s.view t with holds := fun n => n = m ∨ (s.view t).holds n} := by
  have same (n : TreeMutex) : (update s.holder m (some t) n = some t) =
      (n = m ∨ s.holder n = some t) := by
    by_cases here : n = m <;> simp [here]
  simp only [view,setHolder,same]

theorem view_drop_self (m : TreeMutex) :
    (s.setHolder m none).view t = {s.view t with holds := fun n => n ≠ m ∧ (s.view t).holds n} := by
  have same (n : TreeMutex) : (update s.holder m none n = some t) =
      (n ≠ m ∧ s.holder n = some t) := by
    by_cases here : n = m <;> simp [here]
  simp only [view,setHolder,same]

theorem view_set_self (id : Int) :
    ({s with threadMap := update s.threadMap id (some t)} : TrnmntTree T).view t =
      {s.view t with mine := fun j => j = id ∨ (s.view t).mine j} := by
  have same (j : Int) : (update s.threadMap id (some t) j = some t) =
      (j = id ∨ s.threadMap j = some t) := by
    by_cases here : j = id <;> simp [here]
  simp only [view,same]

theorem view_clear_self (id : Int) :
    ({s with threadMap := update s.threadMap id none} : TrnmntTree T).view t =
      {s.view t with mine := fun j => j ≠ id ∧ (s.view t).mine j} := by
  have same (j : Int) : (update s.threadMap id none j = some t) =
      (j ≠ id ∧ s.threadMap j = some t) := by
    by_cases here : j = id <;> simp [here]
  simp only [view,same]

variable [DecidableEq T]

theorem view_goto_self (pc : TreePc) : (s.goto t pc).view t = {s.view t with pc := pc} := by
  simp [view,goto]

theorem view_setDue_self (ids : List (Int × Phase)) : (s.setDue t ids).view t = {s.view t with due := ids} := by
  simp [view,setDue]

end Own

end TrnmntTree

end Kthreads
