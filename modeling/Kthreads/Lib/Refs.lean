import Mathlib.Data.Fintype.Sum
import Mathlib.Logic.Function.Basic

/-! Reference counts. A holder points to at most one resource; the count of a resource is exact
when it is the number of the holders that point to it. -/
open Function

namespace Refs

variable {H R : Type} [Fintype H] [DecidableEq R]

def count (ptr : H → Option R) (r : R) : Nat := (Finset.univ.filter (fun h => ptr h = some r)).card

def Counts (ptr : H → Option R) (ref : R → Int) : Prop := ∀ r, ref r = count ptr r

theorem count_none (r : R) : count (fun _ : H => none) r = 0 := by
  simp [count]

theorem count_pos (ptr : H → Option R) (r : R) : 0 < count ptr r ↔ ∃ h, ptr h = some r := by
  simp [count,Finset.card_pos,Finset.Nonempty]

theorem count_one (ptr : H → Option R) (r : R) (one : count ptr r = 1) (g h : H)
    (first : ptr g = some r) (second : ptr h = some r) : g = h := by
  obtain ⟨x,only⟩ := Finset.card_eq_one.mp one
  have left : g ∈ ({x} : Finset H) := only ▸ by simp [first]
  have right : h ∈ ({x} : Finset H) := only ▸ by simp [second]
  rw [Finset.mem_singleton.mp left,Finset.mem_singleton.mp right]

theorem count_left {A B : Type} [Fintype A] [Fintype B] (ptr : A ⊕ B → Option R) (left : A → Option R) (r : R)
    (same : ∀ a, ptr (.inl a) = left a) (right : ∀ b, ptr (.inr b) = none) : count ptr r = count left r := by
  have holders : Finset.univ.filter (fun h => ptr h = some r) =
      (Finset.univ.filter (fun a => left a = some r)).map ⟨Sum.inl,Sum.inl_injective⟩ := by
    ext h
    cases h with
    | inl a => simp [same]
    | inr b => simp [right]
  unfold count
  rw [holders,Finset.card_map]

section Update
variable [DecidableEq H] {ptr : H → Option R}

theorem count_take (h : H) (r q : R) (empty : ptr h = none) :
    count (update ptr h (some r)) q = count ptr q+if q = r then 1 else 0 := by
  unfold count
  split
  next same =>
    subst q
    rw [← Finset.card_insert_of_notMem (s := Finset.univ.filter (fun h => ptr h = some r)) (a := h) (by simp [empty])]
    congr 1
    ext g
    by_cases here : g = h
    · simp [here]
    · simp [here]
  next other =>
    rw [Nat.add_zero]
    congr 1
    ext g
    by_cases here : g = h
    · simp [here,empty,Ne.symm other]
    · simp [here]

theorem count_drop (h : H) (r q : R) (held : ptr h = some r) :
    count ptr q = count (update ptr h none) q+if q = r then 1 else 0 := by
  have empty : update ptr h none h = none := update_self ..
  have back := count_take h r q empty
  rwa [update_idem,← held,update_eq_self] at back

end Update

namespace Counts
variable {ptr : H → Option R} {ref : R → Int} (counts : Counts ptr ref)
include counts

theorem held (r : R) : 1 ≤ ref r ↔ ∃ h, ptr h = some r := by
  rw [counts r,← count_pos]
  omega

theorem pos (h : H) (r : R) (points : ptr h = some r) : 1 ≤ ref r := (counts.held r).mpr ⟨h,points⟩

variable [DecidableEq H]

/-- A holder takes a reference. -/
theorem take (h : H) (r : R) (empty : ptr h = none) :
    Counts (update ptr h (some r)) (update ref r (ref r+1)) := by
  intro q
  rw [count_take h r q empty]
  by_cases same : q = r
  · subst q
    rw [update_self,if_pos rfl,counts r]
    omega
  · rw [update_of_ne same,if_neg same,counts q,Nat.add_zero]

theorem drop (h : H) (r : R) (held : ptr h = some r) :
    Counts (update ptr h none) (update ref r (ref r-1)) := by
  intro q
  have before := count_drop h r q held
  by_cases same : q = r
  · subst q
    rw [if_pos rfl] at before
    rw [update_self,counts r]
    omega
  · rw [if_neg same,Nat.add_zero] at before
    rw [update_of_ne same,counts q,before]

theorem move (g h : H) (r : R) (held : ptr g = some r) (empty : ptr h = none) :
    Counts (update (update ptr g none) h (some r)) ref := by
  have other : h ≠ g := by
    rintro rfl
    rw [held] at empty
    contradiction
  intro q
  rw [count_take h r q (by rw [update_of_ne other,empty]),← count_drop g r q held,counts q]

end Counts

def Covers (ptr : H → Option R) (ref : R → Int) : Prop := ∀ r, (count ptr r : Int) ≤ ref r

namespace Covers
variable {ptr : H → Option R} {ref : R → Int} (covers : Covers ptr ref)
include covers

theorem nonneg (r : R) : 0 ≤ ref r := by
  have bound := covers r
  omega

theorem pos (h : H) (r : R) (points : ptr h = some r) : 1 ≤ ref r := by
  have bound := covers r
  have held := (count_pos ptr r).mpr ⟨h,points⟩
  omega

theorem pair (g h : H) (r : R) (apart : g ≠ h) (first : ptr g = some r) (second : ptr h = some r) : 2 ≤ ref r := by
  have some := (count_pos ptr r).mpr ⟨g,first⟩
  have more : count ptr r ≠ 1 := fun one => apart (count_one ptr r one g h first second)
  have bound := covers r
  omega

variable [DecidableEq H]

theorem take (h : H) (r : R) (empty : ptr h = none) :
    Covers (update ptr h (some r)) (update ref r (ref r+1)) := by
  intro q
  have bound := covers q
  rw [count_take h r q empty]
  by_cases same : q = r
  · subst q
    rw [update_self,if_pos rfl]
    omega
  · rw [update_of_ne same,if_neg same]
    omega

theorem drop (h : H) (r : R) (held : ptr h = some r) :
    Covers (update ptr h none) (update ref r (ref r-1)) := by
  intro q
  have bound := covers q
  have before := count_drop h r q held
  by_cases same : q = r
  · subst q
    rw [if_pos rfl] at before
    rw [update_self]
    omega
  · rw [if_neg same] at before
    rw [update_of_ne same]
    omega

theorem move (g h : H) (r : R) (held : ptr g = some r) (empty : ptr h = none) :
    Covers (update (update ptr g none) h (some r)) ref := by
  have other : h ≠ g := by
    rintro rfl
    rw [held] at empty
    contradiction
  intro q
  rw [count_take h r q (by rw [update_of_ne other,empty]),← count_drop g r q held]
  exact covers q

theorem forget (h : H) : Covers (update ptr h none) ref := by
  intro q
  have bound := covers q
  cases held : ptr h with
  | none =>
    rw [← held,update_eq_self]
    exact bound
  | some r =>
    have before := count_drop h r q held
    omega

end Covers

end Refs
