import Mathlib.Data.Fintype.Card
import Mathlib.Data.Fintype.Fin

/-! Counting scans of a table whose entries may change while the scan runs.
The count of a scan bounds the entries that are still marked among those already
passed, as long as unmarked entries stay unmarked. -/
namespace Scan

variable {n : Nat}

def below (marked : Fin n → Prop) [DecidablePred marked] (i : Nat) : Nat :=
  (Finset.univ.filter (fun j : Fin n => j.val < i ∧ marked j)).card

section Below
variable {marked after : Fin n → Prop} [DecidablePred marked] [DecidablePred after]

theorem below_zero : below marked 0 = 0 := by simp [below]

theorem below_mono (i : Nat) (shrinks : ∀ j, after j → marked j) :
    below after i ≤ below marked i := by
  apply Finset.card_le_card
  intro j member
  simp only [Finset.mem_filter,Finset.mem_univ,true_and] at member ⊢
  exact ⟨member.1,shrinks j member.2⟩

theorem below_succ_le (i : Nat) : below marked (i+1) ≤ below marked i + 1 := by
  unfold below
  by_cases inside : i < n
  · have split : (Finset.univ.filter (fun j : Fin n => j.val < i+1 ∧ marked j)) ⊆
        insert ⟨i,inside⟩ (Finset.univ.filter (fun j : Fin n => j.val < i ∧ marked j)) := by
      intro j member
      simp only [Finset.mem_filter,Finset.mem_univ,true_and,Finset.mem_insert] at member ⊢
      by_cases last : j.val = i
      · exact .inl (Fin.ext last)
      · exact .inr ⟨by omega,member.2⟩
    exact (Finset.card_le_card split).trans (Finset.card_insert_le _ _)
  · have same : (Finset.univ.filter (fun j : Fin n => j.val < i+1 ∧ marked j)) =
        Finset.univ.filter (fun j : Fin n => j.val < i ∧ marked j) := by
      ext j
      have bound := j.isLt
      simp only [Finset.mem_filter,Finset.mem_univ,true_and]
      constructor
      · rintro ⟨_,held⟩
        exact ⟨by omega,held⟩
      · rintro ⟨_,held⟩
        exact ⟨by omega,held⟩
    rw [same]
    omega

theorem below_succ_unmarked (i : Fin n) (unmarked : ¬ marked i) :
    below marked (i.val+1) = below marked i.val := by
  unfold below
  congr 1
  ext j
  simp only [Finset.mem_filter,Finset.mem_univ,true_and]
  constructor
  · rintro ⟨bound,held⟩
    refine ⟨?_,held⟩
    by_contra high
    have last : j = i := Fin.ext (by omega)
    exact unmarked (last ▸ held)
  · rintro ⟨bound,held⟩
    exact ⟨by omega,held⟩

/-- A complete scan that counted at most one marked entry leaves no second one. -/
theorem below_full_unique (k : Nat) (past : n ≤ k) (single : below marked k ≤ 1) (i j : Fin n)
    (first : marked i) (second : marked j) : i = j := by
  have inside (l : Fin n) : l.val < k := l.isLt.trans_le past
  apply Finset.card_le_one.mp single
  · simp [first,inside i]
  · simp [second,inside j]

end Below

section Total
variable {α : Type} [Fintype α]

def total (marked : α → Prop) [DecidablePred marked] : Nat := (Finset.univ.filter marked).card

variable {marked after : α → Prop} [DecidablePred marked] [DecidablePred after]

theorem total_congr (same : ∀ u, after u ↔ marked u) : total after = total marked := by
  unfold total
  congr 1
  ext u
  simp [same u]

theorem total_mark [DecidableEq α] (t : α) (before : ¬ marked t) (now : after t)
    (others : ∀ u, u ≠ t → (after u ↔ marked u)) : total after = total marked + 1 := by
  have split : Finset.univ.filter after = insert t (Finset.univ.filter marked) := by
    ext u
    by_cases here : u = t
    · simp [here,now]
    · simp [here,others u here]
  rw [total,split,Finset.card_insert_of_notMem (by simp [before])]
  rfl

end Total

end Scan
