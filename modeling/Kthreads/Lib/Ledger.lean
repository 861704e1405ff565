import Mathlib.Logic.Basic
import Mathlib.Data.Option.Basic

/-! A ledger of resources. Each of them is free or held at exactly one place; resources are taken from
the free ones, given back, and handed on from place to place. -/
namespace Ledger

variable {O R : Type}

structure Sound (all free : R → Prop) (held : O → Option R) : Prop where
  covers : ∀ r, all r ↔ free r ∨ ∃ o, held o = some r
  apart : ∀ o r, held o = some r → ¬ free r
  single : ∀ o o' r, held o = some r → held o' = some r → o = o'

namespace Sound
variable {all free free' : R → Prop} {held held' : O → Option R}

section
variable (sound : Sound all free held)
include sound

theorem congr (same : ∀ o, held' o = held o) : Sound all free held' := by
  obtain rfl : held' = held := funext same
  exact sound

/-- A free resource is taken to an empty place. -/
theorem take (o : O) (r : R) (was : free r) (empty : held o = none)
    (now : held' o = some r) (others : ∀ x, x ≠ o → held' x = held x) (less : ∀ q, free' q ↔ free q ∧ q ≠ r) :
    Sound all free' held' := by
  have before (x : O) (q : R) (other : x ≠ o) (has : held' x = some q) : held x = some q := others x other ▸ has
  have new (q : R) (has : held' o = some q) : q = r := (Option.some.inj (now.symm.trans has)).symm
  refine ⟨?_,?_,?_⟩
  · intro q
    rw [sound.covers q,less q]
    constructor
    · rintro (unused | ⟨x,has⟩)
      · by_cases same : q = r
        · exact .inr ⟨o,same ▸ now⟩
        · exact .inl ⟨unused,same⟩
      · refine .inr ⟨x,?_⟩
        rw [others x]
        · exact has
        · rintro rfl
          cases empty.symm.trans has
    · rintro (⟨unused,_⟩ | ⟨x,has⟩)
      · exact .inl unused
      · by_cases here : x = o
        · subst x
          exact .inl (new q has ▸ was)
        · exact .inr ⟨x,before x q here has⟩
  · intro x q has unused
    obtain ⟨unused,other⟩ := (less q).mp unused
    by_cases here : x = o
    · subst x
      exact other (new q has)
    · exact sound.apart x q (before x q here has) unused
  · intro x y q first second
    by_cases left : x = o <;> by_cases right : y = o
    · rw [left,right]
    · subst x
      have has := before y q right second
      rw [new q first] at has
      exact absurd was (sound.apart y r has)
    · subst y
      have has := before x q left first
      rw [new q second] at has
      exact absurd was (sound.apart x r has)
    · exact sound.single x y q (before x q left first) (before y q right second)

/-- All places of `p` are emptied and what they held becomes free. -/
theorem giveAll (p : O → Prop) (emptied : ∀ o, p o → held' o = none)
    (others : ∀ o, ¬ p o → held' o = held o) (more : ∀ q, free' q ↔ free q ∨ ∃ o, p o ∧ held o = some q) :
    Sound all free' held' := by
  have before (x : O) (q : R) (has : held' x = some q) : ¬ p x ∧ held x = some q := by
    have outside : ¬ p x := fun inside => by cases (emptied x inside).symm.trans has
    exact ⟨outside,others x outside ▸ has⟩
  refine ⟨?_,?_,?_⟩
  · intro q
    rw [sound.covers q,more q]
    constructor
    · rintro (unused | ⟨x,has⟩)
      · exact .inl (.inl unused)
      · by_cases inside : p x
        · exact .inl (.inr ⟨x,inside,has⟩)
        · exact .inr ⟨x,others x inside ▸ has⟩
    · rintro ((unused | ⟨x,_,has⟩) | ⟨x,has⟩)
      · exact .inl unused
      · exact .inr ⟨x,has⟩
      · exact .inr ⟨x,(before x q has).2⟩
  · intro x q has unused
    obtain ⟨outside,held⟩ := before x q has
    rcases (more q).mp unused with unused | ⟨y,inside,also⟩
    · exact sound.apart x q held unused
    · exact outside (sound.single x y q held also ▸ inside)
  · intro x y q first second
    exact sound.single x y q (before x q first).2 (before y q second).2

theorem give (o : O) (r : R) (has : held o = some r) (emptied : held' o = none)
    (others : ∀ x, x ≠ o → held' x = held x) (more : ∀ q, free' q ↔ free q ∨ q = r) : Sound all free' held' := by
  refine sound.giveAll (· = o) (fun x here => here ▸ emptied) others fun q => ?_
  rw [more q]
  refine or_congr Iff.rfl ⟨?_,?_⟩
  · rintro rfl
    exact ⟨o,rfl,has⟩
  · rintro ⟨x,rfl,also⟩
    exact (Option.some.inj (has.symm.trans also)).symm

/-- A resource is handed on to an empty place. -/
theorem hand (o o' : O) (r : R) (has : held o = some r) (empty : held o' = none)
    (emptied : held' o = none) (now : held' o' = some r) (others : ∀ x, x ≠ o → x ≠ o' → held' x = held x) :
    Sound all free held' := by
  classical
  have middle : Sound all (fun q => free q ∨ q = r) (Function.update held o none) :=
    sound.give o r has (by simp) (fun x other => by simp [other]) fun q => Iff.rfl
  refine middle.take o' r (.inr rfl) ?_ now ?_ ?_
  · by_cases here : o' = o
    · simp [here]
    · simpa [here] using empty
  · intro x other
    by_cases here : x = o
    · simpa [here] using emptied
    · simpa [here] using others x here other
  · intro q
    constructor
    · intro unused
      exact ⟨.inl unused,fun same => sound.apart o r has (same ▸ unused)⟩
    · rintro ⟨unused | same,other⟩
      · exact unused
      · exact absurd same other

end

end Sound

end Ledger
