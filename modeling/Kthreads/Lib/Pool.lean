import Mathlib.Data.List.Nodup
import Mathlib.Logic.Function.Basic
import Mathlib.Logic.Relation

/-! A pool of resources that are free, lent out to anybody, or owned by one of a set of
named owners. No resource is in two places, whatever moves are made. -/
open Function

namespace Pool

variable {O R : Type}

structure State (O R : Type) where
  free : List R
  lent : List R
  owns : O → Option R

structure Sound (p : State O R) : Prop where
  free : p.free.Nodup
  lent : p.lent.Nodup
  apart : List.Disjoint p.free p.lent
  owned : ∀ a r, p.owns a = some r → r ∉ p.free ∧ r ∉ p.lent
  single : ∀ a b r, p.owns a = some r → p.owns b = some r → a = b

/-- What can be done with a pool. An owner that is given a resource, or loses its
entry, forgets the resource it had. -/
inductive Move [DecidableEq O] [DecidableEq R] (p : State O R) : State O R → Prop
  | lend (r : R) (rest : List R) (head : p.free = r :: rest) : Move p ⟨rest,r :: p.lent,p.owns⟩
  | give (r : R) (member : r ∈ p.lent) : Move p ⟨r :: p.free,p.lent.erase r,p.owns⟩
  | assign (a : O) (r : R) (rest : List R) (head : p.free = r :: rest) :
      Move p ⟨rest,p.lent,update p.owns a (some r)⟩
  | release (a : O) (r : R) (owned : p.owns a = some r) :
      Move p ⟨r :: p.free,p.lent,update p.owns a none⟩
  | forget (a : O) : Move p ⟨p.free,p.lent,update p.owns a none⟩

abbrev Moves [DecidableEq O] [DecidableEq R] (p p' : State O R) : Prop := Relation.ReflTransGen Move p p'

namespace Sound

theorem cleared [DecidableEq O] {p : State O R} {a b : O} {r : R}
    (owned : update p.owns a none b = some r) : b ≠ a ∧ p.owns b = some r := by
  by_cases here : b = a
  · simp [here] at owned
  · exact ⟨here,by simpa [here] using owned⟩

theorem forget [DecidableEq O] {p : State O R} (sound : Sound p) (a : O) :
    Sound ⟨p.free,p.lent,update p.owns a none⟩ where
  free := sound.free
  lent := sound.lent
  apart := sound.apart
  owned b r owned := sound.owned b r (cleared owned).2
  single b c r first second := sound.single b c r (cleared first).2 (cleared second).2

theorem lend {p : State O R} (sound : Sound p) (r : R) (rest : List R) (head : p.free = r :: rest) :
    Sound ⟨rest,r :: p.lent,p.owns⟩ := by
  obtain ⟨free,lent,apart,owned,single⟩ := sound
  rw [head] at free apart
  obtain ⟨fresh,nodup⟩ := List.nodup_cons.mp free
  obtain ⟨outside,disjoint⟩ := List.disjoint_cons_left.mp apart
  refine ⟨nodup,List.nodup_cons.mpr ⟨outside,lent⟩,List.disjoint_cons_right.mpr ⟨fresh,disjoint⟩,?_,single⟩
  intro a q has
  obtain ⟨notFree,notLent⟩ := owned a q has
  rw [head,List.mem_cons,not_or] at notFree
  exact ⟨notFree.2,by simp [notFree.1,notLent]⟩

theorem give [DecidableEq R] {p : State O R} (sound : Sound p) (r : R) (member : r ∈ p.lent) :
    Sound ⟨r :: p.free,p.lent.erase r,p.owns⟩ := by
  have outside : r ∉ p.free := fun inside => sound.apart inside member
  have removed : r ∉ p.lent.erase r := sound.lent.not_mem_erase
  refine ⟨List.nodup_cons.mpr ⟨outside,sound.free⟩,sound.lent.erase r,?_,?_,sound.single⟩
  · apply List.disjoint_cons_left.mpr
    refine ⟨removed,?_⟩
    intro q inside kept
    exact sound.apart inside (List.mem_of_mem_erase kept)
  · intro a q has
    obtain ⟨notFree,notLent⟩ := sound.owned a q has
    refine ⟨?_,fun kept => notLent (List.mem_of_mem_erase kept)⟩
    intro inside
    rcases List.mem_cons.mp inside with same | old
    · exact notLent (same ▸ member)
    · exact notFree old

theorem assign [DecidableEq O] {p : State O R} (sound : Sound p) (a : O) (r : R)
    (rest : List R) (head : p.free = r :: rest) : Sound ⟨rest,p.lent,update p.owns a (some r)⟩ := by
  obtain ⟨free,lent,apart,owned,single⟩ := sound
  rw [head] at free apart
  obtain ⟨fresh,nodup⟩ := List.nodup_cons.mp free
  obtain ⟨outside,disjoint⟩ := List.disjoint_cons_left.mp apart
  have old (b : O) (other : b ≠ a) (q : R) (has : update p.owns a (some r) b = some q) :
      p.owns b = some q ∧ q ≠ r ∧ q ∉ rest ∧ q ∉ p.lent := by
    rw [update_of_ne other] at has
    obtain ⟨notFree,notLent⟩ := owned b q has
    rw [head,List.mem_cons,not_or] at notFree
    exact ⟨has,notFree.1,notFree.2,notLent⟩
  have new (q : R) (has : update p.owns a (some r) a = some q) : r = q := by simpa using has
  refine ⟨nodup,lent,disjoint,?_,?_⟩
  · intro b q has
    by_cases here : b = a
    · subst b
      rw [← new q has]
      exact ⟨fresh,outside⟩
    · exact ⟨(old b here q has).2.2.1,(old b here q has).2.2.2⟩
  · intro b c q first second
    by_cases left : b = a <;> by_cases right : c = a
    · rw [left,right]
    · subst b
      exact absurd (new q first).symm (old c right q second).2.1
    · subst c
      exact absurd (new q second).symm (old b left q first).2.1
    · exact single b c q (old b left q first).1 (old c right q second).1

theorem release [DecidableEq O] {p : State O R} (sound : Sound p) (a : O) (r : R)
    (owned : p.owns a = some r) :
    Sound ⟨r :: p.free,p.lent,update p.owns a none⟩ := by
  obtain ⟨notFree,notLent⟩ := sound.owned a r owned
  have rest := sound.forget a
  refine ⟨List.nodup_cons.mpr ⟨notFree,sound.free⟩,sound.lent,
    List.disjoint_cons_left.mpr ⟨notLent,sound.apart⟩,?_,rest.single⟩
  intro b q has
  refine ⟨?_,(rest.owned b q has).2⟩
  intro inside
  rcases List.mem_cons.mp inside with same | old
  · obtain ⟨other,before⟩ := cleared has
    exact other (sound.single b a r (same ▸ before) owned)
  · exact (rest.owned b q has).1 old

theorem move [DecidableEq O] [DecidableEq R] {p p' : State O R} (sound : Sound p)
    (moved : Move p p') : Sound p' := by
  cases moved with
  | lend r rest head => exact sound.lend r rest head
  | give r member => exact sound.give r member
  | assign a r rest head => exact sound.assign a r rest head
  | release a r owned => exact sound.release a r owned
  | forget a => exact sound.forget a

theorem moves [DecidableEq O] [DecidableEq R] {p p' : State O R} (sound : Sound p)
    (moved : Moves p p') : Sound p' := by
  induction moved with
  | refl => exact sound
  | tail _ last held => exact held.move last

end Sound

end Pool
