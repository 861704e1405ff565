import Mathlib.Logic.Function.Basic

/-! Redo logging over any addresses and values. A group of writes is put into slots next to a
header that names their addresses; the header makes the group count, and installing it can be
repeated from the start. -/
open Function

namespace Redo

variable {A V : Type} [DecidableEq A]

def apply (base : A → V) (writes : List (A × V)) : A → V :=
  writes.foldl (fun store w => update store w.1 w.2) base

def replay (base : A → V) (groups : List (List (A × V))) : A → V := groups.foldl apply base

theorem apply_concat (base : A → V) (writes : List (A × V)) (a : A) (v : V) :
    apply base (writes ++ [(a,v)]) = update (apply base writes) a v := by
  simp [apply]

theorem apply_other (base : A → V) (writes : List (A × V)) (a : A) (other : ∀ w ∈ writes, w.1 ≠ a) :
    apply base writes a = base a := by
  induction writes generalizing base with
  | nil => rfl
  | cons w writes ih =>
    have first : w.1 ≠ a := other w (by simp)
    have rest := ih (update base w.1 w.2) (fun x member => other x (by simp [member]))
    rw [update_of_ne (Ne.symm first)] at rest
    exact rest

theorem replay_concat (base : A → V) (groups : List (List (A × V))) (writes : List (A × V)) :
    replay base (groups ++ [writes]) = apply (replay base groups) writes := by
  simp [replay]

/-- The slots hold the values that `target` has at the addresses of the header, and the store
agrees with `target` wherever the part of the header from `tail` on does not reach. Only
addresses of a region count. -/
structure Installed (region : A → Prop) (target store : A → V) (header : List A) (slots : Nat → V) (tail : Nat) :
    Prop where
  slots : ∀ i a, header[i]? = some a → slots i = target a
  store : ∀ a, region a → a ∉ header.drop tail → store a = target a

section Install
variable {region : A → Prop} {target store : A → V} {header : List A} {slots : Nat → V} {tail : Nat}

omit [DecidableEq A] in
/-- An installation that has stopped can start again. -/
theorem Installed.restart (inst : Installed region target store header slots tail) :
    Installed region target store header slots 0 := by
  refine ⟨inst.slots,?_⟩
  intro a inside outside
  exact inst.store a inside (fun member => outside (List.mem_of_mem_drop member))

omit [DecidableEq A] in
theorem Installed.congr (inst : Installed region target store header slots tail) {slots' : Nat → V} {store' : A → V}
    (same : ∀ i a, header[i]? = some a → slots' i = slots i) (keeps : ∀ a, region a → store' a = store a) :
    Installed region target store' header slots' tail := by
  refine ⟨?_,?_⟩
  · intro i a named
    rw [same i a named]
    exact inst.slots i a named
  · intro a inside outside
    rw [keeps a inside]
    exact inst.store a inside outside

theorem Installed.install (inst : Installed region target store header slots tail) {a : A}
    (next : header[tail]? = some a) :
    Installed region target (update store a (slots tail)) header slots (tail+1) := by
  refine ⟨inst.slots,?_⟩
  intro b inside outside
  by_cases here : b = a
  · rw [here,update_self]
    exact inst.slots tail a next
  · rw [update_of_ne here]
    refine inst.store b inside ?_
    obtain ⟨bound,value⟩ := List.getElem?_eq_some_iff.mp next
    rw [List.drop_eq_getElem_cons bound,value]
    simp [here,outside]

omit [DecidableEq A] in
theorem Installed.done (inst : Installed region target store header slots tail) (last : header[tail]? = none) (a : A)
    (inside : region a) : store a = target a := by
  refine inst.store a inside ?_
  rw [List.drop_eq_nil_of_le (List.getElem?_eq_none_iff.mp last)]
  simp

theorem Installed.commit {base : A → V} {writes : List (A × V)} (agrees : ∀ a, region a → store a = base a)
    (named : ∀ w ∈ writes, w.1 ∈ header) (stored : ∀ i a, header[i]? = some a → slots i = apply base writes a) :
    Installed region (apply base writes) store header slots 0 := by
  refine ⟨stored,?_⟩
  intro a inside outside
  rw [agrees a inside,apply_other]
  rintro w member rfl
  exact outside (named w member)

end Install

end Redo
