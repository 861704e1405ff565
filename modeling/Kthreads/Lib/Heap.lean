import Mathlib.Logic.Function.Basic
import Mathlib.Data.List.Basic

/-! A heap of blocks of words, and rules for programs on a state that may fail.
A word that has not been written since its block was handed out has no value, and an access
outside a live block fails. Where a new block lies is chosen by the caller of `malloc`. -/
open Function

namespace Heap

abbrev Blocks := Nat → Option (List (Option Int))

def Usable (h : Blocks) (p : Nat) : Prop := p ≠ 0 ∧ h p = none

instance (h : Blocks) (p : Nat) : Decidable (Usable h p) := inferInstanceAs (Decidable (_ ∧ _))

def malloc (h : Blocks) (n p : Nat) : Blocks × Nat :=
  if Usable h p then (update h p (some (List.replicate n none)),p) else (h,0)

def free (h : Blocks) (p : Nat) : Option Blocks := (h p).map fun _ => update h p none

def load (h : Blocks) (p i : Nat) : Option Int := (h p).bind fun block => block[i]?.join

def store (h : Blocks) (p i : Nat) (v : Int) : Option Blocks :=
  (h p).bind fun block =>
    if i < block.length then some (update h p (some (block.set i (some v)))) else none

section Access
variable {h : Blocks} {p : Nat} {block : List (Option Int)}

theorem free_live (live : h p = some block) : free h p = some (update h p none) := by
  simp [free,live]

theorem load_live (live : h p = some block) {i : Nat} {v : Int} (word : block[i]? = some (some v)) :
    load h p i = some v := by
  simp [load,live,word]

theorem store_live (live : h p = some block) {i : Nat} (inside : i < block.length) (v : Int) :
    store h p i v = some (update h p (some (block.set i (some v)))) := by
  simp [store,live,inside]

end Access

section Programs
variable {S A B : Type}

/-- The program runs to its end, where `post` holds of its result and the state. -/
def Ensures (program : StateT S Option A) (s : S) (post : A → S → Prop) : Prop :=
  ∃ result final, program s = some (result,final) ∧ post result final

namespace Ensures

variable {program : StateT S Option A} {next : A → StateT S Option B} {s : S} {post : B → S → Prop}

theorem pure_iff {value : A} {post : A → S → Prop} : Ensures (Pure.pure value) s post ↔ post value s := by
  constructor
  · rintro ⟨_,_,ran,holds⟩
    cases ran
    exact holds
  · exact fun holds => ⟨value,s,rfl,holds⟩

theorem pure {value : A} {post : A → S → Prop} (holds : post value s) : Ensures (Pure.pure value) s post :=
  pure_iff.mpr holds

theorem bind {mid : A → S → Prop} (first : Ensures program s mid)
    (second : ∀ result s', mid result s' → Ensures (next result) s' post) : Ensures (program >>= next) s post := by
  obtain ⟨result,s',ran,holds⟩ := first
  obtain ⟨value,final,rest,after⟩ := second result s' holds
  refine ⟨value,final,?_,after⟩
  simp [Bind.bind,StateT.bind,ran,rest]

theorem step_iff {result : A} {s' : S} (ran : program s = some (result,s')) :
    Ensures (program >>= next) s post ↔ Ensures (next result) s' post := by
  have same : (program >>= next) s = next result s' := by simp [Bind.bind,StateT.bind,ran]
  rw [Ensures,same,Ensures]

theorem step {result : A} {s' : S} (ran : program s = some (result,s')) (rest : Ensures (next result) s' post) :
    Ensures (program >>= next) s post :=
  (step_iff ran).mpr rest

theorem mono {weaker : A → S → Prop} {stronger : A → S → Prop} (first : Ensures program s stronger)
    (implied : ∀ result s', stronger result s' → weaker result s') : Ensures program s weaker := by
  obtain ⟨result,s',ran,holds⟩ := first
  exact ⟨result,s',ran,implied _ _ holds⟩

end Ensures
end Programs
end Heap
