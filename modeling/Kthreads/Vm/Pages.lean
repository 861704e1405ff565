import Mathlib.Data.Fintype.Basic
import Mathlib.Logic.Function.Basic

/-! Addresses, pages and the user part of a page directory: which pages begin below a size, and what
`mappages` and a round of `deallocuvm` do to them. Addresses are numbers below 2^32. -/
open Function

namespace Kthreads

def pgsize : Nat := 4096

def kernbase : Nat := 2147483648

def uint (z : Int) : Nat := (z % 4294967296).toNat

def pgroundup (sz : Nat) : Nat := (sz+(pgsize-1))/pgsize*pgsize

theorem le_pgroundup (m : Nat) : m ≤ pgroundup m := by
  simp only [pgroundup,pgsize]
  omega

theorem pgroundup_mono {m n : Nat} (less : m ≤ n) : pgroundup m ≤ pgroundup n := by
  simp only [pgroundup,pgsize]
  omega

theorem pgroundup_mod (m : Nat) : pgroundup m%pgsize = 0 := Nat.mul_mod_left ..

/-- A page that begins below the end of the last page begins below the size. -/
theorem page_lt {k m : Nat} (less : k*pgsize < pgroundup m) : k*pgsize < m := by
  simp only [pgroundup,pgsize] at *
  omega

theorem page_ne {k m a : Nat} (less : k*pgsize < m) (above : pgroundup m ≤ a) : k ≠ a/pgsize := by
  simp only [pgroundup,pgsize] at *
  omega

theorem page_next {k a : Nat} (aligned : a%pgsize = 0) (less : k*pgsize < a+pgsize) : k = a/pgsize ∨ k*pgsize < a := by
  simp only [pgsize] at *
  omega

structure Span where
  lo : Nat
  size : Nat
  deriving DecidableEq

namespace Span
variable {r : Span} {m n : Nat}

/-- The pages of the range begin below `m`. -/
def below (r : Span) (m : Nat) : Prop := r.size = 0 ∨ r.lo+r.size ≤ pgroundup m

instance (r : Span) (m : Nat) : Decidable (r.below m) :=
  inferInstanceAs (Decidable (r.size = 0 ∨ r.lo+r.size ≤ pgroundup m))

theorem below_mono (below : r.below m) (less : m ≤ n) : r.below n := by
  rcases below with none | some
  · exact .inl none
  · exact .inr (some.trans (pgroundup_mono less))

theorem below_page {x : Nat} (below : r.below m) (lower : r.lo ≤ x) (upper : x < r.lo+r.size) :
    x/pgsize*pgsize < m := by
  apply page_lt
  rcases below with none | some
  · omega
  · have floor := Nat.div_mul_le_self x pgsize
    omega

theorem below_of_le (inside : r.lo+r.size ≤ m) : r.below m := .inr (inside.trans (le_pgroundup m))

end Span

/-- The user part of a page directory: which page tables there are, and which pages are present. -/
structure Pgdir where
  tables : Nat → Bool
  present : Nat → Bool

namespace Pgdir
variable {d d' : Pgdir}

def empty : Pgdir := ⟨fun _ => false,fun _ => false⟩

/-- The entry for an address, if its page table exists. -/
def walkpgdir (d : Pgdir) (a : Nat) : Option Bool :=
  if d.tables (a/(1024*pgsize)) then some (d.present (a/pgsize)) else none

/-- One page is mapped; a new page table starts empty. A page that is present already is a panic. -/
def mappages (d : Pgdir) (a : Nat) : Option Pgdir :=
  if d.walkpgdir a = some true then none
  else some ⟨update d.tables (a/(1024*pgsize)) true,
    update (fun k => d.tables (k/1024) && d.present k) (a/pgsize) true⟩

/-- One round of `deallocuvm`, with the next address. -/
def unmap (d : Pgdir) (a : Nat) : Pgdir × Nat :=
  match d.walkpgdir a with
  | none => (d,(a/(1024*pgsize)+1)*(1024*pgsize))
  | some true => ({d with present := update d.present (a/pgsize) false},a+pgsize)
  | some false => (d,a+pgsize)

def mapped (d : Pgdir) (k : Nat) : Bool := d.tables (k/1024) && d.present k

/-- Every page below a size is there. -/
def Covers (d : Pgdir) (sz : Nat) : Prop := ∀ k, k*pgsize < sz → d.mapped k = true

theorem page_table (a : Nat) : a/(1024*pgsize) = a/pgsize/1024 := by
  rw [Nat.div_div_eq_div_mul,Nat.mul_comm]

theorem walkpgdir_mapped (a : Nat) : d.walkpgdir a = some true ↔ d.mapped (a/pgsize) = true := by
  simp [walkpgdir,mapped,page_table]

theorem mappages_mapped {a : Nat} (done : d.mappages a = some d') (k : Nat) :
    d'.mapped k = (decide (k = a/pgsize) || d.mapped k) := by
  unfold mappages at done
  split at done
  · contradiction
  cases done
  by_cases here : k = a/pgsize
  · simp [mapped,here,page_table]
  · by_cases same : k/1024 = a/(1024*pgsize)
    · simp [mapped,here,same]
    · simp [mapped,here,same]

theorem mappages_covers {a : Nat} (done : d.mappages a = some d') (aligned : a%pgsize = 0) (covers : d.Covers a) :
    d'.Covers (a+pgsize) := by
  intro k less
  rw [mappages_mapped done]
  rcases page_next aligned less with here | below
  · simp [here]
  · simp [covers k below]

theorem unmap_mapped (a k : Nat) (other : k ≠ a/pgsize) : (d.unmap a).1.mapped k = d.mapped k := by
  unfold unmap
  split
  · rfl
  · simp [mapped,other]
  · rfl

theorem unmap_next (a : Nat) : a ≤ (d.unmap a).2 := by
  unfold unmap
  split
  · simp only [pgsize]
    omega
  · exact Nat.le_add_right ..
  · exact Nat.le_add_right ..

theorem unmap_covers {a m : Nat} (covers : d.Covers m) (above : pgroundup m ≤ a) : (d.unmap a).1.Covers m :=
  fun k less => (unmap_mapped a k (page_ne less above)).trans (covers k less)

theorem Covers.mono {m n : Nat} (covers : d.Covers n) (less : m ≤ n) : d.Covers m :=
  fun k below => covers k (below.trans_le less)

theorem Covers.pgroundup {m : Nat} (covers : d.Covers m) : d.Covers (pgroundup m) :=
  fun k below => covers k (page_lt below)

end Pgdir

end Kthreads
