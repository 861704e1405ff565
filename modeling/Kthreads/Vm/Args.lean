import Kthreads.Lib.Bytes
import Kthreads.Vm.Pages

/-! The checks of syscall.c on what a user program passes to a call. `mem` is the memory that the program
sees and `sz` the size of its process. A check that returns -1 is `none`. -/
namespace Kthreads
variable (mem : Nat → UInt8) (sz : Nat)

/-- The word at an address. -/
def fetched (addr : Nat) : Nat := Bytes.little ((List.range 4).map fun i => mem (uint (addr+i)))

def fetchint (addr : Nat) : Option Nat :=
  if sz ≤ addr ∨ sz < uint (addr+4) then none else some (fetched mem addr)

/-- The loop of `fetchstr`, with `n` the bytes before `ep`. -/
def fetchstrLoop (pp : Nat) : Nat → Nat → Option (Nat × Nat)
  | 0,_ => none
  | n+1,s => if mem s = 0 then some (pp,s-pp) else fetchstrLoop pp n (s+1)

/-- The pointer with the length of the string. -/
def fetchstr (addr : Nat) : Option (Nat × Nat) :=
  if sz ≤ addr then none else fetchstrLoop mem addr (sz-addr) addr

def argint (esp : Nat) (n : Int) : Option Nat := fetchint mem sz (uint (esp+4+4*n))

def argptr (esp : Nat) (n size : Int) : Option Nat :=
  match argint mem sz esp n with
  | none => none
  | some i => if size < 0 ∨ sz ≤ i ∨ sz < uint (i+size) then none else some i

def argstr (esp : Nat) (n : Int) : Option (Nat × Nat) :=
  match argint mem sz esp n with
  | none => none
  | some addr => fetchstr mem sz addr

/-- The `n` bytes from `a` on are memory of the process, with no wraparound. -/
def Inside (a n : Nat) : Prop := ∀ i < n, uint (a+i) = a+i ∧ a+i < sz

section Checked
variable {mem sz} (small : sz < kernbase)
include small

theorem inside_of_le {a n : Nat} (within : a+n ≤ sz) : Inside sz a n := by
  intro i less
  simp only [kernbase] at small
  simp only [uint]
  omega

theorem fetchint_inside {addr v : Nat} (found : fetchint mem sz addr = some v) : Inside sz addr 4 := by
  unfold fetchint at found
  split at found
  next => contradiction
  next checked =>
    apply inside_of_le small
    simp only [kernbase] at small
    simp only [uint] at checked
    omega

theorem fetchstr_inside {addr p len : Nat} (found : fetchstr mem sz addr = some (p,len)) :
    p = addr ∧ Inside sz p (len+1) ∧ mem (p+len) = 0 ∧ ∀ i < len, mem (p+i) ≠ 0 := by
  unfold fetchstr at found
  split at found
  next => contradiction
  next below =>
  suffices scanned : ∀ k n, k+n = sz-addr → (∀ i < k, mem (addr+i) ≠ 0) →
      fetchstrLoop mem addr n (addr+k) = some (p,len) →
      p = addr ∧ len < sz-addr ∧ mem (p+len) = 0 ∧ ∀ i < len, mem (p+i) ≠ 0 by
    obtain ⟨rfl,bound,rest⟩ := scanned 0 (sz-addr) (Nat.zero_add _) nofun found
    exact ⟨rfl,inside_of_le small (by omega),rest⟩
  -- `k` bytes have been passed, none of them a NUL
  intro k n
  induction n generalizing k with
  | zero => exact fun _ _ found => nomatch found
  | succ n ih =>
    intro sum passed found
    rw [fetchstrLoop] at found
    split at found
    next zero =>
      cases found
      rw [Nat.add_sub_cancel_left]
      exact ⟨rfl,by omega,zero,passed⟩
    next nonzero =>
      refine ih (k+1) (by omega) ?_ found
      intro i less
      rcases Nat.lt_succ_iff_lt_or_eq.mp less with before | rfl
      · exact passed i before
      · exact nonzero

/-- What the checks accept lies in the memory of the process, and a string ends there. -/
theorem arguments_inside :
    (∀ addr v, fetchint mem sz addr = some v → Inside sz addr 4) ∧
    (∀ esp n v, argint mem sz esp n = some v → Inside sz (uint (esp+4+4*n)) 4) ∧
    (∀ esp n size p, size < 2147483648 → argptr mem sz esp n size = some p →
      0 ≤ size ∧ Inside sz p size.toNat) ∧
    (∀ addr p len, fetchstr mem sz addr = some (p,len) →
      Inside sz p (len+1) ∧ mem (p+len) = 0 ∧ ∀ i < len, mem (p+i) ≠ 0) ∧
    ∀ esp n p len, argstr mem sz esp n = some (p,len) →
      Inside sz p (len+1) ∧ mem (p+len) = 0 ∧ ∀ i < len, mem (p+i) ≠ 0 := by
  refine ⟨fun addr v => fetchint_inside small,fun esp n v => fetchint_inside small,?_,?_,?_⟩
  · intro esp n size p int found
    unfold argptr at found
    split at found
    next => contradiction
    next =>
      split at found
      next => contradiction
      next checked =>
        cases found
        have bound := small
        simp only [kernbase] at bound
        simp only [uint] at checked
        exact ⟨by omega,inside_of_le small (by omega)⟩
  · intro addr p len found
    exact (fetchstr_inside small found).2
  · intro esp n p len found
    unfold argstr at found
    split at found
    next => contradiction
    next => exact (fetchstr_inside small found).2

end Checked

theorem arguments_inside_page : argptr (fun a => if a = 8 then 16 else 0) 4096 4 0 20 = some 16 ∧ Inside 4096 16 20 :=
  have checked : argptr (fun a => if a = 8 then 16 else 0) 4096 4 0 20 = some 16 := rfl
  ⟨checked,((arguments_inside (by decide)).2.2.1 4 0 20 16 (by decide) checked).2⟩

end Kthreads
