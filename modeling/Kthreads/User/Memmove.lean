import Kthreads.Vm.Pages

/-! The two functions `memmove`. The kernel's, in string.c, copies from the end where the ranges ask for
it; that of the user library, in ulib.c, always copies from the beginning. Pointers are 32-bit words. -/
open Function

namespace Kthreads

/-- `while(n-- > 0) *d++ = *s++;` -/
def copyUp (m : Nat → UInt8) : Nat → Nat → Nat → Nat → UInt8
  | 0,_,_ => m
  | n+1,d,s => copyUp (update m d (m s)) n (uint (d+1)) (uint (s+1))

/-- `while(n-- > 0) *--d = *--s;` -/
def copyDown (m : Nat → UInt8) : Nat → Nat → Nat → Nat → UInt8
  | 0,_,_ => m
  | n+1,d,s => copyDown (update m (uint (d-1)) (m (uint (s-1)))) n (uint (d-1)) (uint (s-1))

def Kernel.memmove (m : Nat → UInt8) (dst src n : Nat) : Nat → UInt8 :=
  if src < dst ∧ dst < uint (src+n) then copyDown m n (uint (dst+n)) (uint (src+n))
  else copyUp m n dst src

def User.memmove (m : Nat → UInt8) (dst src : Nat) (n : Int) : Nat → UInt8 := copyUp m n.toNat dst src

structure MovedBytes (m m' : Nat → UInt8) (dst src n : Nat) : Prop where
  copied : ∀ i < n, m' (dst+i) = m (src+i)
  others : ∀ a, a < dst ∨ dst+n ≤ a → m' a = m a

section Copies
variable {m : Nat → UInt8} {d s n : Nat} (dst : d+n ≤ 4294967296) (src : s+n ≤ 4294967296)
include dst src

/-- From the beginning, each byte is read before it is overwritten if `d` is not inside the source. -/
theorem copyUp_moves (clear : d ≤ s ∨ s+n ≤ d) : MovedBytes m (copyUp m n d s) d s n := by
  induction n generalizing m d s with
  | zero => exact ⟨nofun,fun _ _ => rfl⟩
  | succ n ih =>
    rcases Nat.eq_zero_or_pos n with rfl | positive
    · refine ⟨?_,?_⟩
      · intro i first
        obtain rfl : i = 0 := by omega
        exact update_self ..
      · intro a outside
        exact update_of_ne (by omega) ..
    · have next : uint (d+1) = d+1 ∧ uint (s+1) = s+1 := by
        simp only [uint]
        omega
      rw [copyUp,next.1,next.2]
      have rest := ih (m := update m d (m s)) (d := d+1) (s := s+1) (by omega) (by omega) (by omega)
      refine ⟨?_,?_⟩
      · intro i inside
        cases i with
        | zero => rw [rest.others (d+0) (by omega),Nat.add_zero,Nat.add_zero,update_self]
        | succ i =>
          have copied := rest.copied i (by omega)
          rw [Nat.add_assoc,Nat.add_comm 1 i,Nat.add_assoc,Nat.add_comm 1 i] at copied
          rw [copied,update_of_ne (by omega)]
      · intro a outside
        rw [rest.others a (by omega),update_of_ne (by omega)]

theorem copyDown_moves (above : s ≤ d) : MovedBytes m (copyDown m n (uint (d+n)) (uint (s+n))) d s n := by
  induction n generalizing m with
  | zero => exact ⟨nofun,fun _ _ => rfl⟩
  | succ n ih =>
    have next (a : Nat) (inside : a+(n+1) ≤ 4294967296) :
        uint ((uint (a+(n+1 : Nat)) : Nat)-1) = a+n ∧ uint (a+n) = a+n := by
      simp only [uint]
      omega
    rw [copyDown,(next d dst).1,(next s src).1]
    have rest := ih (m := update m (d+n) (m (s+n))) (by omega) (by omega)
    rw [(next d dst).2,(next s src).2] at rest
    refine ⟨?_,?_⟩
    · intro i inside
      by_cases last : i = n
      · subst i
        rw [rest.others (d+n) (by omega),update_self]
      · rw [rest.copied i (by omega),update_of_ne (by omega)]
    · intro a outside
      rw [rest.others a (by omega),update_of_ne (by omega)]

omit src in
/-- From the beginning and upwards, each byte is read after all bytes before it have been written. -/
theorem copyUp_repeats (above : s < d) : (∀ i < n, copyUp m n d s (d+i) = copyUp m n d s (s+i)) ∧
    ∀ a < d, copyUp m n d s a = m a := by
  induction n generalizing m d s with
  | zero => exact ⟨nofun,fun _ _ => rfl⟩
  | succ n ih =>
    rcases Nat.eq_zero_or_pos n with rfl | positive
    · refine ⟨?_,fun a below => update_of_ne (by omega) ..⟩
      intro i first
      obtain rfl : i = 0 := by omega
      change update m d (m s) d = update m d (m s) s
      rw [update_self,update_of_ne (by omega)]
    · have next : uint (d+1) = d+1 ∧ uint (s+1) = s+1 := by
        simp only [uint]
        omega
      rw [copyUp,next.1,next.2]
      obtain ⟨rest,old⟩ := ih (m := update m d (m s)) (d := d+1) (s := s+1) (by omega) (by omega)
      refine ⟨?_,?_⟩
      · intro i inside
        cases i with
        | zero =>
          change copyUp _ n _ _ d = copyUp _ n _ _ s
          rw [old d (by omega),old s (by omega),update_self,update_of_ne (by omega)]
        | succ i =>
          have repeated := rest i (by omega)
          rwa [Nat.add_assoc,Nat.add_comm 1 i,Nat.add_assoc,Nat.add_comm 1 i] at repeated
      · intro a below
        rw [old a (by omega),update_of_ne (by omega)]

/-- The kernel's `memmove` is right whatever the overlap; that of the user library is right for every
content of the memory just if the destination does not begin inside the source, behind its first byte. -/
theorem memmoves_copy : (∀ m, MovedBytes m (Kernel.memmove m d s n) d s n) ∧
    ((∀ m, MovedBytes m (User.memmove m d s n) d s n) ↔ d ≤ s ∨ s+n ≤ d) := by
  refine ⟨?_,?_,fun clear m => copyUp_moves dst src clear⟩
  · intro m
    unfold Kernel.memmove
    split
    next inside => exact copyDown_moves dst src (Nat.le_of_lt inside.1)
    next outside =>
      apply copyUp_moves dst src
      simp only [uint] at outside
      omega
  · intro right
    by_contra inside
    have above : s < d := by omega
    have below : d-s < n := by omega
    -- the byte at the destination is overwritten by the first one before it is read
    let m : Nat → UInt8 := fun a => if a = s then 1 else 0
    obtain ⟨repeats,kept⟩ := copyUp_repeats (m := m) dst above
    have copied := (right m).copied (d-s) below
    have first := repeats 0 (by omega)
    change copyUp m n d s (d+(d-s)) = m (s+(d-s)) at copied
    rw [repeats (d-s) below,show s+(d-s) = d by omega] at copied
    rw [Nat.add_zero,Nat.add_zero,kept s above,copied] at first
    simp only [m,if_pos,if_neg (show d ≠ s by omega)] at first
    contradiction

end Copies

theorem memmoves_copy_one_up :
    MovedBytes (fun a => UInt8.ofNat a) (Kernel.memmove (fun a => UInt8.ofNat a) 1 0 2) 1 0 2 ∧
    ∀ m, MovedBytes m (User.memmove m 2 0 2) 2 0 2 :=
  ⟨(memmoves_copy (by decide) (by decide)).1 _,(memmoves_copy (by decide) (by decide)).2.mpr (by decide)⟩

/-- Two bytes moved up by one: the second one has been overwritten when it is read. -/
theorem user_memmove_overwrites : ¬ MovedBytes (fun a => UInt8.ofNat a) (User.memmove (fun a => UInt8.ofNat a) 1 0 2) 1 0 2 := by
  intro moved
  exact absurd (moved.copied 1 (by decide)) (by decide)

end Kthreads
