import Mathlib.Algebra.Group.Nat.Defs
import Mathlib.Data.List.Basic

/-! Numbers in memory: little endian, in lists of bytes. -/
namespace Bytes

def little (bytes : List UInt8) : Nat := bytes.foldr (fun b r => b.toNat+256*r) 0

def ofNat : Nat → Nat → List UInt8
  | 0,_ => []
  | n+1,w => UInt8.ofNat w :: ofNat n (w/256)

theorem little_cons (b : UInt8) (bytes : List UInt8) : little (b :: bytes) = b.toNat+256*little bytes := rfl

theorem little_lt (bytes : List UInt8) : little bytes < 256^bytes.length := by
  induction bytes with
  | nil => simp [little]
  | cons b bytes ih =>
    have byte : b.toNat < 256 := b.toNat_lt
    rw [little_cons,List.length_cons,Nat.pow_succ]
    omega

theorem length_ofNat (n w : Nat) : (ofNat n w).length = n := by
  induction n generalizing w with
  | zero => rfl
  | succ n ih => simp [ofNat,ih]

theorem byte_ofNat (n w i : Nat) (inside : i < n) : (ofNat n w)[i]? = some (UInt8.ofNat (w/256^i)) := by
  induction n generalizing w i with
  | zero => contradiction
  | succ n ih =>
    cases i with
    | zero => simp [ofNat]
    | succ i =>
      rw [ofNat,List.getElem?_cons_succ,ih (w/256) i (by omega),Nat.div_div_eq_div_mul,Nat.pow_succ']

theorem byte_little (bytes : List UInt8) (i : Nat) (inside : i < bytes.length) :
    UInt8.ofNat (little bytes/256^i) = bytes[i] := by
  induction bytes generalizing i with
  | nil => contradiction
  | cons b bytes ih =>
    have byte : b.toNat < 256 := b.toNat_lt
    rw [little_cons]
    cases i with
    | zero =>
      apply UInt8.toNat.inj
      simp
    | succ i =>
      rw [Nat.pow_succ',← Nat.div_div_eq_div_mul,Nat.add_mul_div_left _ _ (by decide),Nat.div_eq_of_lt byte,
        Nat.zero_add]
      exact ih i (Nat.lt_of_succ_lt_succ inside)

end Bytes
