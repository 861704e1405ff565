import Mathlib.Data.Fin.Basic
import Mathlib.Data.List.Basic
import Mathlib.Data.Nat.ModEq
import Mathlib.Logic.Function.Basic

/-! Ring buffers whose counters wrap around. A ring has `size` cells, and its two counters are
kept modulo a multiple of `size`; what it holds is the part of a stream that has been put in and
not yet been taken out. -/
namespace Ring

variable {α : Type} {size modulus : Nat} [NeZero size]

/-- The ring holds `rest`, after `done` has gone through it. -/
structure Holds (modulus : Nat) (cell : Fin size → α) (first next : Nat) (done rest : List α) : Prop where
  first : first = done.length % modulus
  next : next = (done.length+rest.length) % modulus
  fits : rest.length ≤ size
  cell : ∀ j x, rest[j]? = some x → cell (Fin.ofNat size (done.length+j)) = x

theorem index_wrapped (divides : size ∣ modulus) (n : Nat) : Fin.ofNat size (n % modulus) = Fin.ofNat size n := by
  apply Fin.ext
  exact Nat.mod_mod_of_dvd n divides

theorem index_add_wrapped (divides : size ∣ modulus) (n j : Nat) :
    Fin.ofNat size (n % modulus+j) = Fin.ofNat size (n+j) := by
  apply Fin.ext
  change (n % modulus+j) % size = (n+j) % size
  rw [Nat.add_mod,Nat.mod_mod_of_dvd n divides,← Nat.add_mod]

theorem index_injective (n i j : Nat) (first : i < size) (second : j < size)
    (same : Fin.ofNat size (n+i) = Fin.ofNat size (n+j)) : i = j := by
  have equal : (n+i) % size = (n+j) % size := congrArg Fin.val same
  have congruent : i % size = j % size := Nat.ModEq.add_left_cancel' n equal
  rwa [Nat.mod_eq_of_lt first,Nat.mod_eq_of_lt second] at congruent

namespace Holds
variable {cell : Fin size → α} {first next : Nat} {done rest : List α}

theorem start (cell : Fin size → α) : Holds modulus cell 0 0 [] [] :=
  ⟨by simp,by simp,by simp,by simp⟩

section
variable (holds : Holds modulus cell first next done rest)
include holds

/-- The difference of the counters is what the ring holds. -/
theorem used (room : size < modulus) : (next+modulus-first) % modulus = rest.length := by
  have bound := holds.fits
  have small : rest.length < modulus := by omega
  have below : done.length % modulus < modulus := Nat.mod_lt _ (by omega)
  rw [holds.first,holds.next,Nat.add_mod,Nat.mod_eq_of_lt small]
  by_cases wraps : done.length % modulus+rest.length < modulus
  · rw [Nat.mod_eq_of_lt wraps]
    have sum : done.length % modulus+rest.length+modulus-done.length % modulus = rest.length+modulus := by omega
    rw [sum,Nat.add_mod_right,Nat.mod_eq_of_lt small]
  · have sum : (done.length % modulus+rest.length) % modulus = done.length % modulus+rest.length-modulus := by
      rw [Nat.mod_eq_sub_mod (by omega),Nat.mod_eq_of_lt (by omega)]
    have back : done.length % modulus+rest.length-modulus+modulus-done.length % modulus = rest.length := by omega
    rw [sum,back,Nat.mod_eq_of_lt small]

theorem empty_iff (room : size < modulus) : first = next ↔ rest = [] := by
  constructor
  · intro same
    have used := holds.used room
    rw [← same,Nat.add_sub_cancel_left,Nat.mod_self] at used
    exact List.eq_nil_of_length_eq_zero used.symm
  · rintro rfl
    rw [holds.first,holds.next]
    rfl

theorem full_iff (room : size < modulus) : next = (first+size) % modulus ↔ rest.length = size := by
  have bound := holds.fits
  rw [holds.first,holds.next,Nat.mod_add_mod]
  constructor
  · intro same
    have congruent : rest.length % modulus = size % modulus := Nat.ModEq.add_left_cancel' done.length same
    rwa [Nat.mod_eq_of_lt (by omega),Nat.mod_eq_of_lt room] at congruent
  · intro same
    rw [same]

theorem put (divides : size ∣ modulus) (space : rest.length < size)
    (x : α) : Holds modulus (Function.update cell (Fin.ofNat size next) x) first ((next+1) % modulus) done
      (rest ++ [x]) := by
  have index : Fin.ofNat size next = Fin.ofNat size (done.length+rest.length) := by
    rw [holds.next,index_wrapped divides]
  refine ⟨holds.first,?_,?_,?_⟩
  · rw [holds.next,Nat.mod_add_mod,List.length_append,List.length_singleton,Nat.add_assoc]
  · rw [List.length_append,List.length_singleton]
    exact space
  · intro j y member
    rw [index]
    by_cases last : j = rest.length
    · subst last
      rw [List.getElem?_concat_length] at member
      cases member
      simp
    · have inside : j < rest.length := by
        have bound := (List.getElem?_eq_some_iff.mp member).1
        rw [List.length_append,List.length_singleton] at bound
        omega
      rw [List.getElem?_append_left inside] at member
      rw [Function.update_of_ne]
      · exact holds.cell j y member
      · intro same
        exact last (index_injective done.length j rest.length (by omega) space same)

end

/-- The oldest element comes out. -/
theorem take {x : α} (holds : Holds modulus cell first next done (x :: rest)) (divides : size ∣ modulus) :
    cell (Fin.ofNat size first) = x ∧ Holds modulus cell ((first+1) % modulus) next (done ++ [x]) rest := by
  constructor
  · rw [holds.first,index_wrapped divides]
    exact holds.cell 0 x rfl
  · refine ⟨?_,?_,?_,?_⟩
    · rw [holds.first,Nat.mod_add_mod,List.length_append,List.length_singleton]
    · rw [holds.next,List.length_append,List.length_singleton,List.length_cons]
      congr 1
      omega
    · have bound := holds.fits
      rw [List.length_cons] at bound
      omega
    · intro j y member
      have earlier := holds.cell (j+1) y member
      rwa [List.length_append,List.length_singleton,Nat.add_assoc,Nat.add_comm 1 j]

theorem front {a b : List α} (holds : Holds modulus cell first next done (a ++ b)) :
    Holds modulus cell first ((done.length+a.length) % modulus) done a := by
  have bound := holds.fits
  rw [List.length_append] at bound
  refine ⟨holds.first,rfl,by omega,?_⟩
  intro j x member
  refine holds.cell j x ?_
  rwa [List.getElem?_append_left (List.getElem?_eq_some_iff.mp member).1]

theorem back {a b : List α} (holds : Holds modulus cell first next done (a ++ b)) :
    Holds modulus cell ((done.length+a.length) % modulus) next (done ++ a) b := by
  have bound := holds.fits
  have next := holds.next
  rw [List.length_append] at bound next
  refine ⟨by rw [List.length_append],by rw [List.length_append,next,Nat.add_assoc],by omega,?_⟩
  intro j x member
  rw [List.length_append,Nat.add_assoc]
  refine holds.cell (a.length+j) x ?_
  rwa [List.getElem?_append_right (by omega),Nat.add_sub_cancel_left]

/-- The newest element is taken back. -/
theorem untake {x : α} (holds : Holds modulus cell first next done (rest ++ [x])) (divides : size ∣ modulus)
    (positive : 0 < modulus) : cell (Fin.ofNat size ((next+modulus-1) % modulus)) = x ∧
      Holds modulus cell first ((next+modulus-1) % modulus) done rest := by
  have before : (next+modulus-1) % modulus = (done.length+rest.length) % modulus := by
    have sum : done.length+(rest.length+1)+(modulus-1) = done.length+rest.length+modulus := by omega
    rw [holds.next,Nat.add_sub_assoc positive,Nat.mod_add_mod,List.length_append,List.length_singleton,sum,
      Nat.add_mod_right]
  rw [before]
  refine ⟨?_,holds.front⟩
  rw [index_wrapped divides]
  exact holds.cell rest.length x (by simp)

/-- The cells from the first counter on, read in order. -/
theorem contents (holds : Holds modulus cell first next done rest) (divides : size ∣ modulus) :
    (List.range rest.length).map (fun j => cell (Fin.ofNat size (first+j))) = rest := by
  apply List.ext_getElem
  · simp
  · intro j left right
    rw [List.getElem_map,List.getElem_range,holds.first,index_add_wrapped divides]
    exact holds.cell j _ (List.getElem?_eq_getElem right)

end Holds

end Ring
