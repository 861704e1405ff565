import Mathlib.Data.List.Nodup
import Mathlib.Logic.Function.Basic

/-! Linked lists in memory, as the nodes that a path along their links passes. -/
open Function

namespace Chain

variable {N : Type}

def Path (next : N → N) : N → List N → N → Prop
  | a,[],c => next a = c
  | a,x :: l,c => next a = x ∧ Path next x l c

variable {next : N → N} {a c x : N} {l r : List N}

theorem path_append : Path next a (l ++ x :: r) c ↔ Path next a l x ∧ Path next x r c := by
  induction l generalizing a with
  | nil => rfl
  | cons y l ih =>
    change next a = y ∧ Path next y (l ++ x :: r) c ↔ (next a = y ∧ Path next y l x) ∧ Path next x r c
    rw [ih,and_assoc]

theorem Path.congr {next' : N → N} (path : Path next a l c) (same : ∀ y ∈ a :: l, next' y = next y) :
    Path next' a l c := by
  induction l generalizing a with
  | nil => exact (same a (by simp)).trans path
  | cons y l ih =>
    exact ⟨(same a (by simp)).trans path.1,ih path.2 fun z member => same z (List.mem_cons_of_mem _ member)⟩

theorem Path.last (path : Path next a l c) : next ((a :: l).getLast (by simp)) = c := by
  induction l generalizing a with
  | nil => exact path
  | cons y l ih => exact ih path.2

theorem Path.first (path : Path next a l c) : (c :: l.reverse).getLast (by simp) = next a := by
  cases l with
  | nil => exact path.symm
  | cons y l => simpa using path.1.symm

section Update
variable [DecidableEq N] {p : N}

theorem Path.update_off (path : Path next a l c) (off : p ∉ a :: l) (q : N) :
    Path (update next p q) a l c :=
  path.congr fun y member => update_of_ne (fun same : y = p => off (same ▸ member)) ..

/-- A node is put behind `p`. -/
theorem Path.insert (path : Path next a (l ++ r) c) (nodup : (a :: (l ++ r)).Nodup) (fresh : x ∉ a :: (l ++ r))
    (last : (a :: l).getLast (by simp) = p) :
    Path (update (update next x (next p)) p x) a (l ++ x :: r) c := by
  induction l generalizing a with
  | nil =>
    obtain rfl : a = p := last
    obtain ⟨other,fresh⟩ : x ≠ a ∧ x ∉ r := by simpa using fresh
    obtain ⟨outside,_⟩ := List.nodup_cons.mp nodup
    refine ⟨update_self ..,?_⟩
    cases r with
    | nil => exact (update_of_ne other ..).trans ((update_self ..).trans path)
    | cons y r =>
      refine ⟨(update_of_ne other ..).trans ((update_self ..).trans path.1),?_⟩
      exact (path.2.update_off fresh _).update_off outside _
  | cons y l ih =>
    obtain ⟨outside,nodup⟩ := List.nodup_cons.mp nodup
    obtain ⟨other,fresh⟩ : x ≠ a ∧ x ∉ y :: (l ++ r) := by simpa using fresh
    have inside : p ∈ y :: l := last ▸ List.getLast_mem (List.cons_ne_nil y l)
    have apart : a ≠ p := by
      rintro rfl
      exact outside (List.mem_append_left _ inside)
    exact ⟨(update_of_ne apart ..).trans ((update_of_ne other.symm ..).trans path.1),
      ih path.2 nodup fresh last⟩

/-- The node behind `p` is taken out. -/
theorem Path.remove (path : Path next a (l ++ x :: r) c) (nodup : (a :: (l ++ x :: r)).Nodup)
    (last : (a :: l).getLast (by simp) = p) : Path (update next p (next x)) a (l ++ r) c := by
  induction l generalizing a with
  | nil =>
    obtain rfl : a = p := last
    obtain ⟨outside,_⟩ := List.nodup_cons.mp nodup
    cases r with
    | nil => exact (update_self ..).trans path.2
    | cons y r =>
      exact ⟨(update_self ..).trans path.2.1,
        path.2.2.update_off (fun inside => outside (List.mem_cons_of_mem _ inside)) _⟩
  | cons y l ih =>
    obtain ⟨outside,nodup⟩ := List.nodup_cons.mp nodup
    have inside : p ∈ y :: l := last ▸ List.getLast_mem (List.cons_ne_nil y l)
    have apart : a ≠ p := by
      rintro rfl
      exact outside (List.mem_append_left _ inside)
    exact ⟨(update_of_ne apart ..).trans path.1,ih path.2 nodup last⟩

end Update

section Walk
variable [DecidableEq N]

def walk (next : N → N) (stop : N) (wanted : N → Bool) : Nat → N → Option N
  | 0,_ => none
  | fuel+1,x => if x = stop then none else if wanted x then some x else walk next stop wanted fuel (next x)

theorem walk_wanted {stop : N} {wanted : N → Bool} {fuel : Nat} (found : walk next stop wanted fuel a = some x) :
    wanted x = true := by
  induction fuel generalizing a with
  | zero => cases found
  | succ fuel ih =>
    rw [walk] at found
    split at found
    · cases found
    · split at found
      next here => exact Option.some.inj found ▸ here
      next => exact ih found

theorem Path.walk (wanted : N → Bool) {fuel : Nat} (path : Path next a l c) (off : c ∉ l)
    (enough : l.length < fuel) : walk next c wanted fuel (next a) = l.find? wanted := by
  induction l generalizing a fuel with
  | nil =>
    obtain ⟨n,rfl⟩ := Nat.exists_eq_add_of_lt enough
    exact if_pos path
  | cons y l ih =>
    obtain ⟨n,rfl⟩ : ∃ n, fuel = n+1 := ⟨fuel-1,by rw [List.length_cons] at enough; omega⟩
    obtain ⟨other,off⟩ : c ≠ y ∧ c ∉ l := by simpa using off
    rw [path.1,Chain.walk,if_neg other.symm,List.find?_cons]
    cases wanted y with
    | true => rfl
    | false => exact ih path.2 off (by rw [List.length_cons] at enough; omega)

end Walk

/-- A circular doubly linked list behind the node `h`. -/
structure Double (next prev : N → N) (h : N) (l : List N) : Prop where
  nodup : (h :: l).Nodup
  forward : Path next h l h
  backward : Path prev h l.reverse h

namespace Double
variable {prev : N → N} {h : N}

theorem off (double : Double next prev h l) : h ∉ l := (List.nodup_cons.mp double.nodup).1

theorem empty (next : N → N) (prev : N → N) (first : next h = h) (last : prev h = h) : Double next prev h [] :=
  ⟨List.nodup_singleton h,first,last⟩

theorem nodup_reverse (double : Double next prev h l) : (h :: l.reverse).Nodup :=
  List.nodup_cons.mpr ⟨by simpa using double.off,List.nodup_reverse.mpr (List.nodup_cons.mp double.nodup).2⟩

variable [DecidableEq N]

theorem link (double : Double next prev h l) (fresh : x ∉ h :: l) :
    Double (update (update next x (next h)) h x)
      (update (update prev x h) (next h) x) h (x :: l) := by
  have back : h = prev (next h) := by
    rw [← double.forward.first]
    exact double.backward.last.symm
  have inserted : Path (update (update prev x (prev (next h))) (next h) x) h (l.reverse ++ [x]) h :=
    Path.insert (r := []) (by simpa using double.backward) (by simpa using double.nodup_reverse)
      (by simpa using fresh) double.forward.first
  rw [← back] at inserted
  refine ⟨?_,Path.insert (l := []) double.forward double.nodup fresh rfl,by rwa [List.reverse_cons]⟩
  obtain ⟨other,fresh⟩ : x ≠ h ∧ x ∉ l := by simpa using fresh
  obtain ⟨off,nodup⟩ := List.nodup_cons.mp double.nodup
  exact List.nodup_cons.mpr ⟨by simpa using ⟨other.symm,off⟩,List.nodup_cons.mpr ⟨fresh,nodup⟩⟩

theorem unlink {l₁ l₂ : List N} (double : Double next prev h (l₁ ++ x :: l₂)) :
    Double (update next (prev x) (next x)) (update prev (next x) (prev x)) h (l₁ ++ l₂) := by
  have reversed : (l₁ ++ x :: l₂).reverse = l₂.reverse ++ x :: l₁.reverse := by simp
  have backward := double.backward
  have nodup := double.nodup_reverse
  rw [reversed] at backward nodup
  have left : (h :: l₁).getLast (by simp) = prev x := by
    simpa using (path_append.mp backward).2.first
  have right : (h :: l₂.reverse).getLast (by simp) = next x := (path_append.mp double.forward).2.first
  refine ⟨?_,double.forward.remove double.nodup left,?_⟩
  · exact double.nodup.sublist (.cons_cons h (.append (.refl l₁) (.cons x (.refl l₂))))
  · rw [List.reverse_append]
    exact backward.remove nodup right

end Double

end Chain
