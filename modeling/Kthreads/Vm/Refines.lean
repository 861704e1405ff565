import Kthreads.Exec.Image
import Kthreads.Vm.Machine

/-! The page directory that the threads of a process see is the one in physical memory: what the loops of
`allocuvm`, `copyuvm` and `deallocuvm` do to a page of the one they do to the other, and the image of `exec`
is the directory that it commits. -/
namespace Kthreads.Paging

/-- `p` is the user part of the directory in frame `d`. -/
structure Shows (p : Pgdir) (f : Nat → Nat → Nat) (d : Nat) : Prop where
  tables : ∀ i < 512, p.tables i = (pde f d i).isSome
  pages : ∀ v < 524288, p.mapped v = (pte f d v).isSome

namespace Shows
variable {p : Pgdir} {k : Kernel} {all dirs : List Nat} {m : Mem} {d v : Nat} (shows : Shows p m.frame d)
include shows

theorem walkpgdir {va : Nat} (user : va < kernbase) :
    p.walkpgdir va = (m.walkpgdir d va false).1.map fun t => present (m.frame t (ptx va)) := by
  have table := shows.tables (va/pgsize/1024) (by simp only [kernbase,pgsize] at *; omega)
  have page := shows.pages (va/pgsize) (by simp only [kernbase,pgsize] at *; omega)
  rw [walkpgdir_false (by simp only [kernbase] at user; omega),Pgdir.walkpgdir,Pgdir.page_table,table]
  rw [Pgdir.mapped,table,pte] at page
  cases found : pde m.frame d (va/pgsize/1024) with
  | none => rfl
  | some t =>
    simp only [found,Option.isSome_some,Bool.true_and,Option.bind_some] at page
    simp only [Option.isSome_some,if_true,Option.map_some,page,ptx]
    cases present (m.frame t (va/pgsize % 1024)) <;> rfl

/-- A page that is mapped for `allocuvm` or `copyuvm`. -/
theorem mapPage {q : Nat} (perm : Nat) (inv : Inv k all m dirs (some q)) (member : d ∈ dirs) (bound : v < 524288)
    (low : perm < 4096) (empty : pte m.frame d v = none) :
    ∃ ok m' p', m.mapPage d (v*pgsize) (q*pgsize) perm = some (ok,m') ∧ p.mappages (v*pgsize) = some p' ∧
      (ok = true → Shows p' m'.frame d) := by
  obtain ⟨ok,m',run,_,_,_,success⟩ := mapPage_user perm inv member bound low empty
  have page : v*pgsize/pgsize = v := Nat.mul_div_cancel _ (by decide)
  have absent : ¬ p.walkpgdir (v*pgsize) = some true := by
    rw [Pgdir.walkpgdir_mapped,page,shows.pages v bound,empty]
    nofun
  have maps : p.mappages (v*pgsize) = some _ := if_neg absent
  refine ⟨ok,m',_,run,maps,?_⟩
  intro done
  obtain ⟨_,⟨set,others⟩,_,table,tables⟩ := success done
  constructor
  · intro i less
    by_cases here : i = v/1024
    · simp [Pgdir.page_table,page,here,Option.isSome_iff_ne_none.mpr table]
    · simp [Pgdir.page_table,page,here,tables i here,shows.tables i less]
  · intro u low
    rw [Pgdir.mappages_mapped maps,page]
    by_cases here : u = v
    · simp [here,set]
    · simp [here,others d member u (by omega) (.inr here),shows.pages u low]

/-- A round of `deallocuvm`. -/
theorem deallocRounds {oldsz : Nat} (n : Nat) {hand : Option Nat} (inv : Inv k all m dirs hand) (member : d ∈ dirs)
    (user : oldsz ≤ kernbase) (inside : v*pgsize < oldsz) :
    ∃ m', m.deallocRounds k d oldsz (n+1) (v*pgsize) = m'.deallocRounds k d oldsz n (p.unmap (v*pgsize)).2 ∧
      Inv k all m' dirs hand ∧ Shows (p.unmap (v*pgsize)).1 m'.frame d := by
  have small : v*pgsize < kernbase := inside.trans_le user
  have bound : v < 524288 := by
    simp only [kernbase,pgsize] at small
    omega
  have page : v*pgsize/pgsize = v := Nat.mul_div_cancel _ (by decide)
  have walk := shows.walkpgdir small
  rw [walkpgdir_false (by simp only [kernbase] at small; omega),page] at walk
  rw [Mem.deallocRounds,if_pos inside,walkpgdir_false (by simp only [kernbase] at small; omega),page]
  have index : ptx (v*pgsize) = v % 1024 := by rw [ptx,page]
  have round : pdx (v*pgsize) = v*pgsize/(1024*pgsize) := by
    rw [pdx,Nat.mod_eq_of_lt]
    simp only [pgsize]
    omega
  cases found : pde m.frame d (v/1024) with
  | none =>
    rw [found] at walk
    simp only [Pgdir.unmap,walk,Option.map_none,round]
    exact ⟨m,rfl,inv,shows⟩
  | some t =>
    rw [found,index] at walk
    simp only [index]
    cases there : present (m.frame t (v % 1024)) with
    | false =>
      simp only [Pgdir.unmap,walk,there,Option.map_some]
      exact ⟨m,rfl,inv,shows⟩
    | true =>
      have entry : pte m.frame d v = some (m.frame t (v % 1024)) := by
        rw [pte,found,Option.bind_some,if_pos there]
      obtain ⟨m',freed,nonzero,after⟩ := inv.unmap member bound found entry
      simp only [Pgdir.unmap,walk,there,Option.map_some,if_true,if_neg nonzero,freed]
      refine ⟨_,rfl,after.inv,fun i less => ?_,fun u low => ?_⟩
      · rw [after.tables d member i]
        exact shows.tables i less
      · by_cases here : u = v
        · simp [here,page,after.gone,Pgdir.mapped]
        · rw [after.within d member u (by omega) (by omega),← shows.pages u low]
          simp [Pgdir.mapped,page,here]

end Shows

/-- The directory of the image that `exec` commits. -/
theorem image_shows {k : Kernel} {all dirs : List Nat} {m : Mem} {d sz : Nat} (image : Exec.Image k all dirs d sz m)
    (v : Nat) (bound : v < 524288) : (Pgdir.image sz).mapped v = (pte m.frame d v).isSome := by
  by_cases below : v*pgsize < sz
  · rw [Pgdir.image_covers sz v below]
    exact (Option.isSome_iff_ne_none.mpr (image.filled v below)).symm
  · rw [image.bounded v bound (Nat.le_of_not_lt below)]
    simp [Pgdir.mapped,Pgdir.image,below]

end Kthreads.Paging
