import Kthreads.Paging.Frames

/-! `deallocuvm` jumps over the range of a page table that is absent. The loop that visits every page does
the same, on any memory, and what it does is said page by page. -/
namespace Kthreads.Paging

def pages (sz : Nat) : Nat := (sz+(pgsize-1))/pgsize

theorem below_pages {v sz : Nat} : v < pages sz ↔ v*pgsize < sz := by
  simp only [pages,pgsize]
  omega

namespace Mem
variable (k : Kernel)

/-- The loop of `deallocuvm` without the jump. -/
def plainRounds (m : Mem) (d : Nat) (oldsz : Nat) : Nat → Nat → Option Mem
  | 0,_ => some m
  | n+1,a =>
    if a < oldsz then
      match (m.walkpgdir d a false).1 with
      | none => m.plainRounds d oldsz n (a+pgsize)
      | some t =>
        if present (m.frame t (ptx a)) then
          if pteAddr (m.frame t (ptx a)) = 0 then none
          else
            match m.kfree k (pteAddr (m.frame t (ptx a))) with
            | none => none
            | some m' => (m'.write t (ptx a) 0).plainRounds d oldsz n (a+pgsize)
        else m.plainRounds d oldsz n (a+pgsize)
    else some m

def plainDeallocuvm (m : Mem) (d : Nat) (oldsz newsz : Nat) : Option (Nat × Mem) :=
  if oldsz ≤ newsz then some (oldsz,m)
  else (m.plainRounds k d oldsz ((oldsz+(pgsize-1))/pgsize-(newsz+(pgsize-1))/pgsize) (pgroundup newsz)).map (newsz,·)

end Mem

/-- The user pages of a directory from page `lo` on. -/
def presentPages (f : Nat → Nat → Nat) (d lo n : Nat) : List Nat :=
  (List.range' lo n).filterMap fun v => (pte f d v).map pteAddr

theorem walkpgdir_false {m : Mem} {d va : Nat} (bound : va < 4294967296) :
    (m.walkpgdir d va false).1 = pde m.frame d (va/pgsize/1024) := by
  rw [Mem.walkpgdir,pdx_eq bound,pde]
  split <;> rfl

theorem presentPages_succ (f : Nat → Nat → Nat) (d v n : Nat) :
    presentPages f d v (n+1) = ((pte f d v).map pteAddr).toList ++ presentPages f d (v+1) n := by
  rw [presentPages,List.range'_succ,List.filterMap_cons]
  cases pte f d v <;> rfl

/-- The pages from `lo` on have been freed and their entries cleared. -/
structure Emptied (k : Kernel) (all : List Nat) (m : Mem) (dirs : List Nat) (hand : Option Nat) (d lo n : Nat)
    (m' : Mem) : Prop where
  freelist : m'.freelist = (presentPages m.frame d lo n).reverse ++ m.freelist
  inv : Inv k all m' dirs hand
  gone : ∀ u, lo ≤ u → u < lo+n → pte m'.frame d u = none
  within : Within m.frame m'.frame dirs d lo (lo+n)
  intact : Intact m.frame m'.frame dirs d lo (lo+n)

namespace Emptied
variable {k : Kernel} {all : List Nat} {m m₁ m' : Mem} {dirs : List Nat} {hand : Option Nat} {d v n : Nat}
  (member : d ∈ dirs) (user : v+(n+1) ≤ 524288)
include member user

theorem skip (rest : Emptied k all m dirs hand d (v+1) n m') (absent : pte m.frame d v = none) :
    Emptied k all m dirs hand d v (n+1) m' := by
  refine ⟨?_,rest.inv,?_,?_,rest.intact.mono (by omega) (by omega)⟩
  · rw [presentPages_succ,absent]
    exact rest.freelist
  · intro u low high
    by_cases here : u = v
    · subst u
      rw [rest.within d member v (by omega) (by omega)]
      exact absent
    · exact rest.gone u (by omega) (by omega)
  · intro d' member' u bound away
    exact rest.within d' member' u bound (by omega)

theorem after {w : Nat} (entry : pte m.frame d v = some w) (first : Inv.Unmapped k all m dirs hand d v w m₁)
    (rest : Emptied k all m₁ dirs hand d (v+1) n m') : Emptied k all m dirs hand d v (n+1) m' := by
  have within : Within m.frame m₁.frame dirs d v (v+(n+1)) :=
    fun d' member' u bound away => first.within d' member' u bound (by omega)
  refine ⟨?_,rest.inv,?_,within.trans rest.within (by omega) (by omega),
    (first.intact.mono le_rfl (by omega)).trans within rest.intact (by omega) (by omega)⟩
  · have same : presentPages m₁.frame d (v+1) n = presentPages m.frame d (v+1) n := by
      refine List.filterMap_congr fun u listed => ?_
      have range := List.mem_range'_1.mp listed
      rw [first.within d member u (by omega) (by omega)]
    rw [rest.freelist,presentPages_succ,entry,first.freelist,same]
    simp
  · intro u low high
    by_cases here : u = v
    · subst u
      rw [rest.within d member v (by omega) (by omega)]
      exact first.gone
    · exact rest.gone u (by omega) (by omega)

omit member user
variable {oldsz newsz : Nat} (emptied : Emptied k all m dirs hand d (pages newsz) (pages oldsz-pages newsz) m')
include emptied

theorem cleared {u : Nat} (low : newsz ≤ u*pgsize) (high : u*pgsize < oldsz) : pte m'.frame d u = none := by
  have above : ¬ u < pages newsz := fun less => absurd (below_pages.mp less) (Nat.not_lt.mpr low)
  have below := below_pages.mpr high
  exact emptied.gone u (by omega) (by omega)

theorem range : Within m.frame m'.frame dirs d (pages newsz) (pages oldsz) :=
  fun d' member' u bound away => emptied.within d' member' u bound (by omega)

theorem contents : Intact m.frame m'.frame dirs d (pages newsz) (pages oldsz) :=
  fun d' member' u bound away => emptied.intact d' member' u bound (by omega)

end Emptied

section Rounds
variable {k : Kernel} {d oldsz : Nat} (user : oldsz ≤ kernbase)

theorem deallocRounds_past (m : Mem) (n : Nat) {a : Nat} (past : oldsz ≤ a) : m.deallocRounds k d oldsz n a = some m := by
  cases n with
  | zero => rfl
  | succ n => exact if_neg (Nat.not_lt.mpr past)

include user

theorem deallocRounds_plain (n n' v : Nat) (m : Mem) (enough : oldsz ≤ (v+n)*pgsize) (plain : oldsz ≤ (v+n')*pgsize) :
    m.deallocRounds k d oldsz n (v*pgsize) = m.plainRounds k d oldsz n' (v*pgsize) := by
  simp only [kernbase] at user
  induction n' generalizing n v m with
  | zero => exact deallocRounds_past m n plain
  | succ n' ih =>
    have later : (v+1)*pgsize = v*pgsize+pgsize := Nat.succ_mul v pgsize
    have onwards : oldsz ≤ (v+1+n')*pgsize := plain.trans (Nat.mul_le_mul_right _ (by omega))
    by_cases inside : v*pgsize < oldsz
    · cases n with
      | zero => exact absurd inside (Nat.not_lt.mpr enough)
      | succ n =>
        have further : oldsz ≤ (v+1+n)*pgsize := enough.trans (Nat.mul_le_mul_right _ (by omega))
        have index (u : Nat) (low : u*pgsize < oldsz) : pdx (u*pgsize) = u/1024 := by
          rw [pdx_eq (by omega),Nat.mul_div_cancel _ (by decide)]
        have next := fun m' => ih n (v+1) m' further onwards
        rw [later] at next
        rw [Mem.deallocRounds,Mem.plainRounds,if_pos inside,if_pos inside]
        cases table : (m.walkpgdir d (v*pgsize) false).1 with
        | none =>
          simp only
          by_cases edge : (v+1)/1024 = v/1024
          · rw [← later,← ih (n+1) (v+1) m (further.trans (Nat.mul_le_mul_right _ (by omega))) onwards]
            by_cases last : (v+1)*pgsize < oldsz
            · have absent : (m.walkpgdir d ((v+1)*pgsize) false).1 = none := by
                rw [← table,Mem.walkpgdir,Mem.walkpgdir,index _ inside,index _ last,edge]
              rw [Mem.deallocRounds,if_pos last,absent]
              simp only
              rw [index _ inside,index _ last,edge]
            · rw [deallocRounds_past m (n+1) (Nat.not_lt.mp last),index _ inside]
              refine deallocRounds_past m n ?_
              simp only [pgsize] at last ⊢
              omega
          · have target : (pdx (v*pgsize)+1)*(1024*pgsize) = v*pgsize+pgsize := by
              rw [index _ inside]
              simp only [pgsize]
              omega
            rw [target]
            exact next m
        | some t =>
          simp only
          by_cases here : present (m.frame t (ptx (v*pgsize))) = true
          · rw [if_pos here,if_pos here]
            by_cases zero : pteAddr (m.frame t (ptx (v*pgsize))) = 0
            · rw [if_pos zero,if_pos zero]
            · rw [if_neg zero,if_neg zero]
              cases m.kfree k (pteAddr (m.frame t (ptx (v*pgsize)))) with
              | none => rfl
              | some m' => exact next _
          · rw [if_neg here,if_neg here]
            exact next m
    · rw [deallocRounds_past m n (Nat.not_lt.mp inside)]
      exact (if_neg inside).symm

variable {all : List Nat} {dirs : List Nat} {hand : Option Nat}

theorem plainRounds_spec (member : d ∈ dirs) (n : Nat) {m : Mem} {v : Nat} (inv : Inv k all m dirs hand) (rounds : v+n = pages oldsz) :
    ∃ m', m.plainRounds k d oldsz n (v*pgsize) = some m' ∧ Emptied k all m dirs hand d v n m' := by
  simp only [kernbase] at user
  induction n generalizing m v with
  | zero => exact ⟨m,rfl,rfl,inv,fun u _ _ => (by omega),fun _ _ _ _ _ => rfl,.refl _ _ _ _ _⟩
  | succ n ih =>
    have inside : v*pgsize < oldsz := below_pages.mp (by omega)
    have low : v+(n+1) ≤ 524288 := by
      simp only [pages,pgsize] at rounds
      omega
    have page : v*pgsize/pgsize = v := Nat.mul_div_cancel _ (by decide)
    rw [Mem.plainRounds,if_pos inside,walkpgdir_false (by omega),ptx,page,← Nat.succ_mul]
    have absent (missing : pte m.frame d v = none) :
        ∃ m', m.plainRounds k d oldsz n ((v+1)*pgsize) = some m' ∧ Emptied k all m dirs hand d v (n+1) m' := by
      obtain ⟨m',run,rest⟩ := ih (v := v+1) inv (by omega)
      exact ⟨m',run,rest.skip member low missing⟩
    cases table : pde m.frame d (v/1024) with
    | none => exact absent (by rw [pte,table]; rfl)
    | some t =>
      simp only
      split
      next here =>
        have entry : pte m.frame d v = some (m.frame t (v % 1024)) := by
          rw [pte,table,Option.bind_some,if_pos here]
        obtain ⟨m₁,freed,nonzero,first⟩ := inv.unmap member (by omega) table entry
        rw [if_neg nonzero,freed]
        obtain ⟨m',run,rest⟩ := ih (v := v+1) first.inv (by omega)
        exact ⟨m',run,.after member low entry first rest⟩
      next missing => exact absent (by rw [pte,table,Option.bind_some,if_neg missing])

theorem deallocuvm_plain (m : Mem) (newsz : Nat) :
    m.deallocuvm k d oldsz newsz = m.plainDeallocuvm k d oldsz newsz := by
  unfold Mem.deallocuvm Mem.plainDeallocuvm
  split
  next => rfl
  next less =>
    rw [pgroundup,deallocRounds_plain user _ ((oldsz+(pgsize-1))/pgsize-(newsz+(pgsize-1))/pgsize)]
    · simp only [pgsize]
      omega
    · simp only [pgsize]
      omega

theorem deallocuvm_spec {m : Mem} (newsz : Nat) (inv : Inv k all m dirs hand) (member : d ∈ dirs) :
    ∃ m', m.deallocuvm k d oldsz newsz = some (min newsz oldsz,m') ∧
      Emptied k all m dirs hand d (pages newsz) (pages oldsz-pages newsz) m' := by
  rw [deallocuvm_plain user,Mem.plainDeallocuvm]
  split
  next above =>
    have none : pages oldsz-pages newsz = 0 :=
      Nat.sub_eq_zero_of_le (Nat.div_le_div_right (Nat.add_le_add_right above _))
    rw [Nat.min_eq_right above,none]
    exact ⟨m,rfl,rfl,inv,fun u _ _ => (by omega),fun _ _ _ _ _ => rfl,.refl _ _ _ _ _⟩
  next less =>
    obtain ⟨m',run,emptied⟩ := plainRounds_spec user member (pages oldsz-pages newsz) (v := pages newsz) inv (by
      simp only [pages,pgsize]
      omega)
    rw [Nat.min_eq_left (by omega)]
    exact ⟨m',congrArg (Option.map _) run,emptied⟩

/-- The jump changes nothing. In a memory in which every page has one place, the pages of the range that
are present are freed once, and their entries are cleared. -/
theorem deallocuvm_visits_pages (m : Mem) (newsz : Nat) :
    m.deallocuvm k d oldsz newsz = m.plainDeallocuvm k d oldsz newsz ∧
    ∀ all dirs hand, Inv k all m dirs hand → d ∈ dirs →
      ∃ m', m.deallocuvm k d oldsz newsz = some (min newsz oldsz,m') ∧
        m'.freelist = (presentPages m.frame d ((newsz+(pgsize-1))/pgsize)
          ((oldsz+(pgsize-1))/pgsize-(newsz+(pgsize-1))/pgsize)).reverse ++ m.freelist ∧ m'.freelist.Nodup ∧
        (∀ v, newsz ≤ v*pgsize → v*pgsize < oldsz → pte m'.frame d v = none) ∧
        Within m.frame m'.frame dirs d ((newsz+(pgsize-1))/pgsize) ((oldsz+(pgsize-1))/pgsize) := by
  refine ⟨deallocuvm_plain user m newsz,?_⟩
  intro all dirs hand inv member
  obtain ⟨m',run,emptied⟩ := deallocuvm_spec user newsz inv member
  exact ⟨m',run,emptied.freelist,emptied.inv.nodup,fun v => emptied.cleared,emptied.range⟩

end Rounds

def tiny : Kernel where
  kmap := [⟨kernbase,0,pgsize,pteW⟩]
  lo := 1
  above := by decide
  whole := by decide
  apart := by decide
  positive := by decide

end Kthreads.Paging
