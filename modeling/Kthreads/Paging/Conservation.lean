import Kthreads.Paging.Contents

/-! No page is lost and none is held twice, whatever calls are made and wherever memory runs out. -/
namespace Kthreads.Paging

/-- Every page has its place, and a directory has no user page at or above its size. -/
structure Good (k : Kernel) (all : List Nat) (s : State) : Prop where
  inv : Inv k all s.mem s.dirs none
  size : ∀ d ∈ s.dirs, s.sz d < kernbase
  bounded : ∀ d ∈ s.dirs, ∀ u < 524288, s.sz d ≤ u*pgsize → pte s.mem.frame d u = none

def Call.allocates : Call → Bool
  | .setupkvm | .allocuvm _ _ | .copyuvm _ => true
  | _ => false

def Call.Safe (s : State) : Call → Prop
  | .copyuvm d => ∀ u, u*pgsize < s.sz d → pte s.mem.frame d u ≠ none
  | .clearpteu d uva => pde s.mem.frame d (uva/pgsize/1024) ≠ none
  | _ => True

namespace Good
variable {k : Kernel} {all : List Nat} {s : State}

theorem boot {m : Mem} (nodup : m.freelist.Nodup) (valid : ∀ p ∈ m.freelist, k.lo ≤ p ∧ p*pgsize < phystop) :
    Good k m.freelist (State.boot m) := by
  refine ⟨⟨nodup,valid,⟨?_,?_,?_⟩⟩,fun d member => (by cases member),fun d member => by cases member⟩
  · intro p
    refine ⟨.inl,fun free => free.resolve_right ?_⟩
    rintro ⟨x,here⟩
    cases x <;> simp [held,State.boot] at here
  · intro x p here
    cases x <;> simp [held,State.boot] at here
  · intro x y p here
    cases x <;> simp [held,State.boot] at here

def Outcome (k : Kernel) (all : List Nat) (s : State) (a : Action) : Prop :=
  call k s a = none ∧ ¬ a.call.Safe s ∨
  ∃ r s', call k s a = some (r,s') ∧ Good k all s' ∧
    (a.call.allocates = true → r = 0 → s'.dirs = s.dirs ∧ SamePages s.mem.frame s'.mem.frame s.dirs)

section
variable (good : Good k all s)
include good

theorem added {a : Action} {r : Option Nat} {m' : Mem} (sz : Nat) (user : sz < kernbase)
    (made : call k s a = some (s.add (r,m') sz)) (same : SamePages s.mem.frame m'.frame s.dirs)
    (failure : r = none → Inv k all m' s.dirs none)
    (success : ∀ c, r = some c → c ∉ s.dirs ∧ c ≠ 0 ∧ Inv k all m' (c :: s.dirs) none ∧
      ∀ u < 524288, sz ≤ u*pgsize → pte m'.frame c u = none) : Outcome k all s a := by
  cases r with
  | none =>
    refine .inr ⟨0,{s with mem := m'},made,⟨failure rfl,good.size,?_⟩,fun _ _ => ⟨rfl,same⟩⟩
    intro d member u bound above
    exact (same d member u (by omega)).trans (good.bounded d member u bound above)
  | some c =>
    obtain ⟨fresh,nonzero,inv,empty⟩ := success c rfl
    refine .inr ⟨c,_,made,⟨inv,?_,?_⟩,fun _ zero => absurd zero nonzero⟩
    · intro d member
      by_cases new : d = c
      · simpa [State.add,new] using user
      · simpa [State.add,new] using good.size d ((List.mem_cons.mp member).resolve_left new)
    · intro d member u bound above
      by_cases new : d = c
      · subst d
        exact empty u bound (by simpa [State.add] using above)
      · have old := (List.mem_cons.mp member).resolve_left new
        refine (same d old u (by omega)).trans (good.bounded d old u bound ?_)
        simpa [State.add,new] using above

theorem step_setupkvm (luck : List Bool) : Outcome k all s ⟨.setupkvm,luck⟩ := by
  obtain ⟨r,m',run,same,failure,success⟩ := setupkvm_spec (good.inv.lucky luck)
  refine good.added 0 (by decide) (by simp only [call,run]; rfl) same failure ?_
  intro c found
  obtain ⟨fresh,nonzero,inv,empty⟩ := success c found
  exact ⟨fresh,nonzero,inv,fun u bound _ => empty u bound⟩

theorem step_copyuvm {d : Nat} (member : d ∈ s.dirs) (luck : List Bool) : Outcome k all s ⟨.copyuvm d,luck⟩ := by
  have user := good.size d member
  rcases copyuvm_spec (good.inv.lucky luck) member user.le
    with ⟨panics,u,below,hole⟩ | ⟨r,m',run,same,failure,success⟩
  · exact .inl ⟨by simp only [call,panics]; rfl,fun safe => safe u below hole⟩
  · refine good.added _ user (by simp only [call,run]; rfl) same failure ?_
    intro c found
    obtain ⟨fresh,nonzero,inv,mapped⟩ := success c found
    refine ⟨fresh,nonzero,inv,fun u bound above => ?_⟩
    by_contra here
    have := (mapped u bound).mp here
    omega

theorem resized {d sz : Nat} {m' : Mem} (inv : Inv k all m' s.dirs none) (user : sz < kernbase)
    (others : ∀ d' ∈ s.dirs, d' ≠ d → ∀ u < 524288, pte m'.frame d' u = pte s.mem.frame d' u)
    (empty : ∀ u < 524288, sz ≤ u*pgsize → pte m'.frame d u = none) :
    Good k all ⟨m',s.dirs,Function.update s.sz d sz⟩ := by
  refine ⟨inv,?_,?_⟩
  · intro d' member
    by_cases here : d' = d
    · simpa [here] using user
    · simpa [here] using good.size d' member
  · intro d' member u bound above
    by_cases here : d' = d
    · subst d'
      exact empty u bound (by simpa using above)
    · rw [others d' member here u bound]
      exact good.bounded d' member u bound (by simpa [here] using above)

theorem step_allocuvm {d newsz : Nat} (member : d ∈ s.dirs) (luck : List Bool) :
    Outcome k all s ⟨.allocuvm d newsz,luck⟩ := by
  have user := good.size d member
  have bounded := good.bounded d member
  obtain ⟨r,m',run,inv,result⟩ := allocuvm_spec newsz
    (good.inv.lucky luck) member bounded
  have outcome : call k s ⟨.allocuvm d newsz,luck⟩ =
      some (r,⟨m',s.dirs,if r = 0 then s.sz else Function.update s.sz d r⟩) := by
    simp only [call,run]
    rfl
  have failed (zero : r = 0) (same : SamePages s.mem.frame m'.frame s.dirs) :
      Outcome k all s ⟨.allocuvm d newsz,luck⟩ := by
    rw [if_pos zero] at outcome
    refine .inr ⟨r,_,outcome,⟨inv,good.size,?_⟩,fun _ _ => ⟨rfl,same⟩⟩
    intro d' member' u bound above
    exact (same d' member' u (by omega)).trans (good.bounded d' member' u bound above)
  rcases result with ⟨zero,same⟩ | ⟨size,below,within,_⟩
  · exact failed zero same
  · by_cases zero : r = 0
    · -- an empty process that stays empty
      refine failed zero fun d' member' u bound => within d' member' u bound ?_
      simp only [pages,pgsize]
      omega
    · rw [if_neg zero] at outcome
      refine .inr ⟨r,_,outcome,good.resized inv (by omega) ?_ ?_,fun _ none => absurd none zero⟩
      · intro d' member' other u bound
        exact within d' member' u (by omega) (.inl other)
      · intro u bound above
        rw [within d member u (by omega) (by simp only [pages,pgsize] at above ⊢; omega)]
        exact bounded u bound (by omega)

theorem step_deallocuvm {d oldsz newsz : Nat} (member : d ∈ s.dirs) (user : oldsz ≤ kernbase)
    (luck : List Bool) : Outcome k all s ⟨.deallocuvm d oldsz newsz,luck⟩ := by
  have size := good.size d member
  obtain ⟨m',run,emptied⟩ := deallocuvm_spec user newsz (good.inv.lucky luck) member
  refine .inr ⟨_,_,by simp only [call,run]; rfl,good.resized emptied.inv ?_ ?_ ?_,fun allocates => by cases allocates⟩
  · unfold State.shrunk
    split
    next => omega
    next => exact size
  · intro d' member' other u bound
    exact emptied.within d' member' u (by omega) (.inl other)
  · intro u bound above
    -- a page from the new size on is in the range, or beyond the old size
    unfold State.shrunk at above
    by_cases inside : newsz ≤ u*pgsize ∧ u*pgsize < oldsz
    · exact emptied.cleared inside.1 inside.2
    · have first := @below_pages u newsz
      have last := @below_pages u oldsz
      rw [emptied.range d member u (by omega) (by omega)]
      exact good.bounded d member u bound (by split at above <;> omega)

theorem step_clearpteu {d uva : Nat} (member : d ∈ s.dirs) (bound : uva < 4294967296)
    (luck : List Bool) : Outcome k all s ⟨.clearpteu d uva,luck⟩ := by
  rcases clearpteu_spec _ (good.inv.lucky luck) member bound
    with ⟨panics,missing⟩ | ⟨m',run,inv,within,same,_⟩
  · exact .inl ⟨by simp only [call,panics]; rfl,fun safe => safe missing⟩
  · refine .inr ⟨0,{s with mem := m'},by simp only [call,run]; rfl,⟨inv,good.size,?_⟩,fun allocates => by cases allocates⟩
    intro d' member' u low above
    by_cases here : d' = d ∧ u = uva/pgsize
    · obtain ⟨rfl,rfl⟩ := here
      exact same.mpr (good.bounded d' member' _ low above)
    · exact (within d' member' u (by omega) (by omega)).trans (good.bounded d' member' u low above)

theorem step_freevm {d : Nat} (member : d ∈ s.dirs) (luck : List Bool) : Outcome k all s ⟨.freevm d,luck⟩ := by
  obtain ⟨m',run,inv,same⟩ := freevm_spec (good.inv.lucky luck) member
  refine .inr ⟨0,_,by simp only [call,run]; rfl,⟨inv,?_,?_⟩,fun allocates => by cases allocates⟩
  · intro d' kept
    exact good.size d' (List.mem_filter.mp kept).1
  · intro d' kept u bound above
    exact (same d' kept u (by omega)).trans (good.bounded d' (List.mem_filter.mp kept).1 u bound above)

theorem step {a : Action} (admissible : Admissible s a) : Outcome k all s a := by
  obtain ⟨c,luck⟩ := a
  cases c with
  | setupkvm => exact good.step_setupkvm luck
  | allocuvm d newsz => exact good.step_allocuvm admissible luck
  | deallocuvm d oldsz newsz => exact good.step_deallocuvm admissible.1 admissible.2 luck
  | copyuvm d => exact good.step_copyuvm admissible luck
  | clearpteu d uva => exact good.step_clearpteu admissible.1 admissible.2 luck
  | freevm d => exact good.step_freevm admissible luck

end

theorem reached {m : Mem} (nodup : m.freelist.Nodup) (valid : ∀ p ∈ m.freelist, k.lo ≤ p ∧ p*pgsize < phystop)
    (run : Reaches k m s) : Good k m.freelist s := by
  refine run.invariant (Good k m.freelist) (boot nodup valid) ?_
  intro s a s' good admissible taken
  obtain ⟨⟨r,next⟩,called,rfl⟩ := Option.map_eq_some_iff.mp taken
  rcases good.step admissible with ⟨panics,_⟩ | ⟨r',s',run,good',_⟩
  · cases panics.symm.trans called
  · cases run.symm.trans called
    exact good'

end Good

/-- In every run from a boot with distinct free pages, each page is free or held at exactly one place; a
call that reports a failure leaves the user mappings of all directories as they were; when no directory is
left the free list is a permutation of the first one; and no call panics but `copyuvm` at a hole and
`clearpteu` at a page table that is not there. -/
theorem pages_conserved (k : Kernel) (m : Mem) (nodup : m.freelist.Nodup)
    (valid : ∀ p ∈ m.freelist, k.lo ≤ p ∧ p*pgsize < phystop) {s : State} (run : Reaches k m s) :
    (s.mem.freelist.Nodup ∧ (∀ p, p ∈ m.freelist ↔ p ∈ s.mem.freelist ∨ ∃ x, held s.mem.frame s.dirs none x = some p) ∧
      ∀ x p, held s.mem.frame s.dirs none x = some p →
        p ∉ s.mem.freelist ∧ ∀ y, held s.mem.frame s.dirs none y = some p → y = x) ∧
    (∀ a s', Admissible s a → a.call.allocates = true → call k s a = some (0,s') →
      s'.dirs = s.dirs ∧ ∀ d ∈ s.dirs, ∀ v < 524288, pte s'.mem.frame d v = pte s.mem.frame d v) ∧
    (s.dirs = [] → s.mem.freelist.Perm m.freelist) ∧
    ∀ a, Admissible s a → a.call.Safe s → ∃ r s', call k s a = some (r,s') := by
  have good := Good.reached nodup valid run
  have sound := good.inv.sound
  refine ⟨⟨good.inv.nodup,sound.covers,?_⟩,?_,?_,?_⟩
  · intro x p here
    exact ⟨sound.apart x p here,fun y also => sound.single y x p also here⟩
  · intro a s' admissible allocates called
    rcases good.step admissible with ⟨panics,_⟩ | ⟨r,s'',taken,_,failure⟩
    · cases panics.symm.trans called
    · obtain ⟨rfl,rfl⟩ := Prod.mk.inj (Option.some.inj (taken.symm.trans called))
      obtain ⟨dirs,same⟩ := failure allocates rfl
      exact ⟨dirs,fun d member v bound => same d member v (by omega)⟩
  · intro none
    refine (List.perm_ext_iff_of_nodup good.inv.nodup nodup).mpr fun p => ?_
    rw [sound.covers p,none]
    refine ⟨.inl,fun free => free.resolve_right ?_⟩
    rintro ⟨x,here⟩
    cases x <;> simp [held] at here
  · intro a admissible safe
    rcases good.step admissible with ⟨_,risky⟩ | ⟨r,s',taken,_,_⟩
    · exact absurd safe risky
    · exact ⟨r,s',taken⟩

def pagingScript : List Action :=
  [⟨.setupkvm,[]⟩,⟨.allocuvm 1 8192,[true,true,false]⟩,⟨.allocuvm 1 8192,[]⟩]

/-- A call that fails and one that succeeds: the directory is not free, and it can be freed. -/
theorem pages_conserved_freed : ∃ s, Reaches tiny ⟨[1,2,3,4,5,6,7],fun _ _ => 0,[]⟩ s ∧ s.dirs = [1] ∧ s.sz 1 = 8192 ∧
    1 ∉ s.mem.freelist ∧ ∃ r s', call tiny s ⟨.freevm 1,[]⟩ = some (r,s') := by
  obtain ⟨s,reached,dirs,size⟩ := Interleave.play_shows (step tiny) Admissible
    (State.boot ⟨[1,2,3,4,5,6,7],fun _ _ => 0,[]⟩) pagingScript (fun s => s.dirs = [1] ∧ s.sz 1 = 8192)
    (by decide +kernel)
  obtain ⟨⟨_,_,apart⟩,_,_,returns⟩ := pages_conserved tiny _ (by decide) (by decide) reached
  refine ⟨s,reached,dirs,size,(apart (.dir 1) 1 (by simp [held,dirs])).1,returns _ ?_ trivial⟩
  simp [Admissible,dirs]

end Kthreads.Paging
