import Kthreads.Paging.Growproc

/-! `sys_sbrk` by several threads of one process. The address that a call returns is read before the
critical section in which `growproc` grows the process. -/
open Function

namespace Kthreads.Paging

/-- Where a thread is in `sys_sbrk`: it has read the size of the process and is to call `growproc`. -/
inductive SbrkPc
  | out
  | grows (addr : Nat) (n : Int)
  deriving DecidableEq

def SbrkPc.addr : SbrkPc → Option Nat
  | .out => none
  | .grows addr _ => some addr

/-- The process, and the addresses that calls have returned, each with the increment. -/
structure SbrkState (T : Type) where
  mem : Mem
  sz : Nat
  pc : T → SbrkPc
  returned : List (Nat × Int)

/-- A call is given the user stack and the word that stands there as its argument. -/
inductive SbrkAction (T : Type)
  | read (t : T) (esp : Nat) (n : Int)
  | grow (t : T) (luck : List Bool)

section Machine
variable {T : Type} [DecidableEq T] (k : Kernel) (d : Nat)

/-- The two sections of `sys_sbrk`: `argint` with `addr = myproc()->sz`, and `growproc(n)`, which gives the
new size unless it fails. A call that fails returns -1. -/
def sbrkStep (s : SbrkState T) : SbrkAction T → Option (SbrkState T)
  | .read t esp n =>
    match s.pc t with
    | .out =>
      if s.sz ≤ uint (esp+4) ∨ s.sz < uint (esp+8) then some s
      else some {s with pc := update s.pc t (.grows s.sz n)}
    | .grows _ _ => none
  | .grow t luck =>
    match s.pc t with
    | .out => none
    | .grows addr n =>
      match {s.mem with luck := luck}.growproc k d s.sz n with
      | none => none
      | some (r,sz,m) => some ⟨m,sz,update s.pc t .out,if r < 0 then s.returned else (addr,n) :: s.returned⟩

def Increments : SbrkState T → SbrkAction T → Prop
  | _,.read _ _ n => 0 ≤ n ∧ n < 2147483648
  | _,.grow _ _ => True

/-- And a thread that grows the process still finds the size that it has read. -/
def Undisturbed (s : SbrkState T) : SbrkAction T → Prop
  | .read _ _ n => 0 ≤ n ∧ n < 2147483648
  | .grow t _ => ∀ addr ∈ (s.pc t).addr, s.sz = addr

instance (s : SbrkState T) (a : SbrkAction T) : Decidable (Increments s a) :=
  match a with
  | .read _ _ n => inferInstanceAs (Decidable (0 ≤ n ∧ n < 2147483648))
  | .grow _ _ => inferInstanceAs (Decidable True)

instance (s : SbrkState T) (a : SbrkAction T) : Decidable (Undisturbed s a) :=
  match a with
  | .read _ _ n => inferInstanceAs (Decidable (0 ≤ n ∧ n < 2147483648))
  | .grow t _ => inferInstanceAs (Decidable (∀ addr ∈ (s.pc t).addr, s.sz = addr))

def Owns (r : Nat × Int) (x : Int) : Prop := r.1 ≤ x ∧ x < r.1+r.2

end Machine

section Sizes
variable {k : Kernel} {d : Nat}

theorem allocRounds_size {m m' : Mem} {oldsz newsz r : Nat} (n a : Nat)
    (run : m.allocRounds k d oldsz newsz n a = some (r,m')) : r = 0 ∨ r = newsz := by
  induction n generalizing m a with
  | zero => exact .inr (Prod.mk.inj (Option.some.inj run)).1.symm
  | succ n ih =>
    rw [Mem.allocRounds] at run
    split at run
    · obtain ⟨_,_,result⟩ := Option.map_eq_some_iff.mp run
      exact .inl (Prod.mk.inj result).1.symm
    · split at run
      · contradiction
      · split at run
        · contradiction
        · obtain ⟨_,_,result⟩ := Option.map_eq_some_iff.mp run
          exact .inl (Prod.mk.inj result).1.symm
      · exact ih _ run

/-- `growproc` with an increment adds it to the size, or leaves the size as it is. -/
theorem growproc_size {m m' : Mem} {sz sz' : Nat} {n r : Int} (user : sz < kernbase) (low : 0 ≤ n) (high : n < 2147483648)
    (run : m.growproc k d sz n = some (r,sz',m')) :
    r = -1 ∧ sz' = sz ∨ r = 0 ∧ (sz' : Int) = sz+n ∧ sz' < kernbase := by
  simp only [kernbase] at user ⊢
  unfold Mem.growproc at run
  split at run
  next up =>
    obtain ⟨⟨v,m₁⟩,called,result⟩ := Option.map_eq_some_iff.mp run
    have plain : (uint (sz+n) : Int) = sz+n := by
      simp only [uint]
      omega
    have value : v = 0 ∨ v = uint (sz+n) ∧ uint (sz+n) < kernbase := by
      unfold Mem.allocuvm at called
      split at called
      next => exact .inl (Prod.mk.inj (Option.some.inj called)).1.symm
      next below =>
        rw [if_neg (by omega)] at called
        exact (allocRounds_size _ _ called).imp_right fun same => ⟨same,by omega⟩
    rcases value with rfl | ⟨rfl,below⟩
    · obtain ⟨rfl,rfl,_⟩ := by simpa [resized] using result
      exact .inl ⟨rfl,rfl⟩
    · rw [resized,if_neg (by simp only; omega)] at result
      obtain ⟨rfl,rfl,_⟩ := by simpa using result
      simp only [kernbase] at below
      exact .inr ⟨rfl,plain,below⟩
  next =>
    rw [if_neg (by omega)] at run
    obtain ⟨rfl,rfl,_⟩ := by simpa using run
    exact .inr ⟨rfl,by omega,by omega⟩

end Sizes

section Ranges
variable {T : Type} [DecidableEq T] {k : Kernel} {d : Nat}

structure Ranges (s : SbrkState T) : Prop where
  size : s.sz < kernbase
  increments : ∀ t addr n, s.pc t = .grows addr n → 0 ≤ n ∧ n < 2147483648
  below : ∀ r ∈ s.returned, r.1+r.2 ≤ s.sz
  apart : s.returned.Pairwise fun r r' => ∀ x, ¬ (Owns r x ∧ Owns r' x)

theorem Ranges.step {s s' : SbrkState T} {a : SbrkAction T} (inv : Ranges s) (allowed : Undisturbed s a)
    (taken : sbrkStep k d s a = some s') : Ranges s' := by
  have moved (t : T) (pc : SbrkPc) (fits : ∀ addr n, pc = .grows addr n → 0 ≤ n ∧ n < 2147483648) (u : T) (addr : Nat)
      (n : Int) (place : update s.pc t pc u = .grows addr n) : 0 ≤ n ∧ n < 2147483648 := by
    by_cases here : u = t
    · subst u
      rw [update_self] at place
      exact fits addr n place
    · rw [update_of_ne here] at place
      exact inv.increments u addr n place
  cases a with
  | read t esp n =>
    simp only [sbrkStep] at taken
    split at taken
    · split at taken
      · exact Option.some.inj taken ▸ inv
      · rw [← Option.some.inj taken]
        refine ⟨inv.size,moved t _ ?_,inv.below,inv.apart⟩
        intro addr m same
        obtain ⟨_,rfl⟩ := SbrkPc.grows.inj same
        exact allowed
    · contradiction
  | grow t luck =>
    simp only [sbrkStep] at taken
    split at taken
    next => contradiction
    next addr n place =>
      split at taken
      next => contradiction
      next r sz m run =>
        rw [← Option.some.inj taken]
        obtain ⟨low,high⟩ := inv.increments t addr n place
        have read : s.sz = addr := allowed addr (by rw [place]; rfl)
        rcases growproc_size inv.size low high run with ⟨rfl,rfl⟩ | ⟨rfl,size,user⟩
        · exact ⟨inv.size,moved t .out (fun _ _ out => by cases out),inv.below,inv.apart⟩
        · -- the new range begins where all others end
          refine ⟨user,moved t .out (fun _ _ out => by cases out),?_,?_⟩
          · simp only [Int.lt_irrefl,if_false,List.forall_mem_cons]
            refine ⟨by omega,fun r member => ?_⟩
            have := inv.below r member
            omega
          · simp only [Int.lt_irrefl,if_false,List.pairwise_cons]
            refine ⟨?_,inv.apart⟩
            rintro r member x ⟨⟨above,_⟩,⟨_,below⟩⟩
            have := inv.below r member
            simp only at above
            omega

/-- The ranges that any two calls of `sbrk` return are disjoint and lie below the size of the process. -/
theorem sbrk_ranges_disjoint {s₀ s : SbrkState T} (user : s₀.sz < kernbase) (quiet : ∀ t, s₀.pc t = .out)
    (first : s₀.returned = []) (reached : Interleave.Reaches (sbrkStep k d) Undisturbed s₀ s) :
    s.returned.Pairwise (fun r r' => ∀ x, ¬ (Owns r x ∧ Owns r' x)) ∧ ∀ r ∈ s.returned, r.1+r.2 ≤ s.sz := by
  have inv : Ranges s := by
    refine reached.invariant Ranges ⟨user,?_,?_,?_⟩ fun _ _ _ inv allowed taken => inv.step allowed taken
    · intro t addr n place
      cases (quiet t).symm.trans place
    · simp [first]
    · simp [first]
  exact ⟨inv.apart,inv.below⟩

/-- A process of one page: the directory 1 with the table 2 and the page 3. -/
def oneUserPage : SbrkState Bool :=
  ⟨⟨[4,5,6,7],fun p i => if p = 1 ∧ i = 0 then 8199 else if p = 2 ∧ i = 0 then 12295 else 0,[]⟩,4096,fun _ => .out,[]⟩

theorem sbrk_ranges_disjoint_twice : ∃ s, Interleave.Reaches (sbrkStep tiny 1) Undisturbed oneUserPage s ∧
    s.returned = [(8192,4096),(4096,4096)] ∧ ∀ r ∈ s.returned, r.1+r.2 ≤ s.sz := by
  obtain ⟨s,reached,shown⟩ := Interleave.play_shows (sbrkStep tiny 1) Undisturbed oneUserPage
    [.read true 2000 4096,.grow true [],.read false 4000 4096,.grow false []]
    (fun s => s.returned = [(8192,4096),(4096,4096)]) (by decide +kernel)
  exact ⟨s,reached,shown,
    (sbrk_ranges_disjoint (by decide) (fun _ => rfl) rfl reached).2⟩

/-- Both threads read the size before either of them grows the process. -/
theorem sbrk_ranges_overlap : ∃ s, Interleave.Reaches (sbrkStep tiny 1) Increments oneUserPage s ∧
    s.returned = [(4096,4096),(4096,4096)] ∧ s.sz = 12288 := by
  exact Interleave.play_shows _ _ _
    [.read true 2000 4096,.read false 4000 4096,.grow true [],.grow false []] _ (by decide +kernel)

end Ranges

end Kthreads.Paging
