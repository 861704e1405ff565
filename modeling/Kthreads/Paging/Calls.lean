import Kthreads.Paging.Dealloc

/-! What the functions on page directories do with the pages, on every path: when memory runs out, what
has been taken is held by a directory that there is, or free again. -/
open Function

namespace Kthreads.Paging

def Sets (f f' : Nat → Nat → Nat) (dirs : List Nat) (d v w : Nat) : Prop :=
  pte f' d v = some w ∧ ∀ d' ∈ dirs, ∀ v' < 1048576, (d' ≠ d ∨ v' ≠ v) → pte f' d' v' = pte f d' v'

def Kmap.covers (e : Kmap) (u : Nat) : Prop := e.virt ≤ u*pgsize ∧ u*pgsize < e.virt+e.size

/-- The next `n` calls of `kalloc` succeed. -/
def Suffices (m : Mem) (n : Nat) : Prop := n ≤ m.freelist.length ∧ ∀ b ∈ m.luck.take n, b = true

def missing (f : Nat → Nat → Nat) (d i : Nat) : Nat := if pde f d i = none then 1 else 0

theorem kalloc_cases (m : Mem) :
    (∃ m', m.kalloc = (none,m') ∧ m'.freelist = m.freelist ∧ m'.frame = m.frame ∧ ∀ n, ¬ Suffices m (n+1)) ∨
    ∃ p m', m.kalloc = (some p,m') ∧ m.freelist = p :: m'.freelist ∧ m'.frame = m.frame ∧
      ∀ n, Suffices m (n+1) ↔ Suffices m' n := by
  unfold Mem.kalloc
  split
  next luck bad => exact .inl ⟨_,rfl,rfl,rfl,fun n enough => by simpa [bad] using enough.2⟩
  next empty _ => exact .inl ⟨_,rfl,rfl,rfl,fun n enough => by simpa [empty] using enough.1⟩
  next p rest head good =>
    refine .inr ⟨p,_,rfl,head,rfl,fun n => ?_⟩
    cases luck : m.luck with
    | nil => simp [Suffices,head,luck]
    | cons b others =>
      cases b with
      | false => exact absurd luck (good others)
      | true => simp [Suffices,head,luck]

/-- What `walkpgdir` does when it may take a page for the table at `i`. -/
structure Walked (k : Kernel) (all : List Nat) (m : Mem) (dirs : List Nat) (hand : Option Nat) (d i : Nat)
    (t : Option Nat) (m' : Mem) : Prop where
  inv : Inv k all m' dirs hand
  same : SamePages m.frame m'.frame dirs
  found : t ≠ none → pde m'.frame d i = t
  others : ∀ j, j ≠ i → pde m'.frame d j = pde m.frame d j
  intact : ∀ lo hi, Intact m.frame m'.frame dirs d lo hi
  kept : ∀ p, hand = some p → m'.frame p = m.frame p
  short : t = none → ∀ n, ¬ Suffices m (n+missing m.frame d i)
  enough : t ≠ none → ∀ n, Suffices m (n+missing m.frame d i) ↔ Suffices m' n

section Map
variable {k : Kernel} {all : List Nat} {m : Mem} {dirs : List Nat} {hand : Option Nat} {d v : Nat}

theorem walkpgdir_true (va : Nat) (inv : Inv k all m dirs hand) (member : d ∈ dirs) (bound : va < 4294967296) :
    ∃ t m', m.walkpgdir d va true = (t,m') ∧ Walked k all m dirs hand d (va/pgsize/1024) t m' := by
  have low : va/pgsize/1024 < 1024 := by
    simp only [pgsize]
    omega
  unfold Mem.walkpgdir
  rw [pdx_eq bound]
  generalize va/pgsize/1024 = i at *
  split
  next here =>
    have there : missing m.frame d i = 0 := by simp [missing,pde,here]
    refine ⟨_,_,rfl,inv,.refl _ _,fun _ => if_pos here,fun _ _ => rfl,fun _ _ => .refl _ _ _ _ _,fun _ _ => rfl,
      fun absent => (by cases absent),fun _ n => ?_⟩
    rw [there,Nat.add_zero]
  next absent =>
    have empty : pde m.frame d i = none := if_neg absent
    have asks : missing m.frame d i = 1 := if_pos empty
    rcases kalloc_cases m with ⟨m',failed,freelist,frame,short⟩ | ⟨p,m',taken,head,frame,enough⟩
    · simp only [failed,if_true]
      refine ⟨_,_,rfl,inv.of_eq freelist frame,?_,fun found => absurd rfl found,?_,?_,?_,fun _ => asks ▸ short,
        fun found => absurd rfl found⟩
      all_goals rw [frame]
      · exact .refl _ _
      · exact fun _ _ => rfl
      · exact fun _ _ => .refl _ _ _ _ _
      · exact fun _ _ => rfl
    · have free : p ∈ m.freelist := by simp [head]
      have leaf := inv.free_leaf free
      have other : d ≠ p := fun same => leaf.1 (same ▸ member)
      obtain ⟨filled,zeroed⟩ := inv.fill leaf fun _ => 0
      obtain ⟨after,same,here⟩ := inv.grow member low empty head frame
      simp only [taken,if_true]
      refine ⟨_,_,rfl,after,same,fun _ => here,?_,?_,?_,fun none => (by cases none),fun _ => asks ▸ enough⟩
      · intro j elsewhere
        refine pde_congr ?_
        simp [Mem.write,Mem.fill,frame,other,elsewhere]
      · intro lo hi
        refine (inv.intact_free free _ d lo hi).trans (zeroed.within d lo hi) ?_ le_rfl le_rfl
        simp only [Mem.write,Mem.fill,frame]
        exact filled.intact_at (Inv.held_dir member) (fun _ _ same => by cases same) _
      · intro q owned
        have apart : q ≠ p := by
          rintro rfl
          exact inv.sound.apart .hand q owned free
        have differs : q ≠ d := by
          rintro rfl
          cases inv.sound.single .hand (.dir q) q owned (Inv.held_dir member)
        simp [Mem.write,Mem.fill,frame,apart,differs]

theorem mapPage_cases (pa perm : Nat) (inv : Inv k all m dirs hand) (member : d ∈ dirs) (bound : v < 1048576)
    (empty : pte m.frame d v = none) :
    (∃ m', m.mapPage d (v*pgsize) pa perm = some (false,m') ∧ Walked k all m dirs hand d (v/1024) none m') ∨
    ∃ t m', m.mapPage d (v*pgsize) pa perm = some (true,m'.write t (v % 1024) (pa ||| perm ||| pteP)) ∧
      Walked k all m dirs hand d (v/1024) (some t) m' := by
  have page : v*pgsize/pgsize = v := Nat.mul_div_cancel _ (by decide)
  obtain ⟨t,m',walked,after⟩ := walkpgdir_true (v*pgsize) inv member (by simp only [pgsize]; omega)
  rw [page] at after
  unfold Mem.mapPage
  rw [walked]
  cases t with
  | none => exact .inl ⟨m',rfl,after⟩
  | some t =>
    have slot : present (m'.frame t (v % 1024)) = false := by
      have vacant := (after.same d member v bound).trans empty
      rw [pte,after.found (by simp),Option.bind_some] at vacant
      simpa using vacant
    exact .inr ⟨t,m',by simp only [ptx,page,slot]; rfl,after⟩

theorem mapPage_user {p : Nat} (perm : Nat) (inv : Inv k all m dirs (some p)) (member : d ∈ dirs) (bound : v < 524288)
    (low : perm < 4096) (empty : pte m.frame d v = none) :
    ∃ ok m', m.mapPage d (v*pgsize) (p*pgsize) perm = some (ok,m') ∧
      (∀ lo hi, Intact m.frame m'.frame dirs d lo hi) ∧ m'.frame p = m.frame p ∧
      (ok = false → Inv k all m' dirs (some p) ∧ SamePages m.frame m'.frame dirs ∧
        ∀ n, ¬ Suffices m (n+missing m.frame d (v/1024))) ∧
      (ok = true → Inv k all m' dirs none ∧ Sets m.frame m'.frame dirs d v (p*pgsize ||| perm ||| pteP) ∧
        (∀ n, Suffices m (n+missing m.frame d (v/1024)) ↔ Suffices m' n) ∧ pde m'.frame d (v/1024) ≠ none ∧
        ∀ j, j ≠ v/1024 → pde m'.frame d j = pde m.frame d j) := by
  rcases mapPage_cases (p*pgsize) perm inv member (by omega) empty with ⟨m',run,after⟩ | ⟨t,m',run,after⟩
  · exact ⟨false,m',run,after.intact,after.kept p rfl,fun _ => ⟨after.inv,after.same,after.short rfl⟩,
      fun absurd => by cases absurd⟩
  · have table := after.found (by simp)
    have vacant := (after.same d member v (by omega)).trans empty
    have index : v/1024 < 1024 := by omega
    refine ⟨true,_,run,?_,?_,fun absurd => (by cases absurd),fun _ => ⟨?_,⟨?_,?_⟩,after.enough (by simp),?_,?_⟩⟩
    · intro lo hi
      exact (after.intact lo hi).trans (after.same.within d lo hi)
        (after.inv.intact_table member index table _ d lo hi) le_rfl le_rfl
    · have apart : p ≠ t := by
        rintro rfl
        cases after.inv.sound.single .hand (.table d (v/1024)) p rfl (Inv.held_table member index table)
      rw [← after.kept p rfl]
      exact update_of_ne apart _ _
    · exact Inv.map_user (by rw [pteAddr_entry p low]; exact after.inv) member bound table vacant (present_entry _)
    · rw [after.inv.write_pte member (by omega) table,if_pos (present_entry _)]
    · intro d' member' v' bound' away
      exact (after.inv.write_other member (by omega) table member' bound' away).trans (after.same d' member' v' bound')
    · rw [after.inv.write_pde member (by omega) table member,table]
      simp
    · intro j elsewhere
      rw [after.inv.write_pde member (by omega) table member]
      exact after.others j elsewhere

theorem mapPage_kernel (pa perm : Nat) (inv : Inv k all m dirs hand) (member : d ∈ dirs) (above : 524288 ≤ v)
    (bound : v < 1048576) (empty : pte m.frame d v = none) :
    ∃ ok m', m.mapPage d (v*pgsize) pa perm = some (ok,m') ∧ Inv k all m' dirs hand ∧
      Within m.frame m'.frame dirs d v (v+1) := by
  rcases mapPage_cases pa perm inv member bound empty with ⟨m',run,after⟩ | ⟨t,m',run,after⟩
  · exact ⟨false,m',run,after.inv,after.same.within d v (v+1)⟩
  · have table := after.found (by simp)
    refine ⟨true,_,run,after.inv.rewrite member bound table (fun low => by omega),?_⟩
    intro d' member' v' bound' away
    exact (after.inv.write_other member bound table member' bound' (by omega)).trans (after.same d' member' v' bound')

theorem mapRounds_kernel {perm : Nat} (n pa : Nat) (inv : Inv k all m dirs hand) (member : d ∈ dirs)
    (above : 524288 ≤ v) (bound : v+n ≤ 1048576) (empty : ∀ u, v ≤ u → u < v+n → pte m.frame d u = none) :
    ∃ ok m', m.mapRounds d perm n (v*pgsize) pa = some (ok,m') ∧ Inv k all m' dirs hand ∧
      Within m.frame m'.frame dirs d v (v+n) := by
  induction n generalizing m v pa with
  | zero => exact ⟨true,m,rfl,inv,fun _ _ _ _ _ => rfl⟩
  | succ n ih =>
    obtain ⟨ok,m₁,mapped,inv₁,within₁⟩ := mapPage_kernel pa perm inv member above (by omega)
      (empty v le_rfl (by omega))
    unfold Mem.mapRounds
    rw [mapped]
    cases ok with
    | false => exact ⟨false,m₁,rfl,inv₁,(SamePages.refl _ _).within d v (v+(n+1)) |>.trans within₁ le_rfl (by omega)⟩
    | true =>
      simp only
      cases n with
      | zero => exact ⟨true,m₁,rfl,inv₁,within₁⟩
      | succ n =>
        have next : uint ((v*pgsize : Nat)+pgsize) = (v+1)*pgsize := by
          simp only [uint,pgsize]
          omega
        have rest (u : Nat) (low : v+1 ≤ u) (high : u < v+1+(n+1)) : pte m₁.frame d u = none := by
          rw [within₁ d member u (by omega) (by omega)]
          exact empty u (by omega) (by omega)
        rw [next]
        obtain ⟨ok,m₂,mapped,inv₂,within₂⟩ := ih (uint (pa+pgsize)) inv₁ (by omega) (by omega) rest
        refine ⟨ok,m₂,mapped,inv₂,?_⟩
        intro d' member' u low away
        exact (within₂ d' member' u low (by omega)).trans (within₁ d' member' u low (by omega))

theorem mappages_page {pa perm : Nat} (bound : v < 1048575) :
    m.mappages d (v*pgsize) pgsize pa perm = m.mapPage d (v*pgsize) pa perm := by
  have page : v*pgsize/pgsize*pgsize = v*pgsize := by rw [Nat.mul_div_cancel _ (by decide)]
  have last : uint ((v*pgsize : Nat)+pgsize-1)/pgsize*pgsize = v*pgsize := by
    simp only [uint,pgsize]
    omega
  have rounds : uint ((v*pgsize : Nat)-(v*pgsize : Nat))/pgsize = 0 := by simp [uint]
  simp only [Mem.mappages,page,last,rounds,Mem.mapRounds]
  rcases m.mapPage d (v*pgsize) pa perm with _ | ⟨_ | _,m'⟩ <;> rfl

theorem mappages_kernel {e : Kmap} (listed : e ∈ k.kmap) (inv : Inv k all m dirs hand) (member : d ∈ dirs)
    (empty : ∀ u, e.covers u → pte m.frame d u = none) :
    ∃ ok m', m.mappages d e.virt e.size e.physStart e.perm = some (ok,m') ∧ Inv k all m' dirs hand ∧
      Within m.frame m'.frame dirs d (e.virt/pgsize) ((e.virt+e.size)/pgsize) := by
  obtain ⟨low,high⟩ := k.above e listed
  obtain ⟨aligned,whole,positive⟩ := k.whole e listed
  obtain ⟨v,start⟩ : ∃ v, e.virt = v*pgsize := ⟨_,(Nat.div_mul_cancel (Nat.dvd_of_mod_eq_zero aligned)).symm⟩
  obtain ⟨n,length⟩ : ∃ n, e.size = n*pgsize := ⟨_,(Nat.div_mul_cancel (Nat.dvd_of_mod_eq_zero whole)).symm⟩
  simp only [Kmap.covers,start,length] at low high positive empty ⊢
  have page : v*pgsize/pgsize = v := Nat.mul_div_cancel _ (by decide)
  have after : (v*pgsize+n*pgsize)/pgsize = v+n := by
    rw [← Nat.add_mul,Nat.mul_div_cancel _ (by decide)]
  have rounds : uint ((uint ((v*pgsize : Nat)+(n*pgsize : Nat)-1)/pgsize*pgsize : Nat)-(v*pgsize : Nat))/pgsize+1 = n := by
    simp only [uint,pgsize] at *
    omega
  simp only [kernbase,pgsize] at low high empty
  simp only [Mem.mappages,page,rounds,after]
  refine mapRounds_kernel n e.physStart inv member (by omega) (by omega) fun u above below => empty u ?_
  omega

end Map

section Setup
variable {k : Kernel} {all : List Nat} {dirs : List Nat}

theorem freevm_spec {m : Mem} {d : Nat} {hand : Option Nat} (inv : Inv k all m dirs hand) (member : d ∈ dirs) :
    ∃ m', m.freevm k d = some m' ∧ Inv k all m' (dirs.filter (· ≠ d)) hand ∧
      SamePages m.frame m'.frame (dirs.filter (· ≠ d)) := by
  obtain ⟨m₁,run,emptied⟩ := deallocuvm_spec le_rfl 0 inv member
  have empty (v : Nat) (bound : v < 524288) : pte m₁.frame d v = none := by
    refine emptied.cleared (Nat.zero_le _) ?_
    simp only [kernbase,pgsize]
    omega
  obtain ⟨m₂,m₃,tables,freed,inv₃,same⟩ := emptied.inv.free_tables member empty
  refine ⟨m₃,by rw [Mem.freevm,run]; simp only [tables,freed],inv₃,?_⟩
  intro d' kept v bound
  have other : d' ∈ dirs ∧ d' ≠ d := by simpa using kept
  exact (same d' kept v bound).trans (emptied.within d' other.1 v bound (.inl other.2))

theorem filter_fresh {d : Nat} (fresh : d ∉ dirs) : (d :: dirs).filter (· ≠ d) = dirs := by
  have kept : dirs.filter (· ≠ d) = dirs := by
    refine List.filter_eq_self.mpr fun x member => ?_
    simpa using fun same : x = d => fresh (same ▸ member)
  simpa using kept

theorem mapKernel_spec {d : Nat} {hand : Option Nat} (es : List Kmap) (listed : ∀ e ∈ es, e ∈ k.kmap)
    (apart : es.Pairwise fun e e' => e.virt+e.size ≤ e'.virt) {m : Mem} (inv : Inv k all m dirs hand)
    (member : d ∈ dirs) (empty : ∀ e ∈ es, ∀ u, e.covers u → pte m.frame d u = none) :
    ∃ ok m', m.mapKernel k d es = some (ok,m') ∧
      (ok = true → Inv k all m' dirs hand ∧ Within m.frame m'.frame dirs d 524288 1048576) ∧
      (ok = false → Inv k all m' (dirs.filter (· ≠ d)) hand ∧ SamePages m.frame m'.frame (dirs.filter (· ≠ d))) := by
  induction es generalizing m with
  | nil => exact ⟨true,m,rfl,fun _ => ⟨inv,fun _ _ _ _ _ => rfl⟩,fun h => by cases h⟩
  | cons e es ih =>
    obtain ⟨first,rest⟩ := List.pairwise_cons.mp apart
    obtain ⟨below,above⟩ := List.forall_mem_cons.mp listed
    obtain ⟨low,high⟩ := k.above e below
    obtain ⟨ok,m₁,mapped,inv₁,within⟩ := mappages_kernel below inv member (empty e (by simp))
    have wide : Within m.frame m₁.frame dirs d 524288 1048576 := by
      intro d' member' u bound away
      refine within d' member' u bound ?_
      simp only [kernbase,pgsize] at low ⊢
      omega
    unfold Mem.mapKernel
    rw [mapped]
    cases ok with
    | false =>
      obtain ⟨m₂,freed,inv₂,same⟩ := freevm_spec inv₁ member
      refine ⟨false,m₂,by simp only [freed]; rfl,fun h => (by cases h),fun _ => ⟨inv₂,?_⟩⟩
      intro d' kept u bound
      have other : d' ∈ dirs ∧ d' ≠ d := by simpa using kept
      exact (same d' kept u bound).trans (wide d' other.1 u bound (.inl other.2))
    | true =>
      have still (e' : Kmap) (listed' : e' ∈ es) (u : Nat) (covered : e'.covers u) : pte m₁.frame d u = none := by
        have above' := k.above e' (above e' listed')
        have order := first e' listed'
        obtain ⟨start,stop⟩ := covered
        rw [within d member u (by simp only [pgsize] at stop; omega)]
        · exact empty e' (by simp [listed']) u ⟨start,stop⟩
        · simp only [pgsize] at start ⊢
          omega
      obtain ⟨ok,m₂,run,success,failure⟩ := ih above rest inv₁ still
      refine ⟨ok,m₂,run,?_,?_⟩
      · intro done
        obtain ⟨inv₂,within₂⟩ := success done
        exact ⟨inv₂,wide.trans within₂ le_rfl le_rfl⟩
      · intro failed
        obtain ⟨inv₂,same⟩ := failure failed
        refine ⟨inv₂,?_⟩
        intro d' kept u bound
        have other : d' ∈ dirs ∧ d' ≠ d := by simpa using kept
        exact (same d' kept u bound).trans (wide d' other.1 u bound (.inl other.2))

theorem setupkvm_spec {m : Mem} (inv : Inv k all m dirs none) :
    ∃ r m', m.setupkvm k = some (r,m') ∧ SamePages m.frame m'.frame dirs ∧ (r = none → Inv k all m' dirs none) ∧
      ∀ d, r = some d → d ∉ dirs ∧ d ≠ 0 ∧ Inv k all m' (d :: dirs) none ∧ ∀ v < 524288, pte m'.frame d v = none := by
  unfold Mem.setupkvm
  rcases kalloc_cases m with ⟨m₁,failed,freelist,frame,_⟩ | ⟨p,m₁,taken,head,frame,_⟩
  · rw [failed]
    refine ⟨none,m₁,rfl,?_,fun _ => inv.of_eq freelist frame,fun d found => by cases found⟩
    rw [frame]
    exact .refl _ _
  · rw [taken]
    have inv₁ := inv.kalloc head frame
    have fresh : p ∉ dirs := inv₁.hand_leaf.1
    have nonzero : p ≠ 0 := by
      have valid := inv₁.freeable (x := .hand) rfl
      have positive := k.positive
      omega
    obtain ⟨filled,same⟩ := inv₁.fill inv₁.hand_leaf fun _ => 0
    rw [frame] at same
    obtain ⟨inv₂,empty⟩ := filled.directory fun i => by simp [Mem.fill]
    obtain ⟨ok,m₃,run,success,failure⟩ := mapKernel_spec k.kmap (fun _ listed => listed) k.apart inv₂ (by simp)
      fun _ _ u _ => empty u
    simp only [run]
    cases ok with
    | false =>
      obtain ⟨inv₃,same₃⟩ := failure rfl
      rw [filter_fresh fresh] at inv₃ same₃
      exact ⟨none,m₃,rfl,same.trans same₃,fun _ => inv₃,fun d found => by cases found⟩
    | true =>
      obtain ⟨inv₃,within⟩ := success rfl
      refine ⟨some p,m₃,rfl,?_,fun none => (by cases none),?_⟩
      · intro d member v bound
        have other : d ≠ p := fun same => fresh (same ▸ member)
        exact (within d (by simp [member]) v bound (.inl other)).trans (same d member v bound)
      · rintro d ⟨⟩
        refine ⟨fresh,nonzero,inv₃,?_⟩
        intro v bound
        rw [within p (by simp) v (by omega) (by omega)]
        exact empty v

end Setup

end Kthreads.Paging
