import Kthreads.Paging.Calls
import Mathlib.Data.Finset.Image
import Mathlib.Order.Interval.Finset.Nat

/-! The functions that map user pages: what they do to the directories and to the contents of other pages,
and how many pages they ask `kalloc` for. -/
namespace Kthreads.Paging

/-- The page tables that the pages from `lo` up to `hi` are to be entered in and that are not there. -/
def tables (f : Nat → Nat → Nat) (d lo hi : Nat) : Finset Nat :=
  ((Finset.Ico lo hi).image (· / 1024)).filter fun i => pde f d i = none

theorem mem_tables (f : Nat → Nat → Nat) (d : Nat) {lo hi : Nat} (less : lo < hi) :
    lo/1024 ∈ tables f d lo hi ↔ pde f d (lo/1024) = none := by
  simp only [tables,Finset.mem_filter,Finset.mem_image,Finset.mem_Ico,and_iff_right_iff_imp]
  intro _
  exact ⟨lo,by omega,rfl⟩

theorem tables_step {f g : Nat → Nat → Nat} {d lo hi : Nat} (less : lo < hi) (there : pde g d (lo/1024) ≠ none)
    (same : ∀ j, j ≠ lo/1024 → pde g d j = pde f d j) :
    (tables f d lo hi).card = missing f d (lo/1024)+(tables g d (lo+1) hi).card := by
  have rest : tables g d (lo+1) hi = (tables f d lo hi).erase (lo/1024) := by
    ext i
    simp only [tables,Finset.mem_filter,Finset.mem_image,Finset.mem_Ico,Finset.mem_erase]
    constructor
    · rintro ⟨⟨v,range,rfl⟩,absent⟩
      have other : v/1024 ≠ lo/1024 := fun here => there (here ▸ absent)
      exact ⟨other,⟨v,by omega,rfl⟩,(same _ other) ▸ absent⟩
    · rintro ⟨other,⟨v,range,rfl⟩,absent⟩
      have later : v ≠ lo := fun here => other (by rw [here])
      exact ⟨⟨v,by omega,rfl⟩,(same _ other).trans absent⟩
  have first := mem_tables f d less
  rw [rest,missing]
  split
  next absent =>
    have := Finset.card_erase_add_one (first.mpr absent)
    omega
  next found => rw [Finset.erase_eq_of_notMem (fun member => found (first.mp member)),Nat.zero_add]

theorem missing_le (f : Nat → Nat → Nat) (d : Nat) {lo hi : Nat} (less : lo < hi) :
    missing f d (lo/1024) ≤ (tables f d lo hi).card := by
  unfold missing
  split
  next absent => exact Finset.card_pos.mpr ⟨_,(mem_tables f d less).mpr absent⟩
  next => exact Nat.zero_le _

section Alloc
variable {k : Kernel} {all : List Nat} {dirs : List Nat} {d : Nat}

theorem kfree_intact {m m' : Mem} {p : Nat} (inv : Inv k all m dirs (some p)) (freed : m.kfree k p = some m')
    (e lo hi : Nat) : Intact m.frame m'.frame dirs e lo hi := by
  unfold Mem.kfree at freed
  split at freed
  · rw [← Option.some.inj freed]
    exact inv.intact_at (x := .hand) rfl (fun _ _ same => by cases same) _
  · contradiction

def Zeroed (f : Nat → Nat → Nat) (d lo hi : Nat) : Prop :=
  ∀ v w, lo ≤ v → v < hi → pte f d v = some w → ∀ i, f (pteAddr w) i = 0

structure Mapped (k : Kernel) (all : List Nat) (m m' : Mem) (dirs : List Nat) (d v : Nat) : Prop where
  inv : Inv k all m' dirs none
  within : Within m.frame m'.frame dirs d v (v+1)
  intact : ∀ lo hi, Intact m.frame m'.frame dirs d lo hi
  zero : ∃ w, pte m'.frame d v = some w ∧ ∀ i, m'.frame (pteAddr w) i = 0
  asks : ∀ n, Suffices m (n+missing m.frame d (v/1024)+1) ↔ Suffices m' n
  table : pde m'.frame d (v/1024) ≠ none
  others : ∀ j, j ≠ v/1024 → pde m'.frame d j = pde m.frame d j

/-- When there is no page for a page or for its table, a round of `allocuvm` empties the range again. -/
structure Undone (k : Kernel) (all : List Nat) (m m' : Mem) (dirs : List Nat) (d oldsz newsz : Nat) : Prop where
  inv : Inv k all m' dirs none
  within : Within m.frame m'.frame dirs d (pages oldsz) (pages newsz)
  intact : Intact m.frame m'.frame dirs d (pages oldsz) (pages newsz)
  cleared : ∀ u, oldsz ≤ u*pgsize → u*pgsize < newsz → pte m'.frame d u = none

theorem Undone.same {m m' : Mem} {oldsz newsz : Nat} (undone : Undone k all m m' dirs d oldsz newsz)
    (last : pages oldsz+(pages newsz-pages oldsz) = pages newsz)
    (vacant : ∀ u, pages oldsz ≤ u → u < pages oldsz+(pages newsz-pages oldsz) → pte m.frame d u = none) :
    SamePages m.frame m'.frame dirs := by
  intro d' member' u bound
  by_cases inside : d' = d ∧ pages oldsz ≤ u ∧ u < pages newsz
  · obtain ⟨rfl,above,below⟩ := inside
    have start := @below_pages u oldsz
    rw [vacant u above (by omega)]
    exact undone.cleared u (by omega) (below_pages.mp below)
  · exact undone.within d' member' u bound (by omega)

theorem allocRounds_succ (oldsz : Nat) {newsz : Nat} (user : newsz < kernbase) (n : Nat) {m : Mem} {v : Nat}
    (inv : Inv k all m dirs none) (member : d ∈ dirs) (low : v < 524288) (vacant : pte m.frame d v = none) :
    (∃ m', m.allocRounds k d oldsz newsz (n+1) (v*pgsize) = some (0,m') ∧
      (∀ j, ¬ Suffices m (j+missing m.frame d (v/1024)+1)) ∧ Undone k all m m' dirs d oldsz newsz) ∨
    ∃ m', m.allocRounds k d oldsz newsz (n+1) (v*pgsize) = m'.allocRounds k d oldsz newsz n ((v+1)*pgsize) ∧
      Mapped k all m m' dirs d v ∧ ∀ w, pte m'.frame d v = some w → w/pteU % 2 = 1 := by
  have later : v*pgsize+pgsize = (v+1)*pgsize := (Nat.succ_mul v pgsize).symm
  rw [Mem.allocRounds]
  rcases kalloc_cases m with ⟨m₁,failed,freelist,frame,short⟩ | ⟨p,m₁,taken,head,frame,enough⟩
  · obtain ⟨m₂,undo,emptied⟩ := deallocuvm_spec user.le oldsz (inv.of_eq freelist frame) member
    have within := emptied.range
    have intact := emptied.contents
    rw [frame] at within intact
    exact .inl ⟨m₂,by simp only [failed,undo]; rfl,fun j => short _,emptied.inv,within,intact,fun u => emptied.cleared⟩
  · have inv₁ := inv.kalloc head frame
    obtain ⟨filled,same⟩ := inv₁.fill inv₁.hand_leaf fun _ => 0
    rw [frame] at same
    have cleared (lo hi : Nat) : Intact m.frame (m₁.fill p fun _ => 0).frame dirs d lo hi := by
      simp only [Mem.fill,frame]
      exact inv.intact_free (by simp [head]) _ d lo hi
    have pdes (j : Nat) : pde (m₁.fill p fun _ => 0).frame d j = pde m.frame d j :=
      (inv₁.hand_leaf.pde_update member).trans (by rw [frame])
    have asks : missing (m₁.fill p fun _ => 0).frame d (v/1024) = missing m.frame d (v/1024) := by
      rw [missing,missing,pdes]
    have count (j : Nat) : Suffices m (j+1) ↔ Suffices (m₁.fill p fun _ => 0) j := enough j
    obtain ⟨ok,m₂,map,intact,kept,failure,success⟩ := mapPage_user (pteW ||| pteU) filled member low (by decide)
      ((same d member v (by omega)).trans vacant)
    rw [asks] at failure success
    simp only [taken,mappages_page (show v < 1048575 by omega),map]
    have mapped (lo hi : Nat) : Intact m.frame m₂.frame dirs d lo hi :=
      (cleared lo hi).trans (same.within d lo hi) (intact lo hi) le_rfl le_rfl
    cases ok with
    | false =>
      obtain ⟨inv₂,same₂,short⟩ := failure rfl
      obtain ⟨m₃,undo,emptied⟩ := deallocuvm_spec user.le oldsz inv₂ member
      obtain ⟨m₄,freed,inv₄,same₄⟩ := emptied.inv.kfree
      have still := ((same.trans same₂).within d (pages oldsz) (pages newsz)).trans emptied.range le_rfl le_rfl
      have before := (mapped _ _).trans ((same.trans same₂).within d _ _) emptied.contents le_rfl le_rfl
      refine .inl ⟨m₄,by simp only [undo,freed]; rfl,fun j fits => short j ((count _).mp fits),inv₄,
        still.trans (same₄.within d _ _) le_rfl le_rfl,
        before.trans still (kfree_intact emptied.inv freed d _ _) le_rfl le_rfl,?_⟩
      intro u start stop
      rw [same₄ d member u (by simp only [kernbase,pgsize] at user stop; omega)]
      exact emptied.cleared start stop
    | true =>
      obtain ⟨inv₂,⟨set,others⟩,enough₂,there,elsewhere⟩ := success rfl
      refine .inr ⟨m₂,by simp only [later],⟨inv₂,?_,mapped,⟨_,set,?_⟩,?_,there,?_⟩,?_⟩
      · intro d' member' u bound away
        exact (others d' member' u bound (by omega)).trans (same d' member' u bound)
      · intro i
        rw [pteAddr_entry p (by decide),kept]
        simp [Mem.fill]
      · intro j
        rw [count,enough₂]
      · intro j other
        exact (elsewhere j other).trans (pdes j)
      · intro w found
        rw [set] at found
        obtain rfl := Option.some.inj found
        rw [Nat.or_assoc,entry_eq p (by decide),show pteW ||| pteU ||| pteP = 7 from rfl,pgsize,pteU]
        omega

/-- The loop of `allocuvm`: it succeeds just if there is a page for each page and for each table that is
not there, and it touches no user page but those that it maps. -/
theorem allocRounds_exact {oldsz newsz : Nat} (user : newsz < kernbase) (n : Nat) {m : Mem} {v : Nat}
    (inv : Inv k all m dirs none) (member : d ∈ dirs) (first : pages oldsz ≤ v) (last : v+n = pages newsz)
    (vacant : ∀ u, v ≤ u → u < v+n → pte m.frame d u = none) :
    (∃ m', m.allocRounds k d oldsz newsz n (v*pgsize) = some (0,m') ∧
      ¬ Suffices m (n+(tables m.frame d v (v+n)).card) ∧ Undone k all m m' dirs d oldsz newsz) ∨
    ∃ m', m.allocRounds k d oldsz newsz n (v*pgsize) = some (newsz,m') ∧
      Suffices m (n+(tables m.frame d v (v+n)).card) ∧ Inv k all m' dirs none ∧
      Intact m.frame m'.frame dirs d v (v+n) ∧ Within m.frame m'.frame dirs d v (v+n) ∧
      ∀ u, v ≤ u → u < v+n → ∃ w, pte m'.frame d u = some w ∧ w/pteU % 2 = 1 ∧ ∀ i, m'.frame (pteAddr w) i = 0 := by
  induction n generalizing m v with
  | zero =>
    refine .inr ⟨m,rfl,by simp [Suffices,tables],inv,.refl _ _ _ _ _,fun _ _ _ _ _ => rfl,?_⟩
    intro u low high
    omega
  | succ n ih =>
    have high : v+(n+1) ≤ 524288 := by
      simp only [kernbase,pages,pgsize] at user last
      omega
    have less : v < v+(n+1) := by omega
    rcases allocRounds_succ oldsz user n inv member (by omega) (vacant v le_rfl less) with
      ⟨m₁,fails,short,undone⟩ | ⟨m₁,goes,mapped,allowed⟩
    · have few := missing_le m.frame d less
      have never := short (n+((tables m.frame d v (v+(n+1))).card-missing m.frame d (v/1024)))
      rw [show n+((tables m.frame d v (v+(n+1))).card-missing m.frame d (v/1024))+missing m.frame d (v/1024)+1 =
        n+1+(tables m.frame d v (v+(n+1))).card by omega] at never
      exact .inl ⟨m₁,fails,never,undone⟩
    · have ahead (u : Nat) (above : v+1 ≤ u) (below : u < v+1+n) : pte m₁.frame d u = none := by
        rw [mapped.within d member u (by omega) (by omega)]
        exact vacant u (by omega) (by omega)
      have counts := tables_step less mapped.table mapped.others
      have fits : Suffices m₁ (n+(tables m₁.frame d (v+1) (v+(n+1))).card) ↔
          Suffices m (n+1+(tables m.frame d v (v+(n+1))).card) := by
        rw [← mapped.asks,counts]
        rw [show n+(tables m₁.frame d (v+1) (v+(n+1))).card+missing m.frame d (v/1024)+1 =
          n+1+(missing m.frame d (v/1024)+(tables m₁.frame d (v+1) (v+(n+1))).card) by omega]
      have within (lo : Nat) (low : lo ≤ v) : Within m.frame m₁.frame dirs d lo (v+(n+1)) :=
        fun d' member' u bound away => mapped.within d' member' u bound (by omega)
      rw [goes]
      have rest := ih mapped.inv (by omega) (by omega) ahead
      rw [show v+1+n = v+(n+1) by omega,fits] at rest
      rcases rest with ⟨m',run,short,undone⟩ | ⟨m',run,enough,inv',intact,within',zero⟩
      · have before := within (pages oldsz) first
        rw [last] at before
        exact .inl ⟨m',run,short,undone.inv,before.trans undone.within le_rfl le_rfl,
          (mapped.intact _ _).trans before undone.intact le_rfl le_rfl,undone.cleared⟩
      · refine .inr ⟨m',run,enough,inv',(mapped.intact _ _).trans (within v le_rfl) intact (by omega) le_rfl,
          (within v le_rfl).trans within' (by omega) le_rfl,?_⟩
        intro u above below
        by_cases here : u = v
        · subst u
          obtain ⟨w,set,empty⟩ := mapped.zero
          refine ⟨w,(within' d member v (by omega) (by omega)).trans set,allowed w set,?_⟩
          rw [intact d member v (by omega) (by omega) w set]
          exact empty
        · exact zero u (by omega) below

theorem allocuvm_range {f : Nat → Nat → Nat} {oldsz newsz : Nat} (user : newsz < kernbase) (more : oldsz ≤ newsz)
    (bounded : ∀ u < 524288, oldsz ≤ u*pgsize → pte f d u = none) :
    (pgroundup newsz-pgroundup oldsz)/pgsize = pages newsz-pages oldsz ∧
    pages oldsz+(pages newsz-pages oldsz) = pages newsz ∧
    ∀ u, pages oldsz ≤ u → u < pages oldsz+(pages newsz-pages oldsz) → pte f d u = none := by
  simp only [pgroundup,kernbase,pages,pgsize] at *
  refine ⟨by omega,by omega,fun u above below => bounded u (by omega) (by omega)⟩

theorem allocuvm_spec {m : Mem} {oldsz : Nat} (newsz : Nat) (inv : Inv k all m dirs none) (member : d ∈ dirs)
    (bounded : ∀ u < 524288, oldsz ≤ u*pgsize → pte m.frame d u = none) :
    ∃ r m', m.allocuvm k d oldsz newsz = some (r,m') ∧ Inv k all m' dirs none ∧
      (r = 0 ∧ SamePages m.frame m'.frame dirs ∨
       r = max oldsz newsz ∧ newsz < kernbase ∧ Within m.frame m'.frame dirs d (pages oldsz) (pages newsz) ∧
        ∀ u, pages oldsz ≤ u → u < pages newsz → ∃ w, pte m'.frame d u = some w ∧ w/pteU % 2 = 1) := by
  unfold Mem.allocuvm
  split
  next => exact ⟨0,m,rfl,inv,.inl ⟨rfl,.refl _ _⟩⟩
  next user =>
    split
    next less =>
      refine ⟨oldsz,m,rfl,inv,.inr ⟨by omega,by omega,fun _ _ _ _ _ => rfl,?_⟩⟩
      intro u above below
      simp only [pages,pgsize] at above below
      omega
    next more =>
      obtain ⟨rounds,last,vacant⟩ := allocuvm_range (show newsz < kernbase by omega) (Nat.le_of_not_lt more) bounded
      rw [rounds]
      rcases allocRounds_exact (show newsz < kernbase by omega) _ inv member le_rfl last vacant with
        ⟨m',run,_,undone⟩ | ⟨m',run,_,inv',_,within,mapped⟩
      · exact ⟨0,m',run,undone.inv,.inl ⟨rfl,undone.same last vacant⟩⟩
      · rw [last] at within mapped
        refine ⟨newsz,m',run,inv',.inr ⟨by omega,by omega,within,?_⟩⟩
        intro u above below
        obtain ⟨w,found,allowed,_⟩ := mapped u above below
        exact ⟨w,found,allowed⟩

end Alloc

section Copy
variable {k : Kernel} {all : List Nat} {dirs : List Nat} {d : Nat}

theorem clear_entry (w : Nat) : present (w &&& 4294967291) = present w ∧ (w &&& 4294967291)/pteU % 2 = 0 ∧
    (w < 4294967296 → pteAddr (w &&& 4294967291) = pteAddr w) := by
  refine ⟨?_,?_,?_⟩
  · simp [present,Nat.and_mod_two_eq_one]
  · have split := Nat.and_div_two_pow (a := w) (b := 4294967291) (n := 2)
    simp only [Nat.reducePow,Nat.reduceDiv] at split
    rw [pteU,split]
    have odd := Nat.and_mod_two_eq_one (a := w/4) (b := 1073741822)
    omega
  · intro small
    have split := Nat.and_div_two_pow (a := w) (b := 4294967291) (n := 12)
    have mask := Nat.and_two_pow_sub_one_eq_mod (w/4096) 20
    simp only [Nat.reducePow,Nat.reduceSub,Nat.reduceDiv] at split mask
    rw [pteAddr,pteAddr,pgsize,split,mask]
    omega

theorem clearpteu_spec {m : Mem} (uva : Nat) {hand : Option Nat} (inv : Inv k all m dirs hand) (member : d ∈ dirs)
    (bound : uva < 4294967296) :
    m.clearpteu d uva = none ∧ pde m.frame d (uva/pgsize/1024) = none ∨
    ∃ m', m.clearpteu d uva = some m' ∧ Inv k all m' dirs hand ∧
      Within m.frame m'.frame dirs d (uva/pgsize) (uva/pgsize+1) ∧
      (pte m'.frame d (uva/pgsize) = none ↔ pte m.frame d (uva/pgsize) = none) ∧
      ∀ w, pte m'.frame d (uva/pgsize) = some w → w/pteU % 2 = 0 := by
  unfold Mem.clearpteu
  rw [walkpgdir_false bound,ptx]
  have low : uva/pgsize < 1048576 := by
    simp only [pgsize]
    omega
  generalize uva/pgsize = v at *
  cases table : pde m.frame d (v/1024) with
  | none => exact .inl ⟨rfl,rfl⟩
  | some t =>
    have entry : pte m.frame d v = if present (m.frame t (v % 1024)) then some (m.frame t (v % 1024)) else none := by
      rw [pte,table,Option.bind_some]
    obtain ⟨same,clear,page⟩ := clear_entry (m.frame t (v % 1024))
    refine .inr ⟨_,rfl,inv.rewrite member low table ?_,?_,?_,?_⟩
    · intro user
      rw [same,entry]
      split
      next here =>
        -- an entry of the user part names a page that may be freed
        have owned := inv.freeable (x := .user d _) (Inv.held_user member user (entry.trans (if_pos here)))
        rw [page]
        · rfl
        · simp only [pteAddr,phystop,pgsize] at owned
          omega
      next => rfl
    · intro d' member' u bound' away
      exact inv.write_other member low table member' bound' (by omega)
    · rw [inv.write_pte member low table,same,entry]
      split <;> simp
    · intro w found
      rw [inv.write_pte member low table] at found
      split at found
      next => exact Option.some.inj found ▸ clear
      next => contradiction

/-- The loop of `copyuvm` copies every page, or the new directory is freed. It panics at a hole. -/
theorem copyRounds_spec {pgdir : Nat} (n : Nat) {m : Mem} {v : Nat} (inv : Inv k all m (d :: dirs) none)
    (fresh : d ∉ dirs) (member : pgdir ∈ dirs) (user : v+n ≤ 524288)
    (empty : ∀ u, v ≤ u → u < 524288 → pte m.frame d u = none) :
    m.copyRounds k pgdir d n (v*pgsize) = none ∧ (∃ u, v ≤ u ∧ u < v+n ∧ pte m.frame pgdir u = none) ∨
    ∃ ok m', m.copyRounds k pgdir d n (v*pgsize) = some (ok,m') ∧ SamePages m.frame m'.frame dirs ∧
      (ok = false → Inv k all m' dirs none) ∧
      (ok = true → Inv k all m' (d :: dirs) none ∧ Within m.frame m'.frame (d :: dirs) d v (v+n) ∧
        ∀ u, v ≤ u → u < v+n → pte m'.frame d u ≠ none) := by
  induction n generalizing m v with
  | zero =>
    exact .inr ⟨true,m,rfl,.refl _ _,fun h => (by cases h),fun _ => ⟨inv,fun _ _ _ _ _ => rfl,fun u _ _ => by omega⟩⟩
  | succ n ih =>
    have page : v*pgsize/pgsize = v := Nat.mul_div_cancel _ (by decide)
    have address : v*pgsize < 4294967296 := by
      simp only [pgsize]
      omega
    have slot : ptx (v*pgsize) = v % 1024 := by rw [ptx,page]
    have later : (v+1)*pgsize = v*pgsize+pgsize := Nat.succ_mul v pgsize
    have other (d' : Nat) (member' : d' ∈ dirs) : d' ≠ d := fun same => fresh (same ▸ member')
    have old {f f' : Nat → Nat → Nat} (same : SamePages f f' (d :: dirs)) : SamePages f f' dirs :=
      fun d' member' u bound => same d' (List.mem_cons_of_mem d member') u bound
    -- memory runs out: the new directory is freed
    have dropped {m₁ : Mem} (inv₁ : Inv k all m₁ (d :: dirs) none) (same : SamePages m.frame m₁.frame dirs) :
        ∃ m', m₁.freevm k d = some m' ∧ SamePages m.frame m'.frame dirs ∧ Inv k all m' dirs none := by
      obtain ⟨m₂,freed,inv₂,same₂⟩ := freevm_spec (d := d) inv₁ (by simp)
      rw [filter_fresh fresh] at inv₂ same₂
      exact ⟨m₂,freed,same.trans same₂,inv₂⟩
    unfold Mem.copyRounds
    rw [walkpgdir_false address,page,slot]
    cases table : pde m.frame pgdir (v/1024) with
    | none =>
      refine .inl ⟨rfl,v,le_rfl,by omega,?_⟩
      rw [pte,table]
      rfl
    | some t =>
      simp only
      split
      next here =>
        rcases kalloc_cases m with ⟨m₁,failed,freelist,frame,_⟩ | ⟨p,m₁,taken,head,frame,_⟩
        · rw [failed]
          obtain ⟨m₂,freed,same,inv₂⟩ := dropped (inv.of_eq freelist frame) (by rw [frame]; exact .refl _ _)
          exact .inr ⟨false,m₂,by simp only [freed]; rfl,same,fun _ => inv₂,fun h => by cases h⟩
        · simp only [taken]
          have inv₁ := inv.kalloc head frame
          generalize m₁.frame (pteAddr (m.frame t (v % 1024))) = words
          obtain ⟨filled,same⟩ := inv₁.fill inv₁.hand_leaf words
          rw [frame] at same
          obtain ⟨ok,m₂,run,_,_,failure,success⟩ := mapPage_user (d := d) (v := v)
            (pteFlags (m.frame t (v % 1024))) filled (by simp) (by omega) (Nat.mod_lt _ (by decide))
            ((same d (by simp) v (by omega)).trans (empty v le_rfl (by omega)))
          simp only [mappages_page (show v < 1048575 by omega),run]
          cases ok with
          | false =>
            obtain ⟨inv₂,same₂,_⟩ := failure rfl
            obtain ⟨m₃,freed,inv₃,same₃⟩ := inv₂.kfree
            obtain ⟨m₄,gone,same₄,inv₄⟩ := dropped inv₃ (old ((same.trans same₂).trans same₃))
            exact .inr ⟨false,m₄,by simp only [freed,gone]; rfl,same₄,fun _ => inv₄,fun h => by cases h⟩
          | true =>
            obtain ⟨inv₂,⟨set,others⟩,_⟩ := success rfl
            have kept : SamePages m.frame m₂.frame dirs := by
              intro d' member' u bound
              have inside : d' ∈ d :: dirs := List.mem_cons_of_mem d member'
              exact (others d' inside u bound (.inl (other d' member'))).trans (same d' inside u bound)
            rw [← later]
            rcases ih (v := v+1) inv₂ (by omega) (by
              intro u above below
              rw [others d (by simp) u (by omega) (by omega),same d (by simp) u (by omega)]
              exact empty u (by omega) below) with ⟨panics,u,above,below,hole⟩ | ⟨ok,m₃,run,same₃,failure,success⟩
            · refine .inl ⟨panics,u,by omega,by omega,?_⟩
              rw [← hole]
              exact (kept pgdir member u (by omega)).symm
            · refine .inr ⟨ok,m₃,run,kept.trans same₃,failure,?_⟩
              intro done
              obtain ⟨inv₃,within,mapped⟩ := success done
              refine ⟨inv₃,?_,?_⟩
              · intro d' member' u bound away
                rw [within d' member' u bound (by omega),others d' member' u bound (by omega)]
                exact same d' member' u bound
              · intro u above below
                by_cases at_v : u = v
                · subst u
                  rw [within d (by simp) v (by omega) (by omega)]
                  simp [set]
                · exact mapped u (by omega) (by omega)
      next hole =>
        refine .inl ⟨rfl,v,le_rfl,by omega,?_⟩
        rw [pte,table,Option.bind_some,if_neg hole]

theorem copyuvm_spec {m : Mem} {sz : Nat} (inv : Inv k all m dirs none) (member : d ∈ dirs) (user : sz ≤ kernbase) :
    m.copyuvm k d sz = none ∧ (∃ u, u*pgsize < sz ∧ pte m.frame d u = none) ∨
    ∃ r m', m.copyuvm k d sz = some (r,m') ∧ SamePages m.frame m'.frame dirs ∧ (r = none → Inv k all m' dirs none) ∧
      ∀ c, r = some c → c ∉ dirs ∧ c ≠ 0 ∧ Inv k all m' (c :: dirs) none ∧
        ∀ u < 524288, (pte m'.frame c u ≠ none ↔ u*pgsize < sz) := by
  unfold Mem.copyuvm
  obtain ⟨r,m₁,made,same,failure,success⟩ := setupkvm_spec inv
  rw [made]
  cases r with
  | none => exact .inr ⟨none,m₁,rfl,same,failure,fun c found => by cases found⟩
  | some c =>
    obtain ⟨fresh,nonzero,inv₁,empty⟩ := success c rfl
    have start : (0 : Nat) = 0*pgsize := (Nat.zero_mul pgsize).symm
    simp only
    rw [start]
    rcases copyRounds_spec (d := c) ((sz+(pgsize-1))/pgsize) (v := 0) inv₁ fresh member
      (by simp only [kernbase,pgsize] at user ⊢; omega) (fun u _ bound => empty u bound)
      with ⟨panics,u,_,below,hole⟩ | ⟨ok,m₂,run,same₂,failure,success⟩
    · refine .inl ⟨by simp only [panics],u,by simp only [pgsize] at below ⊢; omega,?_⟩
      rw [← hole]
      refine (same d member u ?_).symm
      simp only [kernbase,pgsize] at user below
      omega
    · simp only [run]
      cases ok with
      | false => exact .inr ⟨none,m₂,rfl,same.trans same₂,fun _ => failure rfl,fun c found => by cases found⟩
      | true =>
        obtain ⟨inv₂,within,mapped⟩ := success rfl
        refine .inr ⟨some c,m₂,rfl,same.trans same₂,fun none => (by cases none),?_⟩
        rintro c ⟨⟩
        refine ⟨fresh,nonzero,inv₂,fun u bound => ⟨?_,?_⟩⟩
        · intro here
          by_contra above
          refine here ?_
          rw [within c (by simp) u (by omega) (by simp only [pgsize] at above ⊢; omega)]
          exact empty u bound
        · intro below
          exact mapped u (by omega) (by simp only [pgsize] at below ⊢; omega)

end Copy

end Kthreads.Paging
