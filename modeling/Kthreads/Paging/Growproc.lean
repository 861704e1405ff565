import Kthreads.Paging.Conservation

/-! `growproc`. The increment is signed and is added to an unsigned size; `allocuvm` and `deallocuvm`
return 0 for a failure, which is also the size of a process without memory. -/
namespace Kthreads.Paging

/-- What `growproc` makes of the value of `allocuvm` or `deallocuvm`: its result, the size and the memory. -/
def resized (sz : Nat) (r : Nat × Mem) : Int × Nat × Mem := if r.1 = 0 then (-1,sz,r.2) else (0,r.1,r.2)

def Mem.growproc (k : Kernel) (m : Mem) (d sz : Nat) (n : Int) : Option (Int × Nat × Mem) :=
  if 0 < n then (m.allocuvm k d sz (uint (sz+n))).map (resized sz)
  else if n < 0 then (m.deallocuvm k d sz (uint (sz+n))).map (resized sz)
  else some (0,sz,m)

def Exact (f : Nat → Nat → Nat) (d sz : Nat) : Prop := ∀ v < 524288, pte f d v ≠ none ↔ v*pgsize < sz

def Kept (f f' : Nat → Nat → Nat) (d sz : Nat) : Prop :=
  ∀ v < 524288, v*pgsize < sz → pte f' d v = pte f d v ∧ ∀ w, pte f d v = some w → f' (pteAddr w) = f (pteAddr w)

def need (f : Nat → Nat → Nat) (d sz newsz : Nat) : Nat :=
  pages newsz-pages sz+(tables f d (pages sz) (pages newsz)).card

section Growproc
variable {k : Kernel} {all : List Nat} {m : Mem} {dirs : List Nat} {d sz : Nat}

theorem need_less {f : Nat → Nat → Nat} {newsz : Nat} (less : newsz ≤ sz) : need f d sz newsz = 0 := by
  have fewer : pages newsz ≤ pages sz := by
    simp only [pages,pgsize]
    omega
  simp [need,tables,Nat.sub_eq_zero_of_le fewer,Finset.Ico_eq_empty_of_le fewer]

/-- What a call of `growproc` that means to reach `newsz` may do. -/
structure Grows (k : Kernel) (all : List Nat) (m : Mem) (dirs : List Nat) (d sz : Nat) (newsz : Int) (r : Int) (sz' : Nat)
    (m' : Mem) : Prop where
  inv : Inv k all m' dirs none
  result : r = 0 ↔ 0 ≤ newsz ∧ newsz < kernbase ∧ Suffices m (need m.frame d sz newsz.toNat)
  success : r = 0 → (sz' : Int) = newsz ∧ Exact m'.frame d sz' ∧ Kept m.frame m'.frame d (min sz sz') ∧
    Zeroed m'.frame d (pages sz) (pages sz')
  failure : r ≠ 0 → r = -1 ∧ sz' = sz ∧ Exact m'.frame d sz ∧ Kept m.frame m'.frame d sz

theorem Grows.still {newsz : Int} (inv : Inv k all m dirs none) (exact : Exact m.frame d sz)
    (outside : ¬ (0 ≤ newsz ∧ newsz < kernbase)) : Grows k all m dirs d sz newsz (-1) sz m where
  inv := inv
  result := ⟨fun zero => (by cases zero),fun ⟨low,high,_⟩ => absurd ⟨low,high⟩ outside⟩
  success zero := by cases zero
  failure _ := ⟨rfl,rfl,exact,fun _ _ _ => ⟨rfl,fun _ _ => rfl⟩⟩

theorem grows_up {newsz : Nat} (inv : Inv k all m dirs none) (member : d ∈ dirs) (exact : Exact m.frame d sz)
    (more : sz < newsz) (user : newsz < kernbase) :
    ∃ r m', m.allocuvm k d sz newsz = some (r,m') ∧
      Grows k all m dirs d sz newsz (resized sz (r,m')).1 (resized sz (r,m')).2.1 (resized sz (r,m')).2.2 := by
  have bounded (u : Nat) (low : u < 524288) (above : sz ≤ u*pgsize) : pte m.frame d u = none := by
    by_contra found
    have := (exact u low).mp found
    omega
  obtain ⟨rounds,last,vacant⟩ := allocuvm_range user more.le bounded
  have keeps {m' : Mem} (within : Within m.frame m'.frame dirs d (pages sz) (pages newsz))
      (intact : Intact m.frame m'.frame dirs d (pages sz) (pages newsz)) : Kept m.frame m'.frame d sz := by
    intro v bound below
    have low := below_pages.mpr below
    exact ⟨within d member v (by omega) (by omega),intact d member v bound (by omega)⟩
  have outcome := allocRounds_exact user _ inv member le_rfl last vacant
  rw [last] at outcome
  rw [Mem.allocuvm,if_neg (by omega),if_neg (by omega),rounds]
  rcases outcome with ⟨m',run,short,undone⟩ | ⟨m',run,enough,inv',intact,within,mapped⟩
  · refine ⟨0,m',run,undone.inv,⟨fun zero => (by simp [resized] at zero),fun ⟨_,_,enough⟩ => absurd enough short⟩,
      fun zero => (by simp [resized] at zero),fun _ => ⟨rfl,rfl,?_,keeps undone.within undone.intact⟩⟩
    intro v bound
    rw [show pte (resized sz (0,m')).2.2.frame d v = pte m.frame d v from
      undone.same last vacant d member v (by omega)]
    exact exact v bound
  · refine ⟨newsz,m',run,?_⟩
    rw [show resized sz (newsz,m') = (0,newsz,m') from if_neg (by omega)]
    change Grows k all m dirs d sz newsz 0 newsz m'
    refine ⟨inv',⟨fun _ => ⟨by omega,by omega,enough⟩,fun _ => rfl⟩,fun _ => ⟨rfl,?_,?_,?_⟩,fun failed => absurd rfl failed⟩
    · intro v bound
      by_cases old : v < pages sz
      · rw [within d member v (by omega) (.inr (.inl old)),exact v bound]
        have := below_pages.mp old
        omega
      · by_cases new : v < pages newsz
        · obtain ⟨w,found,_⟩ := mapped v (Nat.le_of_not_lt old) new
          exact ⟨fun _ => below_pages.mp new,fun _ => by simp [found]⟩
        · rw [within d member v (by omega) (.inr (.inr (Nat.le_of_not_lt new))),exact v bound,
            ← below_pages,← below_pages]
          omega
    · rw [Nat.min_eq_left more.le]
      exact keeps within intact
    · intro v w above below found
      obtain ⟨w',found',_,zero⟩ := mapped v above below
      rw [Option.some.inj (found.symm.trans found')]
      exact zero

theorem grows_down {newsz : Nat} (inv : Inv k all m dirs none) (member : d ∈ dirs) (exact : Exact m.frame d sz)
    (user : sz < kernbase) (less : newsz < sz) :
    ∃ m', m.deallocuvm k d sz newsz = some (newsz,m') ∧ Grows k all m dirs d sz newsz 0 newsz m' := by
  obtain ⟨m',run,emptied⟩ := deallocuvm_spec user.le newsz inv member
  rw [Nat.min_eq_left less.le] at run
  have within := emptied.range
  have enough : Suffices m (need m.frame d sz newsz) := by
    rw [need_less less.le]
    simp [Suffices]
  refine ⟨m',run,emptied.inv,⟨fun _ => ⟨by omega,by omega,enough⟩,fun _ => rfl⟩,fun _ => ⟨rfl,?_,?_,?_⟩,fun failed => absurd rfl failed⟩
  · intro v bound
    by_cases kept : v < pages newsz
    · rw [within d member v (by omega) (.inr (.inl kept)),exact v bound]
      have := below_pages.mp kept
      omega
    · by_cases gone : v < pages sz
      · have beyond := @below_pages v newsz
        have empty := emptied.cleared (by omega) (below_pages.mp gone)
        rw [← below_pages]
        simp [empty,kept]
      · rw [within d member v (by omega) (.inr (.inr (Nat.le_of_not_lt gone))),exact v bound,
          ← below_pages,← below_pages]
        omega
  · rw [Nat.min_eq_right less.le]
    intro v bound below
    have low := below_pages.mpr below
    exact ⟨within d member v (by omega) (.inr (.inl low)),emptied.contents d member v bound (.inr (.inl low))⟩
  · intro v w above below
    simp only [pages,pgsize] at above below
    omega

theorem grows_remains {n : Int} (inv : Inv k all m dirs none) (member : d ∈ dirs) (user : sz < kernbase)
    (exact : Exact m.frame d sz) (range : -2147483648 ≤ n ∧ n < 2147483648) (remains : 0 ≤ n ∨ 0 < sz+n ∨ sz = 0) :
    ∃ r sz' m', m.growproc k d sz n = some (r,sz',m') ∧ Grows k all m dirs d sz (sz+n) r sz' m' := by
  simp only [kernbase] at user
  unfold Mem.growproc
  by_cases up : 0 < n
  · obtain ⟨newsz,size⟩ := Int.eq_ofNat_of_zero_le (show 0 ≤ (sz+n : Int) by omega)
    have plain : uint (sz+n) = newsz := by
      simp only [uint]
      omega
    rw [if_pos up,plain,size]
    by_cases low : newsz < kernbase
    · obtain ⟨r,m',run,grows⟩ := grows_up inv member exact (show sz < newsz by omega) low
      rw [run]
      exact ⟨_,_,_,rfl,grows⟩
    · refine ⟨-1,sz,m,?_,.still inv exact (by omega)⟩
      rw [Mem.allocuvm,if_pos (by omega)]
      rfl
  · rw [if_neg up]
    by_cases down : n < 0
    · by_cases empty : sz = 0
      · subst empty
        refine ⟨-1,0,m,?_,.still inv exact (by omega)⟩
        rw [if_pos down,Mem.deallocuvm,if_pos (Nat.zero_le _)]
        rfl
      obtain ⟨newsz,size⟩ := Int.eq_ofNat_of_zero_le (show 0 ≤ (sz+n : Int) by omega)
      have plain : uint (sz+n) = newsz := by
        simp only [uint]
        omega
      obtain ⟨m',run,grows⟩ := grows_down inv member exact user (show newsz < sz by omega)
      rw [if_pos down,plain,run,size]
      refine ⟨0,newsz,m',?_,grows⟩
      simp only [Option.map_some,resized]
      rw [if_neg (by omega)]
    · obtain rfl : n = 0 := by omega
      have enough : Suffices m (need m.frame d sz sz) := by
        rw [need_less le_rfl]
        simp [Suffices]
      refine ⟨0,sz,m,by simp,inv,⟨fun _ => ⟨by omega,by simp only [kernbase]; omega,by simpa using enough⟩,fun _ => rfl⟩,
        fun _ => ⟨by simp,exact,fun _ _ _ => ⟨rfl,fun _ _ => rfl⟩,?_⟩,fun failed => absurd rfl failed⟩
      intro v w above below
      omega

/-- `growproc` changes the size by `n` and maps and frees just the pages in between, or fails and changes
nothing; unless a process that has memory is to lose all of it or more. -/
theorem growproc_exact {n : Int} (inv : Inv k all m dirs none) (member : d ∈ dirs) (user : sz < kernbase)
    (exact : Exact m.frame d sz) (range : -2147483648 ≤ n ∧ n < 2147483648) :
    (∃ r sz' m', m.growproc k d sz n = some (r,sz',m') ∧ Grows k all m dirs d sz (sz+n) r sz' m') ↔
      0 ≤ n ∨ 0 < sz+n ∨ sz = 0 := by
  refine ⟨?_,grows_remains inv member user exact range⟩
  rintro ⟨r,sz',m',run,grows⟩
  by_contra lost
  simp only [kernbase] at user
  rw [Mem.growproc,if_neg (by omega),if_pos (by omega)] at run
  by_cases all : sz+n = 0
  · -- the pages are freed, and the size 0 is taken for a failure
    obtain ⟨m₁,freed,_⟩ := deallocuvm_spec (show sz ≤ kernbase by simp only [kernbase]; omega) 0 inv member
    rw [all,show uint 0 = 0 from rfl,freed,Nat.zero_min] at run
    obtain ⟨rfl,_⟩ := by simpa [resized] using run
    refine absurd (grows.result.mpr ⟨all.ge,by simp [all,kernbase],?_⟩) (by decide)
    rw [all,Int.toNat_zero,need_less (Nat.zero_le sz)]
    simp [Suffices]
  · have wrapped : sz ≤ uint (sz+n) := by
      simp only [uint]
      omega
    rw [Mem.deallocuvm,if_pos wrapped,Option.map_some,resized,if_neg (by simp only; omega)] at run
    obtain ⟨rfl,_⟩ := by simpa using run
    have := (grows.result.mp rfl).1
    omega

end Growproc

def onePage : List Action := [⟨.setupkvm,[]⟩,⟨.allocuvm 1 4096,[]⟩]

theorem onePage_state : ∃ s, Reaches tiny ⟨[1,2,3,4,5],fun _ _ => 0,[]⟩ s ∧ Inv tiny [1,2,3,4,5] s.mem s.dirs none ∧
    1 ∈ s.dirs ∧ Exact s.mem.frame 1 4096 ∧ s.mem.freelist = [5] ∧ s.mem.luck = [] ∧
    pde s.mem.frame 1 0 ≠ none ∧ presentPages s.mem.frame 1 0 1 = [3] ∧
    (s.mem.growproc tiny 1 4096 (-4096)).any (fun r => r.1 == -1 && r.2.1 == 4096 && pte r.2.2.frame 1 0 == none) = true ∧
    (s.mem.growproc tiny 1 4096 (-8192)).any (fun r => r.1 == 0 && r.2.1 == 4096) = true := by
  obtain ⟨s,reached,dirs,size,first,free,luck,table,page,zero,below⟩ := Interleave.play_shows (step tiny) Admissible
    (State.boot ⟨[1,2,3,4,5],fun _ _ => 0,[]⟩) onePage
    (fun s => s.dirs = [1] ∧ s.sz 1 = 4096 ∧ pte s.mem.frame 1 0 ≠ none ∧ s.mem.freelist = [5] ∧
      s.mem.luck = [] ∧ pde s.mem.frame 1 0 ≠ none ∧ presentPages s.mem.frame 1 0 1 = [3] ∧
      (s.mem.growproc tiny 1 4096 (-4096)).any (fun r => r.1 == -1 && r.2.1 == 4096 && pte r.2.2.frame 1 0 == none) = true ∧
      (s.mem.growproc tiny 1 4096 (-8192)).any (fun r => r.1 == 0 && r.2.1 == 4096) = true)
    (by decide +kernel)
  have good := Good.reached (by decide) (by decide) reached
  have member : 1 ∈ s.dirs := by simp [dirs]
  refine ⟨s,reached,good.inv,member,?_,free,luck,table,page,zero,below⟩
  intro v bound
  by_cases here : v = 0
  · subst v
    exact ⟨fun _ => by decide,fun _ => first⟩
  · have above : 4096 ≤ v*pgsize := by
      simp only [pgsize]
      omega
    have empty := good.bounded 1 member v bound (by rw [size]; exact above)
    exact ⟨fun found => absurd empty found,fun low => by omega⟩

/-- The one page of the process is freed, and its entry is cleared. -/
theorem deallocuvm_visits_one_page : ∃ s m', Reaches tiny ⟨[1,2,3,4,5],fun _ _ => 0,[]⟩ s ∧
    s.mem.deallocuvm tiny 1 4096 0 = s.mem.plainDeallocuvm tiny 1 4096 0 ∧
    s.mem.deallocuvm tiny 1 4096 0 = some (0,m') ∧ m'.freelist = [3,5] ∧ pte m'.frame 1 0 = none := by
  obtain ⟨s,reached,inv,member,_,free,_,_,page,_⟩ := onePage_state
  obtain ⟨plain,all⟩ := deallocuvm_visits_pages (k := tiny) (d := 1) (show 4096 ≤ kernbase by decide) s.mem 0
  obtain ⟨m',run,freelist,_,gone,_⟩ := all _ _ _ inv member
  refine ⟨s,m',reached,plain,run,?_,gone 0 (by decide) (by decide)⟩
  rw [freelist,free]
  exact congrArg (·.reverse ++ [5]) page

/-- The process grows by a page. -/
theorem growproc_exact_page : ∃ s m', Reaches tiny ⟨[1,2,3,4,5],fun _ _ => 0,[]⟩ s ∧
    s.mem.growproc tiny 1 4096 4096 = some (0,8192,m') ∧ Exact m'.frame 1 8192 ∧ Zeroed m'.frame 1 1 2 := by
  obtain ⟨s,reached,inv,member,exact,free,luck,table,_⟩ := onePage_state
  obtain ⟨r,sz',m',run,grows⟩ := (growproc_exact (n := 4096) inv member (by decide) exact (by decide)).mpr (by decide)
  have tabled : tables s.mem.frame 1 1 2 = ∅ := by
    ext i
    simp only [tables,Finset.mem_filter,Finset.mem_image,Finset.mem_Ico,Finset.notMem_empty,iff_false]
    rintro ⟨⟨v,range,rfl⟩,absent⟩
    obtain rfl : v = 1 := by omega
    exact table absent
  have enough : need s.mem.frame 1 4096 8192 = 1 := by
    change 1+(tables s.mem.frame 1 1 2).card = 1
    rw [tabled]
    rfl
  obtain rfl : r = 0 := by
    refine grows.result.mpr ⟨by decide,by decide,?_⟩
    rw [show ((4096 : Nat)+(4096 : Int)).toNat = 8192 from rfl,enough]
    exact ⟨by simp [free],by simp [luck]⟩
  obtain ⟨size,exact',_,zero⟩ := grows.success rfl
  obtain rfl : sz' = 8192 := by omega
  exact ⟨s,m',reached,run,exact',zero⟩

/-- `growproc(-sz)` frees the pages and reports a failure, and a decrement beyond the size succeeds without
changing anything. -/
theorem growproc_loses_pages : ∃ s, Reaches tiny ⟨[1,2,3,4,5],fun _ _ => 0,[]⟩ s ∧ 1 ∈ s.dirs ∧
    Inv tiny [1,2,3,4,5] s.mem s.dirs none ∧ Exact s.mem.frame 1 4096 ∧
    (∃ m', s.mem.growproc tiny 1 4096 (-4096) = some (-1,4096,m') ∧ ¬ Exact m'.frame 1 4096) ∧
    ∃ m', s.mem.growproc tiny 1 4096 (-8192) = some (0,4096,m') := by
  obtain ⟨s,reached,inv,member,exact,_,_,_,_,zero,below⟩ := onePage_state
  refine ⟨s,reached,member,inv,exact,?_,?_⟩
  · cases run : s.mem.growproc tiny 1 4096 (-4096) with
    | none => simp [run] at zero
    | some result =>
      simp only [run,Option.any_some,Bool.and_eq_true,beq_iff_eq] at zero
      obtain ⟨r,sz',m'⟩ := result
      obtain ⟨⟨rfl,rfl⟩,gone⟩ := zero
      exact ⟨m',rfl,fun exact' => (exact' 0 (by decide)).mpr (by decide) gone⟩
  · cases run : s.mem.growproc tiny 1 4096 (-8192) with
    | none => simp [run] at below
    | some result =>
      simp only [run,Option.any_some,Bool.and_eq_true,beq_iff_eq] at below
      obtain ⟨r,sz',m'⟩ := result
      obtain ⟨rfl,rfl⟩ := below
      exact ⟨m',rfl⟩

end Kthreads.Paging
