import Kthreads.Exec.Machine
import Kthreads.Paging.Conservation

/-! What `exec` builds from a program and its arguments. -/
namespace Kthreads.Exec
open Paging

theorem field_lt (bytes : List UInt8) (start : Nat) : field bytes start 4 < 4294967296 := by
  have bound := Bytes.little_lt ((bytes.drop start).take 4)
  have length : ((bytes.drop start).take 4).length ≤ 4 := List.length_take_le _ _
  have power := Nat.pow_le_pow_right (show 0 < 256 by decide) length
  exact bound.trans_le power

theorem wordBytes_length (words : List Nat) : (wordBytes words).length = 4*words.length := by
  induction words with
  | nil => rfl
  | cons w words ih =>
    rw [wordBytes,List.flatMap_cons,List.length_append,Bytes.length_ofNat,List.length_cons]
    change 4+(wordBytes words).length = _
    omega

/-- The image under construction: directory `d` with exactly the pages below size `sz`. -/
structure Image (k : Kernel) (all dirs : List Nat) (d sz : Nat) (m : Mem) : Prop where
  inv : Inv k all m (d :: dirs) none
  small : sz ≤ kernbase
  filled : ∀ u, u*pgsize < sz → pte m.frame d u ≠ none
  bounded : ∀ u < 524288, sz ≤ u*pgsize → pte m.frame d u = none

namespace Image
variable {k : Kernel} {all dirs : List Nat} {d sz : Nat} {m m' : Mem}

def Writable (m : Mem) (d v : Nat) : Prop := ∃ w, pte m.frame d v = some w ∧ w/pteU % 2 = 1

theorem keep (image : Image k all dirs d sz m) (inv : Inv k all m' (d :: dirs) none)
    (same : SamePages m.frame m'.frame (d :: dirs)) : Image k all dirs d sz m' := by
  have small := image.small
  simp only [kernbase] at small
  refine ⟨inv,image.small,?_,?_⟩
  · intro u below
    rw [same d (by simp) u (by simp only [pgsize] at below; omega)]
    exact image.filled u below
  · intro u bound above
    rw [same d (by simp) u (by omega)]
    exact image.bounded u bound above

theorem entry (image : Image k all dirs d sz m) (va : Nat) (below : va < sz) :
    ∃ t, (m.walkpgdir d va false).1 = some t ∧ pte m.frame d (va/pgsize) = some (m.frame t (ptx va)) ∧
      Leaf m.frame (d :: dirs) (pteAddr (m.frame t (ptx va))) := by
  have small := image.small
  simp only [kernbase] at small
  have page : va/pgsize*pgsize < sz := by
    have floor := Nat.div_mul_le_self va pgsize
    omega
  obtain ⟨w,found⟩ := Option.ne_none_iff_exists'.mp (image.filled (va/pgsize) page)
  obtain ⟨t,table,word,_⟩ := pte_some found
  have leaf := image.inv.user_leaf (by simp) (by simp only [pgsize]; omega) found
  refine ⟨t,?_,?_,?_⟩
  · rw [walkpgdir_false (by omega)]
    exact table
  · rw [found,ptx,word]
  · rw [ptx,word]
    exact leaf

theorem fill (image : Image k all dirs d sz m) {p : Nat} (leaf : Leaf m.frame (d :: dirs) p) (words : Nat → Nat) :
    Image k all dirs d sz (m.fill p words) ∧ SamePages m.frame (m.fill p words).frame (d :: dirs) := by
  obtain ⟨inv,same⟩ := image.inv.fill leaf words
  exact ⟨image.keep inv same,same⟩

theorem writable (image : Image k all dirs d sz m') (same : SamePages m.frame m'.frame (d :: dirs))
    (user : ∀ u, u*pgsize < sz → Writable m d u) (u : Nat) (low : u*pgsize < sz) : Writable m' d u := by
  have small := image.small
  simp only [kernbase] at small
  rw [Writable,same d (by simp) u (by simp only [pgsize] at low; omega)]
  exact user u low

theorem loadRounds (file : List UInt8) (addr offset size n i : Nat) (image : Image k all dirs d sz m)
    (inside : addr+size ≤ sz) (enough : i+n*pgsize < size+pgsize) :
    ∃ r m', Exec.loadRounds file d addr offset size n i m = some (r,m') ∧ Image k all dirs d sz m' ∧
      SamePages m.frame m'.frame (d :: dirs) := by
  have small := image.small
  simp only [kernbase] at small
  induction n generalizing i m with
  | zero => exact ⟨true,m,rfl,image,.refl _ _⟩
  | succ n ih =>
    rw [Nat.succ_mul] at enough
    have address : uint (addr+i) = addr+i := by
      simp only [uint]
      omega
    obtain ⟨t,table,_,leaf⟩ := image.entry (addr+i) (by omega)
    unfold Exec.loadRounds
    simp only [address,table]
    generalize pteAddr (m.frame t (ptx (addr+i))) = p at leaf
    generalize (if size-i < pgsize then size-i else pgsize) = chunk
    split
    next => exact ⟨false,m,rfl,image,.refl _ _⟩
    next bytes _ =>
      obtain ⟨image₁,same₁⟩ := image.fill leaf (store (m.frame p) 0 bytes)
      split
      next => exact ⟨false,_,rfl,image₁,same₁⟩
      next =>
        obtain ⟨r,m₂,run,image₂,same₂⟩ := ih (i+pgsize) image₁ (by omega)
        exact ⟨r,m₂,run,image₂,same₁.trans same₂⟩

theorem allocuvm (newsz : Nat) (image : Image k all dirs d sz m) :
    ∃ r m', m.allocuvm k d sz newsz = some (r,m') ∧
      (r ≠ 0 → r = max sz newsz ∧ newsz < kernbase ∧ Image k all dirs d r m' ∧
        ((∀ u, u*pgsize < sz → Writable m d u) → ∀ u, u*pgsize < r → Writable m' d u)) := by
  obtain ⟨r,m',run,inv,result⟩ := allocuvm_spec newsz image.inv (by simp) image.bounded
  have small := image.small
  refine ⟨r,m',run,?_⟩
  rcases result with ⟨zero,_⟩ | ⟨size,below,within,mapped⟩
  · exact fun nonzero => absurd zero nonzero
  · have old (u : Nat) (low : u*pgsize < sz) : pte m'.frame d u = pte m.frame d u := by
      simp only [kernbase] at small
      exact within d (by simp) u (by simp only [pgsize] at low; omega) (.inr (.inl (below_pages.mpr low)))
    have new (u : Nat) (low : u*pgsize < r) (above : ¬ u*pgsize < sz) : Writable m' d u :=
      mapped u (Nat.le_of_not_lt fun less => above (below_pages.mp less)) (below_pages.mpr (by omega))
    refine fun _ => ⟨size,below,⟨inv,by omega,?_,?_⟩,?_⟩
    · intro u low
      by_cases before : u*pgsize < sz
      · rw [old u before]
        exact image.filled u before
      · obtain ⟨w,found,_⟩ := new u low before
        simp [found]
    · intro u bound above
      rw [within d (by simp) u (by omega) (by simp only [Paging.pages,pgsize] at above ⊢; omega)]
      exact image.bounded u bound (by omega)
    · intro user u low
      by_cases before : u*pgsize < sz
      · rw [Writable,old u before]
        exact user u before
      · exact new u low before

theorem loadSegments (file : List UInt8) (n off : Nat) (image : Image k all dirs d sz m)
    (user : ∀ u, u*pgsize < sz → Writable m d u) :
    ∃ r m', Exec.loadSegments k file d n off m sz = some (r,m') ∧
      ∀ new, r = some new → Image k all dirs d new m' ∧ ∀ u, u*pgsize < new → Writable m' d u := by
  induction n generalizing off m sz with
  | zero =>
    refine ⟨_,m,rfl,?_⟩
    rintro new ⟨⟩
    exact ⟨image,user⟩
  | succ n ih =>
    have failed {m₁ : Mem} : ∃ r m', some ((none : Option Nat),m₁) = some (r,m') ∧
        ∀ new, r = some new → Image k all dirs d new m' ∧ ∀ u, u*pgsize < new → Writable m' d u :=
      ⟨none,m₁,rfl,fun new found => by cases found⟩
    unfold Exec.loadSegments
    split
    next => exact failed
    next ph _ =>
      simp only
      have vaddr := field_lt ph 8
      have memsz := field_lt ph 20
      generalize field ph 8 4 = addr, field ph 20 4 = high at vaddr memsz
      split
      next => exact failed
      split
      next => exact ih _ image user
      split
      next => exact failed
      next covers =>
      split
      next => exact failed
      next unwrapped =>
      have sum : uint (addr+high) = addr+high := by
        simp only [uint] at unwrapped ⊢
        omega
      obtain ⟨new,m₁,grown,larger⟩ := image.allocuvm (addr+high)
      simp only [sum,grown]
      split
      next => exact failed
      next nonzero =>
      obtain ⟨size,_,image₁,user₁⟩ := larger nonzero
      split
      next => exact failed
      next aligned =>
      obtain ⟨ok,m₂,loaded,image₂,same₂⟩ := image₁.loadRounds file addr (field ph 4 4) (field ph 16 4)
        ((field ph 16 4+(pgsize-1))/pgsize) 0 (by omega) (by simp only [pgsize]; omega)
      simp only [Exec.loaduvm,if_neg aligned,loaded]
      cases ok with
      | false => exact failed
      | true =>
        exact ih _ image₂ (image₂.writable same₂ (user₁ user))

theorem load (file : List UInt8) (inv : Inv k all m dirs none) : Exec.load k file m ≠ .panics ∧
    ∀ d sz entry m', Exec.load k file m = .image d sz entry m' → Image k all dirs d sz m' ∧
      ∀ u, u*pgsize < sz → Writable m' d u := by
  unfold Exec.load
  split
  next => exact ⟨nofun,nofun⟩
  next elf _ =>
  split
  next => exact ⟨nofun,nofun⟩
  split
  next => exact ⟨nofun,nofun⟩
  obtain ⟨r,m₁,made,_,_,success⟩ := setupkvm_spec inv
  rw [made]
  cases r with
  | none => exact ⟨nofun,nofun⟩
  | some d' =>
    obtain ⟨_,_,inv₁,empty⟩ := success d' rfl
    have first : Image k all dirs d' 0 m₁ :=
      ⟨inv₁,by decide,fun u below => (by omega),fun u bound _ => empty u bound⟩
    obtain ⟨r,m₂,run,image⟩ := first.loadSegments file (field elf 44 2) (field elf 28 4) fun u below => by omega
    simp only [run]
    cases r with
    | none => exact ⟨nofun,nofun⟩
    | some new =>
      refine ⟨nofun,?_⟩
      rintro d sz entry m' ⟨⟩
      exact image new rfl

theorem copyoutRounds {null : Mem → Option Nat} (n va : Nat) (bytes : List UInt8) (image : Image k all dirs d sz m)
    (inside : bytes ≠ [] → va+bytes.length ≤ sz) (enough : bytes.length ≤ n) :
    ∃ ok m', Exec.copyoutRounds null d n va bytes m = some (ok,m') ∧ Image k all dirs d sz m' ∧
      SamePages m.frame m'.frame (d :: dirs) ∧
      (ok = true → ∀ i < bytes.length, Writable m d ((va+i)/pgsize)) := by
  induction n generalizing va bytes m with
  | zero =>
    obtain rfl := List.length_eq_zero_iff.mp (Nat.le_zero.mp enough)
    exact ⟨true,m,rfl,image,.refl _ _,fun _ i less => absurd less (Nat.not_lt_zero i)⟩
  | succ n ih =>
    unfold Exec.copyoutRounds
    split
    next none => exact ⟨true,m,rfl,image,.refl _ _,fun _ i less => by simp [none] at less⟩
    next some =>
      have bound := inside some
      have positive := List.length_pos_iff.mpr some
      have floor := Nat.div_mul_le_self va pgsize
      have page : va/pgsize*pgsize/pgsize = va/pgsize := Nat.mul_div_cancel _ (by decide)
      obtain ⟨t,table,found,leaf⟩ := image.entry (va/pgsize*pgsize) (by omega)
      rw [page] at found
      simp only [uva2ka,table,Option.map_some]
      split
      next => contradiction
      next => exact ⟨false,m,rfl,image,.refl _ _,fun h => by cases h⟩
      next p allowed =>
        simp only [Option.some.injEq,Option.ite_none_right_eq_some] at allowed
        obtain ⟨⟨_,user⟩,rfl⟩ := allowed
        obtain ⟨image₁,same₁⟩ := image.fill leaf (store (m.frame (pteAddr (m.frame t (ptx (va/pgsize*pgsize)))))
          (va-va/pgsize*pgsize) (bytes.take (min (pgsize-(va-va/pgsize*pgsize)) bytes.length)))
        have room : va-va/pgsize*pgsize < pgsize := by
          have mod := Nat.mod_lt va (show 0 < pgsize by decide)
          have split := Nat.div_add_mod va pgsize
          rw [Nat.mul_comm] at split
          omega
        have small := image.small
        simp only [kernbase] at small
        have next : uint ((va/pgsize*pgsize : Nat)+pgsize) = va/pgsize*pgsize+pgsize := by
          simp only [uint,pgsize]
          omega
        obtain ⟨ok,m₂,run,image₂,same₂,wrote⟩ := ih (uint ((va/pgsize*pgsize : Nat)+pgsize))
          (bytes.drop (min (pgsize-(va-va/pgsize*pgsize)) bytes.length)) image₁ (by
            intro left
            have more := List.length_pos_iff.mpr left
            rw [List.length_drop] at more ⊢
            omega) (by rw [List.length_drop]; omega)
        refine ⟨ok,m₂,run,image₂,same₁.trans same₂,?_⟩
        intro good i less
        by_cases here : (va+i)/pgsize = va/pgsize
        · exact here ▸ ⟨_,found,user⟩
        · have later := wrote good (va+i-(va/pgsize*pgsize+pgsize)) (by
            rw [List.length_drop]
            simp only [pgsize] at here ⊢
            omega)
          have address : va/pgsize*pgsize+pgsize+(va+i-(va/pgsize*pgsize+pgsize)) = va+i := by
            simp only [pgsize] at here ⊢
            omega
          rwa [next,address,Writable,same₁ d (by simp) ((va+i)/pgsize) (by simp only [pgsize]; omega)] at later

theorem copyout (null : Mem → Option Nat) (va : Nat) (bytes : List UInt8) (image : Image k all dirs d sz m)
    (inside : va+bytes.length ≤ sz) :
    ∃ ok m', Exec.copyout null d va bytes m = some (ok,m') ∧ Image k all dirs d sz m' ∧
      SamePages m.frame m'.frame (d :: dirs) ∧
      (ok = true → ∀ i < bytes.length, Writable m d ((va+i)/pgsize)) :=
  image.copyoutRounds bytes.length va bytes (fun _ => inside) le_rfl

/-- The arguments stay in the last page, because the one below it is not writable. -/
theorem pushArgs (null : Mem → Option Nat) {q : Nat} (argv : List (List UInt8)) (sp : Nat) (ustack : List Nat)
    (image : Image k all dirs d (q*pgsize) m) (pages : 2 ≤ q) (guard : ¬ Writable m d (q-2))
    (low : q*pgsize ≤ sp+pgsize) (high : sp ≤ q*pgsize) (short : ∀ arg ∈ argv, arg.length < (q-1)*pgsize)
    (few : ustack.length ≤ maxarg) :
    ∃ r m', Exec.pushArgs null d argv sp ustack m = some (r,m') ∧ Image k all dirs d (q*pgsize) m' ∧
      SamePages m.frame m'.frame (d :: dirs) ∧
      ∀ sp' us, r = some (sp',us) → q*pgsize ≤ sp'+pgsize ∧ sp' ≤ q*pgsize ∧ us.length ≤ maxarg := by
  induction argv generalizing sp ustack m with
  | nil =>
    refine ⟨_,m,rfl,image,.refl _ _,?_⟩
    rintro sp' us ⟨⟩
    exact ⟨low,high,few⟩
  | cons arg argv ih =>
    obtain ⟨here,rest⟩ := List.forall_mem_cons.mp short
    unfold Exec.pushArgs
    split
    next => exact ⟨none,m,rfl,image,.refl _ _,fun sp' us found => by cases found⟩
    next less =>
      have small := image.small
      simp only [kernbase,pgsize] at small low high here
      have pointer : uint (sp-(arg.length+1)) = sp-(arg.length+1) := by
        simp only [uint]
        omega
      rw [pointer]
      generalize place : (sp-(arg.length+1))/4*4 = sp'
      obtain ⟨ok,m₁,run,image₁,same₁,wrote⟩ := image.copyout null sp' (arg ++ [0])
        (by simp only [List.length_append,List.length_singleton,pgsize]; omega)
      simp only [run]
      cases ok with
      | false => exact ⟨none,m₁,rfl,image₁,same₁,fun sp' us found => by cases found⟩
      | true =>
        -- in the guard page nothing is written
        have above : q*pgsize ≤ sp'+pgsize := by
          by_contra below
          have page : (sp'+((q-1)*4096-4-sp'))/pgsize = q-2 := by
            simp only [pgsize] at below ⊢
            omega
          exact guard (page ▸ wrote rfl _ (by
            simp only [List.length_append,List.length_singleton,pgsize] at below ⊢
            omega))
        have still : ¬ Writable m₁ d (q-2) := by
          rintro ⟨w,found,user⟩
          refine guard ⟨w,?_,user⟩
          rw [← found]
          exact (same₁ d (by simp) (q-2) (by omega)).symm
        obtain ⟨r,m₂,run,image₂,same₂,result⟩ := ih sp' (sp' :: ustack) image₁ still above
          (by simp only [pgsize]; omega) rest (by simp only [List.length_cons]; omega)
        exact ⟨r,m₂,run,image₂,same₁.trans same₂,result⟩

/-- The two pages of the stack, of which `clearpteu` makes the first one the guard. -/
theorem guarded (image : Image k all dirs d sz m) (user : ∀ u, u*pgsize < sz → Writable m d u) :
    ∃ r m₁, m.allocuvm k d (pgroundup sz) (pgroundup sz+2*pgsize) = some (r,m₁) ∧
      (r ≠ 0 → ∃ q m₂, r = q*pgsize ∧ 2 ≤ q ∧ q*pgsize < kernbase ∧
        m₁.clearpteu d (r-2*pgsize) = some m₂ ∧ Image k all dirs d (q*pgsize) m₂ ∧
        (q-1)*pgsize = pgroundup sz+pgsize ∧
        ∀ u < q, Writable m₂ d u ↔ u ≠ q-2) := by
  have small := image.small
  have rounded : Image k all dirs d (pgroundup sz) m := by
    refine ⟨image.inv,?_,fun u below => image.filled u (page_lt below),?_⟩
    · simp only [pgroundup,kernbase,pgsize] at small ⊢
      omega
    · intro u bound above
      exact image.bounded u bound ((le_pgroundup sz).trans above)
  obtain ⟨r,m₁,run,grown⟩ := rounded.allocuvm (pgroundup sz+2*pgsize)
  refine ⟨r,m₁,run,?_⟩
  intro nonzero
  obtain ⟨size,room,image₁,user₁⟩ := grown nonzero
  obtain ⟨q,rfl,pages⟩ : ∃ q, r = q*pgsize ∧ 2 ≤ q := by
    refine ⟨(sz+(pgsize-1))/pgsize+2,?_,Nat.le_add_left 2 _⟩
    rw [size,pgroundup,Nat.add_mul]
    omega
  have bound := image₁.small
  simp only [kernbase,pgsize] at bound
  have address : (q*pgsize-2*pgsize)/pgsize = q-2 := by
    rw [← Nat.sub_mul,Nat.mul_div_cancel _ (by decide)]
  rcases clearpteu_spec (d := d) (q*pgsize-2*pgsize) image₁.inv (by simp) (by simp only [pgsize]; omega)
    with ⟨_,missing⟩ | ⟨m₂,cleared,inv₂,within,same,guard⟩
  · refine absurd ?_ (image₁.filled (q-2) (by simp only [pgsize]; omega))
    rw [address] at missing
    rw [pte,missing]
    rfl
  · rw [address] at within same guard
    have others (u : Nat) (low : u < 1048576) (other : u ≠ q-2) : pte m₂.frame d u = pte m₁.frame d u :=
      within d (by simp) u low (by omega)
    refine ⟨q,m₂,rfl,pages,by omega,cleared,⟨inv₂,image₁.small,?_,?_⟩,?_,?_⟩
    · intro u below
      by_cases here : u = q-2
      · subst u
        exact fun none => image₁.filled (q-2) below (same.mp none)
      · rw [others u (by simp only [pgsize] at below; omega) here]
        exact image₁.filled u below
    · intro u low above
      rw [others u (by omega) (by simp only [pgsize] at above; omega)]
      exact image₁.bounded u low above
    · rw [Nat.sub_mul]
      omega
    · intro u below
      constructor
      · rintro ⟨w,found,user⟩ rfl
        have := guard w found
        omega
      · intro other
        rw [Writable,others u (by omega) other]
        exact user₁ (fun u low => user u (page_lt low)) u (by simp only [pgsize]; omega)

theorem stack (null : Mem → Option Nat) {argv : List (List UInt8)} (image : Image k all dirs d sz m)
    (user : ∀ u, u*pgsize < sz → Writable m d u) (short : ∀ arg ∈ argv, arg.length < pgroundup sz+pgsize) :
    ∃ r m', Exec.stack k null d sz argv m = some (r,m') ∧
      ∀ sz' sp, r = some (sz',sp) → ∃ q, sz' = q*pgsize ∧ q*pgsize < kernbase ∧
        Image k all dirs d (q*pgsize) m' ∧ ∀ u < q, Writable m' d u ↔ u ≠ q-2 := by
  obtain ⟨r,m₁,run,made⟩ := image.guarded user
  unfold Exec.stack
  rw [run]
  simp only
  split
  next zero => exact ⟨none,m₁,rfl,nofun⟩
  next nonzero =>
    obtain ⟨q,m₂,rfl,pages,room,cleared,image₂,below,guard⟩ := made nonzero
    rw [← below] at short
    have bound := image₂.small
    simp only [kernbase,pgsize] at bound
    simp only [cleared]
    obtain ⟨r,m₃,run,image₃,same₃,result⟩ := image₂.pushArgs null argv (q*pgsize) [] pages
      (fun user => (guard (q-2) (by omega)).mp user rfl) (Nat.le_add_right _ _) le_rfl short (by decide)
    simp only [run]
    cases r with
    | none => exact ⟨none,m₃,rfl,nofun⟩
    | some pushed =>
      obtain ⟨sp,ustack⟩ := pushed
      obtain ⟨low,high,few⟩ := result sp ustack rfl
      simp only [maxarg] at few
      have pointer : uint (sp-(3+ustack.length+1)*4) = sp-(3+ustack.length+1)*4 := by
        simp only [uint]
        simp only [pgsize] at low high
        omega
      simp only [pointer]
      generalize words : [4294967295,ustack.length,uint (sp-(ustack.length+1)*4)] ++ ustack.reverse ++ [0] = us
      have length : (wordBytes us).length = (3+ustack.length+1)*4 := by
        rw [wordBytes_length,← words]
        simp only [List.length_append,List.length_cons,List.length_nil,List.length_reverse]
        omega
      obtain ⟨ok,m₄,run,image₄,same₄,_⟩ := image₃.copyout null (sp-(3+ustack.length+1)*4) (wordBytes us)
        (by simp only [length,pgsize] at low high ⊢; omega)
      rw [run]
      cases ok with
      | false => exact ⟨none,m₄,rfl,nofun⟩
      | true =>
        refine ⟨_,m₄,rfl,?_⟩
        rintro sz' sp' ⟨⟩
        refine ⟨q,rfl,room,image₄,?_⟩
        intro u below
        rw [← guard u below,Writable,Writable,(same₃.trans same₄) d (by simp) u (by omega)]

end Image

/-- A program of one page, which begins with the word 0x07070707. -/
def sevens : List UInt8 :=
  Bytes.ofNat 4 elfMagic ++ List.replicate 24 0 ++ Bytes.ofNat 4 elfhdrSize ++ List.replicate 12 0 ++ [1,0] ++
    List.replicate 6 0 ++ wordBytes [1,84,0,0,4,4096,0,0] ++ [7,7,7,7]

/-- Ten free pages, one of them at address 0x07070000. -/
def tinyMem : Mem := ⟨[1,2,3,4,28784,5,6,7,8,9],fun _ _ => 0,[]⟩

theorem sevens_booted : Inv tiny [1,2,3,4,28784,5,6,7,8,9] tinyMem [] none :=
  (Good.boot (m := tinyMem) (by decide) (by decide)).inv

section Flood
variable {m : Mem} {null : Mem → Option Nat}

theorem sevens_word (words : Nat → Nat) (bytes : List UInt8) (j : Nat)
    (seven : ∀ i, 4*j ≤ i → i < 4*j+4 → bytes[i]? = some 7) : store words 0 bytes j = 117901063 := by
  have byte (i : Nat) (low : 4*j ≤ i) (high : i < 4*j+4) : i < bytes.length ∧ bytes.getD i 0 = 7 :=
    ⟨(List.getElem?_eq_some_iff.mp (seven i low high)).1,by rw [List.getD_eq_getElem?_getD,seven i low high]; rfl⟩
  have first := byte (4*j) (by omega) (by omega)
  have second := byte (4*j+1) (by omega) (by omega)
  have third := byte (4*j+2) (by omega) (by omega)
  have last := byte (4*j+3) (by omega) (by omega)
  simp only [store,Bytes.ofNat,List.zipIdx_cons,List.zipIdx_nil,List.map_cons,List.map_nil,Nat.zero_le,true_and,
    Nat.zero_add,Nat.add_zero,Nat.sub_zero,first,second,third,last,if_true]
  rfl

/-- A page that the directory itself is mapped at. -/
theorem uva2ka_self {v : Nat} (bound : v < 1048576) (table : m.frame 28784 (v/1024) = 117901063)
    (entry : m.frame 28784 (v % 1024) = 117901063) : uva2ka null 28784 m (v*pgsize) = some (some 28784) := by
  have page : v*pgsize/pgsize = v := Nat.mul_div_cancel _ (by decide)
  rw [uva2ka,walkpgdir_false (by simp only [pgsize]; omega),page,pde,table]
  simp only [ptx,page]
  change (some (m.frame 28784 (v % 1024))).map _ = _
  rw [entry]
  rfl

theorem copyoutRounds_whole {d p v : Nat} (fuel : Nat) (page rest : List UInt8) (whole : page.length = pgsize)
    (here : uva2ka null d m (v*pgsize) = some (some p)) :
    copyoutRounds null d (fuel+1) (v*pgsize) (page ++ rest) m =
      copyoutRounds null d fuel ((v+1) % 1048576*pgsize) rest (m.fill p (store (m.frame p) 0 page)) := by
  have left : page ++ rest ≠ [] := by
    intro none
    rw [(List.append_eq_nil_iff.mp none).1] at whole
    contradiction
  have start : v*pgsize/pgsize*pgsize = v*pgsize := by rw [Nat.mul_div_cancel _ (by decide)]
  have next : uint ((v*pgsize : Nat)+pgsize) = (v+1) % 1048576*pgsize := by
    simp only [uint,pgsize]
    omega
  have size : min (pgsize-0) (page ++ rest).length = page.length := by
    rw [List.length_append]
    omega
  rw [copyoutRounds,if_neg left]
  simp only [start,here,Nat.sub_self,size,List.take_left,List.drop_left,next]

/-- Once the first page of a long string of sevens is written over the directory, every address is mapped at the
directory. -/
theorem flood (n fuel v : Nat) (enough : n < fuel) (bound : v < 1048576)
    (here : uva2ka null 28784 m (v*pgsize) = some (some 28784)) :
    ∃ m', copyoutRounds null 28784 fuel (v*pgsize) (List.replicate (n*pgsize+4095) 7 ++ [0]) m = some (true,m') ∧
      ∀ i < 1023, m'.frame 28784 i = 117901063 := by
  obtain ⟨fuel,rfl⟩ := Nat.exists_eq_add_one_of_ne_zero (Nat.ne_of_gt (Nat.zero_lt_of_lt enough))
  induction n generalizing fuel v m with
  | zero =>
    have done := copyoutRounds_whole fuel (List.replicate 4095 7 ++ [0]) []
      (by rw [List.length_append,List.length_replicate]; rfl) here
    rw [List.append_nil] at done
    refine ⟨_,(by rw [Nat.zero_mul,Nat.zero_add,done]; cases fuel <;> rfl),?_⟩
    intro i low
    simp only [Mem.fill,Function.update_self]
    refine sevens_word _ _ i ?_
    intro j _ high
    rw [List.getElem?_append_left (by rw [List.length_replicate]; omega),List.getElem?_replicate,if_pos (by omega)]
  | succ n ih =>
    have split : List.replicate ((n+1)*pgsize+4095) (7 : UInt8) ++ [0] =
        List.replicate pgsize 7 ++ (List.replicate (n*pgsize+4095) 7 ++ [0]) := by
      rw [Nat.succ_mul,Nat.add_right_comm,Nat.add_comm,List.replicate_add,List.append_assoc]
    rw [split,copyoutRounds_whole fuel _ _ (List.length_replicate ..) here]
    obtain ⟨fuel,rfl⟩ := Nat.exists_eq_add_one_of_ne_zero (show fuel ≠ 0 by omega)
    have word (i : Nat) (low : i < 1024) :
        (m.fill 28784 (store (m.frame 28784) 0 (List.replicate pgsize 7))).frame 28784 i = 117901063 := by
      simp only [Mem.fill,Function.update_self]
      refine sevens_word _ _ i ?_
      intro j _ high
      rw [List.getElem?_replicate,if_pos (by simp only [pgsize]; omega)]
    exact ih _ (Nat.mod_lt _ (by decide))
      (uva2ka_self (Nat.mod_lt _ (by decide)) (word _ (by omega)) (word _ (by omega))) fuel (by omega)

/-- The pointers are written over the end of the directory, so that pages above the size stay mapped. -/
theorem flooded_above (flooded : ∀ i < 1023, m.frame 28784 i = 117901063) :
    ∃ m', copyout null 28784 4261408748 (wordBytes [4294967295,1,4261408760,4261408768,0]) m = some (true,m') ∧
      pte m'.frame 28784 3 ≠ none := by
  have self : uva2ka null 28784 m (1040382*pgsize) = some (some 28784) :=
    uva2ka_self (by decide) (flooded _ (by decide)) (flooded _ (by decide))
  have page : 4261408748/pgsize*pgsize = 1040382*pgsize := rfl
  have run : copyout null 28784 4261408748 (wordBytes [4294967295,1,4261408760,4261408768,0]) m =
      some (true,m.fill 28784 (store (m.frame 28784) 4076 (wordBytes [4294967295,1,4261408760,4261408768,0]))) := by
    change copyoutRounds _ _ (19+1) _ _ _ = _
    rw [copyoutRounds,if_neg (by decide)]
    simp only [page,self]
    rfl
  refine ⟨_,run,?_⟩
  generalize wordBytes [4294967295,1,4261408760,4261408768,0] = bytes
  have word (i : Nat) (low : i < 4) : store (m.frame 28784) 4076 bytes i = 117901063 := by
    have here (j : Nat) (high : j < 4) : ¬ 4076 ≤ 4*i+j := by omega
    rw [store,flooded i (by omega)]
    simp only [Bytes.ofNat,List.zipIdx_cons,List.zipIdx_nil,List.map_cons,List.map_nil,Nat.zero_add,here 0,here 1,
      here 2,here 3,Nat.reduceAdd,Nat.reduceLT,false_and,if_false]
    decide
  have table : pde (m.fill 28784 (store (m.frame 28784) 4076 bytes)).frame 28784 (3/1024) = some 28784 := by
    simp only [pde,Mem.fill,Function.update_self,word (3/1024) (by decide)]
    rfl
  rw [pte,table,Option.bind_some]
  simp only [Mem.fill,Function.update_self,word (3 % 1024) (by decide)]
  decide

end Flood

theorem sevens_loads : ∃ m m₁ m₂ m₃, load tiny sevens tinyMem = .image 1 4096 0 m ∧
    load tiny sevens m = .image 28784 4096 0 m₁ ∧
    m₁.allocuvm tiny 28784 (pgroundup 4096) (pgroundup 4096+2*pgsize) = some (12288,m₂) ∧
    m₂.clearpteu 28784 (12288-2*pgsize) = some m₃ ∧ nullWord 1 m₃ = some 117901063 ∧ m₃.frame 28784 1015 = 0 :=
  ⟨_,_,_,_,rfl,rfl,rfl,rfl,by decide +kernel,by decide +kernel⟩

end Kthreads.Exec
