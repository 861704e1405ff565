import Kthreads.Exec.Machine

/-! What `copyout` writes. A user address is translated through a page that is present and has `PTE_U`; unless
it comes to a page without a page table, `copyout` writes its bytes at the translated addresses and nothing else. -/
open Function

namespace Kthreads.Exec
open Paging

/-- The byte at a physical address. -/
def byte (m : Mem) (x : Nat) : UInt8 := UInt8.ofNat (m.frame (x/pgsize) (x % pgsize/4)/256^(x % 4))

def userPage (f : Nat → Nat → Nat) (d v : Nat) : Option Nat :=
  (pte f d v).bind fun w => if w/pteU % 2 = 1 then some (pteAddr w) else none

def physical (f : Nat → Nat → Nat) (d va : Nat) : Option Nat :=
  (userPage f d (va/pgsize)).map fun p => p*pgsize+va % pgsize

/-- The user pages of a directory are neither the directory nor its tables, and each is mapped once. -/
structure Plain (f : Nat → Nat → Nat) (d : Nat) : Prop where
  leaf : ∀ v < 1048576, ∀ p, userPage f d v = some p → Leaf f [d] p
  single : ∀ v < 1048576, ∀ v' < 1048576, ∀ p, userPage f d v = some p → userPage f d v' = some p → v = v'

/-- The bytes stand at their places, and everywhere else is what was there before. -/
def Written (m m' : Mem) (place : Nat → Option Nat) (bytes : List UInt8) : Prop :=
  ∀ x, (∀ i b, bytes[i]? = some b → place i = some x → byte m' x = b) ∧
    ((∀ i < bytes.length, place i ≠ some x) → byte m' x = byte m x)

section Round
variable {m : Mem} {d : Nat}

theorem store_byte (words : Nat → Nat) (off : Nat) (bytes : List UInt8) (j b : Nat) (low : b < 4) :
    UInt8.ofNat (store words off bytes j/256^b) = if off ≤ 4*j+b ∧ 4*j+b < off+bytes.length
      then bytes.getD (4*j+b-off) 0 else UInt8.ofNat (words j/256^b) := by
  have found := Bytes.byte_ofNat 4 (words j) b low
  obtain ⟨inside,value⟩ := List.getElem?_eq_some_iff.mp found
  rw [store,Bytes.byte_little _ b (by simpa using inside),List.getElem_map,List.getElem_zipIdx,value,Nat.zero_add]

/-- Bytes that are stored in one page. -/
theorem Written.page {p off : Nat} {bytes : List UInt8} {place : Nat → Option Nat} (low : off+bytes.length ≤ pgsize)
    (here : ∀ i < bytes.length, place i = some (p*pgsize+(off+i))) :
    Written m (m.fill p (store (m.frame p) off bytes)) place bytes := by
  intro x
  have word : 4*(x % pgsize/4)+x % 4 = x % pgsize := by
    simp only [pgsize]
    omega
  have filled : byte (m.fill p (store (m.frame p) off bytes)) x =
      if x/pgsize = p ∧ off ≤ x % pgsize ∧ x % pgsize < off+bytes.length then bytes.getD (x % pgsize-off) 0
      else byte m x := by
    by_cases same : x/pgsize = p
    · subst same
      simp only [byte,Mem.fill,update_self,true_and]
      rw [store_byte _ _ _ _ _ (Nat.mod_lt x (by decide)),word]
    · simp only [byte,Mem.fill,update_of_ne same,same,false_and,if_false]
  rw [filled]
  constructor
  · intro i b value at_x
    obtain ⟨inside,_⟩ := List.getElem?_eq_some_iff.mp value
    obtain rfl := Option.some.inj ((here i inside).symm.trans at_x)
    have less : off+i < pgsize := by omega
    rw [Nat.mul_comm,Nat.mul_add_div (by decide),Nat.mul_add_mod,Nat.div_eq_of_lt less,Nat.mod_eq_of_lt less,
      if_pos (by omega),Nat.add_sub_cancel_left,List.getD_eq_getElem?_getD,value]
    rfl
  · intro none
    rw [if_neg]
    rintro ⟨rfl,above,below⟩
    have at_x := here (x % pgsize-off) (by omega)
    rw [Nat.add_sub_cancel' above,Nat.mul_comm,Nat.div_add_mod] at at_x
    exact none _ (by omega) at_x

theorem Written.congr {m' : Mem} {bytes : List UInt8} {place place' : Nat → Option Nat}
    (written : Written m m' place bytes) (same : ∀ i < bytes.length, place i = place' i) : Written m m' place' bytes := by
  intro x
  obtain ⟨here,other⟩ := written x
  constructor
  · intro i b value at_x
    exact here i b value ((same i (List.getElem?_eq_some_iff.mp value).1).trans at_x)
  · intro none
    exact other fun i less => same i less ▸ none i less

theorem Written.append {m₁ m₂ : Mem} {bytes : List UInt8} {place : Nat → Option Nat} {size : Nat}
    (first : Written m m₁ place (bytes.take size))
    (second : Written m₁ m₂ (fun j => place (size+j)) (bytes.drop size)) (whole : size ≤ bytes.length)
    (apart : ∀ i < bytes.length, ∀ j < bytes.length, ∀ x, place i = some x → place j = some x → i = j) :
    Written m m₂ place bytes := by
  intro x
  obtain ⟨here,other⟩ := first x
  obtain ⟨later,still⟩ := second x
  simp only [List.length_take,List.length_drop] at other still
  constructor
  · intro i b value at_x
    obtain ⟨inside,_⟩ := List.getElem?_eq_some_iff.mp value
    by_cases less : i < size
    · rw [still fun j more again => by have := apart i inside (size+j) (by omega) x at_x again; omega]
      exact here i b (by rw [List.getElem?_take_of_lt less,value]) at_x
    · refine later (i-size) b ?_ ?_
      · rw [List.getElem?_drop,Nat.add_sub_cancel' (by omega),value]
      · exact (congrArg place (Nat.add_sub_cancel' (by omega))).trans at_x
  · intro none
    rw [still fun j more => none (size+j) (by omega)]
    exact other fun i less => none i (by omega)

/-- Where there is a page table, `uva2ka` translates. -/
theorem uva2ka_eq (null : Mem → Option Nat) {va : Nat} (bound : va < 4294967296)
    (table : pde m.frame d (va/pgsize/1024) ≠ none) :
    uva2ka null d m (va/pgsize*pgsize) = some (userPage m.frame d (va/pgsize)) := by
  obtain ⟨t,found⟩ := Option.ne_none_iff_exists'.mp table
  have page : va/pgsize*pgsize/pgsize = va/pgsize := Nat.mul_div_cancel _ (by decide)
  rw [uva2ka,walkpgdir_false ((Nat.div_mul_le_self va pgsize).trans_lt bound),page,found]
  simp only [userPage,pte,found,ptx,page,Option.bind_some,Option.map_some]
  cases here : present (m.frame t (va/pgsize % 1024)) with
  | false => simp
  | true => simp

/-- Where there is none, it reads through a null pointer. -/
theorem uva2ka_null (null : Mem → Option Nat) {va : Nat} (bound : va < 4294967296)
    (missing : pde m.frame d (va/pgsize/1024) = none) (unread : null m = none) :
    uva2ka null d m (va/pgsize*pgsize) = none := by
  have page : va/pgsize*pgsize/pgsize = va/pgsize := Nat.mul_div_cancel _ (by decide)
  rw [uva2ka,walkpgdir_false ((Nat.div_mul_le_self va pgsize).trans_lt bound),page,missing]
  simp only [unread,Option.map_none]

theorem physical_table {va : Nat} (translated : physical m.frame d va ≠ none) :
    pde m.frame d (va/pgsize/1024) ≠ none := by
  intro missing
  simp [physical,userPage,pte,missing] at translated

theorem Plain.fill {v p : Nat} (plain : Plain m.frame d) (bound : v < 1048576) (found : userPage m.frame d v = some p)
    (words : Nat → Nat) : Plain (m.fill p words).frame d ∧
      (∀ i, pde (m.fill p words).frame d i = pde m.frame d i) ∧
      ∀ v' < 1048576, userPage (m.fill p words).frame d v' = userPage m.frame d v' := by
  have leaf := plain.leaf v bound p found
  have pdes (i : Nat) : pde (m.fill p words).frame d i = pde m.frame d i := leaf.pde_update (by simp)
  have pages (v' : Nat) (low : v' < 1048576) : userPage (m.fill p words).frame d v' = userPage m.frame d v' := by
    rw [userPage,userPage,Mem.fill,leaf.pte_update (by simp) low]
  refine ⟨⟨?_,?_⟩,pdes,pages⟩
  · intro v' low q here
    obtain ⟨apart,tables⟩ := plain.leaf v' low q (pages v' low ▸ here)
    refine ⟨apart,?_⟩
    intro d' member i inside
    obtain rfl := List.mem_singleton.mp member
    rw [pdes]
    exact tables d' (by simp) i inside
  · intro v₁ low₁ v₂ low₂ q first second
    exact plain.single v₁ low₁ v₂ low₂ q (pages v₁ low₁ ▸ first) (pages v₂ low₂ ▸ second)

theorem Plain.apart (plain : Plain m.frame d) {va va' x : Nat} (bound : va < 4294967296) (bound' : va' < 4294967296)
    (first : physical m.frame d va = some x) (second : physical m.frame d va' = some x) : va = va' := by
  obtain ⟨p,page,rfl⟩ := Option.map_eq_some_iff.mp first
  obtain ⟨p',page',same⟩ := Option.map_eq_some_iff.mp second
  simp only [pgsize] at same page page'
  obtain rfl : p' = p := by omega
  have frame := plain.single (va/4096) (by omega) (va'/4096) (by omega) p' page page'
  omega

theorem uint_lt (z : Int) : uint z < 4294967296 := by
  simp only [uint]
  omega

theorem uint_start {va : Nat} (bound : va < 4294967296) : uint (va+(0 : Nat)) = va := by
  simp only [uint]
  omega

/-- A round that finds its page writes the bytes up to the end of the page. -/
theorem copyoutRounds_page {va p : Nat} {bytes : List UInt8} (bound : va < 4294967296) (left : bytes ≠ [])
    (short : bytes.length < 4294967296) (plain : Plain m.frame d) (found : userPage m.frame d (va/pgsize) = some p) :
    ∃ size va' m₁, 0 < size ∧ size ≤ bytes.length ∧ va' < 4294967296 ∧
      (∀ null n, copyoutRounds null d (n+1) va bytes m = copyoutRounds null d n va' (bytes.drop size) m₁) ∧
      m₁.freelist = m.freelist ∧ Plain m₁.frame d ∧ (∀ i, pde m₁.frame d i = pde m.frame d i) ∧
      (∀ z, physical m₁.frame d (uint z) = physical m.frame d (uint z)) ∧
      (∀ i < size, physical m.frame d (uint (va+i)) ≠ none) ∧
      (∀ j < bytes.length-size, uint (va'+j) = uint (va+(size+j : Nat))) ∧
      Written m m₁ (fun i => physical m.frame d (uint (va+i))) (bytes.take size) := by
  have positive := List.length_pos_iff.mpr left
  have offset : va-va/pgsize*pgsize = va % pgsize := by
    simp only [pgsize]
    omega
  have table : pde m.frame d (va/pgsize/1024) ≠ none := physical_table (by simp [physical,found])
  obtain ⟨size,chunk⟩ : ∃ size, min (pgsize-va % pgsize) bytes.length = size := ⟨_,rfl⟩
  have low : va/pgsize < 1048576 := by
    simp only [pgsize]
    omega
  have room : 0 < size ∧ va % pgsize+size ≤ pgsize := by
    simp only [pgsize] at chunk ⊢
    omega
  have lengths : (bytes.take size).length = size := by
    rw [List.length_take]
    omega
  have here (i : Nat) (less : i < size) : physical m.frame d (uint (va+i)) = some (p*pgsize+(va % pgsize+i)) := by
    have address : uint (va+i) = va/pgsize*pgsize+(va % pgsize+i) ∧ va % pgsize+i < pgsize := by
      simp only [uint,pgsize] at chunk ⊢
      omega
    rw [physical,address.1,Nat.mul_comm,Nat.mul_add_div (by decide),Nat.div_eq_of_lt address.2,Nat.add_zero,found,
      Nat.mul_add_mod,Nat.mod_eq_of_lt address.2]
    rfl
  obtain ⟨plain₁,pdes,pages⟩ := plain.fill low found (store (m.frame p) (va % pgsize) (bytes.take size))
  refine ⟨size,uint ((va/pgsize*pgsize : Nat)+(pgsize : Nat)),
    m.fill p (store (m.frame p) (va % pgsize) (bytes.take size)),room.1,by omega,uint_lt _,?_,rfl,
    plain₁,pdes,?_,?_,?_,?_⟩
  · intro null n
    rw [copyoutRounds,if_neg left]
    simp only [uva2ka_eq null bound table,found,offset,chunk]
  · intro z
    have low := uint_lt z
    rw [physical,physical,pages _ (by simp only [pgsize]; omega)]
  · intro i less
    simp [here i less]
  · intro j more
    simp only [uint,pgsize] at chunk ⊢
    omega
  · exact Written.page (lengths.symm ▸ room.2) (lengths.symm ▸ here)

/-- Every page that `copyout` comes to has a page table. -/
def Tabled (m : Mem) (d va len : Nat) : Prop :=
  ∀ i < len, (∀ j < i, physical m.frame d (uint (va+j)) ≠ none) → pde m.frame d (uint (va+i)/pgsize/1024) ≠ none

theorem Tabled.first {va len : Nat} (tabled : Tabled m d va len) (bound : va < 4294967296) (positive : 0 < len) :
    pde m.frame d (va/pgsize/1024) ≠ none := by
  have table := tabled 0 positive fun j less => absurd less (Nat.not_lt_zero j)
  rwa [uint_start bound] at table

/-- `copyout` from a round on: the bytes that are left go to the pages from `va` on. -/
theorem copyoutRounds_bytes (null : Mem → Option Nat) (n va : Nat) (bytes : List UInt8) (m : Mem)
    (bound : va < 4294967296) (enough : bytes.length ≤ n) (short : bytes.length < 4294967296) (plain : Plain m.frame d)
    (tabled : Tabled m d va bytes.length) :
    ∃ ok m', copyoutRounds null d n va bytes m = some (ok,m') ∧ m'.freelist = m.freelist ∧
      (ok = true ↔ ∀ i < bytes.length, physical m.frame d (uint (va+i)) ≠ none) ∧
      (ok = true → Written m m' (fun i => physical m.frame d (uint (va+i))) bytes) := by
  induction n generalizing va bytes m with
  | zero =>
    obtain rfl := List.length_eq_zero_iff.mp (Nat.le_zero.mp enough)
    exact ⟨true,m,rfl,rfl,by simp,fun _ x => ⟨by simp,fun _ => rfl⟩⟩
  | succ n ih =>
    by_cases left : bytes = []
    · subst left
      exact ⟨true,m,rfl,rfl,by simp,fun _ x => ⟨by simp,fun _ => rfl⟩⟩
    have positive := List.length_pos_iff.mpr left
    cases found : userPage m.frame d (va/pgsize) with
    | none =>
      refine ⟨false,m,?_,rfl,⟨fun h => by contradiction,fun all => ?_⟩,fun h => by contradiction⟩
      · rw [copyoutRounds,if_neg left]
        simp only [uva2ka_eq null bound (tabled.first bound positive),found]
      · refine absurd ?_ (all 0 positive)
        rw [uint_start bound,physical,found]
        rfl
    | some p =>
      obtain ⟨size,va',m₁,more,whole,bound₁,round,free₁,plain₁,pdes,same,here,there,first⟩ :=
        copyoutRounds_page bound left short plain found
      obtain ⟨ok,m₂,run,free,all,written⟩ := ih va' (bytes.drop size) m₁ bound₁
        (by rw [List.length_drop]; omega) (by rw [List.length_drop]; omega) plain₁ (by
          intro j more before
          rw [List.length_drop] at more
          rw [pdes,there j more]
          refine tabled (size+j) (by omega) ?_
          intro i less
          by_cases early : i < size
          · exact here i early
          · have translated := before (i-size) (by omega)
            rwa [same,there (i-size) (by omega),Nat.add_sub_cancel' (by omega)] at translated)
      rw [List.length_drop] at all
      refine ⟨ok,m₂,(round null n).trans run,free.trans free₁,all.trans ⟨?_,?_⟩,?_⟩
      · intro all i less
        by_cases early : i < size
        · exact here i early
        · have rest := all (i-size) (by omega)
          rwa [same,there (i-size) (by omega),Nat.add_sub_cancel' (by omega)] at rest
      · intro all j more
        rw [same,there j more]
        exact all (size+j) (by omega)
      · intro good
        refine first.append ?_ whole ?_
        · apply (written good).congr
          intro j more
          rw [List.length_drop] at more
          rw [same,there j more]
        · intro i less j less' x at_x again
          have equal := plain.apart (uint_lt _) (uint_lt _) at_x again
          simp only [uint] at equal
          omega

/-- A run that needs nothing from a null pointer has found every page table. -/
theorem copyoutRounds_tabled (n va : Nat) (bytes : List UInt8) (m : Mem) (bound : va < 4294967296)
    (enough : bytes.length ≤ n) (short : bytes.length < 4294967296) (plain : Plain m.frame d)
    (returns : copyoutRounds (fun _ => none) d n va bytes m ≠ none) : Tabled m d va bytes.length := by
  induction n generalizing va bytes m with
  | zero => exact fun i less => absurd less (by omega)
  | succ n ih =>
    intro i less before
    have left : bytes ≠ [] := List.length_pos_iff.mp (by omega)
    cases found : userPage m.frame d (va/pgsize) with
    | none =>
      have last : i = 0 := by
        by_contra later
        refine before 0 (by omega) ?_
        rw [uint_start bound,physical,found]
        rfl
      subst last
      rw [uint_start bound]
      intro missing
      refine returns ?_
      rw [copyoutRounds,if_neg left]
      simp only [uva2ka_null _ bound missing]
    | some p =>
      obtain ⟨size,va',m₁,more,_,bound₁,round,_,plain₁,pdes,same,here,there,_⟩ :=
        copyoutRounds_page bound left short plain found
      by_cases early : i < size
      · exact physical_table (here i early)
      rw [round] at returns
      have later := ih va' (bytes.drop size) m₁ bound₁ (by rw [List.length_drop]; omega)
        (by rw [List.length_drop]; omega) plain₁ returns (i-size) (by rw [List.length_drop]; omega) (by
          intro j more
          rw [same,there j (by omega)]
          exact before (size+j) (by omega))
      rwa [pdes,there (i-size) (by omega),Nat.add_sub_cancel' (by omega)] at later

/-- Whatever a null pointer reads, `copyout` returns 0 exactly if every page of the range is present with `PTE_U`,
and has then written the bytes at their addresses and nothing else: if and only if it comes to no page without a
page table. -/
theorem copyout_exact (va : Nat) (bytes : List UInt8) (bound : va < 4294967296) (short : bytes.length < 4294967296)
    (plain : Plain m.frame d) :
    (∀ null, ∃ ok m', copyout null d va bytes m = some (ok,m') ∧ m'.freelist = m.freelist ∧
      (ok = true ↔ ∀ i < bytes.length, physical m.frame d (uint (va+i)) ≠ none) ∧
      (ok = true → Written m m' (fun i => physical m.frame d (uint (va+i))) bytes)) ↔
      ∀ i < bytes.length, (∀ j < i, physical m.frame d (uint (va+j)) ≠ none) →
        pde m.frame d (uint (va+i)/pgsize/1024) ≠ none := by
  constructor
  · intro exact
    refine copyoutRounds_tabled bytes.length va bytes m bound le_rfl short plain ?_
    obtain ⟨ok,m',run,_⟩ := exact fun _ => none
    rw [copyout] at run
    simp [run]
  · intro tabled null
    exact copyoutRounds_bytes null bytes.length va bytes m bound le_rfl short plain tabled

end Round

/-- Directory 1 maps page 3 at address 0, through table 2; directory 4 is empty. -/
def onePage : Mem :=
  ⟨[],update (update (update (fun _ _ => 0) 1 (update (fun _ => 0) 0 8199)) 2 (update (fun _ => 0) 0 12295))
    3 (update (fun _ => 0) 0 20487),[]⟩

theorem onePage_plain : Plain onePage.frame 1 := by
  have only (v p : Nat) (low : v < 1048576) (found : userPage onePage.frame 1 v = some p) : v = 0 ∧ p = 3 := by
    obtain ⟨w,entry,user⟩ := Option.bind_eq_some_iff.mp found
    obtain ⟨t,table,word,here⟩ := pte_some entry
    by_cases first : v/1024 = 0
    · rw [first] at table
      obtain rfl : 2 = t := Option.some.inj table
      by_cases zero : v % 1024 = 0
      · rw [zero] at word
        obtain rfl : 12295 = w := word
        obtain rfl : 3 = p := Option.some.inj user
        omega
      · obtain rfl : 0 = w := by simpa [onePage,zero] using word
        contradiction
    · simp [pde,onePage,first,present] at table
  constructor
  · intro v low p found
    obtain ⟨-,rfl⟩ := only v p low found
    refine ⟨by decide,?_⟩
    intro d member i inside table
    obtain rfl := List.mem_singleton.mp member
    by_cases zero : i = 0
    · subst zero
      contradiction
    · simp [pde,onePage,zero,present] at table
  · intro v low v' low' p found found'
    rw [(only v p low found).1,(only v' p low' found').1]

theorem copyout_exact_page : Plain onePage.frame 1 ∧
    ∀ null, ∃ m', copyout null 1 8 [7,9] onePage = some (true,m') ∧ byte m' 12296 = 7 := by
  refine ⟨onePage_plain,?_⟩
  intro null
  obtain ⟨ok,m',run,_,all,written⟩ := (copyout_exact (m := onePage) 8 [7,9] (by decide) (by decide) onePage_plain).mpr
    (by decide) null
  obtain rfl : ok = true := all.mpr (by decide)
  exact ⟨m',run,(written rfl 12296).1 0 7 rfl rfl⟩

/-- Where the page table is missing, `uva2ka` takes the word at address 0 of the running process for the entry. -/
theorem copyout_missing_table : ∃ m', pde onePage.frame 4 1015 = none ∧
    copyout (nullWord 1) 4 4261412860 [7] onePage = some (true,m') ∧ byte onePage 24572 = 0 ∧ byte m' 24572 = 7 :=
  ⟨_,rfl,rfl,by decide +kernel,by decide +kernel⟩

end Kthreads.Exec
