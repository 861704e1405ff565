import Kthreads.Lib.Heap
import Kthreads.Tree.Machine
import Kthreads.Mutex.Map

/-! `trnmnt_tree_alloc` over the mutex calls of the kernel and a heap. The heap answers each `malloc` with an
address or null, and a call of `kthread_mutex_alloc` may also be refused when the table has room, as when other
processes have filled it for a while. -/
open Function

namespace Kthreads

open Heap

/-- A process that builds a tree: the kernel, its live blocks, the addresses that `malloc` will try and the
calls of `kthread_mutex_alloc` that will be refused. -/
structure Builder where
  kernel : KState
  heap : Blocks
  answers : List Nat
  refusals : List Bool

abbrev Build := StateT Builder Option

namespace Build

def malloc (n : Nat) : Build Nat := fun w =>
  some ((Heap.malloc w.heap n (w.answers.headD 0)).2,
    {w with heap := (Heap.malloc w.heap n (w.answers.headD 0)).1, answers := w.answers.tail})

def free (p : Nat) : Build Unit := fun w => (Heap.free w.heap p).map fun h => ((),{w with heap := h})

def load (p i : Nat) : Build Int := fun w => (Heap.load w.heap p i).map fun v => (v,w)

def store (p i : Nat) (v : Int) : Build Unit := fun w =>
  (Heap.store w.heap p i v).map fun h => ((),{w with heap := h})

def mutexAlloc (t : Slot) : Build Int := fun w =>
  if w.refusals.headD false = true then some (-1,{w with refusals := w.refusals.tail})
  else (perform w.kernel t .alloc 0).map fun (k,result) => (result,{w with kernel := k, refusals := w.refusals.tail})

def mutexDealloc (t : Slot) (id : Int) : Build Int := fun w =>
  (perform w.kernel t (.dealloc id) 0).map fun (k,result) => (result,{w with kernel := k})

end Build

-- the words of `struct trnmnt_tree`
abbrev lockField : Nat := 0
abbrev mutextreeField : Nat := 1
abbrev threadMapField : Nat := 2
abbrev depthField : Nat := 3

def allocNodes (t : Slot) (output : Nat) : Nat → Nat → Build Unit
  | _,0 => pure ()
  | i,n+1 => do
    let mid ← Build.mutexAlloc t
    let mutextree ← Build.load output mutextreeField
    Build.store mutextree.toNat i mid
    allocNodes t output (i+1) n

def checkNodes (output : Nat) : Nat → Nat → Int → Build Int
  | _,0,initCheck => pure initCheck
  | i,n+1,initCheck => do
    let mutextree ← Build.load output mutextreeField
    let mid ← Build.load mutextree.toNat i
    checkNodes output (i+1) n (if mid = -1 then 1 else initCheck)

def deallocNodes (t : Slot) (output : Nat) : Nat → Nat → Build Unit
  | _,0 => pure ()
  | i,n+1 => do
    let mutextree ← Build.load output mutextreeField
    let mid ← Build.load mutextree.toNat i
    let _ ← Build.mutexDealloc t mid
    deallocNodes t output (i+1) n

def clearMap (output : Nat) : Nat → Nat → Build Unit
  | _,0 => pure ()
  | i,n+1 => do
    let threadMap ← Build.load output threadMapField
    Build.store threadMap.toNat i (-1)
    clearMap output (i+1) n

/-- The clean-up after the nodes: mutexes, `mutextree` and the record itself. -/
def undoTree (t : Slot) (output treeSize : Nat) : Build Nat := do
  deallocNodes t output 0 treeSize
  let lock ← Build.load output lockField
  let _ ← Build.mutexDealloc t lock
  let mutextree ← Build.load output mutextreeField
  Build.free mutextree.toNat
  Build.free output
  return 0

/-- The last part of `trnmnt_tree_alloc`: `threadMap`. -/
def allocMap (t : Slot) (depth : Int) (output treeSize : Nat) : Build Nat := do
  let threadMap ← Build.malloc (powordepth depth.toNat)
  Build.store output threadMapField threadMap
  if threadMap = 0 then undoTree t output treeSize
  else
    clearMap output 0 (powordepth depth.toNat)
    return output

/-- `trnmnt_tree_alloc` from `mutextree` on. -/
def allocTree (t : Slot) (depth : Int) (output treeSize : Nat) : Build Nat := do
  let mutextree ← Build.malloc treeSize
  Build.store output mutextreeField mutextree
  if mutextree = 0 then
    Build.free output
    return 0
  else
    allocNodes t output 0 treeSize
    let initCheck ← checkNodes output 0 treeSize 0
    if initCheck ≠ 0 then undoTree t output treeSize
    else allocMap t depth output treeSize

/-- `trnmnt_tree_alloc`, run by thread `t`; 0 is the null pointer. -/
def trnmntTreeAlloc (t : Slot) (depth : Int) : Build Nat := do
  let output ← Build.malloc 4
  if depth ≤ 0 ∨ depth > 6 then return 0
  else
    let treeSize := powordepth depth.toNat - 1
    Build.store output depthField depth
    let lock ← Build.mutexAlloc t
    Build.store output lockField lock
    if lock = -1 then
      Build.free output
      return 0
    else allocTree t depth output treeSize

def blank : Mutex := ⟨0,0,0,none,.uninitialized,none,0⟩

structure Tabulated (s : KState) : Prop where
  between : Between s
  unowned : ∀ i, (s.mutex i).state = .uninitialized → (s.mutex i).pidHolder = 0

theorem Tabulated.blank {s : KState} (tab : Tabulated s) (i : MutexIx) (raw : (s.mutex i).state = .uninitialized) :
    s.mutex i = blank := by
  have mid := (tab.between.mid_zero i).mpr raw
  have spin := tab.between.spin i
  have waiting := tab.between.waiting i
  have owner := tab.unowned i raw
  have settled := tab.between.settled i
  generalize s.mutex i = m at *
  obtain ⟨_,_,_,_,_,_,_⟩ := m
  simp_all [Kthreads.blank,Mutex.Settled]

theorem Tabulated.call {s s' : KState} (tab : Tabulated s) (t : Slot) (c : MutexCall) (word result : Int)
    (done : perform s t c word = some (s',result)) (i : MutexIx) (raw : (s'.mutex i).state = .uninitialized) :
    (s'.mutex i).pidHolder = 0 := by
  have inv := tab.between
  have kept (call : ∃ k, perform s t c word = some (k,-1) ∧ Between.Untouched s k) : (s'.mutex i).pidHolder = 0 := by
    obtain ⟨k,returns,same⟩ := call
    obtain ⟨rfl,_⟩ := Prod.mk.inj (Option.some.inj (returns.symm.trans done))
    rw [same.mutex] at raw ⊢
    exact tab.unowned i raw
  have wrote (j : MutexIx) (v : Mutex) (r n : Int) (fine : v.state = .uninitialized → v.pidHolder = 0)
      (call : ∃ k, perform s t c word = some (k,r) ∧ Between.Wrote s k j v ∧ k.nextmid = n) :
      (s'.mutex i).pidHolder = 0 := by
    obtain ⟨k,returns,write,_⟩ := call
    obtain ⟨rfl,_⟩ := Prod.mk.inj (Option.some.inj (returns.symm.trans done))
    by_cases here : i = j
    · rw [here,write.mutex,update_self] at raw ⊢
      exact fine raw
    · rw [write.mutex,update_of_ne here] at raw ⊢
      exact tab.unowned i raw
  cases c with
  | alloc =>
    cases scan : freeMutex s with
    | none => exact kept (inv.alloc_refused t word scan)
    | some j => exact wrote j _ _ _ (by simp) (inv.alloc_done t word j scan)
  | dealloc id =>
    by_cases bad : ∀ j, findMutex s id = some j → (s.mutex j).state = .closed
    · exact kept (inv.dealloc_refused t word id bad)
    · push Not at bad
      obtain ⟨j,scan,free⟩ := bad
      exact wrote j _ _ _ (fun _ => rfl) (inv.dealloc_done t word id j scan free)
  | unlock id =>
    by_cases bad : ∀ j, findMutex s id = some j →
        (s.mutex j).state ≠ .closed ∨ holdingTid s j word ≠ (s.thread t).tid
    · exact kept (inv.unlock_refused t word id bad)
    · push Not at bad
      obtain ⟨j,scan,closed,mine⟩ := bad
      exact wrote j _ _ _ (by simp) (inv.unlock_done t word id j scan closed mine)
  | lock id =>
    by_cases bad : ∀ j, findMutex s id = some j →
        (s.mutex j).state = .uninitialized ∨ holdingTid s j word = (s.thread t).tid
    · exact kept (inv.lock_refused t word id bad)
    · push Not at bad
      obtain ⟨j,scan,ready,other⟩ := bad
      by_cases free : (s.mutex j).lock = 0
      · exact wrote j _ _ _ (by simp) (inv.lock_done t word id j scan ready other free)
      · rw [inv.lock_sleeps t word id j scan ready other free] at done
        contradiction

theorem tabulated_reached {s₀ s : KState} (start : Start s₀) (waiting : ∀ i, (s₀.mutex i).numOfWaiting = 0)
    (unowned : ∀ i, (s₀.mutex i).state = .uninitialized → (s₀.mutex i).pidHolder = 0)
    (reached : Interleave.Reaches callStep Admissible s₀ s) : Tabulated s := by
  induction reached with
  | refl => exact ⟨.start start waiting,unowned⟩
  | tail reached allowed taken held =>
    have between := between_reached start waiting (.tail reached allowed taken)
    obtain ⟨⟨k,result⟩,done,rfl⟩ := Option.map_eq_some_iff.mp taken
    exact ⟨between,held.call _ _ _ result done⟩

/-- How many ids are given out from `n` on before `id` is. -/
def ahead (n id : Int) : Int := (id-n) % 2^32

theorem ahead_next {n id : Int} (few : ahead n id < 2^31) : ahead n (next32 id) = ahead n id+1 := by
  simp only [ahead,next32,Int.bmod_def] at few ⊢
  split <;> omega

/-- The ids that have been given out before come last, and so does -1. -/
theorem ahead_old {n id : Int} (low : -1 ≤ id) (given : id < n) (small : n < 2^31) : 2^31 ≤ ahead n id := by
  simp only [ahead]
  omega

/-- The table of `s` is that of `base` with the open mutexes `ids` added, which `base` has not given out. -/
structure Over (base s : KState) (ids : List Int) : Prop where
  mtable : s.mtableLock = none
  mids : MidsApart s
  old : ∀ i, (s.mutex i).mid ∉ ids → s.mutex i = base.mutex i
  new : ∀ i, (s.mutex i).mid ∈ ids → base.mutex i = blank ∧
    ∃ owner, s.mutex i = ⟨(s.mutex i).mid,0,0,none,.opened,none,owner⟩
  present : ∀ id ∈ ids, ahead base.nextmid id < 2^31 ∧ ahead base.nextmid id < ahead base.nextmid s.nextmid ∧
    ∃ i, (s.mutex i).mid = id

theorem mids_write {s s' : KState} {i : MutexIx} {v : Mutex} (write : s'.mutex = update s.mutex i v)
    (mids : MidsApart s) (fresh : v.mid = 0 ∨ ∀ j, (s.mutex j).mid ≠ v.mid) : MidsApart s' := by
  intro j l same nonzero
  rw [write] at same nonzero
  by_cases first : j = i
  · by_cases second : l = i
    · exact first.trans second.symm
    · rw [first,update_self] at nonzero
      rw [first,update_self,update_of_ne second] at same
      exact absurd same.symm (fresh.resolve_left nonzero l)
  · rw [update_of_ne first] at same nonzero
    by_cases second : l = i
    · rw [second,update_self] at same
      exact absurd same (fresh.resolve_left (same ▸ nonzero) j)
    · rw [update_of_ne second] at same
      exact mids j l same nonzero

namespace Over

variable {base s s' : KState} {ids : List Int}

theorem refl (tab : Tabulated s) : Over s s [] :=
  ⟨tab.between.mtable,tab.between.mids,fun _ _ => rfl,fun i member => by simp at member,fun id member => by simp at member⟩

theorem congr (laid : Over base s ids) (others : List Int) (same : ∀ id, id ∈ ids ↔ id ∈ others) : Over base s others := by
  refine ⟨laid.mtable,laid.mids,?_,?_,?_⟩
  · intro i absent
    exact laid.old i fun member => absent ((same _).mp member)
  · intro i member
    exact laid.new i ((same _).mpr member)
  · intro id member
    exact laid.present id ((same id).mpr member)

theorem table (laid : Over base s []) : s.mutex = base.mutex := funext fun i => laid.old i (by simp)

theorem untouched (laid : Over base s ids) (same : Between.Untouched s s') : Over base s' ids := by
  obtain ⟨_,mids,old,new,present⟩ := laid
  rw [MidsApart,← same.mutex] at mids
  rw [← same.mutex] at old new present
  rw [← same.nextmid] at present
  exact ⟨same.mtable,mids,old,new,present⟩

theorem entry (laid : Over base s ids) {P : Mutex → Prop} (old : ∀ i, P (base.mutex i))
    (new : ∀ mid owner, P ⟨mid,0,0,none,.opened,none,owner⟩) (i : MutexIx) : P (s.mutex i) := by
  by_cases member : (s.mutex i).mid ∈ ids
  · obtain ⟨_,owner,entry⟩ := laid.new i member
    rw [entry]
    exact new _ owner
  · rw [laid.old i member]
    exact old i

section Calls
variable (t : Slot) (tab : Tabulated base)
include tab

theorem absent (laid : Over base s ids) {id : Int} (low : -1 ≤ id) (given : id < base.nextmid) : id ∉ ids := by
  intro member
  have far := ahead_old low given tab.between.nextmid.2
  have := (laid.present id member).1
  omega

theorem zero (laid : Over base s ids) : (0 : Int) ∉ ids := laid.absent tab (by decide) tab.between.nextmid.1

theorem unlocked (laid : Over base s ids) : Unlocked s :=
  ⟨laid.mtable,laid.entry (P := fun m => m.mutexLock = none) tab.between.spin fun _ _ => rfl,
    laid.entry (P := fun m => m.numOfWaiting = 0) tab.between.waiting fun _ _ => rfl⟩

theorem alloc (laid : Over base s ids) (few : ahead base.nextmid s.nextmid < 2^31) :
    ∃ s' result, perform s t .alloc 0 = some (s',result) ∧
      ahead base.nextmid s'.nextmid ≤ ahead base.nextmid s.nextmid+1 ∧
      (result = -1 ∧ freeMutex s = none ∧ Over base s' ids ∨
        result ≠ -1 ∧ freeMutex s ≠ none ∧ result ∉ ids ∧ Over base s' (result :: ids)) := by
  have unlocked := laid.unlocked tab
  have bound := tab.between.nextmid
  cases scan : freeMutex s with
  | none =>
    obtain ⟨s',done,same⟩ := unlocked.alloc_refused t 0 scan
    refine ⟨s',-1,done,?_,.inl ⟨rfl,rfl,laid.untouched same⟩⟩
    rw [same.nextmid]
    omega
  | some i =>
    obtain ⟨s',done,write,next⟩ := unlocked.alloc_done t 0 i scan
    have grows := ahead_next few
    rw [← next] at grows
    have raw : s.mutex i = Kthreads.blank := laid.entry (P := fun m => m.state = .uninitialized → m = Kthreads.blank)
      tab.blank (fun _ _ raw => by contradiction) i (freeMutex_state s i scan)
    have other {id : Int} (low : -1 ≤ id) (given : id < base.nextmid) : s.nextmid ≠ id := by
      rintro rfl
      have := ahead_old low given bound.2
      omega
    have fresh : s.nextmid ∉ ids := by
      intro member
      have := (laid.present _ member).2.1
      omega
    have unused (j : MutexIx) : (s.mutex j).mid ≠ s.nextmid := by
      by_cases member : (s.mutex j).mid ∈ ids
      · intro same
        exact fresh (same ▸ member)
      · rw [laid.old j member]
        have low := tab.between.mid_nonneg j
        exact (other (by omega) (tab.between.below j)).symm
    have zero : (s.mutex i).mid ∉ ids := by
      rw [raw]
      exact laid.zero tab
    refine ⟨s',s.nextmid,done,grows.le,.inr ⟨other le_rfl (by omega),by simp,fresh,write.mtable,
      mids_write write.mutex laid.mids (.inr unused),?_,?_,?_⟩⟩
    · intro j absent
      have at_i : j ≠ i := by
        rintro rfl
        simp [write.here] at absent
      rw [write.elsewhere j at_i] at absent ⊢
      exact laid.old j fun member => absent (List.mem_cons_of_mem _ member)
    · intro j member
      by_cases at_i : j = i
      · rw [at_i,write.here]
        exact ⟨(laid.old i zero).symm.trans raw,_,rfl⟩
      · rw [write.elsewhere j at_i] at member ⊢
        exact laid.new j ((List.mem_cons.mp member).resolve_left (unused j))
    · intro id member
      rcases List.mem_cons.mp member with rfl | before
      · exact ⟨few,by omega,i,by rw [write.here]⟩
      · obtain ⟨late,low,j,named⟩ := laid.present id before
        refine ⟨late,by omega,j,?_⟩
        rw [write.elsewhere j ?_]
        · exact named
        · rintro rfl
          exact zero (named ▸ before)

theorem dealloc (id : Int) (laid : Over base s (id :: ids)) (apart : id ∉ ids) :
    ∃ s', perform s t (.dealloc id) 0 = some (s',0) ∧ Over base s' ids := by
  obtain ⟨_,_,i,named⟩ := laid.present id (by simp)
  have zero := laid.zero tab
  have nonzero : id ≠ 0 := by
    rintro rfl
    exact zero (by simp)
  have found : findMutex s id = some i := (findMutex_iff laid.mids id nonzero i).mpr named
  obtain ⟨base_blank,owner,entry⟩ := laid.new i (by simp [named])
  obtain ⟨s',done,write,next⟩ := (laid.unlocked tab).dealloc_done t 0 id i found (by rw [entry]; simp)
  rw [entry] at write
  have here : s'.mutex i = Kthreads.blank := write.here
  refine ⟨s',done,write.mtable,mids_write write.mutex laid.mids (.inl rfl),?_,?_,?_⟩
  · intro j absent
    by_cases at_i : j = i
    · rw [at_i,here,base_blank]
    · rw [write.elsewhere j at_i] at absent ⊢
      refine laid.old j ?_
      intro member
      rcases List.mem_cons.mp member with same | before
      · exact at_i (laid.mids j i (same.trans named.symm) (by omega))
      · exact absent before
  · intro j member
    by_cases at_i : j = i
    · rw [at_i,here] at member
      exact absurd (List.mem_cons_of_mem _ member) zero
    · rw [write.elsewhere j at_i] at member ⊢
      exact laid.new j (List.mem_cons_of_mem _ member)
  · intro other member
    obtain ⟨late,low,j,known⟩ := laid.present other (List.mem_cons_of_mem _ member)
    rw [next]
    refine ⟨late,low,j,?_⟩
    rw [write.elsewhere j ?_]
    · exact known
    · rintro rfl
      exact apart (named.symm.trans known ▸ member)

theorem dealloc_failed (laid : Over base s ids) :
    ∃ s', perform s t (.dealloc (-1)) 0 = some (s',-1) ∧ Over base s' ids := by
  obtain ⟨s',done,same⟩ := (laid.unlocked tab).dealloc_refused t 0 (-1) (by
    intro i found
    have mid := findMutex_mid s (-1) i found
    have old := laid.old i (mid ▸ laid.absent tab le_rfl (by have := tab.between.nextmid; omega))
    have low := tab.between.mid_nonneg i
    rw [← old] at low
    omega)
  exact ⟨s',done,laid.untouched same⟩

end Calls
end Over

def obtained (nodes : List Int) : List Int := nodes.filter (· ≠ -1)

def nodeWords (nodes : List Int) (n : Nat) : List (Option Int) := nodes.map some ++ List.replicate n none

theorem nodeWords_set (nodes : List Int) (n : Nat) (mid : Int) :
    (nodeWords nodes (n+1)).set nodes.length (some mid) = nodeWords (nodes ++ [mid]) n := by
  simp [nodeWords,List.replicate_succ]

theorem nodeWords_get (done rest : List Int) (mid : Int) :
    (nodeWords (done ++ mid :: rest) 0)[done.length]? = some (some mid) := by
  simp [nodeWords]

def Granted (w : Builder) : Prop := w.refusals.headD false = false ∧ freeMutex w.kernel ≠ none

section Steps
variable {w : Builder} {base : KState} (t : Slot) (tab : Tabulated base)

include tab in
theorem mutexAlloc_spec {ids : List Int} (laid : Over base w.kernel ids)
    (few : ahead base.nextmid w.kernel.nextmid < 2^31) :
    Ensures (Build.mutexAlloc t) w fun result w' => w'.heap = w.heap ∧ w'.answers = w.answers ∧
      ahead base.nextmid w'.kernel.nextmid ≤ ahead base.nextmid w.kernel.nextmid+1 ∧
      (result = -1 ∧ ¬ Granted w ∧ Over base w'.kernel ids ∨
        result ≠ -1 ∧ Granted w ∧ result ∉ ids ∧ Over base w'.kernel (result :: ids)) := by
  by_cases refused : w.refusals.headD false = true
  · refine ⟨-1,{w with refusals := w.refusals.tail},by rw [Build.mutexAlloc,if_pos refused],rfl,rfl,?_,
      .inl ⟨rfl,fun granted => Bool.noConfusion (granted.1.symm.trans refused),laid⟩⟩
    simp only
    omega
  · obtain ⟨k,result,done,grows,effect⟩ := laid.alloc t tab few
    refine ⟨result,{w with kernel := k, refusals := w.refusals.tail},by rw [Build.mutexAlloc,if_neg refused,done]; rfl,
      rfl,rfl,grows,effect.imp ?_ ?_⟩
    · rintro ⟨failed,full,rest⟩
      exact ⟨failed,fun granted => granted.2 full,rest⟩
    · rintro ⟨valid,free,rest⟩
      exact ⟨valid,⟨Bool.eq_false_of_not_eq_true refused,free⟩,rest⟩

theorem load_run {block : List (Option Int)} {p i : Nat} {v : Int} (live : w.heap p = some block)
    (word : block[i]? = some (some v)) : Build.load p i w = some (v,w) := by
  simp [Build.load,load_live live word]

theorem store_run {block : List (Option Int)} {p i : Nat} (live : w.heap p = some block) (inside : i < block.length)
    (v : Int) :
    Build.store p i v w = some ((),{w with heap := update w.heap p (some (block.set i (some v)))}) := by
  simp [Build.store,store_live live inside]

theorem free_run {block : List (Option Int)} {p : Nat} (live : w.heap p = some block) :
    Build.free p w = some ((),{w with heap := update w.heap p none}) := by
  simp [Build.free,free_live live]

end Steps

section Loops
variable {base : KState} {t : Slot} {output mutextree : Nat} {record : List (Option Int)} (lock : Int)
  (tab : Tabulated base) (apart : output ≠ mutextree) (field : record[mutextreeField]? = some (some (mutextree : Int)))
include tab apart field

/-- Each round adds a mutex to the table and its id to `mutextree`, or the result -1. -/
theorem allocNodes_spec (n : Nat) (nodes : List Int) (w : Builder) (struct : w.heap output = some record)
    (words : w.heap mutextree = some (nodeWords nodes n)) (laid : Over base w.kernel (lock :: obtained nodes))
    (distinct : (lock :: obtained nodes).Nodup) (few : ahead base.nextmid w.kernel.nextmid + n ≤ 2^31) :
    Ensures (allocNodes t output nodes.length n) w fun _ w' => ∃ all, all.length = nodes.length+n ∧
      w'.heap = update w.heap mutextree (some (nodeWords all 0)) ∧ w'.answers = w.answers ∧
      Over base w'.kernel (lock :: obtained all) ∧ (lock :: obtained all).Nodup := by
  induction n generalizing nodes w with
  | zero =>
    refine .pure ⟨nodes,rfl,?_,rfl,laid,distinct⟩
    rw [← words,update_eq_self]
  | succ n ih =>
    refine .bind (mutexAlloc_spec t tab laid (by omega)) ?_
    rintro mid w₁ ⟨heap,answers,grows,effect⟩
    have struct₁ : w₁.heap output = some record := heap ▸ struct
    have words₁ : w₁.heap mutextree = some (nodeWords nodes (n+1)) := heap ▸ words
    refine .step (load_run struct₁ field) ?_
    rw [Int.toNat_natCast]
    refine .step (store_run words₁ (by simp [nodeWords]) mid) ?_
    rw [nodeWords_set]
    let w₂ : Builder := {w₁ with heap := update w₁.heap mutextree (some (nodeWords (nodes ++ [mid]) n))}
    have added : Over base w₁.kernel (lock :: obtained (nodes ++ [mid])) ∧ (lock :: obtained (nodes ++ [mid])).Nodup := by
      rcases effect with ⟨rfl,_,same⟩ | ⟨valid,_,fresh,more⟩
      · have filtered : obtained (nodes ++ [-1]) = obtained nodes := by simp [obtained]
        rw [filtered]
        exact ⟨same,distinct⟩
      · have filtered : obtained (nodes ++ [mid]) = obtained nodes ++ [mid] := by simp [obtained,valid]
        rw [filtered]
        refine ⟨more.congr _ fun id => ?_,?_⟩
        · simp only [List.mem_cons,List.mem_append,List.not_mem_nil,or_false]
          tauto
        · have reversed : ([mid] ++ (lock :: obtained nodes)).Nodup := List.nodup_cons.mpr ⟨fresh,distinct⟩
          exact List.nodup_append_comm.mp reversed
    have struct₂ : w₂.heap output = some record := by
      simp only [w₂]
      rw [update_of_ne apart]
      exact struct₁
    have words₂ : w₂.heap mutextree = some (nodeWords (nodes ++ [mid]) n) := update_self _ _ _
    have few₂ : ahead base.nextmid w₂.kernel.nextmid + n ≤ 2^31 := by
      simp only [w₂]
      omega
    have continued := ih (nodes ++ [mid]) w₂ struct₂ words₂ added.1 added.2 few₂
    rw [List.length_append,List.length_singleton] at continued
    refine continued.mono ?_
    rintro _ w' ⟨all,length,blocks,rest,table⟩
    refine ⟨all,by omega,?_,rest.trans answers,table⟩
    rw [blocks]
    simp only [w₂]
    rw [update_idem,heap]

omit tab apart in
theorem checkNodes_spec (w : Builder) (struct : w.heap output = some record) (done rest : List Int) (initCheck : Int)
    (words : w.heap mutextree = some (nodeWords (done ++ rest) 0)) :
    Ensures (checkNodes output done.length rest.length initCheck) w fun result w' => w' = w ∧
      (result = 0 ↔ initCheck = 0 ∧ -1 ∉ rest) := by
  induction rest generalizing done initCheck with
  | nil => exact .pure ⟨rfl,by simp⟩
  | cons mid rest ih =>
    refine .step (load_run struct field) ?_
    rw [Int.toNat_natCast]
    refine .step (load_run words (nodeWords_get done rest mid)) ?_
    have continued := ih (done ++ [mid]) (if mid = -1 then 1 else initCheck) (by simpa using words)
    rw [List.length_append,List.length_singleton] at continued
    refine continued.mono ?_
    rintro result w' ⟨same,zero⟩
    refine ⟨same,zero.trans ?_⟩
    by_cases failed : mid = -1
    · simp [failed]
    · simp [failed,eq_comm]

omit apart in
/-- Each round takes a mutex out of the table, if there is one. -/
theorem deallocNodes_spec (w : Builder) (struct : w.heap output = some record) (done rest : List Int)
    (words : w.heap mutextree = some (nodeWords (done ++ rest) 0)) (laid : Over base w.kernel (lock :: obtained rest))
    (distinct : (lock :: obtained rest).Nodup) :
    Ensures (deallocNodes t output done.length rest.length) w fun _ w' => w'.heap = w.heap ∧
      Over base w'.kernel [lock] := by
  induction rest generalizing w done with
  | nil => exact .pure ⟨rfl,laid⟩
  | cons mid rest ih =>
    have round : ∃ k result, perform w.kernel t (.dealloc mid) 0 = some (k,result) ∧
        Over base k (lock :: obtained rest) ∧ (lock :: obtained rest).Nodup := by
      by_cases failed : mid = -1
      · have filtered : obtained (mid :: rest) = obtained rest := by simp [obtained,failed]
        rw [filtered] at laid distinct
        obtain ⟨k,called,after⟩ := laid.dealloc_failed t tab
        exact ⟨k,-1,failed ▸ called,after,distinct⟩
      · have filtered : obtained (mid :: rest) = mid :: obtained rest := by simp [obtained,failed]
        rw [filtered] at laid distinct
        have swapped : Over base w.kernel (mid :: lock :: obtained rest) := laid.congr _ fun id => by
          simp only [List.mem_cons]
          tauto
        have swap : (mid :: lock :: obtained rest).Nodup := (List.Perm.swap _ _ _).nodup_iff.mp distinct
        obtain ⟨k,called,after⟩ := swapped.dealloc t tab mid (List.nodup_cons.mp swap).1
        exact ⟨k,0,called,after,(List.nodup_cons.mp swap).2⟩
    obtain ⟨k,result,called,after,remaining⟩ := round
    refine .step (load_run struct field) ?_
    rw [Int.toNat_natCast]
    refine .step (load_run words (nodeWords_get done rest mid)) ?_
    have ran : Build.mutexDealloc t mid w = some (result,{w with kernel := k}) := by
      rw [Build.mutexDealloc,called]
      rfl
    refine .step ran ?_
    have continued := ih {w with kernel := k} struct (done ++ [mid]) (by simpa using words) after remaining
    rw [List.length_append,List.length_singleton] at continued
    exact continued

theorem undoTree_spec (w : Builder) (struct : w.heap output = some record)
    (word : record[lockField]? = some (some lock)) (nodes : List Int)
    (words : w.heap mutextree = some (nodeWords nodes 0)) (laid : Over base w.kernel (lock :: obtained nodes))
    (distinct : (lock :: obtained nodes).Nodup) :
    Ensures (undoTree t output nodes.length) w fun result w' => result = 0 ∧
      w'.heap = update (update w.heap mutextree none) output none ∧
      w'.kernel.mutex = base.mutex := by
  refine .bind (deallocNodes_spec lock tab field w struct [] nodes words laid distinct) ?_
  rintro _ w₁ ⟨heap,last⟩
  have struct₁ : w₁.heap output = some record := heap ▸ struct
  have words₁ : w₁.heap mutextree = some (nodeWords nodes 0) := heap ▸ words
  obtain ⟨k,called,empty⟩ := last.dealloc t tab lock (by simp)
  have ran : Build.mutexDealloc t lock w₁ = some (0,{w₁ with kernel := k}) := by
    rw [Build.mutexDealloc,called]
    rfl
  refine .step (load_run struct₁ word) (.step ran (.step (load_run struct₁ field) ?_))
  rw [Int.toNat_natCast]
  refine .step (free_run words₁) (.step (free_run (show _ = some record from ?_)) (.pure ⟨rfl,?_,empty.table⟩))
  · simp only
    rw [update_of_ne apart]
    exact struct₁
  · simp only
    rw [heap]

end Loops

theorem clearMap_spec {output threadMap : Nat} {record : List (Option Int)} (apart : output ≠ threadMap)
    (field : record[threadMapField]? = some (some (threadMap : Int))) (n i : Nat) (w : Builder)
    (struct : w.heap output = some record)
    (words : w.heap threadMap = some (nodeWords (List.replicate i (-1)) n)) :
    Ensures (clearMap output i n) w fun _ w' => w'.kernel = w.kernel ∧
      w'.heap = update w.heap threadMap (some (nodeWords (List.replicate (i+n) (-1)) 0)) := by
  induction n generalizing i w with
  | zero =>
    refine .pure ⟨rfl,?_⟩
    rw [Nat.add_zero,← words,update_eq_self]
  | succ n ih =>
    refine .step (load_run struct field) ?_
    rw [Int.toNat_natCast]
    refine .step (store_run words (by simp [nodeWords]) (-1)) ?_
    have next : (nodeWords (List.replicate i (-1)) (n+1)).set i (some (-1)) = nodeWords (List.replicate (i+1) (-1)) n := by
      have set := nodeWords_set (List.replicate i (-1)) n (-1)
      rw [List.length_replicate] at set
      rw [set,List.replicate_succ']
    rw [next]
    let w₁ : Builder := {w with heap := update w.heap threadMap (some (nodeWords (List.replicate (i+1) (-1)) n))}
    have struct₁ : w₁.heap output = some record := by
      simp only [w₁]
      rw [update_of_ne apart]
      exact struct
    refine (ih (i+1) w₁ struct₁ (update_self _ _ _)).mono ?_
    rintro _ w' ⟨kernel,blocks⟩
    refine ⟨kernel,?_⟩
    rw [blocks,Nat.add_right_comm]
    simp only [w₁]
    rw [update_idem,Nat.add_assoc]

/-- With a bad depth the first `malloc` fails. Otherwise it succeeds, and so does the one for `mutextree` if it
is reached. -/
def Tidy (w : Builder) (depth : Int) : Prop :=
  if depth ≤ 0 ∨ depth > 6 then ¬ Usable w.heap (w.answers.headD 0)
  else Usable w.heap (w.answers.headD 0) ∧
    (Granted w → Usable w.heap (w.answers.tail.headD 0) ∧ w.answers.tail.headD 0 ≠ w.answers.headD 0)

/-- A new tree: three new blocks, and a mutex for `Lock` and for each node that the table did not have. -/
structure Built (w w' : Builder) (depth : Int) (output : Nat) (lock : Int) (nodes : List Int)
    (mutextree threadMap : Nat) : Prop where
  allowed : 0 < depth ∧ depth ≤ 6
  vacant : w.heap output = none ∧ w.heap mutextree = none ∧ w.heap threadMap = none
  apart : [output,mutextree,threadMap].Nodup
  heap : w'.heap = update (update (update w.heap output
    (some [some lock,some mutextree,some threadMap,some depth])) mutextree (some (nodes.map some)))
    threadMap (some (List.replicate (2^depth.toNat) (some (-1))))
  count : (lock :: nodes).length = 2^depth.toNat
  distinct : (lock :: nodes).Nodup
  table : Over w.kernel w'.kernel (lock :: nodes)

theorem malloc_run (w : Builder) (n : Nat) : Build.malloc n w =
    some ((Heap.malloc w.heap n (w.answers.headD 0)).2,
      {w with heap := (Heap.malloc w.heap n (w.answers.headD 0)).1, answers := w.answers.tail}) := rfl

theorem malloc_usable {h : Blocks} {p : Nat} (n : Nat) (vacant : Usable h p) :
    Heap.malloc h n p = (update h p (some (List.replicate n none)),p) := if_pos vacant

theorem malloc_full {h : Blocks} {p : Nat} (n : Nat) (full : ¬ Usable h p) : Heap.malloc h n p = (h,0) := if_neg full

structure Planted (base w : Builder) (depth : Int) (output : Nat) (lock : Int) (nodes : List Int) (mutextree : Nat)
    (threadMap : Option Int) : Prop where
  vacant : base.heap output = none ∧ base.heap mutextree = none
  apart : output ≠ mutextree
  valid : output ≠ 0
  heap : w.heap = update (update base.heap output
    (some [some lock,some mutextree,threadMap,some depth])) mutextree (some (nodeWords nodes 0))
  laid : Over base.kernel w.kernel (lock :: obtained nodes)
  distinct : (lock :: obtained nodes).Nodup

namespace Planted

section Undo
variable {base w : Builder} {depth : Int} {output : Nat} {lock : Int} {nodes : List Int} {mutextree : Nat}
  {threadMap : Option Int} {t : Slot} (planted : Planted base w depth output lock nodes mutextree threadMap)
  (tab : Tabulated base.kernel)
include planted

theorem struct : w.heap output = some [some lock,some (mutextree : Int),threadMap,some depth] := by
  rw [planted.heap,update_of_ne planted.apart,update_self]

theorem words : w.heap mutextree = some (nodeWords nodes 0) := by
  rw [planted.heap,update_self]

include tab in
theorem undo : Ensures (undoTree t output nodes.length) w fun result w' =>
    result = 0 ∧ w'.kernel.mutex = base.kernel.mutex ∧ w'.heap = base.heap := by
  refine (undoTree_spec lock tab planted.apart rfl w planted.struct rfl nodes planted.words planted.laid
    planted.distinct).mono ?_
  rintro result w' ⟨zero,heap,table⟩
  refine ⟨zero,table,?_⟩
  obtain ⟨first,second⟩ := planted.vacant
  rw [heap,planted.heap,update_idem]
  funext p
  by_cases here : p = output
  · rw [here,update_self,first]
  · by_cases there : p = mutextree
    · rw [there,update_of_ne planted.apart.symm,update_self,second]
    · rw [update_of_ne here,update_of_ne there,update_of_ne here]

theorem field (v : Int) (blocks : Blocks) (same : blocks = update w.heap output
      (some [some lock,some (mutextree : Int),some v,some depth])) (answers : List Nat) :
    Planted base {w with heap := blocks, answers := answers} depth output lock nodes mutextree (some v) := by
  refine ⟨planted.vacant,planted.apart,planted.valid,?_,planted.laid,planted.distinct⟩
  simp only
  rw [same,planted.heap,update_comm planted.apart.symm,update_idem]

end Undo

variable {base w : Builder} {depth : Int} {output : Nat} {lock : Int} {nodes : List Int} {mutextree : Nat}

theorem map (t : Slot) (planted : Planted base w depth output lock nodes mutextree none) (tab : Tabulated base.kernel)
    (allowed : 0 < depth ∧ depth ≤ 6) (size : nodes.length = 2^depth.toNat - 1) (all : -1 ∉ nodes) :
    Ensures (allocMap t depth output nodes.length) w fun result w' =>
      result = 0 ∧ w'.kernel.mutex = base.kernel.mutex ∧ w'.heap = base.heap ∨
      result ≠ 0 ∧ ∃ lock nodes mutextree threadMap, Built base w' depth result lock nodes mutextree threadMap := by
  have whole : obtained nodes = nodes := by
    refine List.filter_eq_self.mpr ?_
    intro mid member
    simpa using fun failed : mid = -1 => all (failed ▸ member)
  unfold allocMap
  rw [powordepth_eq]
  refine .step (malloc_run w _) ?_
  by_cases usable : Usable w.heap (w.answers.headD 0)
  · rw [malloc_usable _ usable]
    obtain ⟨threadMap,at_⟩ : ∃ threadMap, w.answers.headD 0 = threadMap := ⟨_,rfl⟩
    rw [at_] at usable ⊢
    have struct := planted.struct
    have words := planted.words
    have other : output ≠ threadMap := by
      rintro rfl
      rw [usable.2] at struct
      contradiction
    have third : mutextree ≠ threadMap := by
      rintro rfl
      rw [usable.2] at words
      contradiction
    let w₁ : Builder := ⟨w.kernel,update w.heap threadMap (some (List.replicate (2^depth.toNat) none)),
      w.answers.tail,w.refusals⟩
    have struct₁ : w₁.heap output = some [some lock,some (mutextree : Int),none,some depth] := by
      simp only [w₁]
      rw [update_of_ne other]
      exact struct
    refine .step (store_run (w := w₁) (i := threadMapField) struct₁ (show 2 < 4 by decide) threadMap) ?_
    rw [if_neg usable.1]
    let w₂ : Builder := ⟨w₁.kernel,update w₁.heap output
      (some [some lock,some (mutextree : Int),some (threadMap : Int),some depth]),w₁.answers,w₁.refusals⟩
    have struct₂ : w₂.heap output = some [some lock,some (mutextree : Int),some (threadMap : Int),some depth] :=
      update_self _ _ _
    have words₂ : w₂.heap threadMap = some (nodeWords (List.replicate 0 (-1)) (2^depth.toNat)) := by
      simp only [w₂,w₁]
      rw [update_of_ne other.symm,update_self]
      rfl
    refine .bind (clearMap_spec other rfl _ 0 w₂ struct₂ words₂) ?_
    rintro _ w' ⟨kernel,heap⟩
    refine .pure (.inr ⟨planted.valid,lock,nodes,mutextree,threadMap,?_⟩)
    have free : base.heap threadMap = none := by
      have now := usable.2
      rwa [planted.heap,update_of_ne third.symm,update_of_ne other.symm] at now
    refine ⟨allowed,⟨planted.vacant.1,planted.vacant.2,free⟩,?_,?_,?_,?_,?_⟩
    · simp [planted.apart,other,third]
    · rw [heap]
      simp only [w₂,w₁]
      rw [planted.heap,update_comm other.symm,update_idem,update_comm planted.apart.symm,
        update_idem]
      simp [nodeWords]
    · have positive : 0 < 2^depth.toNat := Nat.two_pow_pos _
      simp only [List.length_cons]
      omega
    · rw [← whole]
      exact planted.distinct
    · rw [← whole,kernel]
      exact planted.laid
  · rw [malloc_full _ usable]
    refine .step (store_run (w := ⟨w.kernel,w.heap,w.answers.tail,w.refusals⟩) (i := threadMapField) planted.struct
      (show 2 < 4 by decide) _) ?_
    rw [if_pos rfl]
    exact ((planted.field 0 _ rfl _).undo tab).mono fun _ _ holds => .inl holds

end Planted

section Whole
variable {base w : Builder} {depth : Int} {output : Nat} {lock : Int} (t : Slot)

theorem allocTree_spec (tab : Tabulated base.kernel) (allowed : 0 < depth ∧ depth ≤ 6) (valid : output ≠ 0)
    (vacant : base.heap output = none)
    (heap : w.heap = update base.heap output (some [some lock,none,none,some depth]))
    (laid : Over base.kernel w.kernel [lock]) (few : ahead base.kernel.nextmid w.kernel.nextmid ≤ 1)
    (room : Usable base.heap (w.answers.headD 0)) (apart : w.answers.headD 0 ≠ output) :
    Ensures (allocTree t depth output (powordepth depth.toNat - 1)) w fun result w' =>
      result = 0 ∧ w'.kernel.mutex = base.kernel.mutex ∧ w'.heap = base.heap ∨
      result ≠ 0 ∧ ∃ lock nodes mutextree threadMap, Built base w' depth result lock nodes mutextree threadMap := by
  obtain ⟨mutextree,at_⟩ : ∃ mutextree, w.answers.headD 0 = mutextree := ⟨_,rfl⟩
  rw [at_] at room apart
  have usable : Usable w.heap (w.answers.headD 0) := by
    rw [at_,heap]
    exact ⟨room.1,by rw [update_of_ne apart]; exact room.2⟩
  unfold allocTree
  rw [powordepth_eq]
  refine .step (malloc_run w _) ?_
  rw [malloc_usable _ usable,at_]
  let w₁ : Builder := ⟨w.kernel,update w.heap mutextree (some (List.replicate (2^depth.toNat - 1) none)),
    w.answers.tail,w.refusals⟩
  have struct₁ : w₁.heap output = some [some lock,none,none,some depth] := by
    simp only [w₁]
    rw [update_of_ne apart.symm,heap,update_self]
  refine .step (store_run (w := w₁) (i := mutextreeField) struct₁ (show 1 < 4 by decide) mutextree) ?_
  rw [if_neg room.1]
  let w₂ : Builder := ⟨w₁.kernel,update w₁.heap output
    (some [some lock,some (mutextree : Int),none,some depth]),w₁.answers,w₁.refusals⟩
  have struct₂ : w₂.heap output = some [some lock,some (mutextree : Int),none,some depth] := update_self _ _ _
  have words₂ : w₂.heap mutextree = some (nodeWords [] (2^depth.toNat - 1)) := by
    simp only [w₂,w₁]
    rw [update_of_ne apart,update_self]
    rfl
  have size : 2^depth.toNat ≤ 2^6 := Nat.pow_le_pow_right (by decide) (by omega)
  have room₂ : ahead base.kernel.nextmid w₂.kernel.nextmid + (2^depth.toNat - 1 : Nat) ≤ 2^31 := by
    simp only [w₂,w₁]
    omega
  have nodes := allocNodes_spec (t := t) lock tab apart.symm rfl (2^depth.toNat - 1) [] w₂ struct₂ words₂
    laid (by simp [obtained]) room₂
  refine .bind nodes ?_
  rintro _ w₃ ⟨all,length,blocks,_,table,distinct⟩
  have size : all.length = 2^depth.toNat - 1 := by simpa using length
  have planted : Planted base w₃ depth output lock all mutextree none := by
    refine ⟨⟨vacant,room.2⟩,apart.symm,valid,?_,table,distinct⟩
    rw [blocks]
    simp only [w₂,w₁]
    rw [heap,update_comm apart,update_idem,update_idem]
  rw [← size]
  refine .bind (checkNodes_spec rfl w₃ planted.struct [] all 0 planted.words) ?_
  rintro initCheck _ ⟨rfl,zero⟩
  split
  next failed => exact (planted.undo tab).mono fun _ _ holds => .inl holds
  next passed => exact planted.map t tab allowed size (zero.mp (by simpa using passed)).2

/-- Without a block for `mutextree` the mutex of `Lock` stays in the table. -/
theorem allocTree_leaks {post : Nat → Builder → Prop} {struct : List (Option Int)} (heap : w.heap output = some struct)
    (fields : struct.length = 4) (full : ¬ Usable w.heap (w.answers.headD 0)) (laid : Over base.kernel w.kernel [lock])
    (holds : ∀ w', post 0 w' → w'.kernel.mutex = base.kernel.mutex) :
    ¬ Ensures (allocTree t depth output (powordepth depth.toNat - 1)) w post := by
  intro done
  unfold allocTree at done
  let w₁ : Builder := ⟨w.kernel,w.heap,w.answers.tail,w.refusals⟩
  rw [Ensures.step_iff (malloc_run w _),malloc_full _ full,
    Ensures.step_iff (store_run (w := w₁) (i := mutextreeField) heap (fields ▸ (by decide : 1 < 4)) _),if_pos rfl,
    Ensures.step_iff (free_run (update_self _ _ _)),Ensures.pure_iff] at done
  have table := holds _ done
  change w.kernel.mutex = base.kernel.mutex at table
  obtain ⟨_,_,i,named⟩ := laid.present lock (by simp)
  obtain ⟨vacant,owner,entry⟩ := laid.new i (by simp [named])
  rw [table,vacant] at entry
  cases entry

end Whole

/-- `trnmnt_tree_alloc` gives a whole new tree or changes neither the mutex table nor the heap, exactly if it is
tidy. -/
theorem tree_alloc_all_or_nothing (w : Builder) (t : Slot) (depth : Int) (tab : Tabulated w.kernel)
    (null : w.heap 0 = none) :
    Ensures (trnmntTreeAlloc t depth) w (fun result w' =>
      result = 0 ∧ w'.kernel.mutex = w.kernel.mutex ∧ w'.heap = w.heap ∨
      result ≠ 0 ∧ ∃ lock nodes mutextree threadMap, Built w w' depth result lock nodes mutextree threadMap) ↔
      Tidy w depth := by
  unfold trnmntTreeAlloc Tidy
  rw [Ensures.step_iff (malloc_run w 4)]
  by_cases bad : depth ≤ 0 ∨ depth > 6
  · rw [if_pos bad,if_pos bad,Ensures.pure_iff]
    by_cases usable : Usable w.heap (w.answers.headD 0)
    · rw [malloc_usable 4 usable]
      refine iff_of_false ?_ (not_not.mpr usable)
      rintro (⟨_,_,same⟩ | ⟨nonzero,_⟩)
      · have live := (update_self _ _ _).symm.trans (congrFun same (w.answers.headD 0))
        rw [usable.2] at live
        contradiction
      · exact nonzero rfl
    · rw [malloc_full 4 usable]
      exact iff_of_true (.inl ⟨rfl,rfl,rfl⟩) usable
  rw [if_neg bad,if_neg bad]
  by_cases usable : Usable w.heap (w.answers.headD 0)
  swap
  · -- The depth is written through a null pointer.
    rw [malloc_full 4 usable]
    refine iff_of_false ?_ fun tidy => usable tidy.1
    rintro ⟨_,_,ran,_⟩
    simp [Bind.bind,StateT.bind,Build.store,Heap.store,null] at ran
  rw [malloc_usable 4 usable]
  obtain ⟨output,at_⟩ : ∃ output, w.answers.headD 0 = output := ⟨_,rfl⟩
  rw [at_] at usable ⊢
  let w₀ : Builder := ⟨w.kernel,update w.heap output (some (List.replicate 4 none)),w.answers.tail,w.refusals⟩
  have empty : w₀.heap output = some (List.replicate 4 none) := update_self _ _ _
  rw [Ensures.step_iff (store_run (w := w₀) (i := depthField) empty (show 3 < 4 by decide) depth)]
  let w₁ : Builder := ⟨w.kernel,update w.heap output (some [none,none,none,some depth]),w.answers.tail,w.refusals⟩
  have idem : update w₀.heap output (some ((List.replicate 4 none).set depthField (some depth))) = w₁.heap :=
    update_idem _ _ _
  rw [idem]
  have first : ahead w.kernel.nextmid w.kernel.nextmid = 0 := by simp [ahead]
  obtain ⟨lock,w₂,ran,heap,answers,grows,effect⟩ := mutexAlloc_spec (w := w₁) t tab (.refl tab)
    (by simp only [w₁,first]; decide)
  rw [Ensures.step_iff ran]
  have struct : w₂.heap output = some [none,none,none,some depth] := by
    rw [heap]
    exact update_self _ _ _
  rw [Ensures.step_iff (store_run (i := lockField) struct (show 0 < 4 by decide) lock)]
  have stored : update w₂.heap output (some ([none,none,none,some depth].set lockField (some lock))) =
      update w.heap output (some [some lock,none,none,some depth]) := by
    rw [heap]
    exact update_idem _ _ _
  rw [stored]
  rcases effect with ⟨failed,refused,table⟩ | ⟨got,granted,_,laid⟩
  · rw [if_pos failed]
    refine iff_of_true (.step (free_run (update_self _ _ _)) (.pure (.inl ⟨rfl,table.table,?_⟩)))
      ⟨usable,fun granted => absurd granted refused⟩
    simp only
    rw [update_idem,← usable.2,update_eq_self]
  · rw [if_neg got]
    let w₃ : Builder := ⟨w₂.kernel,update w.heap output (some [some lock,none,none,some depth]),
      w₂.answers,w₂.refusals⟩
    have next : w₃.answers.headD 0 = w.answers.tail.headD 0 := congrArg (List.headD · 0) answers
    by_cases second : Usable w.heap (w.answers.tail.headD 0) ∧ w.answers.tail.headD 0 ≠ output
    · refine iff_of_true ?_ ⟨usable,fun _ => second⟩
      exact allocTree_spec (w := w₃) t tab (by omega) usable.1 usable.2 rfl laid (by simpa [w₁,first] using grows)
        (next ▸ second.1) (next ▸ second.2)
    · refine iff_of_false ?_ fun tidy => second (tidy.2 granted)
      refine allocTree_leaks (w := w₃) t (update_self _ _ _) rfl ?_ laid ?_
      · rw [next]
        rintro ⟨nonzero,vacant⟩
        by_cases same : w.answers.tail.headD 0 = output
        · simp only [w₃,same,update_self] at vacant
          contradiction
        · simp only [w₃] at vacant
          rw [update_of_ne same] at vacant
          exact second ⟨⟨nonzero,vacant⟩,same⟩
      · rintro w' (⟨_,table,_⟩ | ⟨nonzero,_⟩)
        · exact table
        · exact absurd rfl nonzero

def builder (answers : List Nat) (refusals : List Bool) : Builder :=
  ⟨session [(1,0)] 0 0,fun _ => none,answers,refusals⟩

theorem builder_tabulated (answers : List Nat) (refusals : List Bool) : Tabulated (builder answers refusals).kernel :=
  tabulated_reached (session_start _ _ _ (by decide) (by decide)) (fun _ => rfl) (fun _ _ => rfl) .refl

/-- A tree of depth 1, and one for which the mutex of its node is refused. -/
theorem tree_alloc_all_or_nothing_both :
    (∃ w' lock nodes mutextree threadMap, trnmntTreeAlloc (1,0) 1 (builder [16,32,48] []) = some (16,w') ∧
      Built (builder [16,32,48] []) w' 1 16 lock nodes mutextree threadMap) ∧
    ∃ w', trnmntTreeAlloc (1,0) 1 (builder [16,32,48] [false,true]) = some (0,w') ∧
      w'.kernel.mutex = (builder [16,32,48] [false,true]).kernel.mutex ∧
      w'.heap = (builder [16,32,48] [false,true]).heap := by
  refine ⟨?_,?_⟩
  · obtain ⟨result,w',ran,post⟩ := (tree_alloc_all_or_nothing (builder [16,32,48] []) (1,0) 1 (builder_tabulated _ _)
      rfl).mpr ⟨⟨by decide,rfl⟩,fun _ => ⟨⟨by decide,rfl⟩,by decide⟩⟩
    have returned : (trnmntTreeAlloc (1,0) 1 (builder [16,32,48] [])).map Prod.fst = some 16 := by decide +kernel
    rw [ran] at returned
    obtain rfl : result = 16 := Option.some.inj returned
    rcases post with ⟨null,_⟩ | ⟨_,lock,nodes,mutextree,threadMap,built⟩
    · exact absurd null (by decide)
    · exact ⟨w',lock,nodes,mutextree,threadMap,ran,built⟩
  · obtain ⟨result,w',ran,post⟩ := (tree_alloc_all_or_nothing (builder [16,32,48] [false,true]) (1,0) 1
      (builder_tabulated _ _) rfl).mpr ⟨⟨by decide,rfl⟩,fun _ => ⟨⟨by decide,rfl⟩,by decide⟩⟩
    have returned : (trnmntTreeAlloc (1,0) 1 (builder [16,32,48] [false,true])).map Prod.fst = some 0 := by
      decide +kernel
    rw [ran] at returned
    obtain rfl : result = 0 := Option.some.inj returned
    rcases post with ⟨_,same⟩ | ⟨valid,_⟩
    · exact ⟨w',ran,same⟩
    · exact absurd rfl valid

/-- A bad depth loses the block of the record, a failed `malloc` of `mutextree` the mutex of `Lock`, and
after a failed first `malloc` the depth is written through the null pointer. -/
theorem tree_alloc_leaks :
    (∃ w', trnmntTreeAlloc (1,0) 7 (builder [16] []) = some (0,w') ∧ (builder [16] []).heap 16 = none ∧
      w'.heap 16 ≠ none) ∧
    (∃ w', trnmntTreeAlloc (1,0) 1 (builder [16,0] []) = some (0,w') ∧
      ((builder [16,0] []).kernel.mutex 0).state = .uninitialized ∧ (w'.kernel.mutex 0).state = .opened) ∧
    trnmntTreeAlloc (1,0) 1 (builder [0] []) = none := by
  refine ⟨?_,?_,?_⟩
  · have leaks : (trnmntTreeAlloc (1,0) 7 (builder [16] [])).map (fun (result,w') => (result,(w'.heap 16).isSome)) =
        some (0,true) := by decide +kernel
    obtain ⟨⟨result,w'⟩,ran,shown⟩ := Option.map_eq_some_iff.mp leaks
    obtain ⟨rfl,live⟩ := Prod.mk.inj shown
    exact ⟨w',ran,rfl,Option.isSome_iff_ne_none.mp live⟩
  · have leaks : (trnmntTreeAlloc (1,0) 1 (builder [16,0] [])).map
        (fun (result,w') => (result,(w'.kernel.mutex 0).state)) = some (0,.opened) := by decide +kernel
    obtain ⟨⟨result,w'⟩,ran,shown⟩ := Option.map_eq_some_iff.mp leaks
    obtain ⟨rfl,opened⟩ := Prod.mk.inj shown
    exact ⟨w',ran,rfl,opened⟩
  · have wild : (trnmntTreeAlloc (1,0) 1 (builder [0] [])).isNone = true := by decide +kernel
    exact Option.isNone_iff_eq_none.mp wild

end Kthreads
