import Mathlib.Data.Finset.Card
import Kthreads.Exec.Machine

/-! Files and directories and their blocks, from fs.c; a device, whose calls go to its driver, has none. A block is on
the disk or in the buffer cache, which agree, so it is kept once; the free map is kept as its bits. BSIZE is 512,
NDIRECT 12 and NINDIRECT 128. A result that is missing is a panic. -/
open Function (update update_apply update_self update_of_ne)

namespace Kthreads.Inodes

/-- An entry of a block of uints. -/
def word (block : Nat → UInt8) (i : Nat) : Nat :=
  Bytes.little [block (4*i),block (4*i+1),block (4*i+2),block (4*i+3)]

def setWord (block : Nat → UInt8) (i v : Nat) : Nat → UInt8 :=
  fun k => if k/4 = i then UInt8.ofNat (v/256^(k%4)) else block k

def memmove (block : Nat → UInt8) (k : Nat) (src : List UInt8) : Nat → UInt8 :=
  fun j => if k ≤ j then src.getD (j-k) (block j) else block j

/-- The inodes `I` are those of files and directories. -/
structure Fs (I : Type) where
  blocks : Nat
  used : Nat → Bool
  data : Nat → Nat → UInt8
  size : I → Nat
  addrs : I → Nat → Nat

namespace Fs
variable {I : Type}

def mark (s : Fs I) (b : Nat) : Fs I :=
  {s with used := update s.used b true, data := update s.data b fun _ => 0}

/-- A free block is marked and zeroed; there may be none. -/
def balloc (s : Fs I) : Option (Fs I × Nat) :=
  ((List.range s.blocks).find? fun b => !s.used b).map fun b => (s.mark b,b)

def bfree (s : Fs I) (b : Nat) : Option (Fs I) :=
  if s.used b then some {s with used := update s.used b false} else none

/-- The blocks of an inode: 12 is its indirect block, whose entries follow. -/
def addr (s : Fs I) (i : I) (k : Nat) : Nat :=
  if k ≤ 12 then s.addrs i k
  else if k ≤ 140 ∧ s.addrs i 12 ≠ 0 then word (s.data (s.addrs i 12)) (k-13)
  else 0

def freeAll (s : Fs I) (i : I) : List Nat → Option (Fs I)
  | [] => some s
  | k :: rest => (if s.addr i k = 0 then some s else s.bfree (s.addr i k)).bind fun m => m.freeAll i rest

section Code
variable [DecidableEq I]

def setAddr (s : Fs I) (i : I) (k b : Nat) : Fs I :=
  if k ≤ 12 then {s with addrs := update s.addrs i (update (s.addrs i) k b)}
  else {s with data := update s.data (s.addrs i 12) (setWord (s.data (s.addrs i 12)) (k-13) b)}

/-- The number of a block, which is allocated if it is 0. -/
def ensure (s : Fs I) (i : I) (k : Nat) : Option (Fs I × Nat) :=
  if s.addr i k = 0 then s.balloc.map fun r => (r.1.setAddr i k r.2,r.2) else some (s,s.addr i k)

def bmap (s : Fs I) (i : I) (bn : Nat) : Option (Fs I × Nat) :=
  if bn < 12 then s.ensure i bn
  else if bn-12 < 128 then (s.ensure i 12).bind fun r => r.1.ensure i (bn+1)
  else none

/-- The direct blocks, what the indirect block lists, and that block itself. -/
def itrunc (s : Fs I) (i : I) : Option (Fs I) := (s.freeAll i (List.range 12 ++ List.range' 13 128 ++ [12])).map fun m =>
  {m with size := update m.size i 0, addrs := update m.addrs i fun _ => 0}

/-- The loop of `writei`, of which every round fills one block or the rest of it. -/
def writeRounds : Nat → Fs I → I → Nat → List UInt8 → Option (Fs I)
  | 0,s,_,_,_ => some s
  | n+1,s,i,off,src =>
    if src = [] then some s
    else (s.bmap i (off/512)).bind fun r =>
      let m := min src.length (512-off%512)
      writeRounds n {r.1 with data := update r.1.data r.2 (memmove (r.1.data r.2) (off%512) (src.take m))} i (off+m)
        (src.drop m)

def writei (s : Fs I) (i : I) (off : Nat) (src : List UInt8) : Option (Fs I × Int) :=
  let last := (off+src.length) % 2^32
  if s.size i < off ∨ last < off then some (s,-1)
  else if 71680 < last then some (s,-1)
  else (s.writeRounds src.length i off src).map fun m =>
    let size := if 0 < src.length ∧ m.size i < off+src.length then off+src.length else m.size i
    ({m with size := update m.size i size},src.length)

def readRounds : Nat → Fs I → I → Nat → Nat → Option (Fs I × List UInt8)
  | 0,s,_,_,_ => some (s,[])
  | fuel+1,s,i,off,n =>
    if n = 0 then some (s,[])
    else (s.bmap i (off/512)).bind fun r =>
      let m := min n (512-off%512)
      (readRounds fuel r.1 i (off+m) (n-m)).map fun x => (x.1,(List.range' (off%512) m).map (r.1.data r.2) ++ x.2)

def readi (s : Fs I) (i : I) (off n : Nat) : Option (Fs I × Int × List UInt8) :=
  let last := (off+n) % 2^32
  if s.size i < off ∨ last < off then some (s,-1,[])
  else
    let n := if last > s.size i then s.size i-off else n
    (s.readRounds n i off n).map fun x => (x.1,n,x.2)

end Code

/-- The place of block `bn` of a file in its inode. -/
def place (bn : Nat) : Nat := if bn < 12 then bn else bn+1

/-- Every block in use has one owner; the blocks before `start` belong to no inode. -/
structure Sound (start : Nat) (s : Fs I) : Prop where
  boot : 0 < start
  small : s.blocks ≤ 2^32
  used : ∀ b, s.used b = true ↔ b < start ∨ b ≠ 0 ∧ ∃ i k, s.addr i k = b
  apart : ∀ i k j l, s.addr i k = s.addr j l → s.addr i k ≠ 0 → i = j ∧ k = l
  free : ∀ i k, s.addr i k ≠ 0 → start ≤ s.addr i k
  whole : ∀ i k, k < s.size i → s.addr i (place (k/512)) ≠ 0

/-- The bytes of an inode, also beyond its size. -/
def byte (s : Fs I) (i : I) (k : Nat) : UInt8 :=
  if s.addr i (place (k/512)) = 0 then 0 else s.data (s.addr i (place (k/512))) (k%512)

def content (s : Fs I) (i : I) : List UInt8 := (List.range (s.size i)).map (s.byte i)

def free (s : Fs I) : Nat := ((Finset.range s.blocks).filter fun b => s.used b = false).card

end Fs

inductive Call (I : Type)
  | writei (i : I) (off : Nat) (src : List UInt8) (uint : src.length < 2^32)
  | readi (i : I) (off n : Nat) (uint : n < 2^32)
  | itrunc (i : I)

namespace Call
variable {I : Type} [DecidableEq I]

def run : Call I → StateT (Fs I) Option (Int × List UInt8)
  | .writei i off src _ => fun s => (s.writei i off src).map fun r => ((r.2,[]),r.1)
  | .readi i off n _ => fun s => (s.readi i off n).map fun r => (r.2,r.1)
  | .itrunc i => fun s => (s.itrunc i).map fun m => ((0,[]),m)

/-- The same call when every inode has a list of bytes. -/
def onLists : Call I → StateM (I → List UInt8) (Int × List UInt8)
  | .writei i off src _ => fun c =>
    if off ≤ (c i).length ∧ off+src.length ≤ 71680 then
      ((src.length,[]),update c i ((c i).take off ++ src ++ (c i).drop (off+src.length)))
    else ((-1,[]),c)
  | .readi i off n _ => fun c => ((Exec.readi (c i) off n).elim (-1,[]) fun bytes => (bytes.length,bytes),c)
  | .itrunc i => fun c => ((0,[]),update c i [])

/-- Free blocks with which the call returns: two for each round of `writei`. -/
def needs : Call I → Nat
  | .writei _ off src _ => 2*min src.length ((off%512+src.length+511)/512)
  | _ => 0

/-- The call returns, and does what it does on lists. -/
def Agrees (start : Nat) (s : Fs I) (c : Call I) : Prop :=
  ∃ r m, c.run s = some (r,m) ∧ m.Sound start ∧ c.onLists s.content = (r,m.content)

end Call

section Outcome
variable {α β : Type} {x : Option α} {lost lost' : Prop} {P Q : α → Prop} {R : β → Prop} (first : x.elim lost P)
include first

theorem elim_mono (worse : lost → lost') (better : ∀ a, P a → Q a) : x.elim lost' Q := by
  cases x with
  | none => exact worse first
  | some a => exact better a first

theorem elim_bind {f : α → Option β} (next : ∀ a, P a → (f a).elim lost R) : (x.bind f).elim lost R := by
  cases x with
  | none => exact first
  | some a => exact next a first

end Outcome

theorem word_setWord (block : Nat → UInt8) (i j v : Nat) (small : v < 2^32) :
    word (setWord block i v) j = if j = i then v else word block j := by
  have byte (k : Nat) (low : k < 4) : setWord block i v (4*j+k) =
      if j = i then UInt8.ofNat (v/256^k) else block (4*j+k) := by
    simp only [setWord,show (4*j+k)/4 = j by omega,show (4*j+k)%4 = k by omega]
  have first := byte 0 (by decide)
  rw [Nat.add_zero] at first
  simp only [word,first,byte 1 (by decide),byte 2 (by decide),byte 3 (by decide)]
  by_cases here : j = i
  · simp only [here,if_true,Bytes.little,List.foldr_cons,List.foldr_nil,UInt8.toNat_ofNat',Nat.reducePow]
    omega
  · simp only [here,if_false]

namespace Fs
variable {I : Type}

theorem place_ne (bn : Nat) : place bn ≠ 12 := by
  unfold place
  split <;> omega

theorem place_inj {bn bn' : Nat} (same : place bn = place bn') : bn = bn' := by
  grind [place]

variable {start : Nat} {s s' m : Fs I} {i : I} {b k off : Nat} {src : List UInt8}

theorem addr_same {j : I} (l : Nat) (addrs : s'.addrs j = s.addrs j)
    (data : s'.data (s.addr j 12) = s.data (s.addr j 12)) : s'.addr j l = s.addr j l := by
  have data : s'.data (s.addrs j 12) = s.data (s.addrs j 12) := by simpa [addr] using data
  unfold addr
  rw [addrs,data]

theorem Sound.fresh (sound : s.Sound start) (unused : s.used b = false) :
    b ≠ 0 ∧ start ≤ b ∧ ∀ i k, s.addr i k ≠ b := by
  have used := sound.used b
  have boot := sound.boot
  grind

theorem Sound.congr (sound : s.Sound start) (addr : s'.addr = s.addr) (used : s'.used = s.used)
    (blocks : s'.blocks = s.blocks) (whole : ∀ i k, k < s'.size i → s.addr i (place (k/512)) ≠ 0) : s'.Sound start :=
  ⟨sound.boot,blocks ▸ sound.small,by rw [used,addr]; exact sound.used,by rw [addr]; exact sound.apart,
    by rw [addr]; exact sound.free,by rw [addr]; exact whole⟩

variable [DecidableEq I]

/-- The bytes from `off` on are now `src`, in blocks of the inode. -/
structure Wrote (s : Fs I) (i : I) (off : Nat) (src : List UInt8) (s' : Fs I) : Prop where
  size : s'.size = s.size
  kept : ∀ j k, s.addr j k ≠ 0 → s'.addr j k ≠ 0
  owned : ∀ k, off ≤ k → k < off+src.length → s'.addr i (place (k/512)) ≠ 0
  byte : ∀ j k, s'.byte j k = if j = i ∧ off ≤ k ∧ k < off+src.length then src.getD (k-off) 0 else s.byte j k

theorem Wrote.none (s : Fs I) (i : I) (off : Nat) : s.Wrote i off [] s :=
  ⟨rfl,fun _ _ => id,fun _ low high => absurd high (Nat.not_lt.mpr low),fun _ _ => (if_neg (by grind)).symm⟩

theorem Wrote.trans {more : List UInt8} (first : s.Wrote i off src m)
    (second : m.Wrote i (off+src.length) more s') : s.Wrote i off (src ++ more) s' := by
  refine ⟨second.size.trans first.size,fun j k owned => second.kept j k (first.kept j k owned),?_,?_⟩
  · intro k low high
    rw [List.length_append] at high
    by_cases earlier : k < off+src.length
    · exact second.kept i _ (first.owned k low earlier)
    · exact second.owned k (by omega) (by omega)
  · intro j k
    rw [second.byte,first.byte,List.length_append]
    by_cases earlier : k < off+src.length <;> grind

/-- A place gets a block of zeros. -/
theorem setAddr_addr (zero : s.data b = fun _ => 0) (small : b < 2^32) (none : s.addr i k = 0) (inside : k ≤ 140)
    (indirect : 12 < k → s.addr i 12 ≠ 0 ∧ ∀ j, s.addr j 12 = s.addr i 12 → j = i) (j : I) (l : Nat) :
    (s.setAddr i k b).addr j l = if j = i ∧ l = k then b else s.addr j l := by
  unfold setAddr
  by_cases low : k ≤ 12
  · rw [if_pos low]
    by_cases own : j = i
    · subst j
      by_cases here : l = k
      · simp [addr,here,low]
      · by_cases twelve : k = 12
        · -- the new indirect block has no entries
          subst k
          have empty (n : Nat) : word (fun _ => 0) n = 0 := rfl
          have unset : s.addrs i 12 = 0 := by simpa [addr] using none
          simp [addr,here,unset,zero,empty]
        · simp [addr,here,Ne.symm twelve]
    · simp [addr,own]
  · rw [if_neg low]
    obtain ⟨nonzero,single⟩ := indirect (Nat.lt_of_not_le low)
    have words := word_setWord (s.data (s.addrs i 12)) (k-13) (l-13) b small
    have apart := single j
    by_cases own : j = i <;> grind [addr]

/-- A place without a block gets a free one. -/
theorem Sound.grant (sound : s.Sound start) (off : Nat) (unused : s.used b = false) (below : b < s.blocks)
    (none : s.addr i k = 0) (inside : k ≤ 140) (indirect : 12 < k → s.addr i 12 ≠ 0) :
    let s' := (s.mark b).setAddr i k b
    (s'.Sound start ∧ s.Wrote i off [] s' ∧ s'.addr i k = b ∧ b ≠ 0) ∧ s.free ≤ s'.free+1 := by
  intro s'
  obtain ⟨nonzero,high,unowned⟩ := sound.fresh unused
  have now (j : I) (l : Nat) : s'.addr j l = if j = i ∧ l = k then b else s.addr j l := by
    have same : (s.mark b).addr = s.addr :=
      funext₂ fun j l => addr_same l rfl (update_of_ne (unowned j 12) ..)
    rw [← same] at none indirect ⊢
    refine setAddr_addr (update_self ..) (Nat.lt_of_lt_of_le below sound.small) none inside (fun entry => ?_) j l
    refine ⟨indirect entry,fun j shared => ?_⟩
    rw [same] at shared indirect
    exact (sound.apart i 12 j 12 shared.symm (indirect entry)).1.symm
  have kept (j : I) (l : Nat) (owned : s.addr j l ≠ 0) : s'.addr j l = s.addr j l := by grind
  have rest : s'.used = update s.used b true ∧ s'.blocks = s.blocks ∧ s'.size = s.size := by
    unfold s' setAddr
    split <;> exact ⟨rfl,rfl,rfl⟩
  have data (c : Nat) (apart : c ≠ s.addr i 12) : s'.data c = if c = b then fun _ => 0 else s.data c := by
    have apart : c ≠ s.addrs i 12 := by simpa [addr] using apart
    unfold s' setAddr
    split <;> simp [mark,update_apply,apart]
  refine ⟨⟨⟨sound.boot,rest.2.1 ▸ sound.small,?_,?_,?_,?_⟩,⟨rest.2.2,fun j l owned => kept j l owned ▸ owned,
    fun _ low high => absurd high (Nat.not_lt.mpr low),?_⟩,by rw [now,if_pos ⟨rfl,rfl⟩],nonzero⟩,?_⟩
  · intro c
    rw [rest.1,update_apply]
    have old := sound.used c
    grind
  · intro j l j' l' same owned
    rw [now,now] at same
    rw [now] at owned
    grind [sound.apart j l j' l']
  · intro j l owned
    rw [now] at owned ⊢
    have old := sound.free j l
    grind
  · intro j x inside
    have owned := sound.whole j x (rest.2.2 ▸ inside)
    rwa [kept j _ owned]
  · intro j x
    rw [if_neg (by grind)]
    unfold byte
    by_cases here : j = i ∧ place (x/512) = k
    · rw [now,if_pos here,if_neg nonzero,here.1,here.2,if_pos none,data b (unowned i 12).symm,if_pos rfl]
    · rw [now,if_neg here]
      by_cases owned : s.addr j (place (x/512)) = 0
      · rw [if_pos owned,if_pos owned]
      · rw [data _ fun same => place_ne _ (sound.apart j _ i 12 same owned).2,if_neg (unowned j _)]
  · refine (Finset.card_le_card fun c => ?_).trans (Finset.card_insert_le b _)
    simp only [Finset.mem_insert,Finset.mem_filter,rest,update_apply]
    grind

theorem Sound.ensure (sound : s.Sound start) (off : Nat) (inside : k ≤ 140) (indirect : 12 < k → s.addr i 12 ≠ 0) :
    (s.ensure i k).elim (s.free = 0) fun r =>
      (r.1.Sound start ∧ s.Wrote i off [] r.1 ∧ r.1.addr i k = r.2 ∧ r.2 ≠ 0) ∧ s.free ≤ r.1.free+1 := by
  unfold Fs.ensure
  split
  next none =>
    cases found : (List.range s.blocks).find? fun b => !s.used b with
    | none =>
      rw [balloc,found]
      simpa [Fs.free] using found
    | some b =>
      rw [balloc,found]
      exact sound.grant off (by simpa using List.find?_some found)
        (List.mem_range.mp (List.mem_of_find?_eq_some found)) none inside indirect
  next some => exact ⟨⟨sound,.none s i off,rfl,some⟩,Nat.le_succ _⟩

theorem Sound.bmap (sound : s.Sound start) (i : I) (off bn : Nat) (inside : bn < 140) :
    (s.bmap i bn).elim (s.free < 2) fun r =>
      (r.1.Sound start ∧ s.Wrote i off [] r.1 ∧ r.1.addr i (place bn) = r.2 ∧ r.2 ≠ 0) ∧ s.free ≤ r.1.free+2 := by
  unfold Fs.bmap place
  split
  next direct => exact elim_mono (sound.ensure off (by omega) (by omega)) (by omega) fun r => .imp_right (by omega)
  next =>
    rw [if_pos (by omega)]
    refine elim_bind (elim_mono (sound.ensure off (by omega) (by omega)) (by omega) fun _ => id) fun r found => ?_
    obtain ⟨⟨held,grown,block,nonzero⟩,left⟩ := found
    refine elim_mono (held.ensure off (by omega) fun _ => block ▸ nonzero) (by omega) fun r last => ?_
    exact ⟨⟨last.1.1,grown.trans last.1.2.1,last.1.2.2⟩,by omega⟩

/-- A block that is there is found, and nothing changes. -/
theorem bmap_owned {bn : Nat} (owned : s.addr i (place bn) ≠ 0) : s.bmap i bn = some (s,s.addr i (place bn)) := by
  have found (k : Nat) (owned : s.addr i k ≠ 0) : s.ensure i k = some (s,s.addr i k) := if_neg owned
  have indirect (k : Nat) (entry : 12 < k) (owned : s.addr i k ≠ 0) : k ≤ 140 ∧ s.addr i 12 ≠ 0 := by grind [addr]
  unfold Fs.bmap
  by_cases direct : bn < 12 <;> grind [place]

/-- Bytes are stored in a block of an inode. -/
theorem Sound.store (sound : s.Sound start) (src : List UInt8) (nonzero : s.addr i (place (off/512)) ≠ 0)
    (fits : off%512+src.length ≤ 512) :
    let b := s.addr i (place (off/512))
    let s' := {s with data := update s.data b (memmove (s.data b) (off%512) src)}
    s'.Sound start ∧ s.Wrote i off src s' := by
  intro b s'
  have addr : s'.addr = s.addr := by
    funext j l
    refine addr_same l rfl (update_of_ne (fun same => ?_) ..)
    exact place_ne _ (sound.apart i _ j 12 same.symm nonzero).2
  refine ⟨sound.congr addr rfl rfl sound.whole,rfl,fun j l => by rw [addr]; exact id,?_,?_⟩
  · intro k low high
    rwa [addr,show k/512 = off/512 by omega]
  · intro j k
    unfold byte
    rw [addr]
    by_cases inside : j = i ∧ off ≤ k ∧ k < off+src.length
    · rw [if_pos inside,inside.1,show k/512 = off/512 by omega,if_neg nonzero]
      simp only [s',b,memmove,update_self]
      grind
    · rw [if_neg inside]
      by_cases here : s.addr j (place (k/512)) = b
      · obtain ⟨rfl,same⟩ := sound.apart _ _ _ _ here (here ▸ nonzero)
        have block := place_inj same
        simp only [s',b,memmove,block,update_self]
        grind
      · rw [show s'.data _ = s.data _ from update_of_ne here ..]

theorem Sound.writeRounds (sound : s.Sound start) (n : Nat) (enough : src.length ≤ n) (inside : off+src.length ≤ 71680) :
    (s.writeRounds n i off src).elim (s.free < 2*min src.length ((off%512+src.length+511)/512)) fun s' =>
      s'.Sound start ∧ s.Wrote i off src s' := by
  induction n generalizing s off src with
  | zero =>
    obtain rfl := List.length_eq_zero_iff.mp (Nat.le_zero.mp enough)
    exact ⟨sound,.none s i off⟩
  | succ n ih =>
    unfold Fs.writeRounds
    split
    next empty =>
      rw [empty]
      exact ⟨sound,.none s i off⟩
    next some =>
      have positive := List.length_pos_iff.mpr some
      have length : (src.take (min src.length (512-off%512))).length = min src.length (512-off%512) := by simp
      refine elim_bind (elim_mono (sound.bmap i off (off/512) (by omega)) (by omega) fun _ => id) fun r found => ?_
      obtain ⟨⟨held,grown,here,nonzero⟩,left⟩ := found
      rw [← here] at nonzero ⊢
      obtain ⟨held,wrote⟩ := held.store (src.take (min src.length (512-off%512))) nonzero (by omega)
      have first := grown.trans wrote
      rw [List.nil_append] at first
      refine elim_mono (ih held ?_ ?_) (fun few => ?_) fun s' last => ⟨last.1,?_⟩
      · grind
      · grind
      · change r.1.free < _ at few
        rw [List.length_drop] at few
        omega
      · have whole := first.trans (by rw [length]; exact last.2)
        rwa [List.take_append_drop] at whole

theorem Wrote.spliced (wrote : s.Wrote i off src s') (begins : off ≤ s.size i) :
    (List.range (max (s.size i) (off+src.length))).map (s'.byte i) =
      (s.content i).take off ++ src ++ (s.content i).drop (off+src.length) := by
  apply List.ext_getElem
  · grind [content]
  · intro k below _
    simp only [content,List.getElem_map,List.getElem_range,List.getElem_append,wrote.byte]
    grind

theorem Sound.writei (sound : s.Sound start) (uint : src.length < 2^32) :
    let c := Call.writei i off src uint
    c.Agrees start s ∨ c.run s = none ∧ s.free < c.needs := by
  have length : (s.content i).length = s.size i := by simp [content]
  simp only [Call.Agrees,Call.run,Call.onLists,Fs.writei,length]
  by_cases room : off ≤ s.size i ∧ off+src.length ≤ 71680
  · rw [if_neg (by omega),if_neg (by omega),if_pos room]
    have rounds := sound.writeRounds (i := i) src.length (Nat.le_refl _) room.2
    cases written : s.writeRounds src.length i off src with
    | none => exact .inr ⟨rfl,by rwa [written] at rounds⟩
    | some m =>
      rw [written] at rounds
      obtain ⟨held,wrote⟩ := rounds
      have size : (if 0 < src.length ∧ m.size i < off+src.length then off+src.length else m.size i) =
          max (s.size i) (off+src.length) := by
        rw [wrote.size]
        split <;> omega
      simp only [Option.map_some,size]
      refine .inl ⟨_,_,rfl,held.congr rfl rfl rfl fun j k below => ?_,congrArg (Prod.mk _) (funext fun j => ?_)⟩
      · have owned := wrote.owned k
        have old := held.whole j k
        simp only [update_apply,wrote.size] at below old
        grind
      · by_cases own : j = i
        · subst j
          rw [update_self,← wrote.spliced room.1]
          simp only [content,update_self]
          rfl
        · rw [update_of_ne own]
          simp only [content,update_of_ne own,wrote.size]
          exact List.map_congr_left fun k _ => ((wrote.byte j k).trans (if_neg fun both => own both.1)).symm
  · rw [if_neg room]
    left
    split
    next => exact ⟨_,_,rfl,sound,rfl⟩
    next => rw [if_pos (by omega)]; exact ⟨_,_,rfl,sound,rfl⟩

theorem Sound.readRounds (sound : s.Sound start) (fuel n : Nat) (enough : n ≤ fuel) (inside : off+n ≤ s.size i) :
    s.readRounds fuel i off n = some (s,(List.range' off n).map (s.byte i)) := by
  induction fuel generalizing off n with
  | zero =>
    obtain rfl := Nat.le_zero.mp enough
    rfl
  | succ fuel ih =>
    unfold Fs.readRounds
    split
    next zero =>
      subst n
      rfl
    next positive =>
      simp only [bmap_owned (sound.whole i off (by omega)),Option.bind_some]
      obtain ⟨m,first⟩ : ∃ m, m = min n (512-off%512) := ⟨_,rfl⟩
      have parts : List.range' off n = List.range' off m ++ List.range' (off+m) (n-m) := by
        rw [List.range'_append_1,Nat.add_sub_cancel' (by omega)]
      rw [← first,ih (n-m) (by omega) (by omega),Option.map_some,parts,List.map_append]
      congr 3
      rw [List.range'_eq_map_range,List.range'_eq_map_range,List.map_map,List.map_map]
      refine List.map_congr_left fun k below => ?_
      have below := List.mem_range.mp below
      simp only [Function.comp_apply,byte]
      rw [show (off+k)/512 = off/512 by omega,show (off+k)%512 = off%512+k by omega,
        if_neg (sound.whole i off (by omega))]

theorem Sound.readi (sound : s.Sound start) (n : Nat) (uint : n < 2^32) :
    (Call.readi i off n uint).Agrees start s := by
  have length : (s.content i).length = s.size i := by simp [content]
  have wraps : Kthreads.uint (off+n) = (off+n)%2^32 := by
    unfold Kthreads.uint
    omega
  simp only [Call.Agrees,Call.run,Fs.readi,Call.onLists,Exec.readi,wraps,length,gt_iff_lt]
  by_cases outside : s.size i < off ∨ (off+n)%2^32 < off
  · rw [if_pos outside,if_pos outside]
    exact ⟨_,_,rfl,sound,rfl⟩
  · rw [if_neg outside,if_neg outside,show (off+n)%2^32 = off+n by omega]
    have slice : (if s.size i < off+n then some ((s.content i).drop off) else some (((s.content i).drop off).take n)) =
        some ((List.range' off (if s.size i < off+n then s.size i-off else n)).map (s.byte i)) := by
      split <;> congr 1 <;> apply List.ext_getElem <;> simp [content]
      omega
    rw [slice,sound.readRounds _ _ (Nat.le_refl _) (by split <;> omega)]
    exact ⟨_,_,rfl,sound,by simp⟩

omit [DecidableEq I] in
/-- Distinct blocks in use can be freed. -/
theorem freeAll_frees (apart : ∀ k l, s.addr i k = s.addr i l → s.addr i k ≠ 0 → k = l) (ks : List Nat)
    (distinct : ks.Nodup) (held : ∀ k ∈ ks, s.addr i k ≠ 0 → s.used (s.addr i k) = true) :
    ∃ used, s.freeAll i ks = some {s with used := used} ∧
      ∀ b, used b = true ↔ s.used b = true ∧ (b = 0 ∨ ∀ k ∈ ks, s.addr i k ≠ b) := by
  induction ks generalizing s with
  | nil => exact ⟨s.used,rfl,by simp⟩
  | cons k ks ih =>
    obtain ⟨first,distinct⟩ := List.nodup_cons.mp distinct
    unfold freeAll
    by_cases zero : s.addr i k = 0
    · obtain ⟨used,frees,left⟩ := ih apart distinct fun l member => held l (.tail _ member)
      exact ⟨used,by simpa [zero] using frees,by grind⟩
    · rw [if_neg zero,bfree,if_pos (held k (.head _) zero),Option.bind_some]
      have others (l : Nat) (member : l ∈ ks) (owned : s.addr i l ≠ 0) :
          update s.used (s.addr i k) false (s.addr i l) = true := by
        rw [update_of_ne fun same => first (apart l k same owned ▸ member)]
        exact held l (.tail _ member) owned
      obtain ⟨used,frees,left⟩ := ih (s := {s with used := update s.used (s.addr i k) false}) apart distinct others
      exact ⟨used,frees,fun b => (left b).trans (by simp only [update_apply]; grind [addr])⟩

theorem Sound.itrunc (sound : s.Sound start) (i : I) : (Call.itrunc i).Agrees start s := by
  obtain ⟨used,frees,left⟩ := freeAll_frees (fun k l same owned => (sound.apart i k i l same owned).2)
    (List.range 12 ++ List.range' 13 128 ++ [12]) (by decide +kernel)
    fun k _ owned => (sound.used _).mpr (.inr ⟨owned,i,k,rfl⟩)
  have every (k : Nat) (owned : s.addr i k ≠ 0) : k ∈ List.range 12 ++ List.range' 13 128 ++ [12] := by
    grind [addr]
  let m : Fs I := ⟨s.blocks,used,s.data,update s.size i 0,update s.addrs i fun _ => 0⟩
  have now (j : I) (l : Nat) : m.addr j l = if j = i then 0 else s.addr j l := by
    by_cases own : j = i <;> simp [addr,m,own]
  refine ⟨(0,[]),m,by simp only [Call.run,Fs.itrunc,frees]; rfl,⟨sound.boot,sound.small,?_,?_,?_,?_⟩,
    congrArg (Prod.mk _) (funext fun j => ?_)⟩
  · intro b
    simp only [now,m,left,sound.used]
    have early := sound.free i
    have apart := sound.apart i
    grind
  · intro j l j' l' same owned
    simp only [now] at same owned
    grind [sound.apart j l j' l']
  · intro j l owned
    simp only [now] at owned ⊢
    have old := sound.free j l
    grind
  · intro j k inside
    have old := sound.whole j k
    simp only [m,update_apply] at inside
    grind
  · by_cases own : j = i
    · simp [content,m,own]
    · have same : m.byte j = s.byte j := by
        funext k
        simp only [byte,now,if_neg own,m]
      simp [content,same,m,own]

theorem Sound.call (sound : s.Sound start) (c : Call I) :
    c.Agrees start s ∨ c.run s = none ∧ s.free < c.needs := by
  cases c with
  | writei i off src uint => exact sound.writei uint
  | readi i off n uint => exact .inl (sound.readi n uint)
  | itrunc i => exact .inl (sound.itrunc i)

theorem Sound.calls (sound : s.Sound start) (calls : List (Call I)) {results : List (Int × List UInt8)}
    (taken : (calls.mapM Call.run).run s = some (results,s')) :
    s'.Sound start ∧ (calls.mapM Call.onLists).run s.content = (results,s'.content) := by
  induction calls generalizing s results with
  | nil =>
    cases taken
    exact ⟨sound,rfl⟩
  | cons c calls ih =>
    rw [List.mapM_cons,StateT.run_bind] at taken ⊢
    obtain ⟨⟨r,m⟩,first,rest⟩ := Option.bind_eq_some_iff.mp taken
    obtain ⟨⟨later,last⟩,more,eq⟩ := Option.bind_eq_some_iff.mp rest
    cases eq
    rcases sound.call c with ⟨_,_,done,held,same⟩ | ⟨none,_⟩
    · cases done.symm.trans first
      obtain ⟨last,lists⟩ := ih held more
      refine ⟨last,?_⟩
      rw [show c.onLists.run s.content = (r,m.content) from same]
      exact congrArg (fun x => (r :: x.1,x.2)) lists
    · cases none.symm.trans first

/-- After any sequence of calls, the results and the contents are those of lists of bytes, and every call for which
there are enough free blocks returns and does what it does on lists. -/
theorem calls_on_lists (sound : s.Sound start) (calls : List (Call I)) {results : List (Int × List UInt8)}
    (taken : (calls.mapM Call.run).run s = some (results,s')) :
    (calls.mapM Call.onLists).run s.content = (results,s'.content) ∧ ∀ c : Call I, c.needs ≤ s'.free →
      ∃ r m, c.run s' = some (r,m) ∧ c.onLists s'.content = (r,m.content) := by
  obtain ⟨held,lists⟩ := sound.calls calls taken
  refine ⟨lists,?_⟩
  intro c enough
  obtain ⟨r,m,done,_,same⟩ := (held.call c).resolve_right fun lost => Nat.not_lt.mpr enough lost.2
  exact ⟨r,m,done,same⟩

/-- After any sequence of calls every block in use has one owner, and the blocks of an inode can be freed. -/
theorem blocks_owned_once (sound : s.Sound start) (calls : List (Call I)) {results : List (Int × List UInt8)}
    (taken : (calls.mapM Call.run).run s = some (results,s')) :
    (∀ b, s'.used b = true ↔ b < start ∨ b ≠ 0 ∧ ∃ i k, s'.addr i k = b) ∧
      (∀ i k j l, s'.addr i k = s'.addr j l → s'.addr i k ≠ 0 → i = j ∧ k = l) ∧
      (∀ i k, s'.addr i k ≠ 0 → start ≤ s'.addr i k) ∧ ∀ i, s'.itrunc i ≠ none := by
  obtain ⟨held,_⟩ := sound.calls calls taken
  refine ⟨held.used,held.apart,held.free,?_⟩
  intro i none
  obtain ⟨r,m,done,_⟩ := held.itrunc i
  simp [Call.run,none] at done

def emptyDisk : Fs Bool := ⟨5,fun b => b < 2,fun _ _ => 0,fun _ => 0,fun _ _ => 0⟩

theorem emptyDisk_sound : emptyDisk.Sound 2 := by
  have none (i : Bool) (k : Nat) : emptyDisk.addr i k = 0 := by simp [emptyDisk,addr]
  exact ⟨by decide,by decide,by grind [emptyDisk],by simp [none],by simp [none],by simp [emptyDisk]⟩

def twoFiles : List (Call Bool) :=
  [.writei true 0 [1,2,3] (by decide),.writei false 0 [7] (by decide),.readi true 1 9 (by decide)]

theorem twoFiles_taken : ∃ s', (twoFiles.mapM Call.run).run emptyDisk = some ([(3,[]),(1,[]),(2,[2,3])],s') ∧
    s'.addr true 0 = 2 := by
  have done : ((twoFiles.mapM Call.run).run emptyDisk).map (fun r => (r.1,r.2.addr true 0)) =
      some ([(3,[]),(1,[]),(2,[2,3])],2) := by decide
  obtain ⟨⟨r,s'⟩,taken,shown⟩ := Option.map_eq_some_iff.mp done
  obtain ⟨rfl,first⟩ := Prod.mk.inj shown
  exact ⟨s',taken,first⟩

theorem two_files_on_lists : ∃ s', (twoFiles.mapM Call.run).run emptyDisk = some ([(3,[]),(1,[]),(2,[2,3])],s') ∧
    s'.content true = [1,2,3] ∧ s'.content false = [7] := by
  obtain ⟨s',taken,_⟩ := twoFiles_taken
  have contents := congrArg Prod.snd (calls_on_lists emptyDisk_sound twoFiles taken).1
  exact ⟨s',taken,(congrFun contents true).symm,(congrFun contents false).symm⟩

theorem blocks_owned_once_two : ∃ s', (twoFiles.mapM Call.run).run emptyDisk = some ([(3,[]),(1,[]),(2,[2,3])],s') ∧
    s'.used 2 = true ∧ (∀ i k, s'.addr i k = 2 → i = true ∧ k = 0) ∧ s'.itrunc true ≠ none := by
  obtain ⟨s',taken,first⟩ := twoFiles_taken
  obtain ⟨used,apart,_,frees⟩ := blocks_owned_once emptyDisk_sound twoFiles taken
  refine ⟨s',taken,(used 2).mpr (.inr ⟨by decide,true,0,first⟩),?_,frees true⟩
  intro i k here
  exact apart i k true 0 (here.trans first.symm) (by simp [here])

end Fs
end Kthreads.Inodes
