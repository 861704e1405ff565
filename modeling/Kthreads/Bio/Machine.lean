import Kthreads.Kernel.State
import Kthreads.Lib.Chain
import Kthreads.Lib.Interleave

/-! The buffer cache of `bio.c` over the disk of `memide.c`: its buffers, the list that orders them and the
calls in progress. -/
open Function

namespace Kthreads.Bio

/-- A `struct buf`: one of `bcache.buf`, or `bcache.head`. -/
abbrev Buf := Option (Fin nbuf)

def head : Buf := none

/-- How far a call has come with its buffer: `bget` has counted it, `acquiresleep` has locked it, `brelse`
has unlocked it. -/
inductive Phase
  | got
  | held
  | dropped
  deriving DecidableEq

/-- What `bread` is working on for a caller: its buffer and the block asked for. -/
structure Use where
  buf : Buf
  blockno : Nat
  phase : Phase
  deriving DecidableEq

inductive Panic
  | bgetNoBuffers
  | iderwBufNotLocked
  | iderwNothingToDo
  | iderwRequestNotForDisk1
  | iderwBlockOutOfRange
  | bwrite
  | brelse
  deriving DecidableEq

/-- `U` are the callers, one for each buffer that a thread may have at a time; `C` is what a block holds. -/
structure Cache (U C : Type) where
  next : Buf → Buf
  prev : Buf → Buf
  dev : Buf → Nat
  blockno : Buf → Nat
  refcnt : Buf → Nat
  valid : Buf → Bool
  dirty : Buf → Bool
  data : Buf → C
  lock : Buf → Option U
  use : U → Option Use
  disk : Nat → C
  disksize : Nat
  panic : Option Panic

namespace Cache
variable {U C : Type} [DecidableEq U]

def link (s : Cache U C) (b : Buf) : Cache U C :=
  let next := update s.next b (s.next head)
  let prev := update s.prev b head
  {s with prev := update prev (next head) b, next := update next head b}

def unlink (s : Cache U C) (b : Buf) : Cache U C :=
  let prev := update s.prev (s.next b) (s.prev b)
  {s with prev := prev, next := update s.next (prev b) (s.next b)}

def start (disk : Nat → C) (disksize : Nat) (data : Buf → C) : Cache U C where
  next _ := head
  prev _ := head
  dev _ := 0
  blockno _ := 0
  refcnt _ := 0
  valid _ := false
  dirty _ := false
  data := data
  lock _ := none
  use _ := none
  disk := disk
  disksize := disksize
  panic := none

def binit (s : Cache U C) : Cache U C :=
  ((List.finRange nbuf).map some).foldl link
    {s with prev := update s.prev head head, next := update s.next head head}

/-- The first part of `bget`, under `bcache.lock`. -/
def bget (s : Cache U C) (u : U) (dev blockno : Nat) : Except Panic (Cache U C) :=
  match Chain.walk s.next head (fun b => s.dev b == dev && s.blockno b == blockno) (nbuf+1) (s.next head) with
  | some b => .ok {s with
      refcnt := update s.refcnt b (s.refcnt b+1)
      use := update s.use u (some ⟨b,blockno,.got⟩)}
  | none =>
    match Chain.walk s.prev head (fun b => s.refcnt b == 0 && !s.dirty b) (nbuf+1) (s.prev head) with
    | some b => .ok {s with
        dev := update s.dev b dev
        blockno := update s.blockno b blockno
        valid := update s.valid b false
        dirty := update s.dirty b false
        refcnt := update s.refcnt b 1
        use := update s.use u (some ⟨b,blockno,.got⟩)}
    | none => .error .bgetNoBuffers

def iderw (s : Cache U C) (u : U) (b : Buf) : Except Panic (Cache U C) :=
  if s.lock b ≠ some u then .error .iderwBufNotLocked
  else if s.valid b = true ∧ s.dirty b = false then .error .iderwNothingToDo
  else if s.dev b ≠ 1 then .error .iderwRequestNotForDisk1
  else if s.disksize ≤ s.blockno b then .error .iderwBlockOutOfRange
  else if s.dirty b = true then .ok {s with
    dirty := update s.dirty b false
    disk := update s.disk (s.blockno b) (s.data b)
    valid := update s.valid b true}
  else .ok {s with
    data := update s.data b (s.disk (s.blockno b))
    valid := update s.valid b true}

/-- The end of `bget`, when the buffer is not locked, and the rest of `bread`. -/
def enter (s : Cache U C) (u : U) (b : Buf) (blockno : Nat) : Except Panic (Cache U C) :=
  let s' := {s with lock := update s.lock b (some u), use := update s.use u (some ⟨b,blockno,.held⟩)}
  if s.valid b = true then .ok s' else s'.iderw u b

/-- A caller fills the buffer and calls `log_write`, which pins it. -/
def logWrite (s : Cache U C) (b : Buf) (c : C) : Cache U C :=
  {s with data := update s.data b c, dirty := update s.dirty b true}

/-- A caller fills the buffer and calls `bwrite`. -/
def bwrite (s : Cache U C) (u : U) (b : Buf) (c : C) : Except Panic (Cache U C) :=
  if s.lock b ≠ some u then .error .bwrite
  else iderw {s with data := update s.data b c, dirty := update s.dirty b true} u b

def releasesleep (s : Cache U C) (u : U) (b : Buf) (blockno : Nat) : Except Panic (Cache U C) :=
  if s.lock b ≠ some u then .error .brelse
  else .ok {s with
    lock := update s.lock b none, use := update s.use u (some ⟨b,blockno,.dropped⟩)}

def brelse (s : Cache U C) (u : U) (b : Buf) : Cache U C :=
  let s' := {s with refcnt := update s.refcnt b (s.refcnt b-1), use := update s.use u none}
  if s'.refcnt b = 0 then (s'.unlink b).link b else s'

def settle (s : Cache U C) : Except Panic (Cache U C) → Cache U C
  | .ok s' => s'
  | .error p => {s with panic := some p}

end Cache

inductive Action (U C : Type)
  | bget (u : U) (blockno : Nat)
  | enter (u : U)
  | logWrite (u : U) (c : C)
  | bwrite (u : U) (c : C)
  | releasesleep (u : U)
  | brelse (u : U)

def Cache.step {U C : Type} [DecidableEq U] (s : Cache U C) (a : Action U C) : Option (Cache U C) :=
  if s.panic = none then
    match a with
    | .bget u blockno => if (s.use u).isNone then some (s.settle (s.bget u 1 blockno)) else none
    | .enter u =>
      match s.use u with
      | some ⟨b,blockno,.got⟩ => if s.lock b = none then some (s.settle (s.enter u b blockno)) else none
      | _ => none
    | .logWrite u c =>
      match s.use u with
      | some ⟨b,_,.held⟩ => some (s.logWrite b c)
      | _ => none
    | .bwrite u c =>
      match s.use u with
      | some ⟨b,_,.held⟩ => some (s.settle (s.bwrite u b c))
      | _ => none
    | .releasesleep u =>
      match s.use u with
      | some ⟨b,blockno,.held⟩ => some (s.settle (s.releasesleep u b blockno))
      | _ => none
    | .brelse u =>
      match s.use u with
      | some ⟨b,_,.dropped⟩ => some (s.brelse u b)
      | _ => none
  else none

/-- The cache, and the content that was last put in each block by a caller of `log_write` or `bwrite`. -/
structure Run (U C : Type) where
  cache : Cache U C
  put : Nat → Option C

def Cache.puts {U C : Type} (s : Cache U C) : Action U C → Option (Nat × C)
  | .logWrite u c | .bwrite u c => (s.use u).map fun x => (s.blockno x.buf,c)
  | _ => none

def Run.step {U C : Type} [DecidableEq U] (r : Run U C) (a : Action U C) : Option (Run U C) :=
  (r.cache.step a).map fun s => ⟨s,match r.cache.puts a with
    | some (n,c) => update r.put n (some c)
    | none => r.put⟩

def Reaches {U C : Type} [DecidableEq U] (disk : Nat → C) (disksize : Nat) (data : Buf → C) : Run U C → Prop :=
  Interleave.Reaches Run.step (fun _ _ => True) ⟨(Cache.start disk disksize data).binit,fun _ => none⟩

end Kthreads.Bio
