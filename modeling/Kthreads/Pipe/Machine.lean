import Kthreads.Lib.Ring
import Kthreads.Lib.Interleave
import Mathlib.Tactic.ByContra

/-! The pipe of pipe.c. A step is what one thread does between taking and giving back `p->lock`:
a whole call, or the part of it up to a sleep. `sleep` gives the lock back and lets the
thread sleep in one go, since whoever wakes needs `ptable.lock`. -/
open Function

namespace Kthreads

abbrev Byte := BitVec 8

def pipeSize : Nat := 512

instance : NeZero pipeSize := ⟨by decide⟩

/-- Where a thread is, with the arguments of its call and, in `pipewrite`, the value of `i`. -/
inductive PipePc
  | user
  | readSleep (n : Int)
  | readWoken (n : Int)
  | writeSleep (addr : Nat → Byte) (n : Int) (i : Nat)
  | writeWoken (addr : Nat → Byte) (n : Int) (i : Nat)

structure Stored (T : Type) where
  thread : T
  call : Nat
  byte : Byte

structure Written (T : Type) where
  thread : T
  call : Nat
  addr : Nat → Byte
  n : Int
  result : Int

/-- `struct pipe` with the threads that use it. The last four fields record what has happened:
the number of calls of `pipewrite` that each thread has begun, the bytes stored and the bytes
returned by `piperead`, both in the order of `p->lock`, and the calls of `pipewrite` that have
returned. -/
structure PipeState (T P : Type) where
  data : Fin pipeSize → Byte
  nread : Nat
  nwrite : Nat
  readopen : Bool
  writeopen : Bool
  freed : Bool
  killed : P → Bool
  pc : T → PipePc
  calls : T → Nat
  stored : List (Stored T)
  taken : List Byte
  written : List (Written T)

namespace PipeState
variable {T P : Type} [DecidableEq T] (proc : T → P) (s : PipeState T P)

def Empty : Prop := s.nread = s.nwrite

def Full : Prop := s.nwrite = (s.nread+pipeSize) % 2^32

instance : Decidable s.Empty := inferInstanceAs (Decidable (_ = _))

instance : Decidable s.Full := inferInstanceAs (Decidable (_ = _))

def goto (t : T) (pc : PipePc) : PipeState T P := {s with pc := update s.pc t pc}

def wakeReaders : PipeState T P :=
  {s with pc := fun u => match s.pc u with
    | .readSleep n => .readWoken n
    | pc => pc}

def wakeWriters : PipeState T P :=
  {s with pc := fun u => match s.pc u with
    | .writeSleep addr n i => .writeWoken addr n i
    | pc => pc}

/-- `p->data[p->nwrite++ % PIPESIZE] = addr[i]` -/
def store (t : T) (byte : Byte) : PipeState T P :=
  {s with
    data := update s.data (Fin.ofNat pipeSize s.nwrite) byte
    nwrite := (s.nwrite+1) % 2^32
    stored := s.stored ++ [⟨t,s.calls t,byte⟩]}

def fill (s : PipeState T P) (t : T) (addr : Nat → Byte) : (left i : Nat) → PipeState T P × Nat
  | 0, i => (s,i)
  | left+1, i => if s.Full then (s,i) else fill (s.store t (addr i)) t addr left (i+1)

def writeReturn (t : T) (addr : Nat → Byte) (n result : Int) : PipeState T P :=
  {s with written := ⟨t,s.calls t,addr,n,result⟩ :: s.written}.goto t .user

/-- `pipewrite` from the loop test at `i` on. -/
def writeFrom (t : T) (addr : Nat → Byte) (n : Int) (i : Nat) : PipeState T P :=
  let filled := s.fill t addr (n.toNat-i) i
  if filled.2 < n.toNat then
    if filled.1.readopen = false ∨ filled.1.killed (proc t) = true then filled.1.writeReturn t addr n (-1)
    else filled.1.wakeReaders.goto t (.writeSleep addr n filled.2)
  else filled.1.wakeReaders.writeReturn t addr n n

def pipewrite (t : T) (addr : Nat → Byte) (n : Int) : PipeState T P :=
  writeFrom proc {s with calls := update s.calls t (s.calls t+1)} t addr n 0

def copy (s : PipeState T P) : Nat → PipeState T P
  | 0 => s
  | left+1 =>
    if s.Empty then s
    else copy {s with
      nread := (s.nread+1) % 2^32
      taken := s.taken ++ [s.data (Fin.ofNat pipeSize s.nread)]} left

/-- `piperead` from the test of its first loop on. -/
def piperead (t : T) (n : Int) : PipeState T P :=
  if s.Empty ∧ s.writeopen = true then
    if s.killed (proc t) then s.goto t .user else s.goto t (.readSleep n)
  else (s.copy n.toNat).wakeWriters.goto t .user

/-- `pipeclose`; when both ends are closed it frees the page. -/
def pipeclose (writable : Bool) : PipeState T P :=
  let closed := if writable then {s with writeopen := false}.wakeReaders else {s with readopen := false}.wakeWriters
  if closed.readopen = false ∧ closed.writeopen = false then {closed with freed := true} else closed

def kill [DecidableEq P] (p : P) : PipeState T P :=
  {s with
    killed := update s.killed p true
    pc := fun u => match s.pc u with
      | .readSleep n => if proc u = p then .readWoken n else .readSleep n
      | .writeSleep addr n i => if proc u = p then .writeWoken addr n i else .writeSleep addr n i
      | pc => pc}

end PipeState

/-- One section under `p->lock`, a `kill`, or the end of a thread that was told to die while it slept. -/
inductive PipeAction (T P : Type)
  | pipewrite (t : T) (addr : Nat → Byte) (n : Int)
  | piperead (t : T) (n : Int)
  | resume (t : T)
  | pipeclose (writable : Bool)
  | kill (p : P)
  | die (t : T)

section Step
variable {T P : Type} [DecidableEq T] [DecidableEq P] (proc : T → P)

def PipePc.inside : PipePc → Bool
  | .user => false
  | _ => true

/-- One step. Nobody is left on a page that has been given back. -/
def pipeStep (s : PipeState T P) (a : PipeAction T P) : Option (PipeState T P) :=
  if s.freed then none
  else match a with
    | .pipewrite t addr n => if (s.pc t).inside then none else some (s.pipewrite proc t addr n)
    | .piperead t n => if (s.pc t).inside then none else some (s.piperead proc t n)
    | .resume t =>
      match s.pc t with
      | .readWoken n => some (s.piperead proc t n)
      | .writeWoken addr n i => some (s.writeFrom proc t addr n i)
      | _ => none
    | .pipeclose writable => some (s.pipeclose writable)
    | .kill p => some (s.kill proc p)
    | .die t => if (s.pc t).inside then some (s.goto t .user) else none

/-- `pipealloc`: both ends open, nothing in the pipe. What the page holds does not matter. -/
def PipeState.alloc (data : Fin pipeSize → Byte) : PipeState T P where
  data := data
  nread := 0
  nwrite := 0
  readopen := true
  writeopen := true
  freed := false
  killed _ := false
  pc _ := .user
  calls _ := 0
  stored := []
  taken := []
  written := []

abbrev PipeReaches (guard : PipeState T P → PipeAction T P → Prop) (data : Fin pipeSize → Byte)
    (s : PipeState T P) : Prop :=
  Interleave.Reaches (pipeStep proc) guard (PipeState.alloc data) s

end Step

end Kthreads
