import Mathlib.Data.Fintype.Basic
import Mathlib.Data.List.FinRange
import Mathlib.Logic.Function.Basic
import Kthreads.Kernel.State
import Kthreads.Lib.Interleave

/-! Current directories and the references of the inode cache. Reading `p->cwd`, what is done under
`icache.lock` and storing `p->cwd` are steps of their own. What a directory contains is up to the
run: a lookup is told what `dirlookup` has found. Waits for sleep locks and for the log are not
shown; a thread that was told to die ends there. -/
open Function

namespace Kthreads

abbrev InoIx := Fin ninode

/-- An entry of the inode cache; the device is always `ROOTDEV`. -/
structure CacheEntry where
  inum : Nat
  ref : Int

def rootIno : Nat := 1

/-- What a path is looked up for: to go there, to open it as a file, or for something that drops
the reference in the end. -/
inductive LookupUse (F : Type)
  | chdir
  | open (k : F)
  | visit

/-- Where a thread is. In `walk` and after it `namex` has a reference to the entry `e`, obtained for
the inode `i`; `next` has the result of `dirlookup` as well; `put` is a call of `iput`. -/
inductive CwdPc (T P F : Type)
  | gone
  | user
  | cwdRead (use : LookupUse F)
  | cwdDup (e : InoIx) (use : LookupUse F)
  | walk (e : InoIx) (i : Nat) (use : LookupUse F)
  | next (e : InoIx) (e' : InoIx) (i' : Nat) (use : LookupUse F)
  | put (e : InoIx)
  | chdirRead (e : InoIx) (i : Nat)
  | chdirDrop (old : InoIx) (e : InoIx) (i : Nat)
  | chdirStore (e : InoIx) (i : Nat)
  | forkRead (np : P) (nt : T)
  | forkDup (np : P) (nt : T) (e : InoIx)
  | forkStore (np : P) (nt : T) (e : InoIx) (i : Nat)
  | forkEnd (np : P) (nt : T)
  | exitRead
  | exitDrop (e : InoIx)
  | exitStore

inductive CwdSlot
  | unused | embryo | used
  deriving DecidableEq

/-- `setTo` records the inode that `cwd` was set to; `file` is the inodes of open files. -/
structure CwdState (T P F : Type) where
  entry : InoIx → CacheEntry
  cwd : P → Option InoIx
  setTo : P → Nat
  file : F → Option InoIx
  slot : P → CwdSlot
  pc : T → CwdPc T P F
  panicked : Bool

inductive CwdCall (T P F : Type)
  | lookup (absolute : Bool) (use : LookupUse F)
  | close (k : F)
  | fork (np : P) (nt : T)
  | exit
  | create (u : T)

inductive LookupStep
  | fail
  | next (inum : Nat)
  | done

inductive CwdAction (T P F : Type)
  | start (t : T) (call : CwdCall T P F)
  | run (t : T) (outcome : LookupStep)
  | die (t : T)

def CwdPc.isGone {T P F : Type} : CwdPc T P F → Bool
  | .gone => true
  | _ => false

namespace CwdState
variable {T P F : Type} [DecidableEq T] [DecidableEq P] [DecidableEq F] (proc : T → P) (s : CwdState T P F)

def ref (e : InoIx) : Int := (s.entry e).ref

def goto (t : T) (c : CwdPc T P F) : CwdState T P F := {s with pc := update s.pc t c}

def setRef (e : InoIx) (ref : Int) : CwdState T P F :=
  {s with entry := update s.entry e {s.entry e with ref := ref}}

/-- The entry that `iget` finds for an inode, or recycles for it. -/
def iget (inum : Nat) : Option (InoIx × CwdState T P F) :=
  match (List.finRange ninode).find? (fun e => 0 < s.ref e ∧ (s.entry e).inum = inum) with
  | some e => some (e,s.setRef e (s.ref e+1))
  | none =>
    match (List.finRange ninode).find? (fun e => s.ref e = 0) with
    | some e => some (e,{s with entry := update s.entry e ⟨inum,1⟩})
    | none => none

def idup (e : InoIx) : CwdState T P F := s.setRef e (s.ref e+1)

def iput (e : InoIx) : CwdState T P F := s.setRef e (s.ref e-1)

def igetThen (t : T) (inum : Nat) (c : InoIx → CwdPc T P F) : CwdState T P F :=
  match s.iget inum with
  | some (e,s') => s'.goto t (c e)
  | none => {s with panicked := true}

/-- The first step of a call. `exit` goes on when the other threads of the process have ended. -/
def enter [Fintype T] (t : T) : CwdCall T P F → Option (CwdState T P F)
  | .lookup absolute use =>
    if absolute then some (s.igetThen t rootIno (.walk · rootIno use)) else some (s.goto t (.cwdRead use))
  | .close k =>
    match s.file k with
    | none => none
    | some e => some ({s with file := update s.file k none}.goto t (.put e))
  | .fork np nt =>
    if s.slot np = .unused ∧ proc nt = np then
      some ({s with slot := update s.slot np .embryo}.goto t (.forkRead np nt))
    else none
  | .exit =>
    if ∀ u, u ≠ t → proc u = proc t → (s.pc u).isGone = true then some (s.goto t .exitRead) else none
  | .create u => if proc u = proc t ∧ (s.pc u).isGone = true then some (s.goto u .user) else none

/-- The next step of a call. A null `cwd` is not followed. -/
def code (t : T) (outcome : LookupStep) : Option (CwdState T P F) :=
  match s.pc t with
  | .gone | .user => none
  | .cwdRead use => (s.cwd (proc t)).map fun e => s.goto t (.cwdDup e use)
  | .cwdDup e use => some ((s.idup e).goto t (.walk e (s.entry e).inum use))
  | .walk e i use =>
    match outcome with
    | .fail => some (s.goto t (.put e))
    | .next inum => some (s.igetThen t inum (.next e · inum use))
    | .done =>
      match use with
      | .chdir => some (s.goto t (.chdirRead e i))
      | .open k =>
        if s.file k = none then some ({s with file := update s.file k (some e)}.goto t .user)
        else none
      | .visit => some (s.goto t (.put e))
  | .next e e' i' use => some ((s.iput e).goto t (.walk e' i' use))
  | .put e => some ((s.iput e).goto t .user)
  | .chdirRead e i =>
    match outcome with
    | .fail => some (s.goto t (.put e))
    | _ => (s.cwd (proc t)).map fun old => s.goto t (.chdirDrop old e i)
  | .chdirDrop old e i => some ((s.iput old).goto t (.chdirStore e i))
  | .chdirStore e i =>
    some ({s with
      cwd := update s.cwd (proc t) (some e)
      setTo := update s.setTo (proc t) i}.goto t .user)
  | .forkRead np nt => (s.cwd (proc t)).map fun e => s.goto t (.forkDup np nt e)
  | .forkDup np nt e => some ((s.idup e).goto t (.forkStore np nt e (s.entry e).inum))
  | .forkStore np nt e i =>
    some ({s with
      cwd := update s.cwd np (some e)
      setTo := update s.setTo np i}.goto t (.forkEnd np nt))
  | .forkEnd np nt => some (({s with slot := update s.slot np .used}.goto t .user).goto nt .user)
  | .exitRead => (s.cwd (proc t)).map fun e => s.goto t (.exitDrop e)
  | .exitDrop e => some ((s.iput e).goto t .exitStore)
  | .exitStore =>
    some ({s with
      cwd := update s.cwd (proc t) none
      slot := update s.slot (proc t) .unused}.goto t .gone)

/-- A thread ends in user code or where it sleeps: before a directory is locked, in `iput`, or in
`end_op` between the drop and the store of `sys_chdir`. -/
def die (t : T) : Option (CwdState T P F) :=
  match s.pc t with
  | .user | .walk _ _ _ | .next _ _ _ _ | .put _ | .chdirRead _ _ | .chdirDrop _ _ _ | .chdirStore _ _ =>
    some (s.goto t .gone)
  | _ => none

end CwdState

section Step
variable {T P F : Type} [DecidableEq T] [DecidableEq P] [DecidableEq F] [Fintype T] (proc : T → P)

def cwdStep (s : CwdState T P F) (a : CwdAction T P F) : Option (CwdState T P F) :=
  if s.panicked then none
  else match a with
    | .start t call =>
      match s.pc t with
      | .user => s.enter proc t call
      | _ => none
    | .run t outcome => s.code proc t outcome
    | .die t => s.die t

def CwdState.boot (t₀ : T) : CwdState T P F where
  entry e := if e = 0 then ⟨rootIno,1⟩ else ⟨0,0⟩
  cwd p := if p = proc t₀ then some 0 else none
  setTo _ := rootIno
  file _ := none
  slot p := if p = proc t₀ then .used else .unused
  pc t := if t = t₀ then .user else .gone
  panicked := false

abbrev CwdReaches (guard : CwdState T P F → CwdAction T P F → Prop) (t₀ : T) (s : CwdState T P F) : Prop :=
  Interleave.Reaches (cwdStep proc) guard (CwdState.boot proc t₀) s

end Step

end Kthreads
