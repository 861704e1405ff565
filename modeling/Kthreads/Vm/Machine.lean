import Kthreads.Lib.Interleave
import Kthreads.Vm.Pages

/-! User memory of a process with several threads: `growproc`, `fork` and `exec` read and change its page
table while siblings rely on ranges that `fetchint`, `fetchstr` and `argptr` have accepted. The loops of
`allocuvm`, `deallocuvm` and `copyuvm` take one step for each page; `ptable.lock` is shown as far as
`growproc` of this process holds it. The processes that `fork` makes are given by the address spaces
that they start with. -/
open Function

namespace Kthreads

structure AddrSpace where
  pgdir : Pgdir
  sz : Nat

/-- The image of `exec`: the pages below its size, with their tables. -/
def Pgdir.image (sz : Nat) : Pgdir := ⟨fun i => i*(1024*pgsize) < sz,fun k => k*pgsize < sz⟩

theorem Pgdir.image_covers (sz : Nat) : (Pgdir.image sz).Covers sz := by
  intro k below
  have table : k/1024*(1024*pgsize) < sz := by
    rw [← Nat.mul_assoc]
    exact (Nat.mul_le_mul_right _ (Nat.div_mul_le_self k 1024)).trans_lt below
  simp [image,mapped,table,below]

/-- Where a thread is. `grow`, `undo` and `shrink` are the loops of `growproc` with the old and the
new size and the next address; `copy` is that of `copyuvm`, with the size that it was given. -/
inductive VmPc
  | gone
  | user
  | call
  | scan (addr ep : Nat)
  | grow (old new a : Nat)
  | undo (old new a : Nat)
  | shrink (old new a : Nat)
  | store (sz : Nat)
  | copy (d : Pgdir) (sz i : Nat)
  | child (d : Pgdir)
  | committed

inductive VmPanic
  | pteShouldExist | pageNotPresent | remap
  deriving DecidableEq

structure VmState (T : Type) where
  pgdir : Pgdir
  sz : Nat
  pc : T → VmPc
  spans : T → List Span
  lock : Option T
  children : List AddrSpace
  panicked : Option VmPanic

/-- What threads do. A step of a loop is told whether memory was found, the loop of `fetchstr`
whether and where the string ends, and `exec` the size of the image if it can load one. -/
inductive VmAction (T : Type)
  | enter (t : T)
  | fetchint (t : T) (addr : Nat)
  | argptr (t : T) (addr : Nat) (size : Nat)
  | fetchstr (t : T) (addr : Nat)
  | scanned (t : T) (length : Option Nat)
  | sbrk (t : T) (n : Int)
  | fork (t : T)
  | exec (t : T) (size : Option Nat)
  | run (t : T) (memory : Bool)
  | ret (t : T)
  | create (t : T) (u : T)
  | leave (t : T)

def VmPc.isGone : VmPc → Bool
  | .gone => true
  | _ => false

def VmPc.isCall : VmPc → Bool
  | .call => true
  | _ => false

namespace VmState
variable {T : Type} [DecidableEq T] (s : VmState T)

def goto (t : T) (c : VmPc) : VmState T := {s with pc := update s.pc t c}

def setSpans (t : T) (spans : List Span) : VmState T := {s with spans := update s.spans t spans}

/-- The range that a check accepts. `argptr` has fetched the address with `argint` before. -/
def accepts : VmAction T → Option (T × Span)
  | .fetchint t addr => if addr ≥ s.sz ∨ uint (addr+4) > s.sz then none else some (t,⟨addr,4⟩)
  | .argptr t addr size => if addr ≥ s.sz ∨ uint (addr+size) > s.sz then none else some (t,⟨addr,size⟩)
  | .scanned t (some length) =>
    match s.pc t with
    | .scan addr ep => if addr+length < ep then some (t,⟨addr,length+1⟩) else none
    | _ => none
  | _ => none

def check (a : VmAction T) : VmState T :=
  match s.accepts a with
  | some x => s.setSpans x.1 (x.2 :: s.spans x.1)
  | none => s

/-- Where `growproc` goes with the lock; a size beyond the user part is refused at once, and so is
`deallocuvm` returning 0. -/
def resize (n : Int) : Option VmPc :=
  let new := uint (s.sz+n)
  if 0 < n then
    if kernbase ≤ new then none
    else if new < s.sz then some (.store s.sz)
    else some (.grow s.sz new (pgroundup s.sz))
  else if n < 0 then
    if s.sz ≤ new then if s.sz = 0 then none else some (.store s.sz)
    else some (.shrink s.sz new (pgroundup new))
  else some (.store s.sz)

def growproc (t : T) (n : Int) : VmState T :=
  match s.resize n with
  | some c => {s with lock := some t}.goto t c
  | none => s

def run (t : T) (memory : Bool) : Option (VmState T) :=
  match s.pc t with
  | .grow old new a =>
    if a < new then
      if memory then
        match s.pgdir.mappages a with
        | none => some {s with panicked := some .remap}
        | some d => some ({s with pgdir := d}.goto t (.grow old new (a+pgsize)))
      else some (s.goto t (.undo old new (pgroundup old)))
    else some (s.goto t (.store new))
  | .undo old new a =>
    if a < new then
      let m := s.pgdir.unmap a
      some ({s with pgdir := m.1}.goto t (.undo old new m.2))
    else some ({s with lock := none}.goto t .call)
  | .shrink old new a =>
    if a < old then
      let m := s.pgdir.unmap a
      some ({s with pgdir := m.1}.goto t (.shrink old new m.2))
    else if new = 0 then some ({s with lock := none}.goto t .call)
    else some (s.goto t (.store new))
  | .store sz => some ({s with sz := sz, lock := none}.goto t .call)
  | .copy d sz i =>
    if i < sz then
      match s.pgdir.walkpgdir i with
      | none => some {s with panicked := some .pteShouldExist}
      | some false => some {s with panicked := some .pageNotPresent}
      | some true =>
        if memory then
          match d.mappages i with
          | none => some {s with panicked := some .remap}
          | some d' => some (s.goto t (.copy d' sz (i+pgsize)))
        else some (s.goto t .call)
    else some (s.goto t (.child d))
  | .child d => some ({s with children := ⟨d,s.sz⟩ :: s.children}.goto t .call)
  | _ => none

def start (a : AddrSpace) (t₀ : T) : VmState T where
  pgdir := a.pgdir
  sz := a.sz
  pc t := if t = t₀ then .user else .gone
  spans _ := []
  lock := none
  children := []
  panicked := none

end VmState

section Step
variable {T : Type} [DecidableEq T] [Fintype T]

def vmStep (s : VmState T) (a : VmAction T) : Option (VmState T) :=
  if s.panicked.isSome then none
  else match a with
    | .enter t =>
      match s.pc t with
      | .user => some (s.goto t .call)
      | _ => none
    | .fetchint t addr => if (s.pc t).isCall ∧ addr < 4294967296 then some (s.check a) else none
    | .argptr t addr size =>
      if (s.pc t).isCall ∧ addr < 4294967296 ∧ size < 2147483648 then some (s.check a) else none
    | .fetchstr t addr =>
      if (s.pc t).isCall then if addr ≥ s.sz then some s else some (s.goto t (.scan addr s.sz)) else none
    | .scanned t _ =>
      match s.pc t with
      | .scan _ _ => some ((s.check a).goto t .call)
      | _ => none
    | .sbrk t n =>
      if (s.pc t).isCall ∧ s.lock = none ∧ (∃ r ∈ s.spans t, r.size = 4) ∧ -2147483648 ≤ n ∧ n < 2147483648 then
        some (s.growproc t n)
      else none
    | .fork t => if (s.pc t).isCall then some (s.goto t (.copy .empty s.sz 0)) else none
    -- `exec` replaces the image when its siblings are gone
    | .exec t size =>
      if (s.pc t).isCall ∧ (∀ u, u ≠ t → (s.pc u).isGone) ∧ s.lock = none ∧ size.getD 0 < kernbase then
        match size with
        | none => some s
        | some sz => some ({s with pgdir := .image sz, sz := sz}.goto t .committed)
      else none
    | .run t memory => s.run t memory
    | .ret t =>
      match s.pc t with
      | .call | .committed => some ((s.setSpans t []).goto t .user)
      | _ => none
    | .create t u => if (s.pc t).isCall ∧ (s.pc u).isGone then some (s.goto u .user) else none
    | .leave t =>
      match s.pc t with
      | .user | .call | .scan _ _ => some ((s.setSpans t []).goto t .gone)
      | _ => none

end Step

end Kthreads
