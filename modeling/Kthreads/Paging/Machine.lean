import Kthreads.Lib.Interleave
import Kthreads.Vm.Pages

/-! Page directories in physical memory. `kalloc`, `kfree` and the functions of the virtual memory that
build and free page directories work on page frames of words, in which directories, page tables and user
pages are kept alike. Pages of physical memory are known by their numbers. A function whose value is
`none` has panicked. -/
open Function

namespace Kthreads.Paging

def pteP : Nat := 1

def pteW : Nat := 2

def pteU : Nat := 4

def present (w : Nat) : Bool := w % 2 == 1

def pteAddr (w : Nat) : Nat := w/pgsize

def pteFlags (w : Nat) : Nat := w % pgsize

def pdx (va : Nat) : Nat := va/(1024*pgsize) % 1024

def ptx (va : Nat) : Nat := va/pgsize % 1024

/-- `luck` says which of the next calls of `kalloc` fail although the list is not empty, because other
CPUs have emptied it for the moment. -/
structure Mem where
  freelist : List Nat
  frame : Nat → Nat → Nat
  luck : List Bool

structure Kmap where
  virt : Nat
  physStart : Nat
  physEnd : Nat
  perm : Nat

def Kmap.size (e : Kmap) : Nat := uint (e.physEnd-e.physStart)

/-- What the linker and the memory layout determine: the kernel's mappings, which lie above `KERNBASE`
and do not overlap, and the first page that `kfree` accepts. -/
structure Kernel where
  kmap : List Kmap
  lo : Nat
  above : ∀ e ∈ kmap, kernbase ≤ e.virt ∧ e.virt+e.size ≤ 4294967296
  whole : ∀ e ∈ kmap, e.virt % pgsize = 0 ∧ e.size % pgsize = 0 ∧ 0 < e.size
  apart : kmap.Pairwise fun e e' => e.virt+e.size ≤ e'.virt
  positive : 0 < lo

def extmem : Nat := 1048576

def kernlink : Nat := kernbase+extmem

def phystop : Nat := 234881024

def devspace : Nat := 4261412864

theorem Kmap.size_eq {e : Kmap} (up : e.physStart ≤ e.physEnd) (low : e.physEnd < 4294967296) :
    e.size = e.physEnd-e.physStart := by
  simp only [Kmap.size,uint]
  omega

/-- The table `kmap` of the kernel whose data begin at page `data`. -/
def kmap (data : Nat) : List Kmap :=
  [⟨kernbase,0,extmem,pteW⟩,⟨kernlink,extmem,data*pgsize,0⟩,⟨kernbase+data*pgsize,data*pgsize,phystop,pteW⟩,
    ⟨devspace,devspace,0,pteW⟩]

theorem kmap_sizes {data : Nat} (text : extmem < data*pgsize) (inside : data*pgsize < phystop) :
    (kmap data).map (fun e => (e.virt,e.size)) = [(kernbase,extmem),(kernlink,data*pgsize-extmem),
      (kernbase+data*pgsize,phystop-data*pgsize),(devspace,33554432)] := by
  have first := Kmap.size_eq (e := ⟨kernbase,0,extmem,pteW⟩) (by decide) (by decide)
  have second := Kmap.size_eq (e := ⟨kernlink,extmem,data*pgsize,0⟩) text.le (inside.trans (by decide))
  have third := Kmap.size_eq (e := ⟨kernbase+data*pgsize,data*pgsize,phystop,pteW⟩) inside.le
    (by simp only [phystop]; omega)
  have last : (⟨devspace,devspace,0,pteW⟩ : Kmap).size = 33554432 := by decide
  simp only [kmap,List.map_cons,List.map_nil,first,second,third,last,Nat.sub_zero]

/-- The kernel whose data begin at page `data` and that ends below page `lo`. -/
def kernel (data lo : Nat) (text : extmem < data*pgsize) (inside : data*pgsize < phystop) (after : data ≤ lo) :
    Kernel where
  kmap := kmap data
  lo := lo
  above := by
    have all : ∀ x ∈ (kmap data).map (fun e => (e.virt,e.size)), kernbase ≤ x.1 ∧ x.1+x.2 ≤ 4294967296 := by
      rw [kmap_sizes text inside]
      simp only [extmem,phystop] at text inside
      simp only [extmem,kernlink,kernbase,phystop,devspace,List.forall_mem_cons]
      exact ⟨by omega,by omega,by omega,by omega,by simp⟩
    exact fun e member => all _ (List.mem_map_of_mem member)
  whole := by
    have all : ∀ x ∈ (kmap data).map (fun e => (e.virt,e.size)),
        x.1 % pgsize = 0 ∧ x.2 % pgsize = 0 ∧ 0 < x.2 := by
      rw [kmap_sizes text inside]
      simp only [extmem,phystop,pgsize] at text inside
      simp only [extmem,kernlink,kernbase,phystop,devspace,pgsize,List.forall_mem_cons]
      exact ⟨by simp,⟨trivial,by omega⟩,by omega,by simp,by simp⟩
    exact fun e member => all _ (List.mem_map_of_mem member)
  apart := by
    have all : ((kmap data).map (fun e => (e.virt,e.size))).Pairwise fun x y => x.1+x.2 ≤ y.1 := by
      rw [kmap_sizes text inside]
      simp only [extmem,phystop] at text inside
      simp only [extmem,kernlink,kernbase,phystop,devspace,List.pairwise_cons,List.forall_mem_cons]
      exact ⟨⟨by omega,by omega,by omega,by simp⟩,⟨by omega,by omega,by simp⟩,⟨by omega,by simp⟩,by simp,.nil⟩
    exact List.pairwise_map.mp all
  positive := by
    simp only [extmem,pgsize] at text
    omega

namespace Mem

def write (m : Mem) (p : Nat) (i w : Nat) : Mem :=
  {m with frame := update m.frame p (update (m.frame p) i w)}

def fill (m : Mem) (p : Nat) (words : Nat → Nat) : Mem := {m with frame := update m.frame p words}

def kalloc (m : Mem) : Option Nat × Mem :=
  match m.luck,m.freelist with
  | false :: luck,_ => (none,{m with luck := luck})
  | _,[] => (none,{m with luck := m.luck.tail})
  | _,p :: rest => (some p,{m with freelist := rest, luck := m.luck.tail})

def walkpgdir (m : Mem) (d : Nat) (va : Nat) (alloc : Bool) : Option Nat × Mem :=
  if present (m.frame d (pdx va)) then (some (pteAddr (m.frame d (pdx va))),m)
  else if alloc then
    match m.kalloc with
    | (none,m') => (none,m')
    | (some t,m') => (some t,(m'.fill t fun _ => 0).write d (pdx va) (t*pgsize ||| pteP ||| pteW ||| pteU))
  else (none,m)

def mapPage (m : Mem) (d : Nat) (a pa perm : Nat) : Option (Bool × Mem) :=
  match m.walkpgdir d a true with
  | (none,m') => some (false,m')
  | (some t,m') =>
    if present (m'.frame t (ptx a)) then none
    else some (true,m'.write t (ptx a) (pa ||| perm ||| pteP))

def mapRounds (m : Mem) (d : Nat) (perm : Nat) : Nat → Nat → Nat → Option (Bool × Mem)
  | 0,_,_ => some (true,m)
  | n+1,a,pa =>
    match m.mapPage d a pa perm with
    | none => none
    | some (false,m') => some (false,m')
    | some (true,m') => m'.mapRounds d perm n (uint (a+pgsize)) (uint (pa+pgsize))

/-- The loop goes from the page of `va` up to that of `va+size-1`. -/
def mappages (m : Mem) (d : Nat) (va size pa perm : Nat) : Option (Bool × Mem) :=
  let a := va/pgsize*pgsize
  let last := uint (va+size-1)/pgsize*pgsize
  m.mapRounds d perm (uint (last-a)/pgsize+1) a pa

section Kernel
variable (k : Kernel)

/-- The junk that `kfree` fills a page with looks like present entries. -/
def kfree (m : Mem) (p : Nat) : Option Mem :=
  if k.lo ≤ p ∧ p*pgsize < phystop then
    some {m.fill p (fun _ => 16843009) with freelist := p :: m.freelist}
  else none

def deallocRounds (m : Mem) (d : Nat) (oldsz : Nat) : Nat → Nat → Option Mem
  | 0,_ => some m
  | n+1,a =>
    if a < oldsz then
      match (m.walkpgdir d a false).1 with
      | none => m.deallocRounds d oldsz n ((pdx a+1)*(1024*pgsize))
      | some t =>
        if present (m.frame t (ptx a)) then
          if pteAddr (m.frame t (ptx a)) = 0 then none
          else
            match m.kfree k (pteAddr (m.frame t (ptx a))) with
            | none => none
            | some m' => (m'.write t (ptx a) 0).deallocRounds d oldsz n (a+pgsize)
        else m.deallocRounds d oldsz n (a+pgsize)
    else some m

def deallocuvm (m : Mem) (d : Nat) (oldsz newsz : Nat) : Option (Nat × Mem) :=
  if oldsz ≤ newsz then some (oldsz,m)
  else (m.deallocRounds k d oldsz ((oldsz-pgroundup newsz)/pgsize+1) (pgroundup newsz)).map (newsz,·)

def freeTables (m : Mem) (d : Nat) : Nat → Nat → Option Mem
  | 0,_ => some m
  | n+1,i =>
    if present (m.frame d i) then
      match m.kfree k (pteAddr (m.frame d i)) with
      | none => none
      | some m' => m'.freeTables d n (i+1)
    else m.freeTables d n (i+1)

def freevm (m : Mem) (d : Nat) : Option Mem :=
  match m.deallocuvm k d kernbase 0 with
  | none => none
  | some (_,m') =>
    match m'.freeTables k d 1024 0 with
    | none => none
    | some m'' => m''.kfree k d

def mapKernel (m : Mem) (d : Nat) : List Kmap → Option (Bool × Mem)
  | [] => some (true,m)
  | e :: rest =>
    match m.mappages d e.virt e.size e.physStart e.perm with
    | none => none
    | some (false,m') => (m'.freevm k d).map (false,·)
    | some (true,m') => m'.mapKernel d rest

def setupkvm (m : Mem) : Option (Option Nat × Mem) :=
  match m.kalloc with
  | (none,m') => some (none,m')
  | (some d,m') =>
    match (m'.fill d fun _ => 0).mapKernel k d k.kmap with
    | none => none
    | some (false,m'') => some (none,m'')
    | some (true,m'') => some (some d,m'')

def allocRounds (m : Mem) (d : Nat) (oldsz newsz : Nat) : Nat → Nat → Option (Nat × Mem)
  | 0,_ => some (newsz,m)
  | n+1,a =>
    match m.kalloc with
    | (none,m') => (m'.deallocuvm k d newsz oldsz).map fun r => (0,r.2)
    | (some p,m') =>
      match (m'.fill p fun _ => 0).mappages d a pgsize (p*pgsize) (pteW ||| pteU) with
      | none => none
      | some (false,m'') =>
        match m''.deallocuvm k d newsz oldsz with
        | none => none
        | some (_,m₃) => (m₃.kfree k p).map (0,·)
      | some (true,m'') => m''.allocRounds d oldsz newsz n (a+pgsize)

def allocuvm (m : Mem) (d : Nat) (oldsz newsz : Nat) : Option (Nat × Mem) :=
  if kernbase ≤ newsz then some (0,m)
  else if newsz < oldsz then some (oldsz,m)
  else m.allocRounds k d oldsz newsz ((pgroundup newsz-pgroundup oldsz)/pgsize) (pgroundup oldsz)

/-- `clearpteu`, with all bits of a word but `PTE_U`. -/
def clearpteu (m : Mem) (d : Nat) (uva : Nat) : Option Mem :=
  match (m.walkpgdir d uva false).1 with
  | none => none
  | some t => some (m.write t (ptx uva) (m.frame t (ptx uva) &&& 4294967291))

def copyRounds (m : Mem) (pgdir d : Nat) : Nat → Nat → Option (Bool × Mem)
  | 0,_ => some (true,m)
  | n+1,i =>
    match (m.walkpgdir pgdir i false).1 with
    | none => none
    | some t =>
      if present (m.frame t (ptx i)) then
        match m.kalloc with
        | (none,m') => (m'.freevm k d).map (false,·)
        | (some p,m') =>
          match (m'.fill p (m'.frame (pteAddr (m.frame t (ptx i))))).mappages d i pgsize (p*pgsize)
              (pteFlags (m.frame t (ptx i))) with
          | none => none
          | some (false,m'') =>
            match m''.kfree k p with
            | none => none
            | some m₃ => (m₃.freevm k d).map (false,·)
          | some (true,m'') => m''.copyRounds pgdir d n (i+pgsize)
      else none

def copyuvm (m : Mem) (pgdir : Nat) (sz : Nat) : Option (Option Nat × Mem) :=
  match m.setupkvm k with
  | none => none
  | some (none,m') => some (none,m')
  | some (some d,m') =>
    match m'.copyRounds k pgdir d ((sz+(pgsize-1))/pgsize) 0 with
    | none => none
    | some (false,m'') => some (none,m'')
    | some (true,m'') => some (some d,m'')

end Kernel

end Mem

/-- The directories that there are, each with the size of its process. -/
structure State where
  mem : Mem
  dirs : List Nat
  sz : Nat → Nat

inductive Call
  | setupkvm
  | allocuvm (d : Nat) (newsz : Nat)
  | deallocuvm (d : Nat) (oldsz newsz : Nat)
  | copyuvm (d : Nat)
  | clearpteu (d : Nat) (uva : Nat)
  | freevm (d : Nat)

structure Action where
  call : Call
  luck : List Bool

/-- A call is about a directory that there is, and stays in the user part. -/
def Admissible (s : State) (a : Action) : Prop :=
  match a.call with
  | .setupkvm => True
  | .allocuvm d _ | .copyuvm d | .freevm d => d ∈ s.dirs
  | .deallocuvm d oldsz _ => d ∈ s.dirs ∧ oldsz ≤ kernbase
  | .clearpteu d uva => d ∈ s.dirs ∧ uva < 4294967296

instance (s : State) (a : Action) : Decidable (Admissible s a) := by
  rcases a with ⟨c,_⟩
  cases c <;> unfold Admissible <;> infer_instance

namespace State
variable (s : State)

def add (r : Option Nat × Mem) (sz : Nat) : Nat × State :=
  match r with
  | (none,m) => (0,{s with mem := m})
  | (some d,m) => (d,⟨m,d :: s.dirs,update s.sz d sz⟩)

/-- The size after `deallocuvm`; where it was given less than the size, it leaves a hole. -/
def shrunk (d : Nat) (oldsz newsz : Nat) : Nat := if s.sz d ≤ oldsz then min newsz (s.sz d) else s.sz d

end State

/-- A call with the value it returns. `allocuvm` and `copyuvm` are given the size of the process. -/
def call (k : Kernel) (s : State) (a : Action) : Option (Nat × State) :=
  let m := {s.mem with luck := a.luck}
  match a.call with
  | .setupkvm => (m.setupkvm k).map fun r => s.add r 0
  | .allocuvm d newsz => (m.allocuvm k d (s.sz d) newsz).map fun r =>
      (r.1,⟨r.2,s.dirs,if r.1 = 0 then s.sz else update s.sz d r.1⟩)
  | .deallocuvm d oldsz newsz => (m.deallocuvm k d oldsz newsz).map fun r =>
      (r.1,⟨r.2,s.dirs,update s.sz d (s.shrunk d oldsz newsz)⟩)
  | .copyuvm d => (m.copyuvm k d (s.sz d)).map fun r => s.add r (s.sz d)
  | .clearpteu d uva => (m.clearpteu d uva).map fun m' => (0,{s with mem := m'})
  | .freevm d => (m.freevm k d).map fun m' => (0,{s with mem := m', dirs := s.dirs.filter (· ≠ d)})

def step (k : Kernel) (s : State) (a : Action) : Option State := (call k s a).map Prod.snd

def State.boot (m : Mem) : State := ⟨m,[],fun _ => 0⟩

abbrev Reaches (k : Kernel) (m : Mem) (s : State) : Prop :=
  Interleave.Reaches (step k) Admissible (State.boot m) s

end Kthreads.Paging
