import Kthreads.Paging.Calls
import Kthreads.Lib.Bytes

/-! The image that `exec` builds: the segments of the program, and the stack with the arguments. What is
read through a null pointer, if it can be read, is a parameter of `uva2ka` and of what calls it. -/
namespace Kthreads.Exec
open Paging

def maxarg : Nat := 32

def elfMagic : Nat := 1179403647

/-- `sizeof(struct elfhdr)` and `sizeof(struct proghdr)`. -/
def elfhdrSize : Nat := 52

def proghdrSize : Nat := 32

def readi (file : List UInt8) (off n : Nat) : Option (List UInt8) :=
  if off > file.length ∨ uint (off+n) < off then none
  else if off+n > file.length then some (file.drop off)
  else some ((file.drop off).take n)

def field (bytes : List UInt8) (start size : Nat) : Nat := Bytes.little ((bytes.drop start).take size)

def store (words : Nat → Nat) (off : Nat) (bytes : List UInt8) : Nat → Nat := fun j =>
  Bytes.little ((Bytes.ofNat 4 (words j)).zipIdx.map fun b =>
    if off ≤ 4*j+b.2 ∧ 4*j+b.2 < off+bytes.length then bytes.getD (4*j+b.2-off) 0 else b.1)

def loadRounds (file : List UInt8) (d addr offset sz : Nat) : Nat → Nat → Mem → Option (Bool × Mem)
  | 0,_,m => some (true,m)
  | n+1,i,m =>
    match (m.walkpgdir d (uint (addr+i)) false).1 with
    | none => none
    | some t =>
      let p := pteAddr (m.frame t (ptx (uint (addr+i))))
      let size := if sz-i < pgsize then sz-i else pgsize
      match readi file (uint (offset+i)) size with
      | none => some (false,m)
      | some bytes =>
        let m' := m.fill p (store (m.frame p) 0 bytes)
        if bytes.length ≠ size then some (false,m') else loadRounds file d addr offset sz n (i+pgsize) m'

def loaduvm (file : List UInt8) (d addr offset sz : Nat) (m : Mem) : Option (Bool × Mem) :=
  if addr % pgsize ≠ 0 then none else loadRounds file d addr offset sz ((sz+(pgsize-1))/pgsize) 0 m

section Load
variable (k : Kernel) (file : List UInt8)

/-- The loop over the program headers, `n` of them from offset `off` on; no size stands for `goto bad`. -/
def loadSegments (d : Nat) : Nat → Nat → Mem → Nat → Option (Option Nat × Mem)
  | 0,_,m,sz => some (some sz,m)
  | n+1,off,m,sz =>
    match readi file off proghdrSize with
    | none => some (none,m)
    | some ph =>
      let type := field ph 0 4
      let offset := field ph 4 4
      let vaddr := field ph 8 4
      let filesz := field ph 16 4
      let memsz := field ph 20 4
      if ph.length ≠ proghdrSize then some (none,m)
      else if type ≠ 1 then loadSegments d n (uint (off+proghdrSize)) m sz
      else if memsz < filesz then some (none,m)
      else if uint (vaddr+memsz) < vaddr then some (none,m)
      else
        match m.allocuvm k d sz (uint (vaddr+memsz)) with
        | none => none
        | some (new,m') =>
          if new = 0 then some (none,m')
          else if vaddr % pgsize ≠ 0 then some (none,m')
          else
            match loaduvm file d vaddr offset filesz m' with
            | none => none
            | some (false,m'') => some (none,m'')
            | some (true,m'') => loadSegments d n (uint (off+proghdrSize)) m'' new

/-- What comes of loading: `goto bad`, with the directory that has been made, or an image with its
directory, its size and its entry. -/
inductive Load
  | panics
  | bad (pgdir : Option Nat) (m : Mem)
  | image (d sz entry : Nat) (m : Mem)

def load (m : Mem) : Load :=
  match readi file 0 elfhdrSize with
  | none => .bad none m
  | some elf =>
    if elf.length ≠ elfhdrSize then .bad none m
    else if field elf 0 4 ≠ elfMagic then .bad none m
    else
      match m.setupkvm k with
      | none => .panics
      | some (none,m') => .bad none m'
      | some (some d,m') =>
        match loadSegments k file d (field elf 44 2) (field elf 28 4) m' 0 with
        | none => .panics
        | some (none,m'') => .bad (some d) m''
        | some (some sz,m'') => .image d sz (field elf 24 4) m''

end Load

section Stack
variable (k : Kernel) (null : Mem → Option Nat) (d : Nat)

/-- The word at address 0 of the running process, which a null pointer reads. -/
def nullWord (cur : Nat) (m : Mem) : Option Nat :=
  (m.walkpgdir cur 0 false).1.bind fun t =>
    if present (m.frame t 0) then some (m.frame (pteAddr (m.frame t 0)) 0) else none

/-- `uva2ka`, which does not look whether `walkpgdir` has found a page table. -/
def uva2ka (m : Mem) (uva : Nat) : Option (Option Nat) :=
  let entry := match (m.walkpgdir d uva false).1 with
    | none => null m
    | some t => some (m.frame t (ptx uva))
  entry.map fun w => if present w ∧ w/pteU % 2 = 1 then some (pteAddr w) else none

def copyoutRounds : Nat → Nat → List UInt8 → Mem → Option (Bool × Mem)
  | 0,_,_,m => some (true,m)
  | n+1,va,bytes,m =>
    if bytes = [] then some (true,m)
    else
      let va0 := va/pgsize*pgsize
      match uva2ka null d m va0 with
      | none => none
      | some none => some (false,m)
      | some (some p) =>
        let size := min (pgsize-(va-va0)) bytes.length
        copyoutRounds n (uint (va0+pgsize)) (bytes.drop size) (m.fill p (store (m.frame p) (va-va0) (bytes.take size)))

def copyout (va : Nat) (bytes : List UInt8) (m : Mem) : Option (Bool × Mem) :=
  copyoutRounds null d bytes.length va bytes m

def wordBytes (words : List Nat) : List UInt8 := words.flatMap (Bytes.ofNat 4)

/-- The loop over the arguments, with the stack pointer and the pointers that have been pushed, the last
one first; `goto bad` gives no stack pointer. A string comes with its terminating zero. -/
def pushArgs : List (List UInt8) → Nat → List Nat → Mem → Option (Option (Nat × List Nat) × Mem)
  | [],sp,ustack,m => some (some (sp,ustack),m)
  | arg :: argv,sp,ustack,m =>
    if ustack.length ≥ maxarg then some (none,m)
    else
      let sp' := uint (sp-(arg.length+1))/4*4
      match copyout null d sp' (arg ++ [0]) m with
      | none => none
      | some (false,m') => some (none,m')
      | some (true,m') => pushArgs argv sp' (sp' :: ustack) m'

/-- From the allocation of the stack on: the size and the stack pointer of the new image. -/
def stack (sz : Nat) (argv : List (List UInt8)) (m : Mem) : Option (Option (Nat × Nat) × Mem) :=
  match m.allocuvm k d (pgroundup sz) (pgroundup sz+2*pgsize) with
  | none => none
  | some (sz,m) =>
    if sz = 0 then some (none,m)
    else
      match m.clearpteu d (sz-2*pgsize) with
      | none => none
      | some m =>
        match pushArgs null d argv sz [] m with
        | none => none
        | some (none,m) => some (none,m)
        | some (some (sp,ustack),m) =>
          let argc := ustack.length
          let sp' := uint (sp-(3+argc+1)*4)
          match copyout null d sp' (wordBytes ([4294967295,argc,uint (sp-(argc+1)*4)] ++ ustack.reverse ++ [0])) m with
          | none => none
          | some (false,m) => some (none,m)
          | some (true,m) => some (some (sz,sp'),m)

end Stack

end Kthreads.Exec
