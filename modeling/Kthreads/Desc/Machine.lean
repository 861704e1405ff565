import Mathlib.Data.Fintype.Pi
import Mathlib.Data.Fintype.Prod
import Kthreads.Pipe.Machine

/-! The file table of file.c and the descriptor tables of the processes, which their threads share.
Reading an entry of `ofile`, writing it, and what is done under `ftable.lock` or `p->lock` are steps
of their own. A call that sleeps in the file system stays where it is until it is told the outcome,
and a thread that was told to die ends in such a place. -/
open Function

namespace Kthreads

theorem none_all {α : Type} {p : α → Prop} (a : α) (named : a ∈ (none : Option α)) : p a :=
  absurd named (Option.not_mem_none a)

def nofile : Nat := 16

def nfile : Nat := 100

instance : NeZero nofile := ⟨by decide⟩

instance : NeZero nfile := ⟨by decide⟩

abbrev Fd := Fin nofile

abbrev FileIx := Fin nfile

inductive FileType
  | none | pipe | inode
  deriving DecidableEq

structure File where
  type : FileType
  ref : Int
  readable : Bool
  writable : Bool
  pipe : Nat
  ip : Nat

/-- Whom `fdalloc` works for, with what the caller needs afterwards. -/
inductive FdUse
  | open (ip : Nat) (omode : BitVec 32)
  | dup (old : Fd)
  | pipeRead (wf : FileIx)
  | pipeWrite (rf : FileIx) (fd0 : Fd)

inductive FdAfter
  | ret
  | fileclose (f : FileIx)
  | exitClear (fd : Fd)

inductive PipeCall
  | read (n : Int)
  | write (addr : Nat → Byte) (n : Int)

def PipeCall.action {T P : Type} (t : T) : PipeCall → PipeAction T P
  | .read n => .piperead t n
  | .write addr n => .pipewrite t addr n

/-- Where a thread is in its call: `fdRead` and `fdStore` are the test and the store of `fdalloc`,
`closing` is `fileclose` after `ftable.lock` with its copy of the file, `openEnd` and `openRest` are
`sys_open` after `fdalloc`, before it has written the type and the other fields. -/
inductive FdPc (T P : Type)
  | gone
  | user
  | sysOpen (omode : BitVec 32)
  | openAlloc (ip : Nat) (omode : BitVec 32)
  | fdRead (f : FileIx) (n : Nat) (use : FdUse)
  | fdStore (f : FileIx) (fd : Fd) (use : FdUse)
  | openEnd (fd : Fd) (f : FileIx) (ip : Nat) (omode : BitVec 32)
  | openRest (fd : Fd) (f : FileIx) (ip : Nat) (omode : BitVec 32)
  | dupCount (f : FileIx) (old new : Fd)
  | closeEntry (fd : Fd) (f : FileIx)
  | fileclose (f : FileIx) (after : FdAfter)
  | closing (ff : File) (after : FdAfter)
  | pipeFirst
  | pipeSecond (rf : FileIx)
  | pipeKalloc (rf wf : FileIx)
  | pipeUndo (fd0 : Fd) (rf wf : FileIx)
  | forkRead (np : P) (nt : T) (n : Nat)
  | forkDup (np : P) (nt : T) (i : Fd) (f : FileIx)
  | forkStore (np : P) (nt : T) (i : Fd) (f : FileIx)
  | exitRead (n : Nat)
  | exitClear (fd : Fd)
  | fileread (fd : Fd) (f : FileIx) (n : Int)
  | filewrite (fd : Fd) (f : FileIx) (addr : Nat → Byte) (n : Int)
  | filestat (fd : Fd) (f : FileIx)
  | inodeUse (fd : Fd) (f : FileIx)
  | pipeEnter (fd : Fd) (f : FileIx) (k : Nat) (call : PipeCall)
  | pipeInside (fd : Fd) (f : FileIx) (k : Nat)

def FdPc.isGone {T P : Type} : FdPc T P → Bool
  | .gone => true
  | _ => false

inductive FdPanic
  | filedup | fileclose | fileread | filewrite
  deriving DecidableEq

/-- `used` is the process slots that are not UNUSED. Pipes are numbered in the order of `pipealloc`. -/
structure FdState (T P : Type) where
  file : FileIx → File
  ofile : P → Fd → Option FileIx
  pipe : Nat → PipeState T P
  npipes : Nat
  used : P → Bool
  killed : P → Bool
  pc : T → FdPc T P
  panic : Option FdPanic

namespace FdState
variable {T P : Type} [DecidableEq T] [DecidableEq P] (proc : T → P) (s : FdState T P)

def goto (t : T) (c : FdPc T P) : FdState T P := {s with pc := update s.pc t c}

def setEntry (p : P) (fd : Fd) (v : Option FileIx) : FdState T P :=
  {s with ofile := update s.ofile p (update (s.ofile p) fd v)}

def setFile (f : FileIx) (file : File) : FdState T P := {s with file := update s.file f file}

def setRef (f : FileIx) (ref : Int) : FdState T P := s.setFile f {s.file f with ref := ref}

def setPipe (k : Nat) (p : PipeState T P) : FdState T P := {s with pipe := update s.pipe k p}

def argfd (p : P) (fd : Int) : Option (Fd × FileIx) :=
  if range : 0 ≤ fd ∧ fd < nofile then
    (s.ofile p ⟨fd.toNat,by omega⟩).map (⟨fd.toNat,by omega⟩,·)
  else none

def filealloc : Option FileIx := (List.finRange nfile).find? (fun f => (s.file f).ref = 0)

def filedup (t : T) (f : FileIx) (c : FdPc T P) : FdState T P :=
  if (s.file f).ref < 1 then {s with panic := some .filedup}
  else (s.setRef f ((s.file f).ref+1)).goto t c

end FdState

def FdAfter.next {T P : Type} : FdAfter → FdPc T P
  | .ret => .user
  | .fileclose f => .fileclose f .ret
  | .exitClear fd => .exitClear fd

def FdUse.done {T P : Type} (f : FileIx) (fd : Fd) : FdUse → FdPc T P
  | .open ip omode => .openEnd fd f ip omode
  | .dup old => .dupCount f old fd
  | .pipeRead wf => .fdRead wf 0 (.pipeWrite f fd)
  | .pipeWrite _ _ => .user

def FdUse.failed {T P : Type} (f : FileIx) : FdUse → FdPc T P
  | .open _ _ => .fileclose f .ret
  | .dup _ => .user
  | .pipeRead wf => .fileclose f (.fileclose wf)
  | .pipeWrite rf fd0 => .pipeUndo fd0 rf f

inductive FdCall (T P : Type)
  | open (omode : BitVec 32)
  | pipe
  | dup (fd : Int)
  | close (fd : Int)
  | fork (np : P) (nt : T)
  | exit
  | create (u : T)
  | read (fd : Int) (n : Int)
  | write (fd : Int) (addr : Nat → Byte) (n : Int)
  | fstat (fd : Int)

/-- A thread starts a call, goes on with it, or ends because it was told to; or a process is killed.
The outcome is that of the part in which a call may fail or sleep: `none` is a failure or another
sleep, and for `sys_open` the value is the inode. -/
inductive FdAction (T P : Type)
  | start (t : T) (call : FdCall T P)
  | run (t : T) (outcome : Option Nat)
  | die (t : T)
  | kill (p : P)

namespace FdState
variable {T P : Type} [DecidableEq T] [DecidableEq P] (proc : T → P) (s : FdState T P)

def fileclose (t : T) (f : FileIx) (after : FdAfter) : FdState T P :=
  let file := s.file f
  if file.ref < 1 then {s with panic := some .fileclose}
  else if file.ref-1 > 0 then (s.setRef f (file.ref-1)).goto t after.next
  else (s.setFile f {file with ref := 0, type := .none}).goto t (.closing file after)

/-- The rest of `fileclose`. What becomes of the inode is not part of the state. -/
def closeRest (t : T) (ff : File) (after : FdAfter) : FdState T P :=
  match ff.type with
  | .pipe => (s.setPipe ff.pipe ((s.pipe ff.pipe).pipeclose ff.writable)).goto t after.next
  | _ => s.goto t after.next

/-- `pipealloc` after `kalloc`: the page is a new pipe and both files are filled in. -/
def pipeFill (rf wf : FileIx) : FdState T P :=
  {(s.setFile rf {s.file rf with type := .pipe, readable := true, writable := false, pipe := s.npipes}) with
    npipes := s.npipes+1
    pipe := update s.pipe s.npipes (PipeState.alloc fun _ => 1)}.setFile wf
      {s.file wf with type := .pipe, readable := false, writable := true, pipe := s.npipes}

def pipeRun (t : T) (fd : Fd) (f : FileIx) (k : Nat) (a : PipeAction T P) : Option (FdState T P) :=
  (pipeStep proc {s.pipe k with killed := s.killed} a).map fun p =>
    (s.setPipe k p).goto t (if (p.pc t).inside then .pipeInside fd f k else .user)

/-- The first step of a call. `exit` goes on when the other threads of the process have ended. -/
def enter [Fintype T] (t : T) : FdCall T P → Option (FdState T P)
  | .open omode => some (s.goto t (.sysOpen omode))
  | .pipe => some (s.goto t .pipeFirst)
  | .dup fd =>
    match s.argfd (proc t) fd with
    | none => some s
    | some (fd,f) => some (s.goto t (.fdRead f 0 (.dup fd)))
  | .close fd =>
    match s.argfd (proc t) fd with
    | none => some s
    | some (fd,f) => some (s.goto t (.closeEntry fd f))
  | .fork np nt =>
    if s.used np = false ∧ proc nt = np then
      some ({s with used := update s.used np true}.goto t (.forkRead np nt 0))
    else none
  | .exit =>
    if ∀ u, u ≠ t → proc u = proc t → (s.pc u).isGone = true then some (s.goto t (.exitRead 0)) else none
  | .create u => if proc u = proc t ∧ (s.pc u).isGone = true then some (s.goto u .user) else none
  | .read fd n =>
    match s.argfd (proc t) fd with
    | none => some s
    | some (fd,f) => some (s.goto t (.fileread fd f n))
  | .write fd addr n =>
    match s.argfd (proc t) fd with
    | none => some s
    | some (fd,f) => some (s.goto t (.filewrite fd f addr n))
  | .fstat fd =>
    match s.argfd (proc t) fd with
    | none => some s
    | some (fd,f) => some (s.goto t (.filestat fd f))

def code (t : T) (outcome : Option Nat) : Option (FdState T P) :=
  match s.pc t with
  | .gone | .user => none
  | .sysOpen omode =>
    match outcome with
    | none => some (s.goto t .user)
    | some ip => some (s.goto t (.openAlloc ip omode))
  | .openAlloc ip omode =>
    match s.filealloc with
    | none => some (s.goto t .user)
    | some f => some ((s.setRef f 1).goto t (.fdRead f 0 (.open ip omode)))
  | .fdRead f n use =>
    if fits : n < nofile then
      if s.ofile (proc t) ⟨n,fits⟩ = none then some (s.goto t (.fdStore f ⟨n,fits⟩ use))
      else some (s.goto t (.fdRead f (n+1) use))
    else some (s.goto t (use.failed f))
  | .fdStore f fd use => some ((s.setEntry (proc t) fd (some f)).goto t (use.done f fd))
  | .openEnd fd f ip omode =>
    some ((s.setFile f {s.file f with type := .inode}).goto t (.openRest fd f ip omode))
  | .openRest _ f ip omode =>
    some ((s.setFile f {s.file f with
      ip := ip
      readable := !(omode.getLsbD 0)
      writable := omode.getLsbD 0 || omode.getLsbD 1}).goto t .user)
  | .dupCount f _ _ => some (s.filedup t f .user)
  | .closeEntry fd f => some ((s.setEntry (proc t) fd none).goto t (.fileclose f .ret))
  | .fileclose f after => some (s.fileclose t f after)
  | .closing ff after => some (s.closeRest t ff after)
  | .pipeFirst =>
    match s.filealloc with
    | none => some (s.goto t .user)
    | some rf => some ((s.setRef rf 1).goto t (.pipeSecond rf))
  | .pipeSecond rf =>
    match s.filealloc with
    | none => some (s.goto t (.fileclose rf .ret))
    | some wf => some ((s.setRef wf 1).goto t (.pipeKalloc rf wf))
  | .pipeKalloc rf wf =>
    match outcome with
    | none => some (s.goto t (.fileclose rf (.fileclose wf)))
    | some _ => some ((s.pipeFill rf wf).goto t (.fdRead rf 0 (.pipeRead wf)))
  | .pipeUndo fd0 rf wf => some ((s.setEntry (proc t) fd0 none).goto t (.fileclose rf (.fileclose wf)))
  | .forkRead np nt n =>
    if fits : n < nofile then
      match s.ofile (proc t) ⟨n,fits⟩ with
      | none => some (s.goto t (.forkRead np nt (n+1)))
      | some f => some (s.goto t (.forkDup np nt ⟨n,fits⟩ f))
    else some ((s.goto t .user).goto nt .user)
  | .forkDup np nt i f => some (s.filedup t f (.forkStore np nt i f))
  | .forkStore np nt i f => some ((s.setEntry np i (some f)).goto t (.forkRead np nt (i+1)))
  | .exitRead n =>
    if fits : n < nofile then
      match s.ofile (proc t) ⟨n,fits⟩ with
      | none => some (s.goto t (.exitRead (n+1)))
      | some f => some (s.goto t (.fileclose f (.exitClear ⟨n,fits⟩)))
    else some ({s with
      used := update s.used (proc t) false
      killed := update s.killed (proc t) false}.goto t .gone)
  | .exitClear fd => some ((s.setEntry (proc t) fd none).goto t (.exitRead (fd+1)))
  | .fileread fd f n =>
    if (s.file f).readable = false then some (s.goto t .user)
    else match (s.file f).type with
      | .pipe => some (s.goto t (.pipeEnter fd f (s.file f).pipe (.read n)))
      | .inode => some (s.goto t (.inodeUse fd f))
      | .none => some {s with panic := some .fileread}
  | .filewrite fd f addr n =>
    if (s.file f).writable = false then some (s.goto t .user)
    else match (s.file f).type with
      | .pipe => some (s.goto t (.pipeEnter fd f (s.file f).pipe (.write addr n)))
      | .inode => some (s.goto t (.inodeUse fd f))
      | .none => some {s with panic := some .filewrite}
  | .filestat fd f =>
    if (s.file f).type = .inode then some (s.goto t (.inodeUse fd f)) else some (s.goto t .user)
  | .inodeUse _ _ =>
    match outcome with
    | none => some s
    | some _ => some (s.goto t .user)
  | .pipeEnter fd f k call => s.pipeRun proc t fd f k (call.action t)
  | .pipeInside fd f k => s.pipeRun proc t fd f k (.resume t)

/-- A thread ends in user code or where it sleeps; a thread in `exit` is the last one of its process
and is not told to. -/
def die (t : T) : Option (FdState T P) :=
  match s.pc t with
  | .user | .sysOpen _ | .openEnd _ _ _ _ | .inodeUse _ _ => some (s.goto t .gone)
  | .closing ff .ret => if ff.type = .inode then some (s.goto t .gone) else none
  | .pipeInside _ _ k => some ((s.setPipe k ((s.pipe k).goto t .user)).goto t .gone)
  | _ => none

def kill (p : P) : FdState T P :=
  {s with
    killed := update s.killed p true
    pipe := fun k => (s.pipe k).kill proc p}

end FdState

section Step
variable {T P : Type} [DecidableEq T] [DecidableEq P] [Fintype T] (proc : T → P)

def fdStep (s : FdState T P) (a : FdAction T P) : Option (FdState T P) :=
  if s.panic.isSome then none
  else match a with
    | .start t call =>
      match s.pc t with
      | .user => s.enter proc t call
      | _ => none
    | .run t outcome => s.code proc t outcome
    | .die t => s.die t
    | .kill p => some (s.kill proc p)

def FdState.boot (t₀ : T) : FdState T P where
  file _ := ⟨.none,0,false,false,0,0⟩
  ofile _ _ := none
  pipe _ := PipeState.alloc fun _ => 1
  npipes := 0
  used p := decide (p = proc t₀)
  killed _ := false
  pc t := if t = t₀ then .user else .gone
  panic := none

abbrev FdReaches (guard : FdState T P → FdAction T P → Prop) (t₀ : T) (s : FdState T P) : Prop :=
  Interleave.Reaches (fdStep proc) guard (FdState.boot proc t₀) s

end Step

inductive FdRests {T P : Type} : FdPc T P → FdPc T P → Prop
  | sysOpen {omode} : FdRests .user (.sysOpen omode)
  | pipe : FdRests .user .pipeFirst
  | notFound {omode} : FdRests (.sysOpen omode) .user
  | found {ip omode} : FdRests (.sysOpen omode) (.openAlloc ip omode)
  | noFile {ip omode} : FdRests (.openAlloc ip omode) .user
  | openFails {f n ip omode} : FdRests (.fdRead f n (.open ip omode)) (.fileclose f .ret)
  | dupFails {f n old} : FdRests (.fdRead f n (.dup old)) .user
  | pipeFails {rf n wf} : FdRests (.fdRead rf n (.pipeRead wf)) (.fileclose rf (.fileclose wf))
  | noFirst : FdRests .pipeFirst .user
  | noSecond {rf} : FdRests (.pipeSecond rf) (.fileclose rf .ret)
  | noPage {rf wf} : FdRests (.pipeKalloc rf wf) (.fileclose rf (.fileclose wf))
  | unreadable {fd f n} : FdRests (.fileread fd f n) .user
  | unwritable {fd f addr n} : FdRests (.filewrite fd f addr n) .user
  | noInode {fd f} : FdRests (.filestat fd f) .user
  | inodeUsed {fd f} : FdRests (.inodeUse fd f) .user
  | userDies : FdRests .user .gone
  | openDies {omode} : FdRests (.sysOpen omode) .gone
  | closeDies {ff} : FdRests (.closing ff .ret) .gone
  | inodeDies {fd f} : FdRests (.inodeUse fd f) .gone

inductive FdMoves {T P : Type} (proc : T → P) (s : FdState T P) (t : T) :
    FdAction T P → FdPc T P → FdPc T P → Prop
  | rests {a c₀ c} (rest : FdRests c₀ c) : FdMoves proc s t a c₀ c
  | read {n len fd f} (found : s.argfd (proc t) n = some (fd,f)) :
      FdMoves proc s t (.start t (.read n len)) .user (.fileread fd f len)
  | write {n addr len fd f} (found : s.argfd (proc t) n = some (fd,f)) :
      FdMoves proc s t (.start t (.write n addr len)) .user (.filewrite fd f addr len)
  | fstat {n fd f} (found : s.argfd (proc t) n = some (fd,f)) :
      FdMoves proc s t (.start t (.fstat n)) .user (.filestat fd f)
  | readPipe {a fd f n} (pipe : (s.file f).type = .pipe) :
      FdMoves proc s t a (.fileread fd f n) (.pipeEnter fd f (s.file f).pipe (.read n))
  | writePipe {a fd f addr n} (pipe : (s.file f).type = .pipe) :
      FdMoves proc s t a (.filewrite fd f addr n) (.pipeEnter fd f (s.file f).pipe (.write addr n))
  | readInode {a fd f n} : FdMoves proc s t a (.fileread fd f n) (.inodeUse fd f)
  | writeInode {a fd f addr n} : FdMoves proc s t a (.filewrite fd f addr n) (.inodeUse fd f)
  | statInode {a fd f} : FdMoves proc s t a (.filestat fd f) (.inodeUse fd f)

section Cases
variable {T P : Type} [DecidableEq T] [DecidableEq P] (proc : T → P) (s : FdState T P)

inductive FdSteps : FdAction T P → FdState T P → Prop
  | same {a} : FdSteps a s
  | moves {a t c₀ c} (place : s.pc t = c₀) (moves : FdMoves proc s t a c₀ c) : FdSteps a (s.goto t c)
  | dup {t n fd f} (place : s.pc t = .user) (found : s.argfd (proc t) n = some (fd,f)) :
      FdSteps (.start t (.dup n)) (s.goto t (.fdRead f 0 (.dup fd)))
  | close {t n fd f} (place : s.pc t = .user) (found : s.argfd (proc t) n = some (fd,f)) :
      FdSteps (.start t (.close n)) (s.goto t (.closeEntry fd f))
  | fork {t np nt} (place : s.pc t = .user) (idle : s.used np = false) (child : proc nt = np) :
      FdSteps (.start t (.fork np nt)) ({s with used := update s.used np true}.goto t (.forkRead np nt 0))
  | exit {t} (place : s.pc t = .user) (ended : ∀ u, u ≠ t → proc u = proc t → (s.pc u).isGone = true) :
      FdSteps (.start t .exit) (s.goto t (.exitRead 0))
  | create {t u} (place : s.pc t = .user) (sibling : proc u = proc t) (gone : (s.pc u).isGone = true) :
      FdSteps (.start t (.create u)) (s.goto u .user)
  | openAlloc {t o ip omode f} (place : s.pc t = .openAlloc ip omode) (found : s.filealloc = some f) :
      FdSteps (.run t o) ((s.setRef f 1).goto t (.fdRead f 0 (.open ip omode)))
  | pipeFirst {t o f} (place : s.pc t = .pipeFirst) (found : s.filealloc = some f) :
      FdSteps (.run t o) ((s.setRef f 1).goto t (.pipeSecond f))
  | pipeSecond {t o rf f} (place : s.pc t = .pipeSecond rf) (found : s.filealloc = some f) :
      FdSteps (.run t o) ((s.setRef f 1).goto t (.pipeKalloc rf f))
  | pipeFill {t o rf wf} (place : s.pc t = .pipeKalloc rf wf) :
      FdSteps (.run t o) ((s.pipeFill rf wf).goto t (.fdRead rf 0 (.pipeRead wf)))
  | fdEmpty {t o f n use} (place : s.pc t = .fdRead f n use) (fits : n < nofile)
      (empty : s.ofile (proc t) ⟨n,fits⟩ = none) : FdSteps (.run t o) (s.goto t (.fdStore f ⟨n,fits⟩ use))
  | fdNext {t o f n use} (place : s.pc t = .fdRead f n use) : FdSteps (.run t o) (s.goto t (.fdRead f (n+1) use))
  | fdUndo {t o wf n rf fd0} (place : s.pc t = .fdRead wf n (.pipeWrite rf fd0)) :
      FdSteps (.run t o) (s.goto t (.pipeUndo fd0 rf wf))
  | fdStore {t o f fd use} (place : s.pc t = .fdStore f fd use) :
      FdSteps (.run t o) ((s.setEntry (proc t) fd (some f)).goto t (use.done f fd))
  | openEnd {t o fd f ip omode} (place : s.pc t = .openEnd fd f ip omode) :
      FdSteps (.run t o) ((s.setFile f {s.file f with type := .inode}).goto t (.openRest fd f ip omode))
  | openRest {t o fd f ip omode} (place : s.pc t = .openRest fd f ip omode) :
      FdSteps (.run t o) ((s.setFile f {s.file f with
        ip := ip
        readable := !(omode.getLsbD 0)
        writable := omode.getLsbD 0 || omode.getLsbD 1}).goto t .user)
  | dupCount {t o f old new} (place : s.pc t = .dupCount f old new) : FdSteps (.run t o) (s.filedup t f .user)
  | closeEntry {t o fd f} (place : s.pc t = .closeEntry fd f) :
      FdSteps (.run t o) ((s.setEntry (proc t) fd none).goto t (.fileclose f .ret))
  | pipeUndo {t o fd f wf} (place : s.pc t = .pipeUndo fd f wf) :
      FdSteps (.run t o) ((s.setEntry (proc t) fd none).goto t (.fileclose f (.fileclose wf)))
  | fileclose {t o f after} (place : s.pc t = .fileclose f after) : FdSteps (.run t o) (s.fileclose t f after)
  | closing {t o ff after} (place : s.pc t = .closing ff after) : FdSteps (.run t o) (s.closeRest t ff after)
  | forkNext {t o np nt n} (place : s.pc t = .forkRead np nt n) :
      FdSteps (.run t o) (s.goto t (.forkRead np nt (n+1)))
  | forkEntry {t o np nt n f} (place : s.pc t = .forkRead np nt n) (fits : n < nofile)
      (entry : s.ofile (proc t) ⟨n,fits⟩ = some f) : FdSteps (.run t o) (s.goto t (.forkDup np nt ⟨n,fits⟩ f))
  | forkDone {t o np nt n} (place : s.pc t = .forkRead np nt n) :
      FdSteps (.run t o) ((s.goto t .user).goto nt .user)
  | forkDup {t o np nt i f} (place : s.pc t = .forkDup np nt i f) :
      FdSteps (.run t o) (s.filedup t f (.forkStore np nt i f))
  | forkStore {t o np nt i f} (place : s.pc t = .forkStore np nt i f) :
      FdSteps (.run t o) ((s.setEntry np i (some f)).goto t (.forkRead np nt (i+1)))
  | exitNext {t o n} (place : s.pc t = .exitRead n) (fits : n < nofile)
      (empty : s.ofile (proc t) ⟨n,fits⟩ = none) : FdSteps (.run t o) (s.goto t (.exitRead (n+1)))
  | exitEntry {t o n f} (place : s.pc t = .exitRead n) (fits : n < nofile)
      (entry : s.ofile (proc t) ⟨n,fits⟩ = some f) :
      FdSteps (.run t o) (s.goto t (.fileclose f (.exitClear ⟨n,fits⟩)))
  | exitDone {t o n} (place : s.pc t = .exitRead n) (ended : nofile ≤ n) :
      FdSteps (.run t o) ({s with
        used := update s.used (proc t) false
        killed := update s.killed (proc t) false}.goto t .gone)
  | exitClear {t o fd} (place : s.pc t = .exitClear fd) :
      FdSteps (.run t o) ((s.setEntry (proc t) fd none).goto t (.exitRead (fd+1)))
  | readPanics {t o fd f n} (place : s.pc t = .fileread fd f n) (untyped : (s.file f).type = .none) :
      FdSteps (.run t o) {s with panic := some .fileread}
  | writePanics {t o fd f addr n} (place : s.pc t = .filewrite fd f addr n) (untyped : (s.file f).type = .none) :
      FdSteps (.run t o) {s with panic := some .filewrite}
  | pipeEnter {t o fd f k call p} (place : s.pc t = .pipeEnter fd f k call)
      (moved : pipeStep proc {s.pipe k with killed := s.killed} (call.action t) = some p) :
      FdSteps (.run t o) ((s.setPipe k p).goto t (if (p.pc t).inside then .pipeInside fd f k else .user))
  | pipeInside {t o fd f k p} (place : s.pc t = .pipeInside fd f k)
      (moved : pipeStep proc {s.pipe k with killed := s.killed} (.resume t) = some p) :
      FdSteps (.run t o) ((s.setPipe k p).goto t (if (p.pc t).inside then .pipeInside fd f k else .user))
  | openDies {t fd f ip omode} (place : s.pc t = .openEnd fd f ip omode) : FdSteps (.die t) (s.goto t .gone)
  | pipeDies {t fd f k} (place : s.pc t = .pipeInside fd f k) :
      FdSteps (.die t) ((s.setPipe k ((s.pipe k).goto t .user)).goto t .gone)
  | kill {p} : FdSteps (.kill p) (s.kill proc p)

variable {proc s} {s' : FdState T P}

theorem FdSteps.ofCode {t : T} {outcome : Option Nat} (taken : s.code proc t outcome = some s') :
    FdSteps proc s (.run t outcome) s' := by
  cases place : s.pc t <;> simp only [FdState.code,place] at taken
  case sysOpen omode =>
    split at taken <;> cases taken
    · exact .moves place (.rests .notFound)
    · exact .moves place (.rests .found)
  case openAlloc ip omode =>
    split at taken <;> cases taken
    · exact .moves place (.rests .noFile)
    · exact .openAlloc place ‹_›
  case fdRead f n use =>
    split at taken
    next fits =>
      split at taken <;> cases taken
      · exact .fdEmpty place fits ‹_›
      · exact .fdNext place
    next =>
      cases taken
      cases use with
      | «open» ip omode => exact .moves place (.rests .openFails)
      | dup old => exact .moves place (.rests .dupFails)
      | pipeRead wf => exact .moves place (.rests .pipeFails)
      | pipeWrite rf fd0 => exact .fdUndo place
  case pipeFirst =>
    split at taken <;> cases taken
    · exact .moves place (.rests .noFirst)
    · exact .pipeFirst place ‹_›
  case pipeSecond rf =>
    split at taken <;> cases taken
    · exact .moves place (.rests .noSecond)
    · exact .pipeSecond place ‹_›
  case pipeKalloc rf wf =>
    split at taken <;> cases taken
    · exact .moves place (.rests .noPage)
    · exact .pipeFill place
  case forkRead np nt n =>
    split at taken
    next fits =>
      split at taken <;> cases taken
      · exact .forkNext place
      · exact .forkEntry place fits ‹_›
    next =>
      cases taken
      exact .forkDone place
  case exitRead n =>
    split at taken
    next fits =>
      split at taken <;> cases taken
      · exact .exitNext place fits ‹_›
      · exact .exitEntry place fits ‹_›
    next ended =>
      cases taken
      exact .exitDone place (Nat.le_of_not_lt ended)
  case fileread fd f n =>
    split at taken
    · cases taken
      exact .moves place (.rests .unreadable)
    · split at taken <;> cases taken
      · exact .moves place (.readPipe ‹_›)
      · exact .moves place .readInode
      · exact .readPanics place ‹_›
  case filewrite fd f addr n =>
    split at taken
    · cases taken
      exact .moves place (.rests .unwritable)
    · split at taken <;> cases taken
      · exact .moves place (.writePipe ‹_›)
      · exact .moves place .writeInode
      · exact .writePanics place ‹_›
  case filestat fd f =>
    split at taken <;> cases taken
    · exact .moves place .statInode
    · exact .moves place (.rests .noInode)
  case inodeUse fd f =>
    split at taken <;> cases taken
    · exact .same
    · exact .moves place (.rests .inodeUsed)
  case pipeEnter fd f k call =>
    obtain ⟨p,moved,rfl⟩ := Option.map_eq_some_iff.mp taken
    exact .pipeEnter place moved
  case pipeInside fd f k =>
    obtain ⟨p,moved,rfl⟩ := Option.map_eq_some_iff.mp taken
    exact .pipeInside place moved
  all_goals cases taken
  case fdStore => exact .fdStore place
  case openEnd => exact .openEnd place
  case openRest => exact .openRest place
  case dupCount => exact .dupCount place
  case closeEntry => exact .closeEntry place
  case fileclose => exact .fileclose place
  case closing => exact .closing place
  case pipeUndo => exact .pipeUndo place
  case forkDup => exact .forkDup place
  case forkStore => exact .forkStore place
  case exitClear => exact .exitClear place

theorem FdSteps.ofEnter [Fintype T] {t : T} {call : FdCall T P} (place : s.pc t = .user)
    (taken : s.enter proc t call = some s') : FdSteps proc s (.start t call) s' := by
  cases call <;> simp only [FdState.enter] at taken
  case «open» =>
    cases taken
    exact .moves place (.rests .sysOpen)
  case pipe =>
    cases taken
    exact .moves place (.rests .pipe)
  case dup =>
    split at taken <;> cases taken
    · exact .same
    · exact .dup place ‹_›
  case close =>
    split at taken <;> cases taken
    · exact .same
    · exact .close place ‹_›
  case read =>
    split at taken <;> cases taken
    · exact .same
    · exact .moves place (.read ‹_›)
  case write =>
    split at taken <;> cases taken
    · exact .same
    · exact .moves place (.write ‹_›)
  case fstat =>
    split at taken <;> cases taken
    · exact .same
    · exact .moves place (.fstat ‹_›)
  all_goals simp only [Option.ite_none_right_eq_some,Option.some.injEq] at taken
  case fork np nt =>
    obtain ⟨⟨idle,child⟩,rfl⟩ := taken
    exact .fork place idle child
  case exit =>
    obtain ⟨ended,rfl⟩ := taken
    exact .exit place ended
  case create u =>
    obtain ⟨⟨sibling,gone⟩,rfl⟩ := taken
    exact .create place sibling gone

theorem FdSteps.ofDie {t : T} (taken : s.die t = some s') : FdSteps proc s (.die t) s' := by
  unfold FdState.die at taken
  split at taken
  next place =>
    cases taken
    exact .moves place (.rests .userDies)
  next place =>
    cases taken
    exact .moves place (.rests .openDies)
  next place =>
    cases taken
    exact .openDies place
  next place =>
    cases taken
    exact .moves place (.rests .inodeDies)
  next place =>
    split at taken <;> cases taken
    exact .moves place (.rests .closeDies)
  next place =>
    cases taken
    exact .pipeDies place
  next => contradiction

theorem fdStep_cases [Fintype T] {a : FdAction T P} (taken : fdStep proc s a = some s') :
    s.panic = none ∧ FdSteps proc s a s' := by
  unfold fdStep at taken
  split at taken
  · contradiction
  next calm =>
    refine ⟨by simpa using calm,?_⟩
    cases a with
    | start t call =>
      simp only at taken
      split at taken
      next place => exact .ofEnter place taken
      next => contradiction
    | run t outcome => exact .ofCode taken
    | die t => exact .ofDie taken
    | kill p =>
      cases taken
      exact .kill

end Cases

end Kthreads
