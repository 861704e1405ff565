import Kthreads.Lib.Ring

/-! The input side of console.c. A step is what happens while `cons.lock` is held: a batch of characters in
`consoleintr`, or `consoleread` up to its return or its next sleep. What is echoed is left out. -/
open Function

namespace Kthreads

def inputBuf : Nat := 128

instance : NeZero inputBuf := ⟨by decide⟩

/-- `C(x)` -/
def ctrl (x : Char) : UInt8 := x.toUInt8-64

/-- A call of `consoleread`: `target`, and the bytes that it has put in `dst`. -/
structure ReadCall where
  target : Int
  got : List UInt8

/-- The readers, with the calls that sleep and the results of those that have returned, in this order. -/
structure Readers (U : Type) where
  killed : U → Bool
  sleeping : U → Option ReadCall
  returned : List (U × ReadCall × Int)

namespace Readers
variable {U : Type} [DecidableEq U] (readers : Readers U)

def ret (u : U) (call : ReadCall) (result : Int) : Readers U :=
  {readers with
    sleeping := update readers.sleeping u none
    returned := readers.returned ++ [(u,call,result)]}

/-- `if(myproc()->killed) return -1; sleep(&input.r, &cons.lock)` -/
def sleep (u : U) (call : ReadCall) : Readers U :=
  if readers.killed u then readers.ret u call (-1)
  else {readers with sleeping := update readers.sleeping u (some call)}

end Readers

/-- `input` -/
structure Console (U : Type) where
  buf : Fin inputBuf → UInt8
  r : Nat
  w : Nat
  e : Nat
  readers : Readers U

namespace Console
variable {U : Type} [DecidableEq U] (s : Console U)

/-- `input.e--` -/
def erase : Console U := {s with e := (s.e+2^32-1) % 2^32}

/-- The loop of `C('U')`, at most `n` rounds of it. -/
def killLine (s : Console U) : Nat → Console U
  | 0 => s
  | n+1 =>
    if s.e ≠ s.w ∧ s.buf (Fin.ofNat inputBuf ((s.e+2^32-1) % 2^32)) ≠ 10 then s.erase.killLine n else s

/-- `input.buf[input.e++ % INPUT_BUF] = c`, and the test that follows. -/
def store (c : UInt8) : Console U :=
  let s := {s with buf := update s.buf (Fin.ofNat inputBuf s.e) c, e := (s.e+1) % 2^32}
  if c = 10 ∨ c = ctrl 'D' ∨ s.e = (s.r+inputBuf) % 2^32 then {s with w := s.e} else s

/-- One character. The rounds of `C('U')` end at `input.w` at the latest. -/
def key (c : UInt8) : Console U :=
  if c = ctrl 'P' then s
  else if c = ctrl 'U' then s.killLine ((s.e+2^32-s.w) % 2^32)
  else if c = ctrl 'H' ∨ c = 127 then if s.e ≠ s.w then s.erase else s
  else if c ≠ 0 ∧ (s.e+2^32-s.r) % 2^32 < inputBuf then s.store (if c = 13 then 10 else c)
  else s

def consoleintr (cs : List UInt8) : Console U := cs.foldl key s

/-- The loop of `consoleread` when `n` more bytes are wanted, up to the return or a sleep. -/
def readLoop (s : Console U) (u : U) (target : Int) : (n : Nat) → List UInt8 → Console U
  | 0,got => {s with readers := s.readers.ret u ⟨target,got⟩ got.length}
  | n+1,got =>
    if s.r = s.w then {s with readers := s.readers.sleep u ⟨target,got⟩}
    else
      let c := s.buf (Fin.ofNat inputBuf s.r)
      let next := {s with r := (s.r+1) % 2^32}
      if c = ctrl 'D' then
        let next := if ((n+1 : Nat) : Int) < target then {next with r := (next.r+2^32-1) % 2^32} else next
        {next with readers := s.readers.ret u ⟨target,got⟩ got.length}
      else if c = 10 then {next with readers := s.readers.ret u ⟨target,got ++ [c]⟩ (got.length+1)}
      else next.readLoop u target n (got ++ [c])

def boot : Console U := ⟨fun _ => 0,0,0,0,fun _ => false,fun _ => none,[]⟩

end Console

/-- Characters arrive, a reader calls `consoleread`, or goes on after a sleep, or is killed. -/
inductive ConsoleEvent (U : Type)
  | intr (cs : List UInt8)
  | read (u : U) (target : Int)
  | run (u : U)
  | kill (u : U)

/-- What an event does. A reader has one call at a time. -/
def consoleStep {U : Type} [DecidableEq U] (s : Console U) : ConsoleEvent U → Console U
  | .intr cs => s.consoleintr cs
  | .read u target => if (s.readers.sleeping u).isNone then s.readLoop u target target.toNat [] else s
  | .run u =>
    match s.readers.sleeping u with
    | some call => s.readLoop u call.target (call.target.toNat-call.got.length) call.got
    | none => s
  | .kill u => {s with readers := {s.readers with killed := update s.readers.killed u true}}

end Kthreads
