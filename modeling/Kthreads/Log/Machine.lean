import Kthreads.Lib.Interleave
import Kthreads.Lib.Redo
import Kthreads.Kernel.Files

/-! The log of log.c over the buffer cache and the disk, with crashes and recovery, for any type
of threads and of block contents. A disk block is written in one step, and a call of `bread` and
the use of its buffer up to the next block write are one step where no other thread can interfere. -/
open Function

namespace Kthreads

/-- How `struct logheader` lies in a block: `read` takes `n` and the first `n` entries of `block`
out of it, `write` puts them in. -/
structure HeaderFormat (D : Type) where
  read : D → List Nat
  write : D → List Nat → D
  read_write : ∀ d blocks, blocks.length ≤ logSize → (∀ b ∈ blocks, b < 2^32) → read (write d blocks) = blocks

/-- A buffer that holds a block; `dirty` is `B_DIRTY`, `owner` the thread with its sleep lock. -/
structure Buf (T D : Type) where
  data : D
  dirty : Bool
  owner : Option T

/-- The next block write of `commit` or `recover_from_log`; `rest` outside them. -/
inductive Stage
  | rest
  | writeLog (tail : Nat)
  | install (tail : Nat)
  | readHead
  deriving DecidableEq

/-- A thread is outside, in an operation, in `log_write` after its tests, or in `commit`. An
operation has `touched` the buffers that it has changed since its last `log_write` on them. -/
inductive LogPc
  | idle
  | op (touched logged : List Nat)
  | logWrite (b : Nat) (touched logged : List Nat)
  | commit

inductive LogPanic
  | tooBig | outsideOfTrans | committing | noBuffers
  deriving DecidableEq

/-- The machine with its disk. `cached` are the blocks that have a buffer, `pending` are the contents that `log_write` was called with since
the last commit, `groups` those of the groups whose first `write_head` has been done; no code
reads these. -/
structure LogState (T D : Type) where
  disk : Nat → D
  buf : Nat → Option (Buf T D)
  cached : List Nat
  log : Log
  stage : Stage
  recovering : Bool
  pc : T → LogPc
  pending : List (Nat × D)
  groups : List (List (Nat × D))
  panicked : Option LogPanic

open LogState

/-- A block outside the log area. -/
def Home (start b : Nat) : Prop := (b < start ∨ start + logSize ≤ b) ∧ b < 2^32

instance (start b : Nat) : Decidable (Home start b) := inferInstanceAs (Decidable (_ ∧ _))

def Log.full (log : Log) : Prop := log.lh.length ≥ logSize ∨ log.lh.length + 1 ≥ log.size

instance (log : Log) : Decidable log.full := inferInstanceAs (Decidable (_ ∨ _))

/-- The part of `log_write` under `log.lock`, with absorption. -/
def Log.append (log : Log) (b : Nat) : Log := if b ∈ log.lh then log else {log with lh := log.lh ++ [b]}

namespace LogState

variable {T D : Type} [DecidableEq T]

def view (s : LogState T D) (b : Nat) : D :=
  match s.buf b with
  | some f => f.data
  | none => s.disk b

def dirty (s : LogState T D) (b : Nat) : Bool := (s.buf b).any (·.dirty)

def owner (s : LogState T D) (b : Nat) : Option T := (s.buf b).bind (·.owner)

def goto (s : LogState T D) (t : T) (pc : LogPc) : LogState T D := {s with pc := update s.pc t pc}

def inUse (s : LogState T D) (b : Nat) : Bool := (s.owner b).isSome || s.dirty b

/-- `bget` for blocks that are held together. When all buffers have a block, but not all of them
are in use, one is recycled first. -/
def bget (s : LogState T D) (blocks : List Nat) (next : LogState T D) : Option (LogState T D) :=
  if (blocks ∪ s.cached).length ≤ nbuf then some next
  else if nbuf < (blocks ∪ s.cached.filter s.inUse).length then some {s with panicked := some .noBuffers}
  else none

def bread (s : LogState T D) (b : Nat) (o : Option T) : LogState T D :=
  {s with
    buf := update s.buf b (some ⟨s.view b,s.dirty b,o⟩)
    cached := s.cached.insert b}

/-- `bwrite` with the given contents, and `brelse`. -/
def bwrite (s : LogState T D) (b : Nat) (d : D) : LogState T D :=
  {s with
    disk := update s.disk b d
    buf := update s.buf b (some ⟨d,false,none⟩)}

def change (s : LogState T D) (b : Nat) (f : Buf T D → Buf T D) : LogState T D :=
  {s with buf := update s.buf b ((s.buf b).map f)}

def setStage (s : LogState T D) (stage : Stage) : LogState T D := {s with stage := stage}

def setLh (s : LogState T D) (lh : List Nat) : LogState T D := {s with log := {s.log with lh := lh}}

variable (fmt : HeaderFormat D) (start : Nat)

def writeHead (s : LogState T D) : LogState T D :=
  (s.bread start none).bwrite start (fmt.write (s.view start) s.log.lh)

/-- One round of `write_log`. -/
def writeLog (s : LogState T D) (tail b : Nat) : LogState T D :=
  ((s.bread (start+tail+1) none).bread b none).bwrite (start+tail+1) (s.view b)

/-- One round of `install_trans`. -/
def installTrans (s : LogState T D) (tail b : Nat) : LogState T D :=
  ((s.bread (start+tail+1) none).bread b none).bwrite b (s.view (start+tail+1))

/-- The next step of `commit` after its test, or of `recover_from_log`. -/
def advance (s : LogState T D) : Option (LogState T D) :=
  match s.stage with
  | .rest => none
  | .writeLog tail =>
    match s.log.lh[tail]? with
    | some b =>
      if s.owner (start+tail+1) = none ∧ s.owner b = none then
        s.bget [b,start+tail+1] ((s.writeLog start tail b).setStage (.writeLog (tail+1)))
      else none
    | none =>
      if s.owner start = none then
        s.bget [start] {s.writeHead fmt start with
          stage := .install 0, groups := s.groups ++ [s.pending], pending := []}
      else none
  | .install tail =>
    match s.log.lh[tail]? with
    | some b =>
      if s.owner (start+tail+1) = none ∧ s.owner b = none then
        s.bget [b,start+tail+1] ((s.installTrans start tail b).setStage (.install (tail+1)))
      else none
    | none =>
      if s.owner start = none then s.bget [start] (((s.setLh []).writeHead fmt start).setStage .rest) else none
  | .readHead =>
    if s.owner start = none then
      s.bget [start] (((s.bread start none).setLh (fmt.read (s.view start))).setStage (.install 0))
    else none

def beginOp (s : LogState T D) (t : T) : LogState T D :=
  {s with log := {s.log with outstanding := s.log.outstanding+1}}.goto t (.op [] [])

def logWriteTest (s : LogState T D) (t : T) (b : Nat) (touched logged : List Nat) : LogState T D :=
  if s.log.full then {s with panicked := some .tooBig}
  else if s.log.outstanding < 1 then {s with panicked := some .outsideOfTrans}
  else s.goto t (.logWrite b touched logged)

def logWriteAppend (s : LogState T D) (t : T) (b : Nat) (touched logged : List Nat) : LogState T D :=
  {s.change b (fun f => {f with dirty := true}) with
    log := s.log.append b
    pending := s.pending ++ [(b,s.view b)]}.goto t (.op (touched.filter (· ≠ b)) (if b ∈ logged then logged else b :: logged))

def endOp (s : LogState T D) (t : T) : LogState T D :=
  if s.log.committing then {s with panicked := some .committing}
  else if s.log.outstanding-1 = 0 then
    {s with log := {s.log with outstanding := 0, committing := true}}.goto t .commit
  else {s with log := {s.log with outstanding := s.log.outstanding-1}}.goto t .idle

def commitEnd (s : LogState T D) (t : T) : LogState T D :=
  {s with log := {s.log with committing := false}}.goto t .idle

end LogState

/-- The machine after power-on with a disk: memory is empty and `initlog` runs `recover_from_log`. -/
def LogState.boot {D : Type} (T : Type) (disk : Nat → D) : LogState T D where
  disk := disk
  buf _ := none
  cached := []
  log := ⟨0,false,logSize,[]⟩
  stage := .readHead
  recovering := true
  pc _ := .idle
  pending := []
  groups := []
  panicked := none

inductive LogAction (T D : Type)
  | beginOp (t : T)
  | bread (t : T) (b : Nat)
  | modify (t : T) (b : Nat) (d : D)
  | logWrite (t : T) (b : Nat)
  | brelse (t : T) (b : Nat)
  | endOp (t : T)
  | run (t : T)
  | evict (b : Nat)
  | recover
  | crash

/-- What a thread does. File-system code changes and logs blocks outside the log area, while it
has their buffers, and it logs a buffer that it has changed before it gives it back. -/
def LogState.act {T D : Type} [DecidableEq T] (fmt : HeaderFormat D) (start : Nat) (s : LogState T D) :
    LogAction T D → Option (LogState T D)
  | .beginOp t =>
    match s.pc t with
    | .idle => if s.log.busy then none else some (s.beginOp t)
    | _ => none
  | .bread t b =>
    match s.pc t with
    | .idle | .op _ _ => if s.owner b = none then s.bget [b] (s.bread b (some t)) else none
    | _ => none
  | .modify t b d =>
    match s.pc t with
    | .op touched logged =>
      if s.owner b = some t ∧ Home start b then
        some ((s.change b fun f => {f with data := d}).goto t (.op (b :: touched) logged))
      else none
    | _ => none
  | .logWrite t b =>
    match s.pc t with
    | .op touched logged =>
      if s.owner b = some t ∧ Home start b then some (s.logWriteTest t b touched logged) else none
    | _ => none
  | .brelse t b =>
    match s.pc t with
    | .idle => if s.owner b = some t then some (s.change b fun f => {f with owner := none}) else none
    | .op touched _ =>
      if s.owner b = some t ∧ b ∉ touched then some (s.change b fun f => {f with owner := none}) else none
    | _ => none
  | .endOp t =>
    match s.pc t with
    | .op [] _ => some (s.endOp t)
    | _ => none
  | .run t =>
    match s.pc t with
    | .logWrite b touched logged => some (s.logWriteAppend t b touched logged)
    | .commit =>
      match s.stage with
      | .rest => if s.log.lh = [] then some (s.commitEnd t) else some (s.setStage (.writeLog 0))
      | _ => s.advance fmt start
    | _ => none
  | _ => none

/-- One step. A buffer that is not in use can be recycled at any time, and a crash leaves the disk;
nothing else happens after a panic. -/
def logStep {T D : Type} [DecidableEq T] (fmt : HeaderFormat D) (start : Nat) (s : LogState T D) (a : LogAction T D) :
    Option (LogState T D) :=
  match a with
  | .crash => some {boot T s.disk with groups := s.groups}
  | a =>
    if s.panicked.isSome then none
    else
      match a with
      | .evict b =>
        if s.inUse b then none
        else some {s with buf := update s.buf b none, cached := s.cached.erase b}
      | .recover =>
        if s.recovering then (s.advance fmt start).map fun s' => {s' with recovering := decide (s'.stage ≠ .rest)}
        else none
      | a => if s.recovering then none else s.act fmt start a

section Buffers
variable {T D : Type} (s : LogState T D) (b : Nat)

theorem view_bread (o : Option T) : (s.bread b o).view = s.view := by
  funext c
  by_cases here : c = b
  · simp [bread,view,here]
  · simp [bread,view,here]

theorem dirty_bread (o : Option T) : (s.bread b o).dirty = s.dirty := by
  funext c
  by_cases here : c = b
  · simp [bread,dirty,here]
  · simp [bread,dirty,here]

theorem owner_bread (o : Option T) : (s.bread b o).owner = update s.owner b o := by
  funext c
  by_cases here : c = b
  · simp [bread,owner,here]
  · simp [bread,owner,here]

theorem view_bwrite (d : D) : (s.bwrite b d).view = update s.view b d := by
  funext c
  by_cases here : c = b
  · simp [bwrite,view,here]
  · simp [bwrite,view,here]

theorem dirty_bwrite (d : D) : (s.bwrite b d).dirty = update s.dirty b false := by
  funext c
  by_cases here : c = b
  · simp [bwrite,dirty,here]
  · simp [bwrite,dirty,here]

section Change
variable {f : Buf T D} (cached : s.buf b = some f) (g : Buf T D → Buf T D)
include cached

theorem view_change : (s.change b g).view = update s.view b (g f).data := by
  funext c
  by_cases here : c = b
  · simp [change,view,here,cached]
  · simp [change,view,here]

theorem dirty_change : (s.change b g).dirty = update s.dirty b (g f).dirty := by
  funext c
  by_cases here : c = b
  · simp [change,dirty,here,cached]
  · simp [change,dirty,here]

theorem owner_change : (s.change b g).owner = update s.owner b (g f).owner := by
  funext c
  by_cases here : c = b
  · simp [change,owner,here,cached]
  · simp [change,owner,here]

end Change

theorem cached_of_owner {t : T} (owned : s.owner b = some t) : ∃ f, s.buf b = some f ∧ f.owner = some t :=
  Option.bind_eq_some_iff.mp owned

end Buffers

abbrev LogReaches {T D : Type} [DecidableEq T] (fmt : HeaderFormat D) (start : Nat)
    (guard : LogState T D → LogAction T D → Prop) (s₀ s : LogState T D) : Prop :=
  Interleave.Reaches (logStep fmt start) guard s₀ s

section Changes
variable {T D : Type} [DecidableEq T] (fmt : HeaderFormat D) (start : Nat) (s : LogState T D)

inductive Advance : LogState T D → Prop
  | noBuffers (busy : s.stage ≠ .rest) : Advance {s with panicked := some .noBuffers}
  | writeLog (tail b : Nat) (stage : s.stage = .writeLog tail) (next : s.log.lh[tail]? = some b)
      (room : ([b,start+tail+1] ∪ s.cached).length ≤ nbuf) :
      Advance ((s.writeLog start tail b).setStage (.writeLog (tail+1)))
  | commit (tail : Nat) (stage : s.stage = .writeLog tail) (last : s.log.lh[tail]? = none)
      (room : ([start] ∪ s.cached).length ≤ nbuf) :
      Advance {s.writeHead fmt start with
        stage := .install 0, groups := s.groups ++ [s.pending], pending := []}
  | install (tail b : Nat) (stage : s.stage = .install tail) (next : s.log.lh[tail]? = some b)
      (room : ([b,start+tail+1] ∪ s.cached).length ≤ nbuf) :
      Advance ((s.installTrans start tail b).setStage (.install (tail+1)))
  | clear (tail : Nat) (stage : s.stage = .install tail) (last : s.log.lh[tail]? = none)
      (room : ([start] ∪ s.cached).length ≤ nbuf) :
      Advance (((s.setLh []).writeHead fmt start).setStage .rest)
  | readHead (stage : s.stage = .readHead) (room : ([start] ∪ s.cached).length ≤ nbuf) :
      Advance (((s.bread start none).setLh (fmt.read (s.view start))).setStage (.install 0))

def LogPc.touched : LogPc → List Nat
  | .op touched _ | .logWrite _ touched _ => touched
  | _ => []

inductive LogChange : LogAction T D → LogState T D → Prop
  | crash : LogChange .crash {boot T s.disk with groups := s.groups}
  | evict (b : Nat) (free : s.owner b = none) (clean : s.dirty b = false) :
      LogChange (.evict b) {s with buf := update s.buf b none, cached := s.cached.erase b}
  | recover (m : LogState T D) (boots : s.recovering = true) (next : Advance fmt start s m) :
      LogChange .recover {m with recovering := decide (m.stage ≠ .rest)}
  | beginOp (t : T) (up : s.recovering = false) (place : s.pc t = .idle) (room : ¬ s.log.busy) :
      LogChange (.beginOp t) (s.beginOp t)
  | noBuffers (t : T) (b : Nat) : LogChange (.bread t b) {s with panicked := some .noBuffers}
  | bread (t : T) (b : Nat) (free : s.owner b = none) (room : ([b] ∪ s.cached).length ≤ nbuf) :
      LogChange (.bread t b) (s.bread b (some t))
  | modify (t : T) (b : Nat) (d : D) (touched logged : List Nat) (place : s.pc t = .op touched logged)
      (own : s.owner b = some t) (home : Home start b) :
      LogChange (.modify t b d) ((s.change b fun f => {f with data := d}).goto t (.op (b :: touched) logged))
  | tooBig (t : T) (b : Nat) (touched logged : List Nat) (place : s.pc t = .op touched logged) (full : s.log.full) :
      LogChange (.logWrite t b) {s with panicked := some .tooBig}
  | outsideOfTrans (t : T) (b : Nat) (touched logged : List Nat) (place : s.pc t = .op touched logged)
      (few : s.log.outstanding < 1) : LogChange (.logWrite t b) {s with panicked := some .outsideOfTrans}
  | logWrite (t : T) (b : Nat) (touched logged : List Nat) (place : s.pc t = .op touched logged)
      (own : s.owner b = some t) (home : Home start b) (room : ¬ s.log.full) :
      LogChange (.logWrite t b) (s.goto t (.logWrite b touched logged))
  | append (t : T) (b : Nat) (touched logged : List Nat) (place : s.pc t = .logWrite b touched logged) :
      LogChange (.run t) (s.logWriteAppend t b touched logged)
  | brelse (t : T) (b : Nat) (own : s.owner b = some t) (untouched : b ∉ (s.pc t).touched)
      (place : s.pc t = .idle ∨ ∃ touched logged, s.pc t = .op touched logged) :
      LogChange (.brelse t b) (s.change b fun f => {f with owner := none})
  | committing (t : T) (logged : List Nat) (place : s.pc t = .op [] logged) (busy : s.log.committing = true) :
      LogChange (.endOp t) {s with panicked := some .committing}
  | lastOp (t : T) (logged : List Nat) (place : s.pc t = .op [] logged) (one : s.log.outstanding-1 = 0) :
      LogChange (.endOp t) ({s with log := {s.log with outstanding := 0, committing := true}}.goto t .commit)
  | endOp (t : T) (logged : List Nat) (place : s.pc t = .op [] logged) (more : s.log.outstanding-1 ≠ 0) :
      LogChange (.endOp t) ({s with log := {s.log with outstanding := s.log.outstanding-1}}.goto t .idle)
  | commit (t : T) (place : s.pc t = .commit) (stage : s.stage = .rest) (written : s.log.lh ≠ []) :
      LogChange (.run t) (s.setStage (.writeLog 0))
  | commitEnd (t : T) (place : s.pc t = .commit) (stage : s.stage = .rest) (empty : s.log.lh = []) :
      LogChange (.run t) (s.commitEnd t)
  | advance (t : T) (m : LogState T D) (up : s.recovering = false) (place : s.pc t = .commit)
      (next : Advance fmt start s m) : LogChange (.run t) m

variable {fmt start s} {s' : LogState T D}

omit [DecidableEq T] in
theorem bget_cases {blocks : List Nat} {next : LogState T D} (taken : s.bget blocks next = some s') :
    (blocks ∪ s.cached).length ≤ nbuf ∧ s' = next ∨ s' = {s with panicked := some .noBuffers} := by
  unfold bget at taken
  split at taken
  next room => exact .inl ⟨room,(Option.some.inj taken).symm⟩
  next =>
    split at taken
    · exact .inr (Option.some.inj taken).symm
    · contradiction

omit [DecidableEq T] in
theorem advance_cases (taken : s.advance fmt start = some s') : Advance fmt start s s' := by
  unfold advance at taken
  split at taken
  next => contradiction
  next tail stage =>
    split at taken
    next b next =>
      split at taken
      · rcases bget_cases taken with ⟨room,rfl⟩ | rfl
        · exact .writeLog tail b stage next room
        · exact .noBuffers (by simp [stage])
      · contradiction
    next last =>
      split at taken
      · rcases bget_cases taken with ⟨room,rfl⟩ | rfl
        · exact .commit tail stage last room
        · exact .noBuffers (by simp [stage])
      · contradiction
  next tail stage =>
    split at taken
    next b next =>
      split at taken
      · rcases bget_cases taken with ⟨room,rfl⟩ | rfl
        · exact .install tail b stage next room
        · exact .noBuffers (by simp [stage])
      · contradiction
    next last =>
      split at taken
      · rcases bget_cases taken with ⟨room,rfl⟩ | rfl
        · exact .clear tail stage last room
        · exact .noBuffers (by simp [stage])
      · contradiction
  next stage =>
    split at taken
    · rcases bget_cases taken with ⟨room,rfl⟩ | rfl
      · exact .readHead stage room
      · exact .noBuffers (by simp [stage])
    · contradiction

omit [DecidableEq T] in
theorem Advance.busy (next : Advance fmt start s s') : s.stage ≠ .rest := by
  cases next with
  | noBuffers busy => exact busy
  | writeLog tail b stage => simp [stage]
  | commit tail stage => simp [stage]
  | install tail b stage => simp [stage]
  | clear tail stage => simp [stage]
  | readHead stage => simp [stage]

omit [DecidableEq T] in
theorem Advance.recovering (next : Advance fmt start s s') : s'.recovering = s.recovering := by
  cases next <;> rfl

theorem act_cases {a : LogAction T D} (up : s.recovering = false) (taken : s.act fmt start a = some s') :
    LogChange fmt start s a s' := by
  have reads {t : T} {b : Nat} (taken : (if s.owner b = none then s.bget [b] (s.bread b (some t)) else none) = some s') :
      LogChange fmt start s (.bread t b) s' := by
    split at taken
    next free =>
      rcases bget_cases taken with ⟨room,rfl⟩ | rfl
      · exact .bread t b free room
      · exact .noBuffers t b
    next => contradiction
  cases a with
  | beginOp t =>
    simp only [LogState.act] at taken
    split at taken
    next place =>
      split at taken
      · contradiction
      next room =>
        cases taken
        exact .beginOp t up place room
    next => contradiction
  | bread t b =>
    simp only [LogState.act] at taken
    split at taken
    next => exact reads taken
    next => exact reads taken
    next => contradiction
  | modify t b d =>
    simp only [LogState.act] at taken
    split at taken
    next touched logged place =>
      split at taken
      next held =>
        cases taken
        exact .modify t b d touched logged place held.1 held.2
      next => contradiction
    next => contradiction
  | logWrite t b =>
    simp only [LogState.act] at taken
    split at taken
    next touched logged place =>
      split at taken
      next held =>
        simp only [Option.some.injEq,LogState.logWriteTest] at taken
        split at taken
        next full =>
          subst taken
          exact .tooBig t b touched logged place full
        next room =>
          split at taken
          next few =>
            subst taken
            exact .outsideOfTrans t b touched logged place few
          next =>
            subst taken
            exact .logWrite t b touched logged place held.1 held.2 room
      next => contradiction
    next => contradiction
  | brelse t b =>
    simp only [LogState.act] at taken
    split at taken
    next place =>
      split at taken
      next own =>
        cases taken
        exact .brelse t b own (by simp [place,LogPc.touched]) (.inl place)
      next => contradiction
    next touched logged place =>
      split at taken
      next own =>
        cases taken
        exact .brelse t b own.1 (by simpa [place,LogPc.touched] using own.2) (.inr ⟨touched,logged,place⟩)
      next => contradiction
    next => contradiction
  | endOp t =>
    simp only [LogState.act] at taken
    split at taken
    next logged place =>
      simp only [Option.some.injEq,LogState.endOp] at taken
      split at taken
      next busy =>
        subst taken
        exact .committing t logged place busy
      next =>
        split at taken
        next one =>
          subst taken
          exact .lastOp t logged place one
        next more =>
          subst taken
          exact .endOp t logged place more
    next => contradiction
  | run t =>
    simp only [LogState.act] at taken
    split at taken
    next b touched logged place =>
      cases taken
      exact .append t b touched logged place
    next place =>
      split at taken
      next stage =>
        split at taken
        next empty =>
          cases taken
          exact .commitEnd t place stage empty
        next written =>
          cases taken
          exact .commit t place stage written
      next => exact .advance t s' up place (advance_cases taken)
    next => contradiction
  | evict b => contradiction
  | recover => contradiction
  | crash => contradiction

theorem logStep_cases {a : LogAction T D} (taken : logStep fmt start s a = some s') : LogChange fmt start s a s' := by
  have acts (taken : (if s.panicked.isSome then none else if s.recovering then none else s.act fmt start a) = some s') :
      LogChange fmt start s a s' := by
    split at taken
    next => contradiction
    next =>
      split at taken
      next => contradiction
      next up => exact act_cases (by simpa using up) taken
  cases a with
  | crash =>
    cases taken
    exact .crash
  | evict b =>
    simp only [logStep] at taken
    split at taken
    next => contradiction
    next =>
      split at taken
      next => contradiction
      next unused =>
        cases taken
        simp only [inUse,Bool.or_eq_true,not_or,Bool.not_eq_true,Option.isSome_eq_false_iff,
          Option.isNone_iff_eq_none] at unused
        exact .evict b unused.1 unused.2
  | recover =>
    simp only [logStep] at taken
    split at taken
    next => contradiction
    next =>
      split at taken
      next boots =>
        obtain ⟨m,next,rfl⟩ := Option.map_eq_some_iff.mp taken
        exact .recover m boots (advance_cases next)
      next => contradiction
  | _ => exact acts taken

end Changes

end Kthreads
