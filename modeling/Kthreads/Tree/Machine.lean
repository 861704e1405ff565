import Mathlib.Algebra.Group.Nat.Defs
import Mathlib.Logic.Function.Basic
import Mathlib.Logic.Function.Iterate
import Mathlib.Data.Nat.Basic
import Kthreads.Lib.Interleave

/-! The tournament tree of tournament_tree.c, for any type of threads and any depth. The mutex
calls are abstract: a lock call is refused when the mutex is gone or the caller has it, and
otherwise waits until nobody has it; an unlock succeeds for the holder; a deallocation
succeeds when nobody has the mutex. A call that waits does not notice that the mutex is gone. -/
open Function

namespace Kthreads

inductive TreeMutex
  | lock
  | node (i : Nat)
  deriving DecidableEq

def powordepthLoop : Nat → Nat → Nat
  | 0,output => output
  | exp+1,output => powordepthLoop exp (output*2)

def powordepth (exp : Nat) : Nat := powordepthLoop exp 1

theorem powordepthLoop_eq (exp output : Nat) : powordepthLoop exp output = output*2^exp := by
  induction exp generalizing output with
  | zero => simp [powordepthLoop]
  | succ exp ih => rw [powordepthLoop,ih,Nat.pow_succ',Nat.mul_assoc]

@[simp]
theorem powordepth_eq (exp : Nat) : powordepth exp = 2^exp := by simp [powordepth,powordepthLoop_eq]

/-- `(position - 1) / 2`, which is 0 for the root in C as well. -/
def father (pos : Nat) : Nat := (pos-1)/2

/-- The place a thread has reached in the code of the tree, with its local variables. The
stack of `release_rec` holds the positions of the calls that wait for an inner one. -/
inductive TreePc
  | idle
  | acquire (id : Int)
  | acquireLock (id : Int)
  | acquireWait (id : Int)
  | acquireTest (id : Int)
  | acquireRefuse (id : Int)
  | acquireSet (id : Int)
  | acquireUnlock (id : Int)
  | acquireLeaf (id : Int)
  | climb (id : Int) (treePosition : Nat)
  | climbWait (id : Int) (treePosition : Nat)
  | releaseLock (id : Int)
  | releaseWait (id : Int)
  | releaseTest (id : Int)
  | releaseRec (id : Int) (position : Nat) (stack : List Nat)
  | releaseNode (id : Int) (position : Nat) (stack : List Nat)
  | releaseClear (id : Int)
  | releaseUnlock (id : Int)
  | releaseRefuse (id : Int)
  | deallocLock
  | deallocWait
  | deallocScan (i : Nat)
  | deallocNode (i : Nat)
  | deallocRefuse
  | deallocUnlock
  | deallocLast
  | deallocFree
  deriving DecidableEq

/-- How far a thread is with an id: `acquire` has not returned yet, it has returned 0, or
`release` has been called. -/
inductive Phase
  | trying | inside | leaving
  deriving DecidableEq

inductive TreeEvent (T : Type)
  | acquireRet (t : T) (id result : Int)
  | releaseRet (t : T) (id result : Int)
  | deallocTakes (t : T)
  | deallocRet (t : T) (result : Int)
  deriving DecidableEq

/-- What is recorded of a call of `acquire`: whether a lock call of it was refused, whether
it has written `threadMap`, and which nodes the caller had before. -/
structure Attempt where
  refused : Bool
  wrote : Bool
  had : Nat → Bool

/-- A tree with the threads that use it. `due` are the ids that a thread has called `acquire`
for and neither failed to get nor released, `seen` their copy from when `dealloc` took `Lock`,
`stray` a thread that has used the tree after `free`; no code reads these. -/
structure TrnmntTree (T : Type) where
  depth : Nat
  threadMap : Int → Option T
  holder : TreeMutex → Option T
  alive : TreeMutex → Bool
  freed : Bool
  pc : T → TreePc
  due : T → List (Int × Phase)
  attempt : T → Attempt
  seen : T → List (Int × Phase)
  stray : Option T
  hist : List (TreeEvent T)

namespace TrnmntTree

variable {T : Type} [DecidableEq T]

def goto (s : TrnmntTree T) (t : T) (pc : TreePc) : TrnmntTree T := {s with pc := update s.pc t pc}

def setHolder (s : TrnmntTree T) (m : TreeMutex) (h : Option T) : TrnmntTree T :=
  {s with holder := update s.holder m h}

def setDue (s : TrnmntTree T) (t : T) (ids : List (Int × Phase)) : TrnmntTree T :=
  {s with due := update s.due t ids}

def setAttempt (s : TrnmntTree T) (t : T) (a : Attempt) : TrnmntTree T :=
  {s with attempt := update s.attempt t a}

def ret (s : TrnmntTree T) (t : T) (e : TreeEvent T) : TrnmntTree T := {s with hist := e :: s.hist}.goto t .idle

/-- Whether `kthread_mutex_lock` goes on to wait for the mutex. -/
def Lockable (s : TrnmntTree T) (t : T) (m : TreeMutex) : Prop := s.alive m = true ∧ s.holder m ≠ some t

instance (s : TrnmntTree T) (t : T) (m : TreeMutex) : Decidable (s.Lockable t m) :=
  inferInstanceAs (Decidable (_ ∧ _))

/-- A call of `kthread_mutex_lock` whose result the caller ignores. -/
def lockCall (s : TrnmntTree T) (t : T) (m : TreeMutex) (wait next : TreePc) : TrnmntTree T :=
  if s.Lockable t m then s.goto t wait
  else (s.setAttempt t {s.attempt t with refused := true}).goto t next

def grant (s : TrnmntTree T) (t : T) (m : TreeMutex) (next : TreePc) : Option (TrnmntTree T) :=
  if s.holder m = none then some ((s.setHolder m (some t)).goto t next) else none

/-- Whether `kthread_mutex_unlock` returns 0. -/
def Unlockable (s : TrnmntTree T) (t : T) (m : TreeMutex) : Prop := s.alive m = true ∧ s.holder m = some t

instance (s : TrnmntTree T) (t : T) (m : TreeMutex) : Decidable (s.Unlockable t m) :=
  inferInstanceAs (Decidable (_ ∧ _))

def unlock (s : TrnmntTree T) (t : T) (m : TreeMutex) : TrnmntTree T :=
  if s.Unlockable t m then s.setHolder m none else s

/-- Whether `kthread_mutex_dealloc` returns 0. -/
def Deallocable (s : TrnmntTree T) (m : TreeMutex) : Prop := s.alive m = true ∧ s.holder m = none

instance (s : TrnmntTree T) (m : TreeMutex) : Decidable (s.Deallocable m) :=
  inferInstanceAs (Decidable (_ ∧ _))

def kill (s : TrnmntTree T) (m : TreeMutex) : TrnmntTree T := {s with alive := update s.alive m false}

def acquireFails (s : TrnmntTree T) (t : T) (id : Int) : TrnmntTree T :=
  (s.setDue t ((s.due t).erase (id,.trying))).ret t (.acquireRet t id (-1))

def acquireWins (s : TrnmntTree T) (t : T) (id : Int) : TrnmntTree T :=
  (s.setDue t ((id,.inside) :: (s.due t).erase (id,.trying))).ret t (.acquireRet t id 0)

/-- One frame of `release_rec`, before its call of `kthread_mutex_unlock`. -/
def releaseRec (s : TrnmntTree T) (t : T) (id : Int) (position : Nat) (stack : List Nat) : TrnmntTree T :=
  if father position ≠ 0 then s.goto t (.releaseRec id (father position) (position :: stack))
  else s.goto t (.releaseNode id position stack)

/-- `return kthread_mutex_unlock(..)` of one frame; a failure ends all of them. -/
def releaseNode (s : TrnmntTree T) (t : T) (id : Int) (position : Nat) (stack : List Nat) : TrnmntTree T :=
  if s.Unlockable t (.node (father position)) then
    match stack with
    | [] => (s.setHolder (.node (father position)) none).goto t (.releaseClear id)
    | outer :: rest => (s.setHolder (.node (father position)) none).goto t (.releaseNode id outer rest)
  else s.goto t (.releaseRefuse id)

def deallocScan (s : TrnmntTree T) (t : T) (i : Nat) : TrnmntTree T :=
  if i < powordepth s.depth then
    if s.threadMap i = none then s.goto t (.deallocScan (i+1)) else s.goto t .deallocRefuse
  else s.goto t (.deallocNode 0)

def deallocNode (s : TrnmntTree T) (t : T) (i : Nat) : TrnmntTree T :=
  if i < powordepth s.depth - 1 then
    if s.Deallocable (.node i) then (s.kill (.node i)).goto t (.deallocNode (i+1))
    else s.goto t .deallocRefuse
  else s.goto t .deallocUnlock

def code (s : TrnmntTree T) (t : T) : Option (TrnmntTree T) :=
  match s.pc t with
  | .idle => none
  | .acquire id =>
    if id < 0 ∨ id > (powordepth s.depth : Int) - 1 then some (s.acquireFails t id)
    else some (s.goto t (.acquireLock id))
  | .acquireLock id => some (s.lockCall t .lock (.acquireWait id) (.acquireTest id))
  | .acquireWait id => s.grant t .lock (.acquireTest id)
  | .acquireTest id => some (s.goto t (if s.threadMap id = none then .acquireSet id else .acquireRefuse id))
  | .acquireRefuse id => some ((s.unlock t .lock).acquireFails t id)
  | .acquireSet id => some (({s with threadMap := update s.threadMap id (some t)}.setAttempt t
      {s.attempt t with wrote := true}).goto t (.acquireUnlock id))
  | .acquireUnlock id => some ((s.unlock t .lock).goto t (.acquireLeaf id))
  | .acquireLeaf id => some (s.goto t (.climb id (powordepth s.depth - 1 + id.toNat)))
  | .climb id pos =>
    if pos = 0 then some (s.acquireWins t id)
    else some (s.lockCall t (.node (father pos)) (.climbWait id pos) (.climb id (father pos)))
  | .climbWait id pos => s.grant t (.node (father pos)) (.climb id (father pos))
  | .releaseLock id => some (s.lockCall t .lock (.releaseWait id) (.releaseTest id))
  | .releaseWait id => s.grant t .lock (.releaseTest id)
  | .releaseTest id =>
    some (s.goto t (if s.threadMap id = some t then .releaseRec id (powordepth s.depth - 1 + id.toNat) []
      else .releaseRefuse id))
  | .releaseRec id pos stack => some (s.releaseRec t id pos stack)
  | .releaseNode id pos stack => some (s.releaseNode t id pos stack)
  | .releaseClear id =>
    some ({s with threadMap := update s.threadMap id none}.goto t (.releaseUnlock id))
  | .releaseUnlock id => some (((s.unlock t .lock).setDue t ((s.due t).erase (id,.leaving))).ret t
      (.releaseRet t id 0))
  | .releaseRefuse id => some ((s.unlock t .lock).ret t (.releaseRet t id (-1)))
  | .deallocLock => some (s.lockCall t .lock .deallocWait (.deallocScan 0))
  | .deallocWait => ({s with seen := s.due, hist := .deallocTakes t :: s.hist}).grant t .lock (.deallocScan 0)
  | .deallocScan i => some (s.deallocScan t i)
  | .deallocNode i => some (s.deallocNode t i)
  | .deallocRefuse => some ((s.unlock t .lock).ret t (.deallocRet t (-1)))
  | .deallocUnlock => some ((s.unlock t .lock).goto t .deallocLast)
  | .deallocLast => some ((if s.Deallocable .lock then s.kill .lock else s).goto t .deallocFree)
  | .deallocFree => some ({s with freed := true, depth := 0}.ret t (.deallocRet t 0))

end TrnmntTree

/-- Places whose next step reads or writes the memory of the tree. The waits are in the kernel,
and the end of a climb needs only local variables. -/
def TreePc.touches : TreePc → Bool
  | .idle | .acquireWait _ | .climbWait _ _ | .climb _ 0 | .releaseWait _ | .deallocWait => false
  | _ => true

inductive TreeAction (T : Type)
  | acquire (t : T) (id : Int)
  | release (t : T) (id : Int)
  | dealloc (t : T)
  | run (t : T)

/-- One step: a thread calls a function of the tree or goes on in one. `release` does not
check its id, and calls with an id outside `threadMap` are not considered. -/
def treeStep {T : Type} [DecidableEq T] (s : TrnmntTree T) : TreeAction T → Option (TrnmntTree T)
  | .acquire t id =>
    if s.pc t = .idle then
      some (((s.setDue t ((id,.trying) :: s.due t)).setAttempt t
        ⟨false,false,fun p => decide (s.holder (.node p) = some t)⟩).goto t (.acquire id))
    else none
  | .release t id =>
    if s.pc t = .idle ∧ 0 ≤ id ∧ id < powordepth s.depth then
      some ((s.setDue t (if (id,Phase.inside) ∈ s.due t then (id,.leaving) :: (s.due t).erase (id,.inside)
        else s.due t)).goto t (.releaseLock id))
    else none
  | .dealloc t => if s.pc t = .idle then some (s.goto t .deallocLock) else none
  | .run t => (s.code t).map fun s' =>
    if s.freed = true ∧ (s.pc t).touches = true then {s' with stray := some t} else s'

abbrev TreeReaches {T : Type} [DecidableEq T] (guard : TrnmntTree T → TreeAction T → Prop)
    (s₀ s : TrnmntTree T) : Prop := Interleave.Reaches treeStep guard s₀ s

/-- A tree as `trnmnt_tree_alloc` returns it. -/
def newTree (T : Type) (depth : Nat) : TrnmntTree T where
  depth := depth
  threadMap _ := none
  holder _ := none
  alive m := match m with
    | .lock => true
    | .node i => decide (i < powordepth depth - 1)
  freed := false
  pc _ := .idle
  due _ := []
  attempt _ := ⟨false,false,fun _ => false⟩
  seen _ := []
  stray := none
  hist := []

end Kthreads
