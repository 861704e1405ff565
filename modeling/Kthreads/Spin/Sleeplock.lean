import Kthreads.Lib.Interleave
import Mathlib.Logic.Function.Basic

/-! A sleeplock of sleeplock.c. What a call does between `acquire(&lk->lk)` and `release` or `sleep` is
one step; a thread that sleeps may be woken by `releasesleep` or by `kill`, and then looks again. -/
open Function

namespace Kthreads

/-- Where a thread is in `acquiresleep`. -/
inductive SleeplockPc
  | out | asleep | woken
  deriving DecidableEq

/-- `between` is the threads to which `acquiresleep` has returned and that have not called `releasesleep`. -/
structure Sleeplock (T : Type) where
  locked : Bool
  pid : Int
  pc : T → SleeplockPc
  between : T → Bool

inductive SleeplockCall (T : Type)
  | acquiresleep (t : T)
  | resume (t : T)
  | kill (t : T)
  | releasesleep (t : T)

section Machine
variable {T P : Type} [DecidableEq T] (proc : T → P) (pid : P → Int)

def initsleeplock : Sleeplock T := ⟨false,0,fun _ => .out,fun _ => false⟩

namespace Sleeplock
variable (s : Sleeplock T)

/-- The test of the loop, and what follows it. -/
def test (t : T) : Sleeplock T :=
  if s.locked then {s with pc := update s.pc t .asleep}
  else ⟨true,pid (proc t),update s.pc t .out,update s.between t true⟩

def holdingsleep (t : T) : Bool := s.locked && s.pid == pid (proc t)

def wakeup : SleeplockPc → SleeplockPc
  | .asleep => .woken
  | c => c

def step : SleeplockCall T → Option (Sleeplock T)
  | .acquiresleep t => if s.pc t = .out then some (s.test proc pid t) else none
  | .resume t => if s.pc t = .woken then some (s.test proc pid t) else none
  | .kill t => some {s with pc := update s.pc t (wakeup (s.pc t))}
  | .releasesleep t =>
    if s.pc t = .out then some ⟨false,0,fun u => wakeup (s.pc u),update s.between t false⟩ else none

/-- Nobody releases what another thread has locked. -/
def Owned : SleeplockCall T → Prop
  | .releasesleep t => s.between t = true
  | _ => True

instance (a : SleeplockCall T) : Decidable (s.Owned a) := by
  cases a <;> unfold Owned <;> infer_instance

structure Kept (s : Sleeplock T) : Prop where
  single : ∀ t u, s.between t = true → s.between u = true → t = u
  holder : s.locked = true → ∃ t, s.between t = true
  recorded : ∀ t, s.between t = true → s.locked = true ∧ s.pid = pid (proc t)

variable {proc pid} {s s' : Sleeplock T}

theorem Kept.test (kept : s.Kept proc pid) (t : T) : (s.test proc pid t).Kept proc pid := by
  unfold Sleeplock.test
  split
  next => exact ⟨kept.single,kept.holder,kept.recorded⟩
  next free =>
    have only (u : T) (inside : update s.between t true u = true) : u = t := by
      by_contra other
      rw [update_of_ne other] at inside
      exact free (kept.recorded u inside).1
    refine ⟨fun u v first second => (only u first).trans (only v second).symm,fun _ => ⟨t,update_self ..⟩,?_⟩
    intro u inside
    exact ⟨rfl,by rw [only u inside]⟩

theorem Kept.step (kept : s.Kept proc pid) (a : SleeplockCall T) (owned : s.Owned a)
    (taken : s.step proc pid a = some s') : s'.Kept proc pid := by
  cases a with
  | acquiresleep t =>
    obtain ⟨_,eq⟩ := Option.ite_none_right_eq_some.mp taken
    cases eq
    exact kept.test t
  | resume t =>
    obtain ⟨_,eq⟩ := Option.ite_none_right_eq_some.mp taken
    cases eq
    exact kept.test t
  | kill t =>
    cases taken
    exact ⟨kept.single,kept.holder,kept.recorded⟩
  | releasesleep t =>
    obtain ⟨_,eq⟩ := Option.ite_none_right_eq_some.mp taken
    cases eq
    have nobody (u : T) : ¬ update s.between t false u = true := by
      by_cases here : u = t
      · rw [here,update_self]
        exact Bool.false_ne_true
      · rw [update_of_ne here]
        exact fun inside => here (kept.single u t inside owned)
    exact ⟨fun u _ inside => absurd inside (nobody u),nofun,fun u inside => absurd inside (nobody u)⟩

end Sleeplock

/-- One thread at a time has the lock. `holdingsleep` says so to the threads of its process, and to no
other thread if it is the only one of its process. -/
theorem sleeplock_held_by_process (pids : Injective pid) (s : Sleeplock T)
    (run : Interleave.Reaches (Sleeplock.step proc pid) Sleeplock.Owned initsleeplock s) :
    (∀ t u, s.between t = true → s.between u = true → t = u) ∧
    ∀ t, s.holdingsleep proc pid t = true → ∃ u, s.between u = true ∧ proc u = proc t ∧
      ((∀ v, proc v = proc t → v = t) → u = t) := by
  have kept : s.Kept proc pid := run.invariant _ ⟨nofun,nofun,nofun⟩
    fun m a m' kept owned taken => kept.step a owned taken
  refine ⟨kept.single,?_⟩
  intro t holding
  simp only [Sleeplock.holdingsleep,Bool.and_eq_true,beq_iff_eq] at holding
  obtain ⟨u,inside⟩ := kept.holder holding.1
  have same : proc u = proc t := pids ((kept.recorded u inside).2.symm.trans holding.2)
  exact ⟨u,inside,same,fun alone => alone u same⟩

end Machine

theorem sleeplock_held_by_first : ∃ s : Sleeplock Bool, s.holdingsleep (fun t => if t then 1 else 2) id true = true ∧
    ∀ u, s.between u = true ↔ u = true := by
  obtain ⟨s,run,holding⟩ := Interleave.play_shows
    (Sleeplock.step (fun t : Bool => if t then 1 else 2) id) Sleeplock.Owned initsleeplock [.acquiresleep true]
    (fun s => s.holdingsleep (fun t => if t then 1 else 2) id true = true) (by decide)
  obtain ⟨single,holder⟩ := sleeplock_held_by_process _ id injective_id s run
  obtain ⟨u,inside,_,alone⟩ := holder true holding
  rw [alone (by decide)] at inside
  exact ⟨s,holding,fun u => ⟨fun other => single u true other inside,fun first => first ▸ inside⟩⟩

/-- Two threads of one process: the second one is told that it has the lock that the first one took. -/
theorem sleeplock_held_by_sibling : ∃ s, Interleave.Reaches
    (Sleeplock.step (fun _ : Bool => ()) fun _ => 1) Sleeplock.Owned initsleeplock s ∧
    s.between true = true ∧ s.between false = false ∧ s.holdingsleep (fun _ : Bool => ()) (fun _ => 1) false = true :=
  Interleave.play_shows _ _ initsleeplock [.acquiresleep true] _ (by decide)

end Kthreads
