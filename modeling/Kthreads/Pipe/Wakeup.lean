import Kthreads.Pipe.Fifo

/-! Who sleeps in a pipe. Both loops wake the other side on their normal way out and before a
sleep. The early return of `pipewrite` wakes nobody, so that it must not come after a store. -/
namespace Kthreads

variable {T P : Type}

namespace PipeState

structure Sleepers (s : PipeState T P) : Prop where
  readers : ∀ t n, s.pc t = .readSleep n → s.Empty ∧ s.writeopen = true
  writers : ∀ t addr n i, s.pc t = .writeSleep addr n i → s.Full ∧ s.readopen = true

section
variable (s : PipeState T P) (u : T)
include s u

theorem wakeReaders_none (n : Int) : s.wakeReaders.pc u ≠ .readSleep n := by
  cases place : s.pc u <;> simp [wakeReaders,place]

theorem wakeWriters_none (addr : Nat → Byte) (n : Int) (i : Nat) : s.wakeWriters.pc u ≠ .writeSleep addr n i := by
  cases place : s.pc u <;> simp [wakeWriters,place]

theorem wakeReaders_writers (addr : Nat → Byte) (n : Int) (i : Nat)
    (sleeps : s.wakeReaders.pc u = .writeSleep addr n i) : s.pc u = .writeSleep addr n i := by
  cases place : s.pc u <;> simp only [wakeReaders,place] at sleeps <;> first | exact sleeps | contradiction

theorem wakeWriters_readers (n : Int) (sleeps : s.wakeWriters.pc u = .readSleep n) : s.pc u = .readSleep n := by
  cases place : s.pc u <;> simp only [wakeWriters,place] at sleeps <;> first | exact sleeps | contradiction

end

theorem Sleepers.pipeclose {s : PipeState T P} (sleepers : Sleepers s) (writable : Bool) :
    Sleepers (s.pipeclose writable) := by
  have closed : Sleepers (if writable then {s with writeopen := false}.wakeReaders
      else {s with readopen := false}.wakeWriters) := by
    cases writable with
    | true =>
      refine ⟨fun u n sleeps => absurd sleeps (wakeReaders_none _ u n),?_⟩
      intro u addr n i sleeps
      exact sleepers.writers u addr n i (wakeReaders_writers {s with writeopen := false} u addr n i sleeps)
    | false =>
      refine ⟨?_,fun u addr n i sleeps => absurd sleeps (wakeWriters_none _ u addr n i)⟩
      intro u n sleeps
      exact sleepers.readers u n (wakeWriters_readers {s with readopen := false} u n sleeps)
  unfold PipeState.pipeclose
  simp only
  generalize (if writable then {s with writeopen := false}.wakeReaders
    else {s with readopen := false}.wakeWriters : PipeState T P) = m at closed ⊢
  split
  · exact ⟨closed.readers,closed.writers⟩
  · exact closed

theorem Sleepers.kill [DecidableEq P] {proc : T → P} {s : PipeState T P} (sleepers : Sleepers s) (p : P) :
    Sleepers (s.kill proc p) := by
  refine ⟨?_,?_⟩
  · intro u n sleeps
    refine sleepers.readers u n ?_
    cases place : s.pc u <;> simp only [PipeState.kill,place] at sleeps
    all_goals first | contradiction | (split at sleeps <;> first | exact sleeps | contradiction)
  · intro u addr n i sleeps
    refine sleepers.writers u addr n i ?_
    cases place : s.pc u <;> simp only [PipeState.kill,place] at sleeps
    all_goals first | contradiction | (split at sleeps <;> first | exact sleeps | contradiction)

end PipeState

variable [DecidableEq T]

/-- The number of bytes that a section of `pipewrite` still has to store, if the action is one. -/
def PipeAction.toStore (s : PipeState T P) : PipeAction T P → Option (T × Nat)
  | .pipewrite t _ n => some (t,n.toNat)
  | .resume t =>
    match s.pc t with
    | .writeWoken _ n i => some (t,n.toNat-i)
    | _ => none
  | _ => none

/-- When the caller has been killed or the read end is closed, a section of `pipewrite` finds the
pipe full already, or with room for all of its bytes. -/
def StoresWhole (proc : T → P) (s : PipeState T P) (a : PipeAction T P) : Prop :=
  ∀ w ∈ a.toStore s, s.readopen = false ∨ s.killed (proc w.1) = true →
    s.Full ∨ (s.nwrite+2^32-s.nread) % 2^32+w.2 ≤ pipeSize

namespace PipeState.Sleepers
variable {proc : T → P} {s : PipeState T P}

theorem goes (t : T) (pc : PipePc)
    (readers : ∀ u n, u ≠ t → s.pc u = .readSleep n → s.Empty ∧ s.writeopen = true)
    (writers : ∀ u addr n i, u ≠ t → s.pc u = .writeSleep addr n i → s.Full ∧ s.readopen = true)
    (reads : ∀ n, pc = .readSleep n → s.Empty ∧ s.writeopen = true)
    (writes : ∀ addr n i, pc = .writeSleep addr n i → s.Full ∧ s.readopen = true) : Sleepers (s.goto t pc) := by
  refine ⟨?_,?_⟩
  · intro u n sleeps
    by_cases here : u = t
    · rw [here,goto_here] at sleeps
      exact reads n sleeps
    · rw [goto_others s t u pc here] at sleeps
      exact readers u n here sleeps
  · intro u addr n i sleeps
    by_cases here : u = t
    · rw [here,goto_here] at sleeps
      exact writes addr n i sleeps
    · rw [goto_others s t u pc here] at sleeps
      exact writers u addr n i here sleeps

theorem leaves (sleepers : Sleepers s) (t : T) : Sleepers (s.goto t .user) :=
  goes t .user (fun u n _ => sleepers.readers u n) (fun u addr n i _ => sleepers.writers u addr n i)
    (fun _ asleep => by contradiction) (fun _ _ _ asleep => by contradiction)

theorem writeFrom (sleepers : Sleepers s) {done rest : List Byte}
    (holds : Ring.Holds (2^32) s.data s.nread s.nwrite done rest) (t : T) (addr : Nat → Byte) (n : Int) (i : Nat)
    (bound : i ≤ n.toNat) (whole : s.readopen = false ∨ s.killed (proc t) = true →
      s.Full ∨ (s.nwrite+2^32-s.nread) % 2^32+(n.toNat-i) ≤ pipeSize) :
    Sleepers (s.writeFrom proc t addr n i) := by
  obtain ⟨k,index,few,fed,stops⟩ := fill_fed s t addr (n.toNat-i) i
  obtain ⟨readopen,writeopen,_,killed,pc,_,_,_⟩ := by simpa only [Prod.mk.injEq] using fed.rest
  have nothing (full : s.Full) : (s.fill t addr (n.toNat-i) i).1 = s := by
    cases n.toNat-i with
    | zero => rfl
    | succ left =>
      unfold PipeState.fill
      rw [if_pos full]
  unfold PipeState.writeFrom
  simp only
  rw [index]
  generalize (s.fill t addr (n.toNat-i) i).1 = m at *
  -- A writer that sleeps has left the pipe full, so that nothing can be stored now.
  have writers (u : T) (addr' : Nat → Byte) (n' : Int) (i' : Nat) (sleeps : m.pc u = .writeSleep addr' n' i') :
      m.Full ∧ m.readopen = true := by
    rw [pc] at sleeps
    obtain ⟨full,opened⟩ := sleepers.writers u addr' n' i' sleeps
    rw [nothing full]
    exact ⟨full,opened⟩
  have woken (u : T) (addr' : Nat → Byte) (n' : Int) (i' : Nat) (_ : u ≠ t)
      (sleeps : m.wakeReaders.pc u = .writeSleep addr' n' i') : m.Full ∧ m.readopen = true :=
    writers u addr' n' i' (wakeReaders_writers m u addr' n' i' sleeps)
  split
  next early =>
    have full := stops (by omega)
    split
    next fails =>
      rw [readopen,killed] at fails
      have same : m = s := by
        rcases whole fails with already | room
        · exact nothing already
        · -- There was room for all bytes, so that the loop would have ended.
          have used := holds.used (by decide)
          have count := (full_iff_length m done _ (fed.ring done rest holds)).mp full
          rw [List.length_append,List.length_map,List.length_range] at count
          omega
      rw [same]
      exact goes t .user (fun u n _ => sleepers.readers u n) (fun u addr n i _ => sleepers.writers u addr n i)
        (fun _ asleep => by contradiction) (fun _ _ _ asleep => by contradiction)
    next waits =>
      have opened : m.readopen = true := by
        rw [not_or] at waits
        simpa using waits.1
      exact goes t _ (fun u n _ sleeps => absurd sleeps (wakeReaders_none m u n)) woken
        (fun _ asleep => by contradiction) (fun _ _ _ _ => ⟨full,opened⟩)
  next done =>
    exact goes t .user (fun u n _ sleeps => absurd sleeps (wakeReaders_none m u n)) woken
      (fun _ asleep => by contradiction) (fun _ _ _ asleep => by contradiction)

theorem piperead (sleepers : Sleepers s) (t : T) (n : Int) : Sleepers (s.piperead proc t n) := by
  unfold PipeState.piperead
  split
  next waits =>
    split
    · exact sleepers.leaves t
    · exact goes t _ (fun u n _ => sleepers.readers u n) (fun u addr n i _ => sleepers.writers u addr n i)
        (fun _ _ => waits) (fun _ _ _ asleep => by contradiction)
  next ready =>
    obtain ⟨same,_⟩ := copy_drained s n.toNat
    generalize s.copy n.toNat = m at same
    obtain ⟨_,_,_,_,pc,_,_,_⟩ := by simpa only [Prod.mk.injEq] using same
    refine goes t .user ?_ (fun u addr n i _ sleeps => absurd sleeps (wakeWriters_none m u addr n i))
      (fun _ asleep => by contradiction) (fun _ _ _ asleep => by contradiction)
    intro u n' _ sleeps
    have before := wakeWriters_readers m u n' sleeps
    rw [pc] at before
    exact absurd (sleepers.readers u n' before) ready

theorem step [DecidableEq P] {s' : PipeState T P} {a : PipeAction T P} (sleepers : Sleepers s) (inv : PipeInv s)
    (whole : StoresWhole proc s a) (taken : pipeStep proc s a = some s') : Sleepers s' := by
  obtain ⟨_,_,holds⟩ := inv.ring
  unfold pipeStep at taken
  split at taken
  · contradiction
  · cases a with
    | pipewrite t addr n =>
      simp only [Option.ite_none_left_eq_some,Option.some.injEq] at taken
      obtain ⟨_,rfl⟩ := taken
      have before : Sleepers {s with calls := Function.update s.calls t (s.calls t+1)} :=
        ⟨sleepers.readers,sleepers.writers⟩
      exact before.writeFrom holds t addr n 0 (Nat.zero_le _) (whole (t,n.toNat) rfl)
    | piperead t n =>
      simp only [Option.ite_none_left_eq_some,Option.some.injEq] at taken
      obtain ⟨outside,rfl⟩ := taken
      exact sleepers.piperead t n
    | resume t =>
      simp only at taken
      split at taken
      next n place =>
        cases taken
        exact sleepers.piperead t n
      next addr n i place =>
        cases taken
        have writes : (s.pc t).writes = some (addr,n,i) := by rw [place]; rfl
        exact sleepers.writeFrom holds t addr n i (inv.writes t addr n i writes).1
          (whole (t,n.toNat-i) (by simp [PipeAction.toStore,place]))
      next => contradiction
    | pipeclose writable =>
      cases taken
      exact sleepers.pipeclose writable
    | kill p =>
      cases taken
      exact sleepers.kill p
    | die t =>
      simp only [Option.ite_none_right_eq_some,Option.some.injEq] at taken
      obtain ⟨_,rfl⟩ := taken
      exact sleepers.leaves t

end PipeState.Sleepers

def PipePc.reading : PipePc → Option Int
  | .readSleep n => some n
  | _ => none

theorem reading_some (pc : PipePc) (n : Int) (reads : pc.reading = some n) : pc = .readSleep n := by
  cases pc <;> simp [PipePc.reading] at reads
  rw [reads]

theorem outside_user (pc : PipePc) (outside : pc.inside = false) : pc = .user := by
  cases pc <;> simp [PipePc.inside] at outside
  rfl

instance [DecidableEq P] (proc : T → P) (s : PipeState T P) (a : PipeAction T P) : Decidable (StoresWhole proc s a) :=
  inferInstanceAs (Decidable (∀ w ∈ a.toStore s, _))

end Kthreads
