import Kthreads.Kernel.Step

/-! Quiet states, from which interleavings are considered: every thread is in
user mode, no lock is held and no call is under way. -/
namespace Kthreads

structure Ready (s : KState) (t : Slot) : Prop where
  pc : s.pc t = .user
  cpu : (s.thread t).state = .tRunning ∧ s.cpu t = .on ∨
    (s.thread t).state = .tRunnable ∧ s.cpu t = .off
  tid : 0 < (s.thread t).tid ∧ (s.thread t).tid < s.nexttid
  kstack : (s.thread t).kstack ≠ none

structure Vacant (s : KState) (t : Slot) : Prop where
  pc : s.pc t = .idle
  cpu : s.cpu t = .off
  state : (s.thread t).state = .tUnused
  tid : (s.thread t).tid = 0
  kstack : (s.thread t).kstack = none

structure Start (s : KState) : Prop where
  calm : s.panicked = false
  hist : s.hist = []
  ptableLock : s.ptableLock = none
  mtableLock : s.mtableLock = none
  slot : ∀ t, Ready s t ∨ Vacant s t
  tids : ∀ t u, (s.thread t).tid = (s.thread u).tid → (s.thread t).tid ≠ 0 → t = u
  nexttid : 0 < s.nexttid ∧ s.nexttid < 2^31
  used : ∀ p, (s.proc p).state = .used ∧ (∃ i, Ready s (p,i)) ∨
    (s.proc p).state = .unused ∧ ∀ i, Vacant s (p,i)
  mutexLock : ∀ i, (s.mutex i).mutexLock = none
  mutex : ∀ i, (s.mutex i).lock = 0 ∧ (s.mutex i).holding = none ∧
    ((s.mutex i).state = .uninitialized ∧ (s.mutex i).mid = 0 ∨
      (s.mutex i).state = .opened ∧ 0 < (s.mutex i).mid ∧ (s.mutex i).mid < s.nextmid)
  mids : ∀ i j, (s.mutex i).mid = (s.mutex j).mid → (s.mutex i).mid ≠ 0 → i = j
  nextmid : 0 < s.nextmid ∧ s.nextmid < 2^31
  pages : s.freelist.Nodup ∧ s.otherPages.Nodup ∧ List.Disjoint s.freelist s.otherPages
  stackFree : ∀ t page, (s.thread t).kstack = some page → page ∉ s.freelist ∧ page ∉ s.otherPages
  stackOwn : ∀ t u page, (s.thread t).kstack = some page → (s.thread u).kstack = some page → t = u
  log : s.log.outstanding = 0 ∧ s.log.committing = false
  unlocked : ∀ l, (s.sleepLock l).locked = false
  fs : ∀ t, (s.fs t).inOp = false ∧ (s.fs t).inCommit = false ∧ (s.fs t).owns = []

/-- A quiet state with the given threads on CPUs, each with its place in the list
as thread id and stack page, and with the first `m` mutexes allocated by the
process with id `pid`. Process 0 is `init` and the parent of all others. -/
def session (live : List Slot) (m : Nat) (pid : Int) : KState where
  proc p := if ∃ t ∈ live, t.1 = p
    then ⟨.used,p.val+1,if p = 0 then none else some 0,false,(live.filter (·.1 = p)).length⟩
    else ⟨.unused,0,none,false,0⟩
  thread t := if t ∈ live
    then ⟨.tRunning,live.idxOf t+1,none,false,some (live.idxOf t+1)⟩
    else ⟨.tUnused,0,none,false,none⟩
  mutex i := if i.val < m then ⟨i.val+1,0,0,none,.opened,none,pid⟩
    else ⟨0,0,0,none,.uninitialized,none,0⟩
  initproc := 0
  nextpid := nproc+1
  nexttid := live.length+1
  nextmid := m+1
  ptableLock := none
  mtableLock := none
  freelist := [live.length+1,live.length+2,live.length+3]
  otherPages := []
  log := ⟨0,false,logSize,[]⟩
  sleepLock _ := ⟨false,0⟩
  idequeue := []
  fs _ := ⟨false,false,[]⟩
  pc t := if t ∈ live then .user else .idle
  cpu t := if t ∈ live then .on else .off
  hist := []
  panicked := false

theorem session_ready (live : List Slot) (m : Nat) (pid : Int) (t : Slot) (member : t ∈ live) :
    Ready (session live m pid) t := by
  have bound := List.idxOf_lt_length_of_mem member
  constructor <;> simp [session,member]
  omega

theorem session_vacant (live : List Slot) (m : Nat) (pid : Int) (t : Slot) (absent : t ∉ live) :
    Vacant (session live m pid) t := by
  constructor <;> simp [session,absent]

theorem session_start (live : List Slot) (m : Nat) (pid : Int)
    (few : live.length < 2^31-1) (fit : m ≤ maxMutexes) : Start (session live m pid) where
  calm := rfl
  hist := rfl
  ptableLock := rfl
  mtableLock := rfl
  slot t := by
    by_cases member : t ∈ live
    · exact .inl (session_ready live m pid t member)
    · exact .inr (session_vacant live m pid t member)
  tids t u same nonzero := by
    by_cases first : t ∈ live <;> by_cases second : u ∈ live <;>
      simp [session,first,second] at same nonzero
    · exact (List.idxOf_inj first).mp (by omega)
    · omega
  nexttid := by simp only [session]; omega
  used p := by
    by_cases member : ∃ t ∈ live, t.1 = p
    · left
      obtain ⟨⟨q,i⟩,inside,same⟩ := member
      subst same
      exact ⟨by simp only [session]; rw [if_pos ⟨_,inside,rfl⟩],i,session_ready _ _ _ _ inside⟩
    · right
      refine ⟨by simp only [session]; rw [if_neg member],fun i => session_vacant _ _ _ _ ?_⟩
      intro inside
      exact member ⟨_,inside,rfl⟩
  mutexLock i := by simp only [session]; split <;> rfl
  mutex i := by
    by_cases low : i.val < m
    · simp [session,low]
    · simp [session,low]
  mids i j same nonzero := by
    by_cases first : i.val < m <;> by_cases second : j.val < m <;>
      simp [session,first,second] at same nonzero
    · exact Fin.ext (by omega)
    · omega
  nextmid := by
    have bound : m ≤ 64 := fit
    simp only [session]
    omega
  pages := by simp [session]
  stackFree t page owned := by
    by_cases member : t ∈ live
    · have bound := List.idxOf_lt_length_of_mem member
      simp only [session,member,if_true,Option.some.injEq] at owned
      subst owned
      simp [session]
      omega
    · simp [session,member] at owned
  stackOwn t u page first second := by
    by_cases ft : t ∈ live <;> by_cases fu : u ∈ live <;>
      simp [session,ft,fu] at first second
    exact (List.idxOf_inj ft).mp (Nat.succ.inj (first.trans second.symm))
  log := ⟨rfl,rfl⟩
  unlocked _ := rfl
  fs _ := ⟨rfl,rfl,rfl⟩

def go (t : Slot) : Action := .run t {}

def call (t : Slot) (c : Syscall) : List Action := [go t,go t,go t,.run t {call := c}]

def back (t : Slot) : List Action := [go t,go t]

end Kthreads
