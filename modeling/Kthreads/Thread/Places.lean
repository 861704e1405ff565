import Kthreads.Kernel.Sections

/-! A section of a thread moves that thread. Other threads stay where they are, but for the slot of a
thread that is being set up or dropped. -/
namespace Kthreads

def Stays (s s' : KState) (t : Slot) : Prop :=
  ∀ u, u ≠ t → s'.pc u = s.pc u ∨ s'.pc u = .idle ∨ s'.pc u = .user

namespace Stays

variable {s m : KState} {t : Slot}

theorem goto {pc : Pc} (pcs : m.pc = s.pc := by rfl) : Stays s (m.goto t pc) t := by
  intro u other
  exact .inl (by simp [pcs,other])

theorem same (pcs : m.pc = s.pc := by rfl) : Stays s m t := fun u _ => .inl (by rw [pcs])

theorem twice {nt : Slot} {first pc : Pc} (new : first = .idle ∨ first = .user) (pcs : m.pc = s.pc := by rfl) :
    Stays s ((m.goto nt first).goto t pc) t := by
  intro u other
  by_cases here : u = nt
  · right
    subst here
    simpa [other] using new
  · exact .inl (by simp [pcs,other,here])

end Stays

theorem code_stays (s s' : KState) (t : Slot) (o : Oracle) (calm : s.panicked = false) (taken : code s t o = some s') :
    Stays s s' t := by
  cases code_sections calm taken with
  | panics => exact .same
  | stack => exact .twice (.inr rfl)
  | forkFailed => exact .twice (.inl rfl)
  | exitFinal =>
    obtain ⟨proc,thread,eq⟩ := exitFinal_rest s t
    rw [eq]
    exact .goto
  | waitPanic c => exact .same (reapThreads_pc s c)
  | waitDone c =>
    obtain ⟨_,_,_,_,eq⟩ := reapThreads_rest s c
    rw [eq]
    exact .goto
  | mutex sub =>
    cases sub with
    | goes | sleeps => exact .goto
    | unlocks i id place mutex =>
      obtain ⟨thread,eq⟩ := wakeSleeper_rest {s with mutex := mutex, mtableLock := none} t.1 i
      rw [eq]
      exact .goto
  | files sub =>
    cases sub with
    | stays | wakes => exact .same
    | goes | sleeps => exact .goto
  | walk | fault | mark | drainWakes | drainFree | exitThread | birth | stackless | createRun | forkProc | forkCopied
      | forkRun | waitNone | joinDies | joinMissing | joinFound | joinFree | sleep | kill => exact .goto

end Kthreads
