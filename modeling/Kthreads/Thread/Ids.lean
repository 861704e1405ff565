import Kthreads.Thread.Changes

/-! Thread ids. `allocthread` gives out the values of a counter and every other section
keeps or clears them, so that two slots never carry the same id as long as the counter
does not wrap around. -/
namespace Kthreads
variable {s s' : KState}

structure Ids (s : KState) : Prop where
  unique : ∀ t u, (s.thread t).tid = (s.thread u).tid → (s.thread t).tid ≠ 0 → t = u
  below : ∀ u, (s.thread u).tid < s.nexttid
  nexttid : 0 < s.nexttid ∧ s.nexttid < 2^31

abbrev TidRoom (s : KState) : Action → Prop := onRun fun t _ =>
  ∀ nt ∈ birthTarget s t, s.nexttid < 2^31-1

theorem births_target {t : Slot} {p : ProcIx} {nt : Slot} {pc : Pc}
    (births : Births s t p nt pc) (found : unusedSlot s p = some nt) : nt ∈ birthTarget s t := by
  cases births with
  | create nt place => simpa [birthTarget,place] using found
  | fork np nt place => simpa [birthTarget,place] using found

theorem step_nexttid {a : Action} (taken : ThreadStep s a s') :
    s'.nexttid = s.nexttid ∨ ∃ t o p nt pc, a = .run t o ∧ Births s t p nt pc ∧
      unusedSlot s p = some nt ∧ s' = (allocthread s nt).goto t pc := by
  cases taken with
  | birth t o p nt pc on births free found => exact .inr ⟨t,o,p,nt,pc,rfl,births,found,rfl⟩
  | frame same => exact .inl same.nexttid
  | scheduler t => exact .inl (congrArg (·.1) (scheduler_scheduled s t).rest)
  | drain t o k i n m pc on place same => exact .inl same.nexttid
  | exitFinal t o on place free =>
    obtain ⟨m,same,_,_,eq⟩ := exitFinal_eq s t
    rw [eq]
    exact .inl same.nexttid
  | waitPanic t o c | waitDone t o c =>
    obtain ⟨_,_,_,_,eq⟩ := reapThreads_rest s c
    rw [eq]
    exact .inl rfl
  | _ => exact .inl rfl

theorem step_tid {a : Action} (taken : ThreadStep s a s') (u : Slot) :
    ((s'.thread u).tid = (s.thread u).tid ∨ (s'.thread u).tid = 0) ∨ Born s u a s' ∧ (s'.thread u).tid = s.nexttid := by
  cases step_change taken u with
  | keeps inherits => exact .inl (.inl inherits.tid)
  | emptied empty => exact .inl empty.tid
  | sleeps => exact .inl (.inl (by simp [sleepCommit]))
  | marked t => exact .inl (.inl (markSiblings_tid s t u))
  | born t o p pc births found on => exact .inr ⟨⟨t,o,p,pc,on,births,found⟩,by simp [allocthread]⟩
  | stacked t o pc page rest s' gets head thread => exact .inl (.inl (by rw [thread]))

/-- Ids given out before the step stand where they stood. -/
theorem older_tid {a : Action} {u : Slot} {tid : Int} (taken : ThreadStep s a s') (below : tid < s.nexttid) (nonzero : tid ≠ 0)
    (same : (s'.thread u).tid = tid) : (s.thread u).tid = tid := by
  rcases step_tid taken u with (old | zero) | ⟨_,fresh⟩
  · exact old.symm.trans same
  · exact absurd (same.symm.trans zero) nonzero
  · omega

namespace Ids

theorem start (init : Start s) : Ids s where
  unique := init.tids
  nexttid := init.nexttid
  below u := by
    rcases init.slot u with ready | vacant
    · exact ready.tid.2
    · rw [vacant.tid]
      exact init.nexttid.1

theorem keep (ids : Ids s)
    (tid : ∀ u, (s'.thread u).tid = (s.thread u).tid ∨ (s'.thread u).tid = 0)
    (nexttid : s'.nexttid = s.nexttid) : Ids s' := by
  refine ⟨?_,?_,?_⟩
  · intro t u same nonzero
    have first := (tid t).resolve_right nonzero
    have second := (tid u).resolve_right (same ▸ nonzero)
    exact ids.unique t u (first ▸ second ▸ same) (first ▸ nonzero)
  · intro u
    rw [nexttid]
    rcases tid u with same | zero
    · rw [same]
      exact ids.below u
    · rw [zero]
      exact ids.nexttid.1
  · rw [nexttid]
    exact ids.nexttid

theorem birth (ids : Ids s) (nt : Slot) (room : s.nexttid < 2^31-1) :
    Ids (allocthread s nt) := by
  have next : (allocthread s nt).nexttid = s.nexttid+1 :=
    next32_eq _ (by have := ids.nexttid; omega) room
  have own : ((allocthread s nt).thread nt).tid = s.nexttid := by
    simp [allocthread]
  have others (u : Slot) (other : u ≠ nt) : (allocthread s nt).thread u = s.thread u := by
    simp [allocthread,other]
  refine ⟨?_,?_,?_⟩
  · intro t u same nonzero
    by_cases left : t = nt <;> by_cases right : u = nt
    · rw [left,right]
    · rw [left,own,others u right] at same
      have bound := ids.below u
      omega
    · rw [right,own,others t left] at same
      have bound := ids.below t
      omega
    · rw [others t left,others u right] at same
      rw [others t left] at nonzero
      exact ids.unique t u same nonzero
  · intro u
    rw [next]
    by_cases here : u = nt
    · rw [here,own]
      omega
    · rw [others u here]
      have bound := ids.below u
      omega
  · rw [next]
    have bound := ids.nexttid
    omega

section Step
variable {a : Action} (ids : Ids s) (room : TidRoom s a) (taken : ThreadStep s a s')
include ids room taken

theorem nexttid_le : s.nexttid ≤ s'.nexttid := by
  rcases step_nexttid taken with same | ⟨t,o,p,nt,pc,rfl,births,found,rfl⟩
  · exact same.ge
  · have bound := room nt (births_target births found)
    have next : (allocthread s nt).nexttid = s.nexttid+1 := next32_eq _ (by have := ids.nexttid; omega) bound
    change s.nexttid ≤ (allocthread s nt).nexttid
    omega

theorem step : Ids s' := by
  rcases step_nexttid taken with same | ⟨t,o,p,nt,pc,rfl,births,found,rfl⟩
  · refine ids.keep ?_ same
    intro u
    rcases step_tid taken u with old | ⟨born,_⟩
    · exact old
    · cases born with
      | mk t o p pc on births found =>
        have next : (allocthread s u).nexttid = s.nexttid+1 :=
          next32_eq _ (by have := ids.nexttid; omega) (room u (births_target births found))
        change (allocthread s u).nexttid = s.nexttid at same
        omega
  · exact (ids.birth nt (room nt (births_target births found))).keep (fun _ => .inl rfl) rfl

end Step

end Ids

end Kthreads
