import Kthreads.Thread.Drain
import Kthreads.Thread.Reaping

/-! The thread that `kthread_join` has found ended. It frees the slot in a later section; as long as the slot
keeps the id, what was found of the thread still holds. -/
namespace Kthreads
variable {s s' : KState} {a : Action}

/-- What is known of the thread that each `kthread_join` is about to free, while its slot keeps the id. -/
def OfJoined (s : KState) (known : Slot → Prop) : Prop :=
  ∀ t tid v, (s.pc t).life = .joinFree tid v → tid < s.nexttid ∧ ((s.thread v).tid = tid → known v)

theorem OfJoined.start {known : Slot → Prop} (init : Start s) : OfJoined s known := by
  intro t tid v life
  rcases init.slot t with ready | vacant
  · rw [ready.pc] at life
    contradiction
  · rw [vacant.pc] at life
    contradiction

/-- A slot that keeps its id keeps its thread or has been emptied, so this is all that a step has to keep. -/
theorem OfJoined.step {known known' : Slot → Prop} (inv : OfJoined s known) (ids : Ids s) (room : TidRoom s a)
    (taken : ThreadStep s a s')
    (found : ∀ t o tid v, a = .run t o → s.pc t = .joinLoop tid → (s.thread v).state = .tZombie → known v)
    (stays : ∀ v, (s'.thread v).tid = (s.thread v).tid → ¬ Born s v a s' → known v → known' v)
    (emptied : ∀ v, (s'.thread v).state = .tUnused → Reaper s v s' a → known' v) : OfJoined s' known' := by
  have nexttid : s.nexttid ≤ s'.nexttid := by
    rcases step_nexttid taken with same | ⟨t,o,p,nt,pc,rfl,births,free,rfl⟩
    · omega
    · have next : (allocthread s nt).nexttid = s.nexttid+1 :=
        next32_eq _ (by have := ids.nexttid; omega) (room nt (births_target births free))
      change s.nexttid ≤ (allocthread s nt).nexttid
      omega
  have keeps (tid : Int) (v : Slot) (below : tid < s.nexttid) (old : (s.thread v).tid = tid → known v)
      (same : (s'.thread v).tid = tid) : known' v := by
    -- a new thread in the slot has a new id
    have unborn : ¬ Born s v a s' := by
      rintro ⟨t,o,p,pc⟩
      have fresh : s.nexttid = tid := by simpa [allocthread] using same
      omega
    have kept (tid_same : (s'.thread v).tid = (s.thread v).tid) : known' v :=
      stays v tid_same unborn (old (tid_same.symm.trans same))
    cases step_change taken v with
    | keeps inherits => exact kept inherits.tid
    | emptied empty reaper => exact emptied v empty.state reaper
    | sleeps => exact kept (by simp [sleepCommit])
    | marked t => exact kept (markSiblings_tid s t v)
    | born t o p pc births free on => exact absurd (.mk t o p pc on births free) unborn
    | stacked t o pc page rest s' gets head eq => exact kept (by rw [eq])
  intro t tid v life
  rcases step_placed taken t with same | plain | arrives
  · obtain ⟨below,old⟩ := inv t tid v (same.symm.trans life)
    exact ⟨by omega,keeps tid v below old⟩
  · rw [life] at plain
    contradiction
  · rw [life] at arrives
    generalize seen : Life.joinFree tid v = place at arrives
    cases arrives with
    | found o tid' v' place looks dead =>
      obtain ⟨rfl,rfl⟩ := by simpa using seen
      have carries : (s.thread v).tid = tid := by
        have passed := List.find?_some looks
        simp only [Bool.and_eq_true,beq_iff_eq] at passed
        exact passed.2
      have below : tid < s.nexttid := carries ▸ ids.below v
      exact ⟨by omega,keeps tid v below fun _ => found t o tid v rfl place dead⟩
    | birth o p nt pc births free => cases births <;> simp [Pc.life] at seen
    | stacked o nt pc gets => cases gets <;> simp [Pc.life] at seen
    | _ => simp at seen

/-- The thread is still ended. -/
abbrev Joined (s : KState) : Prop := OfJoined s fun v => ¬ Occupied s v

theorem Joined.step (inv : Joined s) (drained : Drained s) (ids : Ids s) (room : TidRoom s a)
    (taken : ThreadStep s a s') : Joined s' := by
  refine OfJoined.step inv ids room taken ?_ ?_ ?_
  · intro t o tid v _ _ dead live
    exact live.2 dead
  · intro v _ unborn ended live
    rcases drained.lives taken v live with ⟨still,_⟩ | born
    · exact ended still
    · exact unborn born
  · intro v empty _ live
    exact live.1 empty

theorem Joined.ended (inv : Joined s) (joins : JoinsSame s a) : JoinsEnded s a := by
  cases a with
  | run t o =>
    intro u member
    unfold joinTarget at member
    split at member
    next tid v place =>
      obtain rfl : v = u := by simpa using member
      have same : (s.thread v).tid = tid := joins (tid,v) (by simp [joined,place])
      exact (inv t tid v (by rw [place]; rfl)).2 same
    next => simp at member
  | _ => trivial

/-- Ids do not run out, and threads are created, forked and joined without a race. -/
abbrev Careful (s : KState) (a : Action) : Prop := TidRoom s a ∧ CreatesAlive s a ∧ ForksEmpty s a ∧ JoinsSame s a

theorem Joined.orderly (inv : Joined s) (careful : Careful s a) : Orderly s a :=
  ⟨careful.1,careful.2.1,careful.2.2.1,inv.ended careful.2.2.2⟩

/-- What careful runs keep. -/
structure Regular (s : KState) : Prop where
  ids : Ids s
  drained : Drained s
  joined : Joined s

theorem Regular.start (init : Start s) : Regular s := ⟨.start init,.start init,.start init⟩

theorem Regular.step (regular : Regular s) (careful : Careful s a) (taken : ThreadStep s a s') : Regular s' :=
  ⟨regular.ids.step careful.1 taken,regular.drained.step regular.ids (regular.joined.orderly careful) taken,
    regular.joined.step regular.drained regular.ids careful.1 taken⟩

end Kthreads
