import Kthreads.Lib.Scan
import Kthreads.Thread.Ids

/-! The draining loop of `exit` and `exec`. While a thread drains, its siblings are told to
die and no thread is born into its process, so live threads only become fewer, the count
of a scan stays an upper bound, and a thread that has left the loop is the only live thread
of its process. -/
open Function (update update_comm)

namespace Kthreads
variable {s s' : KState}

def Doomed (s : KState) (t : Slot) : Prop :=
  ∀ u, u.1 = t.1 → u ≠ t → Occupied s u → (s.thread u).shouldDie = true

def Alone (s : KState) (t : Slot) : Prop := ∀ u, u.1 = t.1 → u ≠ t → ¬ Occupied s u

def Fresh (s : KState) (nt : Slot) : Prop :=
  (s.thread nt).state = .tEmbryo ∧ (s.pc nt).life.busy = false

/-- What the place of `t` says about other threads. Entries that a scan has passed and
found empty are still empty. -/
def Fits (s : KState) (t : Slot) : Life → Prop
  | .drain _ i n => Doomed s t ∧ Scan.below (fun j => Occupied s (t.1,j)) i ≤ n
  | .drainFree _ i n =>
    Doomed s t ∧ ¬ Occupied s (t.1,i) ∧ Scan.below (fun j => Occupied s (t.1,j)) i.val ≤ n
  | .tail => Alone s t
  | .createStack nt | .forkStack nt => Fresh s nt ∧ ¬ Active s nt
  | .createRun nt | .forkCopy nt | .forkRun nt => Fresh s nt
  | _ => True

theorem Fits.keep {t : Slot} {life : Life} (fits : Fits s t life)
    (shrinks : life.draining = true ∨ life = .tail → ∀ u, u.1 = t.1 → Occupied s' u → Occupied s u ∧
      ((s.thread u).shouldDie = true → (s'.thread u).shouldDie = true))
    (fresh : ∀ nt, life.pending = some nt → Fresh s nt → Fresh s' nt)
    (blank : ∀ nt, life.blank = some nt → Active s' nt → Active s nt) : Fits s' t life := by
  have fewer (drains : life.draining = true) (i : Nat) :
      Scan.below (fun j => Occupied s' (t.1,j)) i ≤ Scan.below (fun j => Occupied s (t.1,j)) i :=
    Scan.below_mono i fun j live => (shrinks (.inl drains) (t.1,j) rfl live).1
  have doomed (drains : life.draining = true) (old : Doomed s t) : Doomed s' t := by
    intro u own other live
    obtain ⟨before,dies⟩ := shrinks (.inl drains) u own live
    exact dies (old u own other before)
  cases life with
  | drain k i n => exact ⟨doomed rfl fits.1,(fewer rfl i).trans fits.2⟩
  | drainFree k i n =>
    refine ⟨doomed rfl fits.1,?_,(fewer rfl i).trans fits.2.2⟩
    intro live
    exact fits.2.1 (shrinks (.inl rfl) (t.1,i) rfl live).1
  | tail =>
    intro u own other live
    exact fits u own other (shrinks (.inr rfl) u own live).1
  | createStack nt | forkStack nt =>
    exact ⟨fresh nt rfl fits.1,fun active => fits.2 (blank nt rfl active)⟩
  | createRun nt | forkCopy nt | forkRun nt => exact fresh nt rfl fits
  | _ => trivial

def forkTarget (s : KState) (t : Slot) : Option ProcIx :=
  match s.pc t with
  | .forkAlloc np => some np
  | _ => none

def joinTarget (s : KState) (t : Slot) : Option Slot :=
  match s.pc t with
  | .joinFree _ u => some u
  | _ => none

abbrev CreatesAlive (s : KState) : Action → Prop := onRun fun t _ =>
  s.pc t = .createAlloc → (s.thread t).shouldDie = false

abbrev ForksEmpty (s : KState) : Action → Prop := onRun fun t _ =>
  ∀ np ∈ forkTarget s t, ∀ i, ¬ Occupied s (np,i)

abbrev JoinsEnded (s : KState) : Action → Prop := onRun fun t _ => ∀ u ∈ joinTarget s t, ¬ Occupied s u

abbrev Orderly (s : KState) (a : Action) : Prop :=
  TidRoom s a ∧ CreatesAlive s a ∧ ForksEmpty s a ∧ JoinsEnded s a

theorem busy_active (t : Slot) (busy : (s.pc t).life.busy = true) : Active s t := by
  rw [active_iff]
  cases life : (s.pc t).life <;> rw [life] at busy <;> simp [Life.busy] at busy <;> simp

structure Drained (s : KState) : Prop where
  running : ∀ u, s.cpu u = .on → (s.thread u).state = .tRunning
  named : ∀ u, Occupied s u → (s.thread u).tid ≠ 0
  occ : ∀ u, Active s u → Occupied s u
  fits : ∀ u, Fits s u (s.pc u).life
  pending : ∀ t u nt, (s.pc t).life.pending = some nt → (s.pc u).life.pending = some nt → t = u

namespace Drained

theorem start (init : Start s) : Drained s := by
  have place (u : Slot) : (s.pc u).life = .plain ∨ (s.pc u).life = .idle := by
    rcases init.slot u with ready | vacant
    · exact .inl (by rw [ready.pc]; rfl)
    · exact .inr (by rw [vacant.pc]; rfl)
  refine ⟨?_,?_,?_,?_,?_⟩
  · intro u on
    rcases init.slot u with ready | vacant
    · rcases ready.cpu with ⟨state,_⟩ | ⟨_,off⟩
      · exact state
      · rw [off] at on
        contradiction
    · rw [vacant.cpu] at on
      contradiction
  · intro u live
    rcases init.slot u with ready | vacant
    · have positive := ready.tid.1
      omega
    · exact absurd vacant.state live.1
  · intro u active
    rcases init.slot u with ready | vacant
    · rcases ready.cpu with ⟨state,_⟩ | ⟨state,_⟩ <;> simp [Occupied,state]
    · exact absurd vacant.pc active.1
  · intro u
    rcases place u with plain | idle
    · rw [plain]
      trivial
    · rw [idle]
      trivial
  · intro t u nt first _
    rcases place t with plain | idle
    · simp [plain,Life.pending] at first
    · simp [idle,Life.pending] at first

section
variable (inv : Drained s)
include inv

theorem live (t : Slot) (on : s.cpu t = .on) : Occupied s t := by
  simp [Occupied,inv.running t on]

theorem fresh (t nt : Slot) (pending : (s.pc t).life.pending = some nt) : Fresh s nt := by
  have fits := inv.fits t
  cases life : (s.pc t).life <;> rw [life] at pending fits <;> simp [Life.pending] at pending
  all_goals subst pending
  · exact fits.1
  · exact fits
  · exact fits.1
  · exact fits
  · exact fits

theorem inactive (t nt : Slot) (blank : (s.pc t).life.blank = some nt) : ¬ Active s nt := by
  have fits := inv.fits t
  cases life : (s.pc t).life <;> rw [life] at blank fits <;> simp [Life.blank] at blank
  all_goals
    subst blank
    exact fits.2

theorem distinct (t nt : Slot) (pending : (s.pc t).life.pending = some nt) : nt ≠ t := by
  rintro rfl
  have unbusy := (inv.fresh nt nt pending).2
  rw [pending_busy _ nt pending] at unbusy
  contradiction

theorem alone (t : Slot) (place : s.pc t = .exitFinal) : Alone s t := by
  have fits := inv.fits t
  rwa [place] at fits

theorem young (t u : Slot) (pending : (s.pc t).life.pending = some u) : Occupied s u ∧ s.cpu u ≠ .on := by
  have embryo := (inv.fresh t u pending).1
  refine ⟨by simp [Occupied,embryo],?_⟩
  intro on
  rw [inv.running u on] at embryo
  contradiction

theorem marked_doomed (ids : Ids s) (t : Slot) : Doomed (markSiblings s t) t := by
  intro u own other occupied
  have before := (markSiblings_occupied s t u).mp occupied
  have different : (s.thread u).tid ≠ (s.thread t).tid := by
    intro same
    exact other (ids.unique u t same (inv.named u before))
  simp [markSiblings,own,different]

theorem move (t : Slot) (k : Drainer) (i n : Nat) (pc : Pc)
    (on : s.cpu t = .on) (place : s.pc t = .drain k i n) (move : DrainMove s t k i n pc) :
    Fits s t pc.life := by
  have fits := inv.fits t
  rw [place] at fits
  obtain ⟨doomed,bound⟩ := fits
  cases move with
  | zombie inside dead => exact ⟨doomed,fun live => live.2 dead,bound⟩
  | unused inside empty =>
    exact ⟨doomed,(Scan.below_succ_unmarked ⟨i,inside⟩ (fun live => live.1 empty)).trans_le bound⟩
  | counted inside occupied => exact ⟨doomed,(Scan.below_succ_le i).trans (Nat.succ_le_succ bound)⟩
  | again past many => exact ⟨doomed,Scan.below_zero.trans_le (Nat.zero_le _)⟩
  | done past few =>
    cases k with
    | exec => trivial
    | exit =>
      -- The scan is complete and counted one thread, which is `t` itself.
      intro u own other second
      have same := Scan.below_full_unique i past (bound.trans few) u.2 t.2
        (by rw [← own]; exact second) (inv.live t on)
      exact other (Prod.ext own same)

theorem calm (t : Slot) (o : Oracle) (p : ProcIx) (nt : Slot) (pc : Pc)
    (on : s.cpu t = .on) (births : Births s t p nt pc) (orderly : Orderly s (.run t o)) (u : Slot)
    (own : u.1 = p) : ¬ ((s.pc u).life.draining = true ∨ (s.pc u).life = .tail) := by
  intro drains
  have fits := inv.fits u
  cases births with
  | create nt place =>
    have other : t ≠ u := by
      rintro rfl
      simp [place,Pc.life,Life.draining] at drains
    have live := inv.live t on
    have lives := orderly.2.1 place
    have doomed : ¬ Doomed s u := by
      intro dies
      rw [dies t own.symm other live] at lives
      contradiction
    cases life : (s.pc u).life <;> rw [life] at fits drains <;> simp [Life.draining] at drains
    · exact doomed fits.1
    · exact doomed fits.1
    · exact fits t own.symm other live
  | fork np nt place =>
    have live : Occupied s u := by
      apply inv.occ u
      apply busy_active u
      cases life : (s.pc u).life <;> rw [life] at drains <;> simp [Life.draining] at drains <;> rfl
    refine orderly.2.2.1 p (by simp [forkTarget,place]) u.2 ?_
    rw [← own]
    exact live

section
variable {a : Action} (taken : ThreadStep s a s') (u : Slot)

/-- A reaper finds no live thread in the slot, or gives up one that it was setting up. -/
theorem reaped (joins : JoinsEnded s a) (reaper : Reaper s u s' a) : ¬ Occupied s u ∨
    (∃ t, (s.pc t).life.pending = some u ∧ s'.pc t = .retKilled) ∧ ¬ Active s' u := by
  cases reaper with
  | drain t o k i n place here =>
    have fits := inv.fits t
    rw [place] at fits
    exact .inl (here ▸ fits.2.1)
  | join t o tid place => exact .inl (joins u (by simp [joinTarget,place]))
  | wait t o c place on found child dead => exact .inl fun live => live.2 dead
  | stack t o pc gets empty back =>
    have waits := pending_of_blank gets.waits
    refine .inr ⟨⟨t,waits,by simp [back]⟩,?_⟩
    simpa [Active,back,inv.distinct t u waits] using inv.inactive t u gets.waits
  | fork t o place short back =>
    have waits : (s.pc t).life.pending = some u := by rw [place]; rfl
    exact .inr ⟨⟨t,waits,by simp [back]⟩,by simp [Active,back,inv.distinct t u waits]⟩

include taken

theorem runs (joins : JoinsEnded s a) (on : s'.cpu u = .on) : (s'.thread u).state = .tRunning := by
  rcases step_on taken u on with before | running
  · have old := inv.running u before
    have ready (t : Slot) (pending : (s.pc t).life.pending = some u) : False := (inv.young t u pending).2 before
    cases step_change taken u with
    | keeps inherits moves =>
      cases moves with
      | same state => exact state.trans old
      | wakes asleep =>
        rw [old] at asleep
        contradiction
      | runs _ state => exact state
      | yields _ _ off | ends _ _ off => exact absurd on off
      | buried t _ place own _ _ dead =>
        by_cases here : u = t
        · exact absurd on (dead here).1
        · exact absurd (inv.live u before) (inv.alone t place u own here)
      | started released =>
        obtain ⟨t,pending,_⟩ := released.pending
        exact (ready t pending).elim
    | emptied _ reaper =>
      rcases inv.reaped u joins reaper with ended | ⟨⟨t,pending,_⟩,_⟩
      · exact absurd (inv.live u before) ended
      · exact (ready t pending).elim
    | sleeps => simp [sleepCommit] at on
    | marked t o k place own => simp [markSiblings,own,old]
    | born t o p pc births found =>
      rw [(unusedSlot_spec s p u found).1] at old
      contradiction
    | stacked t o pc page rest s' gets head thread => rw [thread]; exact old
  · exact running

theorem lives (live : Occupied s' u) : (Occupied s u ∧ (s'.thread u).tid = (s.thread u).tid ∧
    ((s.thread u).shouldDie = true → (s'.thread u).shouldDie = true)) ∨
      Born s u a s' := by
  cases step_change taken u with
  | keeps inherits moves =>
    refine .inl ⟨?_,inherits.tid,?_⟩
    · cases moves with
      | same state => rwa [Occupied,state] at live
      | wakes old | runs old | yields old => simp [Occupied,old]
      | ends _ state | buried _ _ _ _ _ state => exact absurd state live.2
      | started released =>
        obtain ⟨t,pending,_⟩ := released.pending
        exact (inv.young t u pending).1
    · rcases inherits.shouldDie with same | ⟨_,zombie⟩
      · exact same.trans
      · exact absurd zombie live.2
  | emptied empty => exact absurd empty.state live.1
  | sleeps o chan site on => exact .inl ⟨inv.live u on,by simp [sleepCommit],by simp [sleepCommit]⟩
  | marked t o k place own other =>
    refine .inl ⟨(markSiblings_occupied s t u).mp live,markSiblings_tid s t u,?_⟩
    intro dies
    simp [markSiblings,own,dies]
  | born t o p pc births found on => exact .inr (.mk t o p pc on births found)
  | stacked t o pc page rest s' gets head thread =>
    rw [Occupied,thread] at live
    exact .inl ⟨live,by rw [thread],by rw [thread]; exact fun dies => dies⟩

theorem occupies (joins : JoinsEnded s a) (active : Active s' u) : Occupied s' u := by
  have before : Occupied s u := by
    cases step_places taken u with
    | same life =>
      refine inv.occ u ?_
      rwa [active_iff,← life,← active_iff]
    | rests _ active => exact inv.occ u active
    | starts t pc gets => exact (inv.young t u (pending_of_blank gets.waits)).1
    | leaves gone => exact absurd active gone
    | arrives on => exact inv.live u on
  cases step_change taken u with
  | keeps inherits moves =>
    cases moves with
    | same state => rwa [Occupied,state]
    | wakes _ state | runs _ state | yields _ state | started _ state => simp [Occupied,state]
    | ends _ _ _ dead => exact absurd dead active.2
    | buried t _ place own _ _ dead =>
      by_cases here : u = t
      · exact absurd (dead here).2 active.2
      · exact absurd before (inv.alone t place u own here)
  | emptied _ reaper =>
    rcases inv.reaped u joins reaper with ended | ⟨_,gone⟩
    · exact absurd before ended
    · exact absurd active gone
  | sleeps => simp [Occupied,sleepCommit]
  | marked t => exact (markSiblings_occupied s t u).mpr before
  | born => simp [Occupied,allocthread]
  | stacked t o pc page rest s' gets head thread => rwa [Occupied,thread]

/-- A slot that is being set up stays as it is as long as the call goes on. -/
theorem stays_fresh (joins : JoinsEnded s a) (nt : Slot) (pending : (s.pc u).life.pending = some nt)
    (still : (s'.pc u).life.pending = some nt) : Fresh s' nt := by
  obtain ⟨embryo,unbusy⟩ := inv.fresh u nt pending
  obtain ⟨live,off⟩ := inv.young u nt pending
  have back (t : Slot) (waits : (s.pc t).life.pending = some nt) : s'.pc t ≠ .retKilled := by
    intro back
    rw [inv.pending u t nt pending waits,back] at still
    contradiction
  refine ⟨?_,?_⟩
  · cases step_change taken nt with
    | keeps inherits moves =>
      cases moves with
      | same state => exact state.trans embryo
      | wakes old | runs old | yields old =>
        rw [embryo] at old
        contradiction
      | ends on => exact absurd on off
      | buried t on place own =>
        refine absurd live (inv.alone t place nt own ?_)
        rintro rfl
        exact off on
      | started released =>
        obtain ⟨t,waits,gone⟩ := released.pending
        exact absurd gone (back t waits)
    | emptied _ reaper =>
      rcases inv.reaped nt joins reaper with ended | ⟨⟨t,waits,gone⟩,_⟩
      · exact absurd live ended
      · exact absurd gone (back t waits)
    | sleeps o chan site on => exact absurd on off
    | marked t o k place own => simp [markSiblings,own,embryo]
    | born t o p pc births found =>
      rw [(unusedSlot_spec s p nt found).1] at embryo
      contradiction
    | stacked t o pc page rest s' gets head thread => rw [thread]; exact embryo
  · cases step_places taken nt with
    | same life => rwa [life]
    | rests plain | starts _ _ _ plain => rw [plain]; rfl
    | leaves gone =>
      by_contra busy
      exact gone (busy_active nt (by simpa using busy))
    | arrives on => exact absurd on off

theorem stays_blank (nt : Slot) (life : (s'.pc u).life = (s.pc u).life) (blank : (s.pc u).life.blank = some nt)
    (active : Active s' nt) : Active s nt := by
  have pending := pending_of_blank blank
  cases step_places taken nt with
  | same same => rwa [active_iff,← same,← active_iff]
  | rests _ active => exact active
  | starts t pc gets _ after =>
    -- the one that waits for the stack does not wait any more
    obtain rfl : u = t := inv.pending u t nt pending (pending_of_blank gets.waits)
    rw [← life,after] at blank
    cases gets <;> contradiction
  | leaves gone => exact absurd active gone
  | arrives on => exact absurd on (inv.young u nt pending).2

omit inv in
theorem waits (nt : Slot) (pending : (s'.pc u).life.pending = some nt) : (s.pc u).life.pending = some nt ∨
    (s.thread nt).state = .tUnused ∧ ∃ o, a = .run u o := by
  rcases step_placed taken u with same | quiet | arrives
  · exact .inl (same ▸ pending)
  · rw [pending_busy _ nt pending] at quiet
    contradiction
  · generalize (s'.pc u).life = life at pending arrives
    cases arrives with
    | birth o p new pc births found =>
      obtain rfl : new = nt := by cases births <;> exact Option.some.inj pending
      exact .inr ⟨(unusedSlot_spec s p new found).1,o,rfl⟩
    | stacked o new pc gets =>
      obtain rfl : new = nt := by cases gets <;> exact Option.some.inj pending
      exact .inl (pending_of_blank gets.waits)
    | copied o new place => exact .inl (by rw [place]; exact pending)
    | _ => contradiction

theorem refits (ids : Ids s) (orderly : Orderly s a) : Fits s' u (s'.pc u).life := by
  have joins := orderly.2.2.2
  have shrinks (drains : (s.pc u).life.draining = true ∨ (s.pc u).life = .tail) (v : Slot) (own : v.1 = u.1)
      (live : Occupied s' v) : Occupied s v ∧
        ((s.thread v).shouldDie = true → (s'.thread v).shouldDie = true) := by
    rcases inv.lives taken v live with ⟨before,_,dies⟩ | ⟨t,o,p,pc,on,births,found⟩
    · exact ⟨before,dies⟩
    · refine absurd drains (inv.calm t o p v pc on births orderly u ?_)
      exact own.symm.trans (unusedSlot_spec s p v found).2
  have keep (life : Life) (fits : Fits s u life) (settled : life.pending = none)
      (drains : (s.pc u).life.draining = true) : Fits s' u life := by
    refine fits.keep (fun _ => shrinks (.inl drains)) ?_ ?_
    · simp [settled]
    · intro nt blank
      cases life <;> contradiction
  cases step_places taken u with
  | same same =>
    rw [same]
    refine (inv.fits u).keep shrinks ?_ (fun nt => inv.stays_blank taken u nt same)
    intro nt pending _
    exact inv.stays_fresh taken u joins nt pending (same ▸ pending)
  | rests plain | starts _ _ _ plain => rw [plain]; trivial
  | leaves gone =>
    rw [active_iff] at gone
    generalize (s'.pc u).life = life at gone
    cases life <;> simp at gone <;> trivial
  | arrives on arrives =>
    have fresh := inv.stays_fresh taken u joins
    generalize (s'.pc u).life = life at fresh arrives
    cases arrives with
    | marks o k on place eq =>
      subst eq
      exact ⟨inv.marked_doomed ids u,Scan.below_zero.trans_le (Nat.zero_le _)⟩
    | scan o k i n i₀ n₀ place move => exact keep _ (inv.move u k i₀ n₀ _ on place move) rfl (by rw [place]; rfl)
    | zombie o k i n place dead =>
      exact keep _ (inv.move u k i.val n _ on place (.zombie i.isLt dead)) rfl (by rw [place]; rfl)
    | freed o k i n place =>
      have fits := inv.fits u
      rw [place] at fits
      obtain ⟨doomed,ended,bound⟩ := fits
      exact keep (.drain k (i.val+1) n) ⟨doomed,(Scan.below_succ_unmarked i ended).trans_le bound⟩ rfl
        (by rw [place]; rfl)
    | tail o i n place past few =>
      exact keep .tail (inv.move u .exit i n _ on place (.done past few)) rfl (by rw [place]; rfl)
    | birth o p nt pc births found eq =>
      subst eq
      have unused := (unusedSlot_spec s p nt found).1
      have inactive : ¬ Active s nt := fun active => (inv.occ nt active).1 unused
      have unbusy : (s.pc nt).life.busy = false := by
        by_contra busy
        exact inactive (busy_active nt (by simpa using busy))
      have self : nt ≠ u := by
        rintro rfl
        exact (inv.live nt on).1 unused
      have born : Fresh ((allocthread s nt).goto u pc) nt ∧ ¬ Active ((allocthread s nt).goto u pc) nt :=
        ⟨⟨by simp [allocthread],by simpa [allocthread,self] using unbusy⟩,
          by simpa [Active,allocthread,self] using inactive⟩
      cases births <;> exact born
    | stacked o nt pc gets =>
      have young := fresh nt (pending_of_blank gets.waits) (by cases gets <;> rfl)
      cases gets <;> exact young
    | copied o nt place => exact fresh nt (by rw [place]; rfl) rfl
    | fork | found => trivial

end

theorem step {a : Action} (ids : Ids s) (orderly : Orderly s a) (taken : ThreadStep s a s') : Drained s' := by
  have joins := orderly.2.2.2
  refine ⟨?_,?_,?_,?_,?_⟩
  · intro u
    exact inv.runs taken u joins
  · intro u live
    rcases inv.lives taken u live with ⟨before,tid,_⟩ | ⟨t,o,p,pc⟩
    · rw [tid]
      exact inv.named u before
    · have positive := ids.nexttid.1
      have fresh : ((allocthread s u).thread u).tid = s.nexttid := by simp [allocthread]
      change ((allocthread s u).thread u).tid ≠ 0
      omega
  · intro u
    exact inv.occupies taken u joins
  · intro u
    exact inv.refits taken u ids orderly
  · intro t u nt first second
    rcases waits taken t nt first with before | ⟨unused,o,acts⟩
    · rcases waits taken u nt second with also | ⟨unused,_⟩
      · exact inv.pending t u nt before also
      · rw [(inv.fresh t nt before).1] at unused
        contradiction
    · rcases waits taken u nt second with before | ⟨_,o',acts'⟩
      · rw [(inv.fresh u nt before).1] at unused
        contradiction
      · cases acts.symm.trans acts'
        rfl

end

end Drained

end Kthreads
