import Kthreads.Process.Join

/-! `kill` and the processes it can reach. Its scan compares ids in every slot of the process table, also
in those that are not in use. These have the id 0 and are not marked killed, as long as nobody kills the
process with id 0 and every `fork` that has taken a slot succeeds. -/
open Function (update update_of_ne update_self)

namespace Kthreads

def killed (s : KState) (pid : Int) : Option ProcIx :=
  (List.finRange nproc).find? fun p => (s.proc p).pid == pid

def killRet (s : KState) (pid : Int) : Int :=
  match killed s pid with
  | none => -1
  | some _ => 0

def killing (s : KState) (t : Slot) : Option Int :=
  match s.pc t with
  | .kill pid => some pid
  | _ => none

def Finished (s : KState) (pid : Int) : Prop := ∀ p i, ∀ np ∈ (s.pc (p,i)).life.forks, (s.proc np).pid ≠ pid

instance (s : KState) (pid : Int) : Decidable (Finished s pid) :=
  inferInstanceAs (Decidable (∀ _ _, _))

/-- Nobody kills the process with id 0, or one that a `fork` has not finished. -/
abbrev KillsFinished (s : KState) : Action → Prop := onRun fun t _ =>
  ∀ pid ∈ killing s t, pid ≠ 0 ∧ Finished s pid

instance (s : KState) (a : Action) : Decidable (KillsFinished s a) :=
  inferInstanceAs (Decidable (onRun (fun t _ => ∀ pid ∈ killing s t, pid ≠ 0 ∧ Finished s pid) a))

abbrev KillsWell (s : KState) (a : Action) : Prop := Peaceful s a ∧ CreationsFit s a ∧ KillsFinished s a

inductive Marks (s : KState) (p : ProcIx) : Action → Prop
  | fault (t : Slot) (o : Oracle) (on : s.cpu t = .on) (own : p = t.1) : Marks s p (.run t o)
  | kill (t : Slot) (o : Oracle) (pid : Int) (place : s.pc t = .kill pid) (found : killed s pid = some p) :
      Marks s p (.run t o)

def Spares (s s' : KState) : Prop := ∀ p, (s'.proc p).killed = true → (s.proc p).killed = true

namespace Spares

theorem same {s s' : KState} (proc : s'.proc = s.proc) : Spares s s' := by
  intro p marked
  rw [proc] at marked
  exact marked

theorem trans {s m s' : KState} (first : Spares s m) (second : Spares m s') : Spares s s' :=
  fun p marked => first p (second p marked)

theorem write {s s' : KState} (p : ProcIx) (v : Proc) (proc : s'.proc = update s.proc p v)
    (spared : v.killed = true → (s.proc p).killed = true) : Spares s s' := by
  intro q marked
  by_cases here : q = p
  · subst q
    rw [proc,update_self] at marked
    exact spared marked
  · rw [proc,update_of_ne here] at marked
    exact marked

theorem wakeAll (s : KState) (chans : Chan → Bool) : Spares s (wakeAll s chans) := by
  intro p
  simp only [Kthreads.wakeAll]
  split <;> exact fun marked => marked

theorem reapThread (s : KState) (u : Slot) : Spares s (reapThread s u) := by
  rcases reapThread_cases s u with eq | eq | ⟨page,_,eq⟩ <;> rw [eq] <;> exact same rfl

theorem reapThreads (s : KState) (c : ProcIx) : Spares s (reapThreads s c) := by
  refine reapThreads_rule s c (same rfl) ?_
  intro m i spared _
  exact spared.trans (reapThread m (c,i))

theorem exitFinal (s : KState) (t : Slot) : Spares s (exitFinal s t) := by
  have woken : Spares s (wakeParent s t.1) := by
    unfold wakeParent
    split
    · exact same rfl
    · exact wakeAll s _
  have passed (m : KState) : Spares m (abandonChildren m t.1) := by
    have adopted : Spares m {m with proc := fun c => if (m.proc c).parent = some t.1
        then {m.proc c with parent := some m.initproc} else m.proc c} := by
      intro p
      simp only
      split <;> exact fun marked => marked
    unfold abandonChildren
    simp only
    split
    · exact adopted.trans (wakeAll _ _)
    · exact adopted
  have buried (m : KState) : Spares m (buryProcess m t.1) := write t.1 _ rfl fun marked => marked
  refine ((woken.trans (passed _)).trans (buried _)).trans ?_
  unfold Kthreads.exitFinal
  generalize buryProcess _ _ = m
  exact same rfl

end Spares

theorem code_marks (s s' : KState) (t : Slot) (o : Oracle) (calm : s.panicked = false) (on : s.cpu t = .on)
    (taken : code s t o = some s') (p : ProcIx) (marked : (s'.proc p).killed = true) :
    (s.proc p).killed = true ∨ Marks s p (.run t o) := by
  have spared (spares : Spares s s') : (s.proc p).killed = true ∨ Marks s p (.run t o) := .inl (spares p marked)
  cases code_sections calm taken with
  | fault place =>
    by_cases own : p = t.1
    · exact .inr (.fault t o on own)
    · simp only [KState.goto,KState.setProc,update_of_ne own] at marked
      exact .inl marked
  | kill pid q place found =>
    by_cases here : p = q
    · subst here
      exact .inr (.kill t o pid place found)
    · simp only [rouse,KState.sysret,KState.goto,KState.setProc,update_of_ne here] at marked
      exact .inl marked
  | exitThread => exact spared (.trans (.wakeAll s _) (.same rfl))
  | exitFinal => exact spared (.exitFinal s t)
  | stack nt | stackless nt | forkCopied nt | forkFailed nt | forkRun nt =>
    exact spared (.write nt.1 _ rfl fun marked => marked)
  | forkProc np => exact spared (.write np _ rfl fun marked => marked)
  | drainFree => exact spared (.write t.1 _ rfl fun marked => marked)
  | waitPanic c => exact spared (.reapThreads s c)
  | waitDone c =>
    have reaped := Spares.reapThreads s c
    generalize reapThreads s c = m at reaped spared
    exact spared (reaped.trans (.write c _ rfl (by simp)))
  | mutex sub =>
    cases sub with
    | goes | sleeps => exact spared (.same rfl)
    | unlocks i id place mutex =>
      obtain ⟨thread,eq⟩ := wakeSleeper_rest {s with mutex := mutex, mtableLock := none} t.1 i
      rw [eq] at spared
      exact spared (.same rfl)
  | files sub =>
    cases sub with
    | wakes => exact spared (.trans (.same rfl) (.wakeAll _ _))
    | stays | goes | sleeps => exact spared (.same rfl)
  | panics | walk | mark | drainWakes | birth | createRun | waitNone | joinDies | joinMissing | joinFound | joinFree
      | sleep => exact spared (.same rfl)

/-- A process is marked killed by a fault of its own or by `kill`. -/
theorem step_marks {s s' : KState} {a : Action} (taken : step s a = some s') (p : ProcIx)
    (marked : (s'.proc p).killed = true) : (s.proc p).killed = true ∨ Marks s p a := by
  obtain ⟨calm,taken⟩ := step_cases taken
  cases taken with
  | run t o s' on taken => exact code_marks s s' t o calm on taken p marked
  | scheduler t =>
    have picked : Spares s (dispatch s t) := .write t.1 {s.proc t.1 with state := .used} rfl fun marked => marked
    refine .inl (picked.trans (Spares.same ?_) p marked)
    unfold scheduler sleepResume
    simp only
    split
    · split <;> rfl
    · rfl
  | yield t => exact .inl (Spares.write t.1 {s.proc t.1 with state := .used} rfl (fun marked => marked) p marked)
  | wakeup n => exact .inl (Spares.wakeAll s _ p marked)
  | ideintr b rest =>
    have spared : Spares s (wakeup1 {s with idequeue := rest} (.disk b)) := .trans (.same rfl) (.wakeAll _ _)
    exact .inl (spared p marked)
  | swtch | spurious | takePage | givePage => exact .inl marked

/-- A slot that is not in use was not before and keeps its id, or `wait` has cleared it. -/
theorem step_unused {s s' : KState} {a : Action} {forker : ProcIx → Int} (kin : Kindred s forker)
    (memory : StackLeft s a) (fit : CreationsFit s a) (taken : step s a = some s') (p : ProcIx)
    (unused : (s'.proc p).state = .unused) :
    (s.proc p).state = .unused ∧ (s'.proc p).pid = (s.proc p).pid ∨
      (s'.proc p).pid = 0 ∧ (s'.proc p).killed = false := by
  have framed (m : KState) (same : KinFrame s m) (here : (m.proc p).state = .unused) :
      (s.proc p).state = .unused ∧ (m.proc p).pid = (s.proc p).pid := by
    refine ⟨?_,(Prod.mk.inj (same.kin p)).2⟩
    rcases same.state p with eq | ⟨used,_⟩
    · exact eq.symm.trans here
    · cases here.symm.trans used
  have wrote (q : ProcIx) (v : Proc) (proc : s'.proc = update s.proc q v)
      (state : v.state = .unused → (s.proc q).state = .unused ∧ v.pid = (s.proc q).pid) :
      (s.proc p).state = .unused ∧ (s'.proc p).pid = (s.proc p).pid := by
    by_cases here : p = q
    · subst p
      rw [proc,update_self] at unused ⊢
      exact state unused
    · rw [proc,update_of_ne here] at unused ⊢
      exact ⟨unused,rfl⟩
  have step := step_kin s s' a taken
  cases step with
  | frame same => exact .inl (framed s' same unused)
  | sleep | birth | createRun => exact .inl ⟨unused,rfl⟩
  | stackless t o nt place empty => exact absurd empty (memory (by rw [place]; simp [Pc.life,Life.pending]) (by rw [place]; rfl))
  | forkProc t o np on place free => exact .inl (wrote np _ rfl (by simp))
  | forkDrop t o nt _ place proc thread own pc ids hist =>
    -- with enough memory the creation would have gone on
    obtain ⟨_,_,code⟩ := step_run taken
    rcases place with place | ⟨place,short⟩
    · simp only [Kthreads.code,place,Option.some.injEq] at code
      obtain ⟨page,rest,head⟩ := List.exists_cons_of_ne_nil (fit.1 (by rw [place]; simp [Pc.life,Life.blank]))
      rw [← code,allocStack,head] at own
      simp at own
    · rw [fit.2 (by rw [place]; rfl)] at short
      contradiction
  | forkCopied t o nt on place copied => exact .inl (wrote nt.1 _ rfl fun state => ⟨state,rfl⟩)
  | forkRun t o nt on place => exact .inl (wrote nt.1 {s.proc nt.1 with state := .used} rfl (by simp))
  | exitFinal t o on place =>
    have buried := exitFinal_buried s t kin.live
    by_cases here : p = t.1
    · subst p
      cases buried.zombie.symm.trans unused
    · exact .inl ⟨(buried.state p here).symm.trans unused,buried.pid p⟩
  | waitDone t o c found =>
    have reaped := KinFrame.reapThreads s c
    generalize reapThreads s c = m at *
    by_cases here : p = c
    · subst p
      exact .inr (by simp [waitDone])
    · have same : (waitDone s m t c).proc p = m.proc p := by
        simp [waitDone,here]
      rw [same] at unused ⊢
      exact .inl (framed m reaped unused)

/-- Slots that are not in use have neither id nor mark, and a process that is being created has no mark. -/
structure Unmarked (s : KState) : Prop where
  unused : ∀ p, (s.proc p).state = .unused → (s.proc p).pid = 0 ∧ (s.proc p).killed = false
  forks : ∀ u np, (s.pc u).life.forks = some np → (s.proc np).killed = false

namespace Unmarked
variable {s s' : KState} {a : Action} {forker : ProcIx → Int}

theorem killed_used (inv : Unmarked s) {pid : Int} {p : ProcIx} (nonzero : pid ≠ 0) (found : killed s pid = some p) :
    (s.proc p).state ≠ .unused ∧ (s.proc p).pid = pid := by
  have named : (s.proc p).pid = pid := by simpa using List.find?_some found
  refine ⟨fun unused => nonzero ?_,named⟩
  rw [← named]
  exact (inv.unused p unused).1

theorem step (inv : Unmarked s) (kin : Kindred s forker) (drained : Drained s) (allowed : KillsWell s a)
    (taken : Kthreads.step s a = some s') : Unmarked s' := by
  have clear (p : ProcIx) (before : (s.proc p).killed = false) (still : ¬ Marks s p a) :
      (s'.proc p).killed = false := by
    by_contra marked
    rcases step_marks taken p (by simpa using marked) with old | marks
    · rw [before] at old
      contradiction
    · exact still marks
  have running (t : Slot) (on : s.cpu t = .on) : (s.proc t.1).state = .used := kin.live t (drained.live t on)
  refine ⟨?_,?_⟩
  · intro p unused
    rcases step_unused kin allowed.1.2.2.2.2 allowed.2.1 taken p unused with ⟨before,pid⟩ | reset
    · rw [pid]
      refine ⟨(inv.unused p before).1,clear p (inv.unused p before).2 ?_⟩
      intro marks
      cases marks with
      | fault t o on own =>
        subst own
        cases before.symm.trans (running t on)
      | kill t o pid place found =>
        have nonzero := (allowed.2.2 pid (by simp [killing,place])).1
        exact (inv.killed_used nonzero found).1 before
    · exact reset
  · intro u np forks
    -- the slot was being filled before, or it was not in use
    have before : (s.proc np).killed = false ∧ ((s.proc np).state = .unused ∨ ∃ v, (s.pc v).life.forks = some np) := by
      have held (v : Slot) (creates : (s.pc v).life.forks = some np) := And.intro (inv.forks v np creates)
        (.inr ⟨v,creates⟩ : (s.proc np).state = .unused ∨ ∃ v, (s.pc v).life.forks = some np)
      rcases step_placed (step_thread s s' a taken) u with same | quiet | arrives
      · rw [same] at forks
        exact held u forks
      · generalize (s'.pc u).life = life at forks quiet
        cases life <;> contradiction
      · generalize (s'.pc u).life = life at forks arrives
        cases arrives with
        | birth o p nt pc births found =>
          cases births with
          | create nt place => contradiction
          | fork p nt place =>
            obtain rfl : p = np := (unusedSlot_spec s p nt found).2.symm.trans (Option.some.inj forks)
            exact held u (by rw [place]; rfl)
        | stacked o nt pc gets =>
          cases gets with
          | create place => contradiction
          | fork place => exact held u (by rw [place]; exact forks)
        | fork o p unused =>
          obtain rfl : p = np := Option.some.inj forks
          exact ⟨(inv.unused p unused).2,.inl unused⟩
        | copied o nt place => exact held u (by rw [place]; exact forks)
        | _ => contradiction
    refine clear np before.1 ?_
    intro marks
    cases marks with
    | fault t o on own =>
      subst own
      rcases before.2 with unused | ⟨v,creates⟩
      · cases unused.symm.trans (running t on)
      · exact kin.outside drained t v t.1 on creates rfl
    | kill t o pid place found =>
      obtain ⟨nonzero,finished⟩ := allowed.2.2 pid (by simp [killing,place])
      obtain ⟨used,named⟩ := inv.killed_used nonzero found
      rcases before.2 with unused | ⟨v,creates⟩
      · exact used unused
      · exact finished v.1 v.2 np creates named

end Unmarked

theorem unmarked_reached {s₀ s : KState} (start : Start s₀) (rooted : Rooted s₀)
    (fresh : ∀ p, (s₀.proc p).state = .unused → (s₀.proc p).pid = 0 ∧ (s₀.proc p).killed = false)
    (reached : Reaches KillsWell s₀ s) : Unmarked s := by
  have creating (s : KState) (reached : Reaches KillsWell s₀ s) : ∃ forker, Creating s forker :=
    creating_reached start rooted (reached.weaken fun _ _ allowed => allowed.1)
  induction reached with
  | refl =>
    refine ⟨fresh,?_⟩
    intro u np forks
    rcases start.slot u with ready | vacant
    · rw [ready.pc] at forks
      contradiction
    · rw [vacant.pc] at forks
      contradiction
  | tail before allowed taken inv =>
    obtain ⟨forker,held⟩ := creating _ before
    exact inv.step held.kin held.drained allowed taken

/-- `kill` returns 0 just if a process in use or a zombie has the id, and marks no other one; otherwise it
returns -1 and only gives control back. Slots that are not in use are not marked, and neither is a process
when `fork` makes it runnable. -/
theorem kill_marks_processes {s₀ s : KState} (start : Start s₀) (rooted : Rooted s₀)
    (fresh : ∀ p, (s₀.proc p).state = .unused → (s₀.proc p).pid = 0 ∧ (s₀.proc p).killed = false)
    (reached : Reaches KillsWell s₀ s) :
    (∀ p, (s.proc p).state = .unused → (s.proc p).killed = false) ∧
    ∀ t o s', KillsWell s (.run t o) → step s (.run t o) = some s' →
      (∀ pid, s.pc t = .kill pid →
        (killRet s pid = 0 ↔ ∃ p, ((s.proc p).state = .used ∨ (s.proc p).state = .zombie) ∧ (s.proc p).pid = pid) ∧
        (killRet s pid ≠ 0 → killRet s pid = -1 ∧ s' = s.sysret t) ∧
        ∀ p, (s.proc p).pid ≠ pid → s'.proc p = s.proc p) ∧
      ∀ nt, s.pc t = .forkRun nt → (s'.proc nt.1).killed = false := by
  have inv := unmarked_reached start rooted fresh reached
  refine ⟨fun p unused => (inv.unused p unused).2,?_⟩
  intro t o s' allowed taken
  obtain ⟨_,_,code⟩ := step_run taken
  refine ⟨?_,?_⟩
  · intro pid place
    have nonzero := (allowed.2.2 pid (by simp [killing,place])).1
    simp only [Kthreads.code,place,guarded_eq_some] at code
    obtain ⟨_,rfl⟩ := code
    cases found : killed s pid with
    | none =>
      have still : kill s t pid = s.sysret t := by
        unfold kill
        rw [show List.find? _ _ = none from found]
      have result : killRet s pid = -1 := by simp [killRet,found]
      refine ⟨?_,fun _ => ⟨result,still⟩,fun p _ => by rw [still]; rfl⟩
      rw [result]
      refine ⟨fun absurd => by contradiction,?_⟩
      rintro ⟨p,_,named⟩
      have skipped := List.find?_eq_none.mp found p (List.mem_finRange p)
      simp [named] at skipped
    | some q =>
      obtain ⟨used,named⟩ := inv.killed_used nonzero found
      have hits : (kill s t pid).proc = update s.proc q {s.proc q with killed := true} := by
        unfold kill
        rw [show List.find? _ _ = some q from found]
        rfl
      have result : killRet s pid = 0 := by simp [killRet,found]
      refine ⟨⟨fun _ => ⟨q,?_,named⟩,fun _ => result⟩,fun failed => absurd result failed,?_⟩
      · cases state : (s.proc q).state with
        | unused => exact absurd state used
        | used => exact .inl rfl
        | zombie => exact .inr rfl
      · intro p other
        have here : p ≠ q := by
          rintro rfl
          exact other named
        rw [hits,update_of_ne here]
  · intro nt place
    have before := inv.forks t nt.1 (by rw [place]; rfl)
    simp only [Kthreads.code,place,guarded_eq_some] at code
    obtain ⟨_,rfl⟩ := code
    simpa [forkRun] using before

theorem session_fresh (live : List Slot) (m : Nat) (pid : Int) (p : ProcIx)
    (unused : ((session live m pid).proc p).state = .unused) :
    ((session live m pid).proc p).pid = 0 ∧ ((session live m pid).proc p).killed = false := by
  simp only [session] at unused ⊢
  split at unused
  · contradiction
  next absent =>
    rw [if_neg absent]
    exact ⟨rfl,rfl⟩

theorem kill_marks_init : ∃ s s', Reaches KillsWell (session [(0,0),(1,0)] 0 0) s ∧
    step s (go (1,0)) = some s' ∧ s.pc (1,0) = .kill 1 ∧ killRet s 1 = 0 := by
  obtain ⟨s,s',reached,allowed,taken,place,used,named⟩ := Interleave.play_shows_step step KillsWell
    (session [(0,0),(1,0)] 0 0) (call (1,0) (.kill 1)) (go (1,0))
    (fun s _ => s.pc (1,0) = .kill 1 ∧ (s.proc 0).state = .used ∧ (s.proc 0).pid = 1) (by decide +kernel)
  have results := ((kill_marks_processes (session_start _ _ _ (by decide) (by decide))
    (session_rooted _ _ _ (by decide)) (session_fresh _ _ _) reached).2 _ _ s' allowed taken).1 1 place
  exact ⟨s,s',reached,taken,place,results.1.mpr ⟨0,.inl used,named⟩⟩

def killThenFork : List Action :=
  [call (1,0) (.kill 0),[go (1,0)],back (1,0),call (1,0) .fork,List.replicate 5 (go (1,0))].flatten

/-- A `fork` that finds no memory for the stack, and then a `kill` of the id it had given out. -/
def forkThenKill : List Action :=
  [[.takePage,.takePage,.takePage],call (1,0) .fork,List.replicate 3 (go (1,0)),back (1,0),
    call (1,0) (.kill 65)].flatten

theorem kill_marks_unused :
    (∃ s, Reaches (fun _ _ => True) (session [(0,0),(1,0)] 0 0) s ∧ s.hist = [.forkDone 2,.created (2,0),.forkBegin 2] ∧
      (s.proc 2).state = .used ∧ (s.proc 2).killed = true) ∧
    ∃ s s', Reaches (fun _ _ => True) (session [(0,0),(1,0)] 0 0) s ∧ step s (go (1,0)) = some s' ∧
      s.pc (1,0) = .kill 65 ∧ killRet s 65 = 0 ∧ (∀ p, (s.proc p).state ≠ .unused → (s.proc p).pid ≠ 65) ∧
        (s'.proc 2).state = .unused ∧ (s'.proc 2).killed = true := by
  constructor
  · exact Interleave.play_shows _ _ _ killThenFork _ (by decide +kernel)
  · obtain ⟨s,s',reached,_,taken,shown⟩ := Interleave.play_shows_step step (fun _ _ => True)
      (session [(0,0),(1,0)] 0 0) forkThenKill (go (1,0))
      (fun s s' => s.pc (1,0) = .kill 65 ∧ killRet s 65 = 0 ∧
        (∀ p, (s.proc p).state ≠ .unused → (s.proc p).pid ≠ 65) ∧ (s'.proc 2).state = .unused ∧
        (s'.proc 2).killed = true)
      (by decide +kernel)
    exact ⟨s,s',reached,taken,shown⟩

end Kthreads
