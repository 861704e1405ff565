import Kthreads.Process.Transitions
import Kthreads.Thread.Exit
import Kthreads.Thread.LastThread

/-! The protocol of `fork`, `exit` and `wait`. A process is named by its slot in `parent`, by its
id in what `wait` returns and by a thread slot on the channel of a sleeping parent. Slots are
used again while ids are not, so the three agree only because a process that ends hands over its
children in the section in which it becomes a zombie. -/
open Function (update update_self)

namespace Kthreads
variable {s s' : KState}

def returned (s : KState) : List Int := s.hist.filterMap Event.waited

theorem returned_append (s s' : KState) (new : List Event) (hist : s'.hist = new ++ s.hist)
    (quiet : ∀ e ∈ new, e.waited = none) : returned s' = returned s := by
  have silent : new.filterMap Event.waited = [] := by
    rw [List.filterMap_eq_nil_iff]
    exact quiet
  rw [returned,hist,List.filterMap_append,silent]
  rfl

theorem kinless_waited (e : Event) (quiet : e.kinless = true) : e.waited = none := by
  cases e with
  | forkBegin | forkDone => contradiction
  | _ => simpa [Event.kinless] using quiet

structure Roster (s : KState) : Prop where
  pid : ∀ p, (s.proc p).state ≠ .unused →
    0 < (s.proc p).pid ∧ (s.proc p).pid < s.nextpid ∧ (s.proc p).pid ∉ returned s
  unique : ∀ p q, (s.proc p).state ≠ .unused → (s.proc q).state ≠ .unused →
    (s.proc p).pid = (s.proc q).pid → p = q
  once : (returned s).Nodup
  below : ∀ pid ∈ returned s, pid < s.nextpid
  room : 0 < s.nextpid ∧ s.nextpid < 2^31

theorem Roster.keep (roster : Roster s)
    (proc : ∀ p, (s'.proc p).state ≠ .unused → (s.proc p).state ≠ .unused ∧ (s'.proc p).pid = (s.proc p).pid)
    (nextpid : s'.nextpid = s.nextpid) (same : returned s' = returned s) : Roster s' := by
  refine ⟨?_,?_,?_,?_,?_⟩
  · intro p inUse
    obtain ⟨before,pid⟩ := proc p inUse
    rw [pid,nextpid,same]
    exact roster.pid p before
  · intro p q first second equal
    obtain ⟨before,pid⟩ := proc p first
    obtain ⟨before',pid'⟩ := proc q second
    rw [pid,pid'] at equal
    exact roster.unique p q before before' equal
  · rw [same]
    exact roster.once
  · rw [same,nextpid]
    exact roster.below
  · rw [nextpid]
    exact roster.room

/-- `q` is the process that `fork` made the parent of `c`, or `init` after that process has ended. -/
def Named (s : KState) (forker : ProcIx → Int) (c q : ProcIx) : Prop :=
  (s.proc q).pid = forker c ∨
    q = s.initproc ∧ ∀ r, (s.proc r).state = .used → (s.proc r).pid ≠ forker c

structure Descent (s : KState) (forker : ProcIx → Int) : Prop where
  init : (s.proc s.initproc).state = .used ∧ (s.proc s.initproc).parent = none
  orphan : ∀ p, (s.proc p).state = .unused → (s.proc p).parent = none
  parent : ∀ c q, (s.proc c).parent = some q → (s.proc q).state = .used ∧ q ≠ c
  settled : ∀ c, c ≠ s.initproc → (s.proc c).state ≠ .unused → ¬ Forking s c →
    ∃ q, (s.proc c).parent = some q ∧ Named s forker c q
  known : ∀ c, forker c < s.nextpid

theorem Descent.keep {forker : ProcIx → Int} (descent : Descent s forker)
    (kin : ∀ p, ((s'.proc p).parent,(s'.proc p).pid) = ((s.proc p).parent,(s.proc p).pid))
    (same : ∀ p, (s'.proc p).state = (s.proc p).state)
    (ids : (s'.nextpid,s'.initproc) = (s.nextpid,s.initproc))
    (fork : ∀ p, Forking s' p ↔ Forking s p) : Descent s' forker := by
  obtain ⟨nextpid,initproc⟩ := Prod.mk.inj ids
  have parent (p : ProcIx) := (Prod.mk.inj (kin p)).1
  have pid (p : ProcIx) := (Prod.mk.inj (kin p)).2
  refine ⟨?_,?_,?_,?_,?_⟩
  · rw [initproc,same,parent]
    exact descent.init
  · intro p
    rw [same,parent]
    exact descent.orphan p
  · intro c q
    rw [same,parent]
    exact descent.parent c q
  · intro c
    rw [same,parent,initproc,fork]
    intro other inUse finished
    obtain ⟨q,eq,named⟩ := descent.settled c other inUse finished
    refine ⟨q,eq,?_⟩
    rw [Named,pid,initproc]
    rcases named with still | ⟨root,gone⟩
    · exact .inl still
    · refine .inr ⟨root,fun r => ?_⟩
      rw [same,pid]
      exact gone r
  · rw [nextpid]
    exact descent.known

structure Creation (s : KState) (forker : ProcIx → Int) (t : Slot) (np : ProcIx) : Prop where
  used : (s.proc np).state = .used
  other : np ≠ s.initproc
  forking : Forking s np
  parent : (s.proc np).parent = if (s.pc t).life.linked then some t.1 else none
  recorded : (s.pc t).life.linked = true → forker np = (s.proc t.1).pid
  thread : ∀ i, Occupied s (np,i) → (s.pc t).life.child = some (np,i)
  childless : ∀ c, (s.proc c).parent ≠ some np

theorem Creation.keep {forker forker' : ProcIx → Int} {t : Slot} {np : ProcIx}
    (making : Creation s forker t np) (state : (s'.proc np).state = .used) (initproc : s'.initproc = s.initproc)
    (forking : Forking s' np) (parent : (s'.proc np).parent = (s.proc np).parent)
    (pid : (s'.proc t.1).pid = (s.proc t.1).pid) (record : forker' np = forker np)
    (life : (s'.pc t).life.child = (s.pc t).life.child ∧ (s'.pc t).life.linked = (s.pc t).life.linked)
    (thread : ∀ i, Occupied s' (np,i) → Occupied s (np,i))
    (childless : ∀ c, (s'.proc c).parent = some np → (s.proc c).parent = some np) :
    Creation s' forker' t np where
  used := state
  other := by
    rw [initproc]
    exact making.other
  forking := forking
  parent := by
    rw [parent,life.2]
    exact making.parent
  recorded := by
    rw [life.2,record,pid]
    exact making.recorded
  thread i occupied := by
    rw [life.1]
    exact making.thread i (thread i occupied)
  childless c named := making.childless c (childless c named)

def Rested (s : KState) (u : Slot) : Prop :=
  (s.thread u).chan = some (.thread u) ∧ ∀ c, (s.proc c).parent = some u.1 → (s.proc c).state ≠ .zombie

structure Kindred (s : KState) (forker : ProcIx → Int) : Prop extends Roster s, Descent s forker where
  live : ∀ u, Occupied s u → (s.proc u.1).state = .used
  exits : ∀ u, (s.pc u).life.exits = true → u.1 ≠ s.initproc
  forks : ∀ u np, (s.pc u).life.forks = some np → Creation s forker u np
  single : ∀ t u np, (s.pc t).life.forks = some np → (s.pc u).life.forks = some np → t = u
  waits : ∀ u, Waits s u → Rested s u
  holds : ∀ u chan, s.pc u ≠ .sleepHold chan .wait

namespace Kindred

theorem state_same {forker : ProcIx → Int} (inv : Kindred s forker)
    (state : ∀ p, (s'.proc p).state = (s.proc p).state ∨ (s'.proc p).state = .used ∧ ∃ i, Occupied s (p,i))
    (p : ProcIx) : (s'.proc p).state = (s.proc p).state := by
  rcases state p with same | ⟨used,i,occupied⟩
  · exact same
  · rw [used]
    exact (inv.live (p,i) occupied).symm

theorem returned_same
    (hist : ∃ new, s'.hist = new ++ s.hist ∧ ∀ e ∈ new, e.kinless = true) : returned s' = returned s := by
  obtain ⟨new,eq,quiet⟩ := hist
  exact returned_append s s' new eq (fun e member => kinless_waited e (quiet e member))

theorem frame {forker : ProcIx → Int} (inv : Kindred s forker) (same : KinFrame s s') :
    Kindred s' forker := by
  have state := inv.state_same same.state
  have parent (p : ProcIx) := (Prod.mk.inj (same.kin p)).1
  have pid (p : ProcIx) := (Prod.mk.inj (same.kin p)).2
  obtain ⟨nextpid,initproc⟩ := Prod.mk.inj same.ids
  have fork := forking_same same.hist
  refine ⟨?_,?_,?_,?_,?_,?_,?_,?_⟩
  · refine inv.toRoster.keep ?_ nextpid (returned_same same.hist)
    intro p inUse
    rw [state] at inUse
    exact ⟨inUse,pid p⟩
  · exact inv.toDescent.keep same.kin state same.ids fork
  · intro u occupied
    rw [state]
    exact inv.live u (same.live u occupied)
  · intro u exits
    rw [initproc]
    rcases same.exits u exits with before | other
    · exact inv.exits u before
    · exact other
  · intro u np forks
    obtain ⟨before,child,linked⟩ := same.forks u np forks
    have making := inv.forks u np before
    refine making.keep (by rw [state]; exact making.used) initproc ((fork np).mpr making.forking) (parent np)
      (pid u.1) rfl ⟨child,linked⟩ (fun i => same.live (np,i)) ?_
    intro c
    rw [parent]
    exact id
  · intro t u np first second
    exact inv.single t u np (same.forks t np first).1 (same.forks u np second).1
  · intro u waits
    obtain ⟨before,chan⟩ := same.waits u waits
    obtain ⟨slot,none⟩ := inv.waits u before
    refine ⟨chan.trans slot,?_⟩
    intro c
    rw [parent,state]
    exact none c
  · intro u chan holds
    exact inv.holds u chan (same.holds u chan holds)

/-- No thread that runs belongs to a process that is being made. -/
theorem outside {forker : ProcIx → Int} (inv : Kindred s forker) (drained : Drained s) (t u : Slot)
    (np : ProcIx) (on : s.cpu t = .on) (forks : (s.pc u).life.forks = some np) : t.1 ≠ np := by
  rintro rfl
  have child := (inv.forks u t.1 forks).thread t.2 (drained.live t on)
  have pending : (s.pc u).life.pending = some t := by
    cases life : (s.pc u).life <;> rw [life] at child <;> simp [Life.child] at child <;> simp [Life.pending,child]
  have embryo := (drained.fresh u t pending).1
  rw [drained.running t on] at embryo
  contradiction

theorem sleep {forker : ProcIx → Int} (inv : Kindred s forker) (drained : Drained s) (t : Slot)
    (chan : Chan) (site : Site) (on : s.cpu t = .on) (falls : Falls s t chan site) :
    Kindred (sleepCommit s t chan site) forker := by
  have life (u : Slot) : ((sleepCommit s t chan site).pc u).life = (s.pc u).life := by
    by_cases here : u = t
    · subst u
      have slept : (sleepCommit s t chan site).pc t = .asleep site := by simp [sleepCommit]
      rw [slept]
      cases falls with
      | hold chan site place => rw [place]; rfl
      | join tid u place => rw [place]; rfl
      | wait place => rw [place]; rfl
    · simp [sleepCommit,here]
  have thread (u : Slot) (other : u ≠ t) : (sleepCommit s t chan site).thread u = s.thread u := by
    simp [sleepCommit,other]
  have live (u : Slot) (occupied : Occupied (sleepCommit s t chan site) u) : Occupied s u := by
    by_cases here : u = t
    · subst u
      exact drained.live t on
    · rwa [Occupied,thread u here] at occupied
  refine ⟨inv.toRoster.keep (fun p inUse => ⟨inUse,rfl⟩) rfl rfl,inv.toDescent.keep (fun _ => rfl) (fun _ => rfl) rfl
    (fun _ => Iff.rfl),fun u occupied => inv.live u (live u occupied),?_,?_,?_,?_,?_⟩
  · intro u exits
    rw [life] at exits
    exact inv.exits u exits
  · intro u np forks
    rw [life] at forks
    have making := inv.forks u np forks
    exact making.keep making.used rfl making.forking rfl rfl rfl (by rw [life]; exact ⟨rfl,rfl⟩)
      (fun i => live (np,i)) (fun _ same => same)
  · intro v u np first second
    rw [life] at first second
    exact inv.single v u np first second
  · rintro u ⟨asleep,place⟩
    by_cases here : u = t
    · subst u
      simp only [sleepCommit,KState.goto,update_self,Pc.asleep.injEq] at place
      subst place
      cases falls with
      | hold chan site place => exact absurd place (inv.holds t chan)
      | wait place none waits =>
        refine ⟨by simp [sleepCommit],?_⟩
        intro c child zombie
        have missed := List.find?_eq_none.mp none c (List.mem_finRange c)
        change (s.proc c).parent = _ at child
        change (s.proc c).state = _ at zombie
        simp [child,zombie] at missed
    · have before : Waits s u := by
        rw [thread u here] at asleep
        refine ⟨asleep,?_⟩
        simpa [sleepCommit,here] using place
      obtain ⟨slot,none⟩ := inv.waits u before
      exact ⟨by rw [thread u here]; exact slot,none⟩
  · intro u chan' holds
    by_cases here : u = t
    · subst u
      simp [sleepCommit] at holds
    · refine inv.holds u chan' ?_
      simpa [sleepCommit,here] using holds

theorem maker (drained : Drained s) (u : Slot) (np : ProcIx)
    (forks : (s.pc u).life.forks = some np) : Occupied s u := by
  apply drained.occ u
  rw [active_iff]
  constructor
  · intro idle
    rw [idle] at forks
    contradiction
  · intro dead
    rw [dead] at forks
    contradiction

theorem resume {forker forker' : ProcIx → Int} (inv : Kindred s forker) (roster : Roster s')
    (descent : Descent s' forker') (initproc : s'.initproc = s.initproc)
    (live : ∀ u, Occupied s' u → (s'.proc u.1).state = .used) (t : Slot)
    (here : (s'.pc t).life.exits = false ∧ (s'.pc t).waits = false)
    (elsewhere : ∀ u, u ≠ t → s'.pc u = s.pc u ∨ s'.pc u = .idle)
    (forks : ∀ u np, (s'.pc u).life.forks = some np → Creation s' forker' u np)
    (single : ∀ t u np, (s'.pc t).life.forks = some np → (s'.pc u).life.forks = some np → t = u)
    (asleep : ∀ u, (s'.thread u).state = .tSleeping → s'.thread u = s.thread u)
    (zombies : ∀ c q, (s'.proc c).parent = some q → (s'.proc c).state = .zombie →
      (s.proc c).parent = some q ∧ (s.proc c).state = .zombie) : Kindred s' forker' := by
  have place (u : Slot) : s'.pc u = s.pc u ∨ (s'.pc u).life.exits = false ∧ (s'.pc u).waits = false := by
    by_cases same : u = t
    · exact .inr (same ▸ here)
    · rcases elsewhere u same with still | idle
      · exact .inl still
      · exact .inr (idle ▸ ⟨rfl,rfl⟩)
  refine ⟨roster,descent,live,?_,forks,single,?_,?_⟩
  · intro u exits
    rw [initproc]
    rcases place u with same | ⟨stays,_⟩
    · rw [same] at exits
      exact inv.exits u exits
    · rw [stays] at exits
      contradiction
  · rintro u ⟨sleeps,waiting⟩
    have same := asleep u sleeps
    have before : Waits s u := by
      rw [same] at sleeps
      refine ⟨sleeps,?_⟩
      rcases place u with still | ⟨_,awake⟩
      · rwa [still] at waiting
      · simp [waiting,Pc.waits] at awake
    obtain ⟨slot,none⟩ := inv.waits u before
    refine ⟨by rw [same]; exact slot,?_⟩
    intro c child zombie
    obtain ⟨named,dead⟩ := zombies c u.1 child zombie
    exact none c named dead
  · intro u chan holds
    rcases place u with still | ⟨_,awake⟩
    · rw [still] at holds
      exact inv.holds u chan holds
    · simp [holds,Pc.waits] at awake

theorem birth {forker : ProcIx → Int} (inv : Kindred s forker) (drained : Drained s) (t : Slot)
    (p : ProcIx) (nt : Slot) (pc : Pc) (on : s.cpu t = .on) (births : Births s t p nt pc)
    (found : unusedSlot s p = some nt) : Kindred ((allocthread s nt).goto t pc) forker := by
  obtain ⟨unused,own⟩ := unusedSlot_spec s p nt found
  have others (u : Slot) (other : u ≠ nt) : ((allocthread s nt).goto t pc).thread u = s.thread u := by
    simp [allocthread,other]
  have elsewhere (u : Slot) (other : u ≠ t) : ((allocthread s nt).goto t pc).pc u = s.pc u := by
    simp [allocthread,other]
  have here : ((allocthread s nt).goto t pc).pc t = pc := by simp
  have quiet : ∃ new, ((allocthread s nt).goto t pc).hist = new ++ s.hist ∧ ∀ e ∈ new, e.kinless = true :=
    ⟨[.created nt],rfl,by simp [Event.kinless,Event.waited]⟩
  have fork := forking_same quiet
  have used : (s.proc nt.1).state = .used := by
    rw [own]
    cases births with
    | create nt place => exact inv.live t (drained.live t on)
    | fork np nt place => exact (inv.forks t p (by rw [place]; rfl)).used
  have forks (u : Slot) (np : ProcIx) (makes : (((allocthread s nt).goto t pc).pc u).life.forks = some np) :
      (s.pc u).life.forks = some np := by
    by_cases same : u = t
    · subst u
      rw [here] at makes
      cases births with
      | create nt place => contradiction
      | fork np' nt place =>
        rw [place,← makes]
        exact congrArg some own.symm
    · rwa [elsewhere u same] at makes
  refine inv.resume (inv.toRoster.keep (fun p inUse => ⟨inUse,rfl⟩) rfl (returned_same quiet))
    (inv.toDescent.keep (fun _ => rfl) (fun _ => rfl) rfl fork) rfl ?_ t ?_ (fun u other => .inl (elsewhere u other))
    ?_ ?_ ?_ (fun _ _ child zombie => ⟨child,zombie⟩)
  · intro u occupied
    by_cases new : u = nt
    · subst u
      exact used
    · rw [Occupied,others u new] at occupied
      exact inv.live u occupied
  · rw [here]
    cases births with
    | create | fork => exact ⟨rfl,rfl⟩
  · intro u np makes
    have before := forks u np makes
    have making := inv.forks u np before
    have thread (i : Fin nthread) (new : (np,i) ≠ nt) (occupied : Occupied ((allocthread s nt).goto t pc) (np,i)) :
        Occupied s (np,i) := by
      rwa [Occupied,others (np,i) new] at occupied
    by_cases same : u = t
    · subst u
      rw [here] at makes
      cases births with
      | create nt place => contradiction
      | fork np' nt place =>
        rw [place] at before
        cases before
        refine ⟨making.used,making.other,(fork p).mpr making.forking,?_,?_,?_,making.childless⟩
        · rw [here]
          refine making.parent.trans ?_
          rw [place]
          rfl
        · rw [here]
          exact fun linked => by contradiction
        · intro i occupied
          rw [here]
          by_cases new : (p,i) = nt
          · exact congrArg some new.symm
          · have child := making.thread i (thread i new occupied)
            rw [place] at child
            contradiction
    · refine making.keep making.used rfl ((fork np).mpr making.forking) rfl rfl rfl
        (by rw [elsewhere u same]; exact ⟨rfl,rfl⟩) ?_ (fun _ same => same)
      intro i occupied
      refine thread i ?_ occupied
      rintro rfl
      cases births with
      | create nt place => exact inv.outside drained t u _ on before own.symm
      | fork np' nt place =>
        change np = p at own
        subst own
        exact same (inv.single u t np before (by rw [place]; rfl))
  · intro v u np first second
    exact inv.single v u np (forks v np first) (forks u np second)
  · intro u asleep
    by_cases new : u = nt
    · subst u
      simp [allocthread] at asleep
    · exact others u new

end Kindred

/-- A step of thread `t` that changes the entry of one process, which has no children and which no other thread
is making. -/
structure Touched (s : KState) (t : Slot) (np : ProcIx) (s' : KState) : Prop where
  old : ∀ p, p ≠ np → s'.proc p = s.proc p
  alive : (s'.proc np).state ≠ .zombie
  other : np ≠ s.initproc
  childless : ∀ c, (s.proc c).parent ≠ some np
  sole : ∀ u, u ≠ t → (s.pc u).life.forks ≠ some np
  makers : ∀ u q, (s.pc u).life.forks = some q → (s'.proc u.1).pid = (s.proc u.1).pid
  linked : ∀ u q, (s.pc u).life.forks = some q → (s'.proc np).parent = some q → (s.proc np).parent = some q
  own : (s'.pc t).life.exits = false ∧ (s'.pc t).waits = false
  elsewhere : ∀ u, u ≠ t → s'.pc u = s.pc u ∨ s'.pc u = .idle
  live : ∀ u, Occupied s' u → Occupied s u ∧ (u.1 = np → (s'.proc np).state = .used)
  asleep : ∀ u, (s'.thread u).state = .tSleeping → s'.thread u = s.thread u
  initproc : s'.initproc = s.initproc
  nextpid : s.nextpid ≤ s'.nextpid
  fork : ∀ p, p ≠ np → (Forking s' p ↔ Forking s p)

namespace Touched
variable {t : Slot} {np : ProcIx} {forker forker' : ProcIx → Int} (touched : Touched s t np s')
include touched

theorem descent (descent : Descent s forker) (record : ∀ c, c ≠ np → forker' c = forker c)
    (runs : (s'.proc np).state = .used →
      (s.proc np).state = .used ∧ (s'.proc np).pid = (s.proc np).pid ∨ (s'.proc np).pid = s.nextpid)
    (orphan : (s'.proc np).state = .unused → (s'.proc np).parent = none)
    (parent : ∀ q, (s'.proc np).parent = some q → (s.proc q).state = .used ∧ q ≠ np)
    (settled : (s'.proc np).state ≠ .unused → ¬ Forking s' np →
      ∃ q, (s'.proc np).parent = some q ∧ Named s' forker' np q)
    (known : forker' np < s'.nextpid) : Descent s' forker' := by
  refine ⟨?_,?_,?_,?_,?_⟩
  · rw [touched.initproc,touched.old _ touched.other.symm]
    exact descent.init
  · intro p free
    by_cases same : p = np
    · subst same
      exact orphan free
    · rw [touched.old p same] at free ⊢
      exact descent.orphan p free
  · intro c q named
    have before : ((s.proc q).state = .used ∧ q ≠ c) ∧ q ≠ np := by
      by_cases same : c = np
      · subst same
        exact ⟨parent q named,(parent q named).2⟩
      · rw [touched.old c same] at named
        exact ⟨descent.parent c q named,fun same => touched.childless c (same ▸ named)⟩
    rw [touched.old q before.2]
    exact before.1
  · intro c other inUse finished
    by_cases same : c = np
    · subst same
      exact settled inUse finished
    · rw [touched.old c same] at inUse ⊢
      rw [touched.initproc] at other
      rw [touched.fork c same] at finished
      obtain ⟨q,eq,named⟩ := descent.settled c other inUse finished
      refine ⟨q,eq,?_⟩
      rw [Named,touched.old q (fun same => touched.childless c (same ▸ eq)),touched.initproc,record c same]
      rcases named with still | ⟨root,gone⟩
      · exact .inl still
      · refine .inr ⟨root,fun r => ?_⟩
        by_cases new : r = np
        · subst new
          intro used
          rcases runs used with ⟨before,pid⟩ | pid
          · rw [pid]
            exact gone r before
          · rw [pid]
            exact (descent.known c).ne'
        · rw [touched.old r new]
          exact gone r
  · intro c
    by_cases same : c = np
    · subst same
      exact known
    · rw [record c same]
      exact (descent.known c).trans_le touched.nextpid

theorem barren (descent : Descent s' forker') (c : ProcIx) : (s'.proc c).parent ≠ some np := by
  intro named
  rw [touched.old c (descent.parent c np named).2.symm] at named
  exact touched.childless c named

theorem kindred (inv : Kindred s forker) (roster : Roster s') (descent : Descent s' forker')
    (record : ∀ c, c ≠ np → forker' c = forker c)
    (making : ∀ q, (s'.pc t).life.forks = some q → q = np ∧ Creation s' forker' t np) : Kindred s' forker' := by
  have makes (u : Slot) (q : ProcIx) (other : u ≠ t) (forks : (s'.pc u).life.forks = some q) :
      s'.pc u = s.pc u ∧ (s.pc u).life.forks = some q ∧ q ≠ np := by
    rcases touched.elsewhere u other with same | idle
    · rw [same] at forks
      exact ⟨same,forks,fun eq => touched.sole u other (eq ▸ forks)⟩
    · rw [idle] at forks
      contradiction
  refine inv.resume roster descent touched.initproc ?_ t touched.own touched.elsewhere ?_ ?_ touched.asleep ?_
  · intro u occupied
    obtain ⟨before,tenant⟩ := touched.live u occupied
    by_cases same : u.1 = np
    · rw [same]
      exact tenant same
    · rw [touched.old u.1 same]
      exact inv.live u before
  · intro u q forks
    by_cases same : u = t
    · subst u
      obtain ⟨rfl,made⟩ := making q forks
      exact made
    · obtain ⟨still,before,apart⟩ := makes u q same forks
      have made := inv.forks u q before
      refine made.keep (by rw [touched.old q apart]; exact made.used) touched.initproc
        ((touched.fork q apart).mpr made.forking) (by rw [touched.old q apart]) (touched.makers u q before)
        (record q apart) (by rw [still]; exact ⟨rfl,rfl⟩) (fun i occupied => (touched.live (q,i) occupied).1) ?_
      intro c named
      by_cases new : c = np
      · subst new
        exact touched.linked u q before named
      · rwa [touched.old c new] at named
  · intro v u q first second
    by_cases left : v = t <;> by_cases right : u = t
    · rw [left,right]
    · rw [left] at first
      exact absurd (making q first).1 (makes u q right second).2.2
    · rw [right] at second
      exact absurd (making q second).1 (makes v q left first).2.2
    · exact inv.single v u q (makes v q left first).2.1 (makes u q right second).2.1
  · intro c q child zombie
    have other : c ≠ np := by
      rintro rfl
      exact touched.alive zombie
    rw [touched.old c other] at child zombie
    exact ⟨child,zombie⟩

end Touched

/-- `allocproc` takes an unused entry and gives it the next id. -/
structure Begun (s : KState) (t : Slot) (np : ProcIx) (s' : KState) : Prop where
  unused : (s.proc np).state = .unused
  room : s.nextpid < 2^31-1
  new : s'.proc np = {s.proc np with state := .used, pid := s.nextpid}
  old : ∀ p, p ≠ np → s'.proc p = s.proc p
  here : s'.pc t = .forkAlloc np
  elsewhere : ∀ u, u ≠ t → s'.pc u = s.pc u
  same : (s'.thread,s'.initproc) = (s.thread,s.initproc)
  nextpid : s'.nextpid = s.nextpid+1
  hist : s'.hist = .forkBegin np :: s.hist

namespace Begun
variable {s s' : KState} {forker : ProcIx → Int} {t : Slot} {np : ProcIx}

section
variable (begun : Begun s t np s')
include begun

theorem used (p : ProcIx) (before : (s.proc p).state = .used) : p ≠ np := by
  rintro rfl
  rw [begun.unused] at before
  contradiction

theorem forking : Forking s' np := by
  rw [Forking,begun.hist]
  exact History.since_on (by simp) (by simp)

theorem fork (p : ProcIx) (other : p ≠ np) : Forking s' p ↔ Forking s p := by
  refine forking_append s s' p [.forkBegin np] begun.hist ?_
  simp [Ne.symm other]

theorem roster (roster : Roster s) : Roster s' := by
  have returns : returned s' = returned s :=
    returned_append s s' [.forkBegin np] begun.hist (by simp [Event.waited])
  have nextpid := begun.nextpid
  have ids := roster.room
  have bound := begun.room
  have latest : (s'.proc np).pid = s.nextpid := by rw [begun.new]
  have fresh (r : ProcIx) (other : r ≠ np) (inUse : (s'.proc r).state ≠ .unused) : (s'.proc r).pid < s.nextpid := by
    rw [begun.old r other] at inUse ⊢
    exact (roster.pid r inUse).2.1
  refine ⟨?_,?_,?_,?_,?_⟩
  · intro p inUse
    rw [returns]
    by_cases same : p = np
    · rw [same,latest]
      refine ⟨ids.1,by omega,?_⟩
      intro member
      exact absurd (roster.below _ member) (by simp)
    · rw [begun.old p same] at inUse ⊢
      obtain ⟨positive,bound,fresh⟩ := roster.pid p inUse
      exact ⟨positive,by omega,fresh⟩
  · intro p q first second equal
    by_cases left : p = np <;> by_cases right : q = np
    · rw [left,right]
    · have bound := fresh q right second
      rw [left,latest] at equal
      omega
    · have bound := fresh p left first
      rw [right,latest] at equal
      omega
    · rw [begun.old p left] at first equal
      rw [begun.old q right] at second equal
      exact roster.unique p q first second equal
  · rw [returns]
    exact roster.once
  · intro pid member
    rw [returns] at member
    have bound := roster.below pid member
    omega
  · omega

theorem touched (inv : Kindred s forker) (drained : Drained s) : Touched s t np s' := by
  obtain ⟨thread,initproc⟩ := Prod.mk.inj begun.same
  refine ⟨begun.old,by simp [begun.new],(begun.used _ inv.init.1).symm,?_,?_,?_,?_,?_,
    fun u other => .inl (begun.elsewhere u other),?_,fun u _ => by rw [thread],initproc,?_,begun.fork⟩
  · intro c named
    exact begun.used np (inv.parent c np named).1 rfl
  · intro u _ forks
    exact begun.used np (inv.forks u np forks).used rfl
  · intro u q forks
    rw [begun.old u.1 (begun.used u.1 (inv.live u (Kindred.maker drained u q forks)))]
  · intro u q _ named
    rwa [begun.new] at named
  · rw [begun.here]
    exact ⟨rfl,rfl⟩
  · intro u occupied
    rw [Occupied,thread] at occupied
    exact ⟨occupied,fun _ => by rw [begun.new]⟩
  · have next := begun.nextpid
    omega

theorem kindred (inv : Kindred s forker) (drained : Drained s) : Kindred s' forker := by
  have touched := begun.touched inv drained
  have parent : (s'.proc np).parent = none := by
    rw [begun.new]
    exact inv.orphan np begun.unused
  have descent : Descent s' forker := by
    refine touched.descent inv.toDescent (fun _ _ => rfl) (fun _ => .inr (by rw [begun.new])) (fun _ => parent) ?_
      (fun _ finished => absurd begun.forking finished) ((inv.known np).trans_le touched.nextpid)
    intro q named
    rw [parent] at named
    contradiction
  refine touched.kindred inv (begun.roster inv.toRoster) descent (fun _ _ => rfl) ?_
  intro q forks
  rw [begun.here] at forks
  cases forks
  refine ⟨rfl,by rw [begun.new],by rw [touched.initproc]; exact touched.other,begun.forking,?_,?_,?_,
    touched.barren descent⟩
  · rw [begun.here,parent]
    rfl
  · rw [begun.here]
    exact fun linked => by contradiction
  · intro i occupied
    exact absurd rfl (begun.used np (inv.live (np,i) (touched.live (np,i) occupied).1))

end

end Begun

namespace Kindred
variable {s s' : KState} {forker : ProcIx → Int} {t nt : Slot}

theorem forkCopied (inv : Kindred s forker) (drained : Drained s) (on : s.cpu t = .on)
    (place : s.pc t = .forkCopy nt) :
    Kindred ((s.setProc nt.1 {s.proc nt.1 with parent := some t.1}).goto t (.forkRun nt))
      (update forker nt.1 (s.proc t.1).pid) := by
  generalize eq : (s.setProc nt.1 {s.proc nt.1 with parent := some t.1}).goto t (.forkRun nt) = s'
  have forks : (s.pc t).life.forks = some nt.1 := by rw [place]; rfl
  have making := inv.forks t nt.1 forks
  have apart := inv.outside drained t t nt.1 on forks
  have old (p : ProcIx) (other : p ≠ nt.1) : s'.proc p = s.proc p := by
    simp [← eq,other]
  have new : s'.proc nt.1 = {s.proc nt.1 with parent := some t.1} := by simp [← eq]
  have elsewhere (u : Slot) (other : u ≠ t) : s'.pc u = s.pc u := by
    simp [← eq,other]
  have here : s'.pc t = .forkRun nt := by simp [← eq]
  have rest : (s'.thread,s'.initproc,s'.nextpid,s'.hist) = (s.thread,s.initproc,s.nextpid,s.hist) := by rw [← eq]; rfl
  obtain ⟨thread,initproc,nextpid,hist⟩ := by simpa only [Prod.mk.injEq] using rest
  have both (p : ProcIx) : (s'.proc p).state = (s.proc p).state ∧ (s'.proc p).pid = (s.proc p).pid := by
    by_cases same : p = nt.1
    · rw [same,new]
      exact ⟨rfl,rfl⟩
    · rw [old p same]
      exact ⟨rfl,rfl⟩
  have fork (p : ProcIx) : Forking s' p ↔ Forking s p := by rw [Forking,hist,Forking]
  have used := inv.live t (drained.live t on)
  have record (c : ProcIx) (other : c ≠ nt.1) : update forker nt.1 (s.proc t.1).pid c = forker c := by
    simp [other]
  have state := (both nt.1).1.trans making.used
  have touched : Touched s t nt.1 s' := by
    refine ⟨old,by simp [state],making.other,making.childless,
      fun u other forks' => other (inv.single u t nt.1 forks' forks),fun u _ _ => (both u.1).2,?_,?_,
      fun u other => .inl (elsewhere u other),?_,fun u _ => by rw [thread],initproc,nextpid.ge,fun p _ => fork p⟩
    · intro u q forks' named
      rw [new] at named
      cases named
      exact absurd rfl (inv.outside drained t u t.1 on forks')
    · rw [here]
      exact ⟨rfl,rfl⟩
    · intro u occupied
      rw [Occupied,thread] at occupied
      exact ⟨occupied,fun _ => state⟩
  have descent : Descent s' (update forker nt.1 (s.proc t.1).pid) := by
    refine touched.descent inv.toDescent record (fun _ => .inl ⟨making.used,(both nt.1).2⟩) ?_ ?_
      (fun _ finished => absurd ((fork _).mpr making.forking) finished) ?_
    · intro free
      rw [state] at free
      contradiction
    · intro q named
      rw [new] at named
      cases named
      exact ⟨used,apart⟩
    · rw [update_self,nextpid]
      exact (inv.pid t.1 (by rw [used]; simp)).2.1
  refine touched.kindred inv ?_ descent record ?_
  · refine inv.toRoster.keep ?_ nextpid (by rw [returned,hist,returned])
    intro p inUse
    rw [(both p).1] at inUse
    exact ⟨inUse,(both p).2⟩
  · intro q forks'
    rw [here] at forks'
    cases forks'
    refine ⟨rfl,state,by rw [initproc]; exact making.other,(fork _).mpr making.forking,?_,?_,?_,
      touched.barren descent⟩
    · rw [here,new]
      rfl
    · intro _
      rw [update_self,(both t.1).2]
    · intro i occupied
      rw [Occupied,thread] at occupied
      rw [here]
      have child := making.thread i occupied
      rwa [place] at child

theorem forkRun (inv : Kindred s forker) (drained : Drained s) (place : s.pc t = .forkRun nt) :
    Kindred (forkRun s t nt) forker := by
  generalize eq : Kthreads.forkRun s t nt = s'
  have forks : (s.pc t).life.forks = some nt.1 := by rw [place]; rfl
  have making := inv.forks t nt.1 forks
  have old (p : ProcIx) : s'.proc p = s.proc p := by
    by_cases same : p = nt.1
    · rw [same,← eq]
      simp [Kthreads.forkRun,← making.used]
    · simp [← eq,Kthreads.forkRun,same]
  have elsewhere (u : Slot) (other : u ≠ t) : s'.pc u = s.pc u := by
    simp [← eq,Kthreads.forkRun,other]
  have here : s'.pc t = .retKilled := by simp [← eq,Kthreads.forkRun]
  have others (u : Slot) (other : u ≠ nt) : s'.thread u = s.thread u := by
    simp [← eq,Kthreads.forkRun,other]
  have started : (s'.thread nt).state = .tRunnable := by
    simp [← eq,Kthreads.forkRun]
  have rest : (s'.initproc,s'.nextpid,s'.hist) = (s.initproc,s.nextpid,.forkDone nt.1 :: s.hist) := by rw [← eq]; rfl
  obtain ⟨initproc,nextpid,hist⟩ := by simpa only [Prod.mk.injEq] using rest
  have fork (p : ProcIx) (other : p ≠ nt.1) : Forking s' p ↔ Forking s p := by
    refine forking_append s s' p [.forkDone nt.1] hist ?_
    simp [Ne.symm other]
  have live (u : Slot) (occupied : Occupied s' u) : Occupied s u := by
    by_cases new : u = nt
    · subst u
      have waits : (s.pc t).life.pending = some nt := by rw [place]; rfl
      simp [Occupied,(drained.fresh t nt waits).1]
    · rwa [Occupied,others u new] at occupied
  have touched : Touched s t nt.1 s' := by
    refine ⟨fun p _ => old p,by rw [old,making.used]; simp,making.other,making.childless,
      fun u other forks' => other (inv.single u t nt.1 forks' forks),fun u _ _ => by rw [old],?_,
      by rw [here]; exact ⟨rfl,rfl⟩,fun u other => .inl (elsewhere u other),
      fun u occupied => ⟨live u occupied,fun _ => by rw [old]; exact making.used⟩,?_,initproc,nextpid.ge,fork⟩
    · intro u q _ named
      rwa [old] at named
    · intro u asleep
      by_cases new : u = nt
      · rw [new,started] at asleep
        contradiction
      · exact others u new
  refine touched.kindred inv ?_ (touched.descent inv.toDescent (fun _ _ => rfl) ?_ ?_ ?_ ?_ ?_) (fun _ _ => rfl) ?_
  · refine inv.toRoster.keep ?_ nextpid (returned_append s s' [.forkDone nt.1] hist (by simp [Event.waited]))
    intro p inUse
    rw [old] at inUse ⊢
    exact ⟨inUse,rfl⟩
  · exact fun _ => .inl ⟨making.used,by rw [old]⟩
  · rw [old]
    exact inv.orphan nt.1
  · rw [old]
    exact inv.parent nt.1
  · intro _ _
    have parent := making.parent
    rw [place] at parent
    refine ⟨t.1,by rw [old]; exact parent,.inl ?_⟩
    rw [old]
    exact (making.recorded (by rw [place]; rfl)).symm
  · rw [nextpid]
    exact inv.known nt.1
  · intro q forks'
    rw [here] at forks'
    contradiction

theorem forkDrop (inv : Kindred s forker)
    (place : s.pc t = .forkStack nt ∨ s.pc t = .forkCopy nt)
    (proc : s'.proc = update s.proc nt.1 {s.proc nt.1 with state := .unused})
    (thread : s'.thread = update s.thread nt {s.thread nt with kstack := none, state := .tUnused})
    (own : s'.pc t = .retKilled) (pc : ∀ u, u ≠ t → s'.pc u = s.pc u ∨ s'.pc u = .idle)
    (ids : (s'.nextpid,s'.initproc) = (s.nextpid,s.initproc))
    (hist : ∃ new, s'.hist = new ++ s.hist ∧ ∀ e ∈ new, e.kinless = true) : Kindred s' forker := by
  obtain ⟨nextpid,initproc⟩ := Prod.mk.inj ids
  have life : (s.pc t).life.forks = some nt.1 ∧ (s.pc t).life.child = some nt ∧ (s.pc t).life.linked = false := by
    rcases place with place | place
    · rw [place]
      exact ⟨rfl,rfl,rfl⟩
    · rw [place]
      exact ⟨rfl,rfl,rfl⟩
  have making := inv.forks t nt.1 life.1
  have old (p : ProcIx) (other : p ≠ nt.1) : s'.proc p = s.proc p := by simp [proc,other]
  have new : s'.proc nt.1 = {s.proc nt.1 with state := .unused} := by simp [proc]
  have fork := forking_same hist
  have live (u : Slot) (occupied : Occupied s' u) : Occupied s u ∧ u.1 ≠ nt.1 := by
    have other : u ≠ nt := by
      rintro rfl
      simp [Occupied,thread] at occupied
    have before : Occupied s u := by simpa [Occupied,thread,other] using occupied
    refine ⟨before,fun same => ?_⟩
    have child := making.thread u.2 (by rw [← same]; exact before)
    rw [life.2.1,← same] at child
    exact other (Option.some.inj child).symm
  have none : (s'.proc nt.1).parent = none := by
    have unlinked := making.parent
    rw [life.2.2] at unlinked
    rw [new]
    exact unlinked
  have touched : Touched s t nt.1 s' := by
    refine ⟨old,by simp [new],making.other,making.childless,
      fun u other forks => other (inv.single u t nt.1 forks life.1),?_,?_,by rw [own]; exact ⟨rfl,rfl⟩,pc,
      fun u occupied => ⟨(live u occupied).1,fun same => absurd same (live u occupied).2⟩,?_,initproc,nextpid.ge,
      fun p _ => fork p⟩
    · intro u _ _
      by_cases same : u.1 = nt.1
      · rw [same,new]
      · rw [old u.1 same]
    · intro u q _ named
      rw [none] at named
      contradiction
    · intro u asleep
      have other : u ≠ nt := by
        rintro rfl
        simp [thread] at asleep
      simp [thread,other]
  refine touched.kindred inv ?_ (touched.descent inv.toDescent (fun _ _ => rfl) ?_ (fun _ => none) ?_ ?_ ?_)
    (fun _ _ => rfl) ?_
  · refine inv.toRoster.keep ?_ nextpid (returned_same hist)
    intro p inUse
    have same : s'.proc p = s.proc p := by
      apply old
      rintro rfl
      rw [new] at inUse
      exact inUse rfl
    rw [same] at inUse ⊢
    exact ⟨inUse,rfl⟩
  · rw [new]
    exact fun used => by contradiction
  · intro q named
    rw [none] at named
    contradiction
  · rw [new]
    exact fun inUse => absurd rfl inUse
  · rw [nextpid]
    exact inv.known nt.1
  · intro q forks
    rw [own] at forks
    contradiction

theorem waitDone (inv : Kindred s forker) (drained : Drained s) (c : ProcIx) (found : zombieChild s t.1 = some c) :
    Kindred (waitDone s (reapThreads s c) t c) forker := by
  have zombie : (s.proc c).state = .zombie := by
    have child := List.find?_some found
    simp only [Bool.and_eq_true,beq_iff_eq] at child
    exact child.2
  have reaped := KinFrame.reapThreads s c
  have held := inv.frame reaped
  have pid : ((reapThreads s c).proc c).pid = (s.proc c).pid := (Prod.mk.inj (reaped.kin c)).2
  have states := inv.state_same reaped.state
  have dead : ((reapThreads s c).proc c).state = .zombie := (states c).trans zombie
  have pcs := reapThreads_pc s c
  generalize reapThreads s c = m at held pid states dead pcs ⊢
  generalize eq : Kthreads.waitDone s m t c = s'
  have old (p : ProcIx) (other : p ≠ c) : s'.proc p = m.proc p := by
    simp [← eq,Kthreads.waitDone,other]
  have new : (s'.proc c).state = .unused ∧ (s'.proc c).parent = none := by
    simp [← eq,Kthreads.waitDone]
  have elsewhere (u : Slot) (other : u ≠ t) : s'.pc u = m.pc u := by
    simp [← eq,Kthreads.waitDone,other]
  have here : s'.pc t = .retKilled := by simp [← eq,Kthreads.waitDone]
  have rest : (s'.thread,s'.initproc,s'.nextpid,s'.hist) =
      (m.thread,m.initproc,m.nextpid,.waitRet t (s.proc c).pid :: m.hist) := by rw [← eq]; rfl
  obtain ⟨thread,initproc,nextpid,hist⟩ := by simpa only [Prod.mk.injEq] using rest
  have used (p : ProcIx) (before : (m.proc p).state = .used) : p ≠ c := by
    rintro rfl
    rw [dead] at before
    contradiction
  have kept (p : ProcIx) (inUse : (s'.proc p).state ≠ .unused) : p ≠ c := by
    rintro rfl
    exact inUse new.1
  obtain ⟨positive,bound,fresh⟩ := held.pid c (by rw [dead]; simp)
  rw [pid] at positive bound fresh
  have returns : returned s' = (s.proc c).pid :: returned m := by
    have proper : (s.proc c).pid ≠ -1 := by omega
    simp [returned,hist,Event.waited,proper]
  have fork (p : ProcIx) : Forking s' p ↔ Forking m p := by
    refine forking_append m s' p [.waitRet t (s.proc c).pid] hist ?_
    simp
  have touched : Touched m t c s' := by
    refine ⟨old,by simp [new.1],(used _ held.init.1).symm,?_,?_,?_,?_,by rw [here]; exact ⟨rfl,rfl⟩,
      fun u other => .inl (elsewhere u other),?_,fun u _ => by rw [thread],initproc,nextpid.ge,fun p _ => fork p⟩
    · intro d named
      exact used c (held.parent d c named).1 rfl
    · intro u _ forks
      exact used c (held.forks u c forks).used rfl
    · intro u q forks
      rw [pcs] at forks
      rw [old u.1 (used u.1 ((states u.1).trans (inv.live u (maker drained u q forks))))]
    · intro u q _ named
      rw [new.2] at named
      contradiction
    · intro u occupied
      rw [Occupied,thread] at occupied
      exact ⟨occupied,fun same => absurd same (used u.1 (held.live u occupied))⟩
  refine touched.kindred held ?_ (touched.descent held.toDescent (fun _ _ => rfl) ?_ (fun _ => new.2) ?_ ?_ ?_)
    (fun _ _ => rfl) ?_
  · refine ⟨?_,?_,?_,?_,by rw [nextpid]; exact held.room⟩
    · intro p inUse
      have other := kept p inUse
      rw [old p other] at inUse ⊢
      obtain ⟨positive,bound,fresh⟩ := held.pid p inUse
      rw [returns,nextpid]
      refine ⟨positive,bound,?_⟩
      intro member
      rcases List.mem_cons.mp member with same | earlier
      · exact other (held.unique p c inUse (by rw [dead]; simp) (by rw [pid]; exact same))
      · exact fresh earlier
    · intro p q first second equal
      have left := kept p first
      have right := kept q second
      rw [old p left] at first equal
      rw [old q right] at second equal
      exact held.unique p q first second equal
    · rw [returns]
      exact List.nodup_cons.mpr ⟨fresh,held.once⟩
    · intro pid member
      rw [returns] at member
      rw [nextpid]
      rcases List.mem_cons.mp member with same | earlier
      · rw [same]
        exact bound
      · exact held.below pid earlier
  · intro again
    exact absurd rfl (kept c (by rw [again]; simp))
  · intro q named
    rw [new.2] at named
    contradiction
  · exact fun inUse => absurd new.1 inUse
  · rw [nextpid]
    exact held.known c
  · intro q forks
    rw [here] at forks
    contradiction

end Kindred

/-- What the last section of `exit` does to processes and waiting threads: the children go to
`init`, and whoever waits for a child that is a zombie now is woken. -/
structure Buried (s : KState) (t : Slot) (s' : KState) : Prop where
  pid : ∀ p, (s'.proc p).pid = (s.proc p).pid
  parent : ∀ p, (s'.proc p).parent =
    if (s.proc p).parent = some t.1 then some s.initproc else (s.proc p).parent
  zombie : (s'.proc t.1).state = .zombie
  state : ∀ p, p ≠ t.1 → (s'.proc p).state = (s.proc p).state
  live : ∀ u, Occupied s' u → Occupied s u ∧ u.1 ≠ t.1
  waits : ∀ u, Waits s' u → Waits s u ∧ (s'.thread u).chan = (s.thread u).chan
  told : ∀ u, Waits s' u → (s.thread u).chan = some (.thread u) → (s.proc t.1).parent ≠ some u.1
  passed : ∀ u, Waits s' u → (s.thread u).chan = some (.thread u) → u.1 = s.initproc →
    ∀ c, (s.proc c).parent = some t.1 → (s.proc c).state ≠ .zombie
  pc : s'.pc = update s.pc t .dead
  rest : (s'.nextpid,s'.initproc,s'.hist) = (s.nextpid,s.initproc,s.hist)

theorem wakeAll_awake (s : KState) (chans : Chan → Bool) (u : Slot) (chan : Chan)
    (asleep : ((wakeAll s chans).thread u).state = .tSleeping) (on : (s.thread u).chan = some chan) :
    chans chan = false := by
  simp only [wakeAll] at asleep
  split at asleep
  · contradiction
  next passed =>
    simpa [wakes,asleep,on] using passed

theorem wakeParent_kin (s : KState) (p : ProcIx) : KinFrame s (wakeParent s p) ∧
    ((wakeParent s p).pc,(wakeParent s p).hist) = (s.pc,s.hist) ∧
    ∀ u, ((wakeParent s p).thread u).state = .tSleeping → (s.thread u).chan = some (.thread u) →
      (s.proc p).parent ≠ some u.1 := by
  unfold wakeParent
  split
  next none =>
    refine ⟨.refl s,rfl,?_⟩
    intro u _ _ named
    rw [none] at named
    contradiction
  next q parent =>
    refine ⟨.wakeAll s _,rfl,?_⟩
    intro u asleep on named
    rw [parent] at named
    cases named
    simpa [threadChans] using wakeAll_awake s _ u (.thread u) asleep on

def adopt (s : KState) (p : ProcIx) : KState :=
  {s with proc := fun c => if (s.proc c).parent = some p
    then {s.proc c with parent := some s.initproc} else s.proc c}

theorem adopt_proc (s : KState) (p c : ProcIx) : ((adopt s p).proc c).pid = (s.proc c).pid ∧
    ((adopt s p).proc c).state = (s.proc c).state ∧ ((adopt s p).proc c).parent =
      if (s.proc c).parent = some p then some s.initproc else (s.proc c).parent := by
  simp only [adopt]
  split <;> exact ⟨rfl,rfl,rfl⟩

theorem abandonChildren_kin (s : KState) (p : ProcIx) : KinFrame (adopt s p) (abandonChildren s p) ∧
    ((abandonChildren s p).pc,(abandonChildren s p).hist) = (s.pc,s.hist) ∧
    ∀ u, ((abandonChildren s p).thread u).state = .tSleeping → (s.thread u).chan = some (.thread u) →
      u.1 = s.initproc → ∀ c, (s.proc c).parent = some p → (s.proc c).state ≠ .zombie := by
  unfold abandonChildren
  simp only
  split
  next some_ =>
    refine ⟨.wakeAll _ _,rfl,?_⟩
    intro u asleep on root
    have missed := wakeAll_awake (adopt s p) _ u (.thread u) asleep on
    simp [threadChans,root] at missed
  next none =>
    refine ⟨.refl _,rfl,?_⟩
    intro u _ _ _ c child zombie
    exact none ⟨c,child,zombie⟩

theorem exitFinal_buried (s : KState) (t : Slot) (live : ∀ u, Occupied s u → (s.proc u.1).state = .used) :
    Buried s t (exitFinal s t) := by
  have used {m m' : KState} (same : KinFrame m m') (live : ∀ u, Occupied m u → (m.proc u.1).state = .used)
      (p : ProcIx) : (m'.proc p).state = (m.proc p).state := by
    rcases same.state p with eq | ⟨runs,i,occupied⟩
    · exact eq
    · rw [runs,live (p,i) occupied]
  obtain ⟨first,still,told⟩ := wakeParent_kin s t.1
  obtain ⟨second,still',passed⟩ := abandonChildren_kin (wakeParent s t.1) t.1
  change Buried s t (vanish (abandonChildren (wakeParent s t.1) t.1) t)
  generalize wakeParent s t.1 = m at *
  generalize abandonChildren m t.1 = m' at *
  obtain ⟨pcs,hist⟩ := Prod.mk.inj still
  obtain ⟨pcs',hist'⟩ := Prod.mk.inj still'
  obtain ⟨nextpid,initproc⟩ := Prod.mk.inj first.ids
  have kin (p : ProcIx) := Prod.mk.inj (first.kin p)
  have kin' (p : ProcIx) := Prod.mk.inj (second.kin p)
  have state := used first live
  have state' (p : ProcIx) : (m'.proc p).state = (s.proc p).state := by
    rw [used second (fun u occupied => ?_) p,(adopt_proc m t.1 p).2.1,state]
    rw [(adopt_proc m t.1 u.1).2.1,state]
    exact live u (first.live u occupied)
  have waits (u : Slot) (waiting : Waits (vanish m' t) u) : Waits m' u ∧ (vanish m' t).thread u = m'.thread u := by
    obtain ⟨asleep,place⟩ := waiting
    have same : (vanish m' t).thread u = m'.thread u := by
      rw [vanish_thread] at asleep ⊢
      split at asleep
      · contradiction
      next elsewhere => rw [if_neg elsewhere]
    refine ⟨⟨by rw [← same]; exact asleep,?_⟩,same⟩
    rw [vanish_pc] at place
    split at place
    · contradiction
    · exact place
  have before (u : Slot) (waiting : Waits (vanish m' t) u) : Waits m u ∧ (m'.thread u).chan = (m.thread u).chan :=
    second.waits u (waits u waiting).1
  have proc (p : ProcIx) : (vanish m' t).proc p = if p = t.1 then {m'.proc t.1 with state := .zombie} else m'.proc p := by
    by_cases own : p = t.1
    · subst own
      simp [vanish,buryProcess]
    · simp [vanish,buryProcess,own]
  have kept (p : ProcIx) : ((vanish m' t).proc p).pid = (m'.proc p).pid ∧
      ((vanish m' t).proc p).parent = (m'.proc p).parent := by
    rw [proc]
    split
    next own =>
      rw [own]
      exact ⟨rfl,rfl⟩
    next => exact ⟨rfl,rfl⟩
  refine ⟨?_,?_,?_,?_,?_,?_,?_,?_,?_,?_⟩
  · intro p
    rw [(kept p).1,(kin' p).2,(adopt_proc m t.1 p).1,(kin p).2]
  · intro p
    rw [(kept p).2,(kin' p).1,(adopt_proc m t.1 p).2.2,(kin p).1,initproc]
  · rw [proc,if_pos rfl]
  · intro p other
    rw [proc,if_neg other,state']
  · intro u occupied
    obtain ⟨other,lives⟩ := (vanish_occupied m' t u).mp occupied
    exact ⟨first.live u (second.live u lives),other⟩
  · intro u waiting
    obtain ⟨middle,chan⟩ := before u waiting
    obtain ⟨early,chan'⟩ := first.waits u middle
    rw [(waits u waiting).2,chan]
    exact ⟨early,chan'⟩
  · intro u waiting on
    exact told u (before u waiting).1.1 on
  · intro u waiting on root c child zombie
    obtain ⟨middle,_⟩ := before u waiting
    obtain ⟨_,chan⟩ := first.waits u middle
    refine passed u (waits u waiting).1.1 (chan.trans on) (by rw [initproc]; exact root) c ?_ ?_
    · rw [(kin c).1]
      exact child
    · rw [state]
      exact zombie
  · funext u
    rw [vanish_pc,pcs',pcs]
    by_cases here : u = t
    · simp [here]
    · simp [here]
  · change (m'.nextpid,m'.initproc,m'.hist) = _
    obtain ⟨ids,root⟩ := Prod.mk.inj second.ids
    change m'.nextpid = m.nextpid at ids
    change m'.initproc = m.initproc at root
    rw [ids,root,hist',nextpid,initproc,hist]

namespace Kindred
variable {s s' : KState} {forker : ProcIx → Int} {t : Slot}

theorem exitFinal (inv : Kindred s forker) (drained : Drained s) (on : s.cpu t = .on) (place : s.pc t = .exitFinal) :
    Kindred (exitFinal s t) forker := by
  have buried := exitFinal_buried s t inv.live
  generalize Kthreads.exitFinal s t = s' at buried
  obtain ⟨nextpid,initproc,hist⟩ := by simpa only [Prod.mk.injEq] using buried.rest
  have mortal : t.1 ≠ s.initproc := inv.exits t (by rw [place]; rfl)
  have alone : Alone s t := by
    have fits := drained.fits t
    rwa [place] at fits
  have runs := inv.live t (drained.live t on)
  have fork (p : ProcIx) : Forking s' p ↔ Forking s p := by rw [Forking,hist,Forking]
  have here : s'.pc t = .dead := by simp [buried.pc]
  have elsewhere (u : Slot) (other : u ≠ t) : s'.pc u = s.pc u := by simp [buried.pc,other]
  have used (p : ProcIx) (after : (s'.proc p).state = .used) : p ≠ t.1 ∧ (s.proc p).state = .used := by
    have other : p ≠ t.1 := by
      rintro rfl
      rw [buried.zombie] at after
      contradiction
    rw [buried.state p other] at after
    exact ⟨other,after⟩
  have inUse (p : ProcIx) : (s'.proc p).state ≠ .unused → (s.proc p).state ≠ .unused := by
    intro after
    by_cases own : p = t.1
    · rw [own,runs]
      simp
    · rwa [buried.state p own] at after
  -- The maker of a process would be a second live thread of the process that ends.
  have makes (u : Slot) (q : ProcIx) (forks : (s'.pc u).life.forks = some q) :
      u ≠ t ∧ (s.pc u).life.forks = some q := by
    have other : u ≠ t := by
      rintro rfl
      rw [here] at forks
      contradiction
    rw [elsewhere u other] at forks
    exact ⟨other,forks⟩
  refine ⟨?_,⟨?_,?_,?_,?_,?_⟩,?_,?_,?_,?_,?_,?_⟩
  · refine inv.toRoster.keep ?_ nextpid (by rw [returned,hist,returned])
    intro p after
    exact ⟨inUse p after,buried.pid p⟩
  · rw [initproc,buried.state _ mortal.symm,buried.parent,if_neg (by rw [inv.init.2]; simp)]
    exact inv.init
  · intro p free
    have other : p ≠ t.1 := by
      rintro rfl
      rw [buried.zombie] at free
      contradiction
    rw [buried.state p other] at free
    have none := inv.orphan p free
    rw [buried.parent,if_neg (by rw [none]; simp)]
    exact none
  · intro c q named
    rw [buried.parent] at named
    split at named
    next child =>
      cases named
      rw [buried.state _ mortal.symm]
      refine ⟨inv.init.1,?_⟩
      rintro rfl
      rw [inv.init.2] at child
      contradiction
    next child =>
      obtain ⟨before,apart⟩ := inv.parent c q named
      have other : q ≠ t.1 := by
        rintro rfl
        exact child named
      rw [buried.state q other]
      exact ⟨before,apart⟩
  · intro c other after finished
    rw [fork] at finished
    rw [initproc] at other
    obtain ⟨q,parent,named⟩ := inv.settled c other (inUse c after) finished
    have gone (r : ProcIx) (ended : (s.proc t.1).pid = forker c) (runs' : (s'.proc r).state = .used) :
        (s'.proc r).pid ≠ forker c := by
      obtain ⟨other,before⟩ := used r runs'
      rw [buried.pid,← ended]
      intro same
      exact other (inv.unique r t.1 (by rw [before]; simp) (by rw [runs]; simp) same)
    rw [buried.parent]
    by_cases child : (s.proc c).parent = some t.1
    · rw [if_pos child]
      rw [child] at parent
      cases parent
      refine ⟨s.initproc,rfl,.inr ⟨initproc.symm,fun r => gone r ?_⟩⟩
      rcases named with still | ⟨root,_⟩
      · exact still
      · exact absurd root mortal
    · rw [if_neg child]
      refine ⟨q,parent,?_⟩
      rw [Named,buried.pid,initproc]
      rcases named with still | ⟨root,ended⟩
      · exact .inl still
      · refine .inr ⟨root,fun r runs' => ?_⟩
        rw [buried.pid]
        exact ended r (used r runs').2
  · rw [nextpid]
    exact inv.known
  · intro u occupied
    obtain ⟨before,other⟩ := buried.live u occupied
    rw [buried.state u.1 other]
    exact inv.live u before
  · intro u exits
    rw [initproc]
    by_cases same : u = t
    · rw [same,here] at exits
      contradiction
    · rw [elsewhere u same] at exits
      exact inv.exits u exits
  · intro u q forks
    obtain ⟨other,before⟩ := makes u q forks
    have making := inv.forks u q before
    have apart : q ≠ t.1 := (inv.outside drained t u q on before).symm
    have foreign : (s.proc q).parent ≠ some t.1 := by
      rw [making.parent]
      split
      · intro same
        exact alone u (Option.some.inj same) other (maker drained u q before)
      · simp
    refine making.keep (by rw [buried.state q apart]; exact making.used) initproc ((fork q).mpr making.forking)
      (by rw [buried.parent,if_neg foreign]) (buried.pid u.1) rfl (by rw [elsewhere u other]; exact ⟨rfl,rfl⟩)
      (fun i occupied => (buried.live (q,i) occupied).1) ?_
    intro c named
    rw [buried.parent] at named
    split at named
    · cases named
      exact absurd rfl making.other
    · exact named
  · intro v u q first second
    exact inv.single v u q (makes v q first).2 (makes u q second).2
  · intro u waiting
    obtain ⟨before,chan⟩ := buried.waits u waiting
    obtain ⟨slot,none⟩ := inv.waits u before
    refine ⟨chan.trans slot,?_⟩
    intro c named zombie
    rw [buried.parent] at named
    by_cases own : c = t.1
    · subst own
      split at named
      next child => exact (inv.parent t.1 t.1 child).2 rfl
      next => exact buried.told u waiting slot named
    · rw [buried.state c own] at zombie
      split at named
      next child =>
        have root := Option.some.inj named
        exact buried.passed u waiting slot root.symm c child zombie
      next => exact none c named zombie
  · intro u chan holds
    by_cases same : u = t
    · rw [same,here] at holds
      contradiction
    · rw [elsewhere u same] at holds
      exact inv.holds u chan holds

end Kindred

end Kthreads
