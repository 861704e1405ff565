import Kthreads.Process.Kindred

/-! Runs of `fork`, `exit` and `wait`. -/
namespace Kthreads
variable {f : Family} {a : Action} {s s' : KState}

/-- The kernel with a record, for each process, of the id that its creator had when `fork` wrote
the parent. The kernel does not read it. -/
structure Family where
  kernel : KState
  forker : ProcIx → Int

def Family.record (f : Family) (s' : KState) : Action → ProcIx → Int
  | .run t _ =>
    match f.kernel.pc t with
    | .forkCopy nt => if s'.pc t = .forkRun nt
        then Function.update f.forker nt.1 (f.kernel.proc t.1).pid else f.forker
    | _ => f.forker
  | _ => f.forker

def Family.step (f : Family) (a : Action) : Option Family :=
  (Kthreads.step f.kernel a).map fun s' => ⟨s',f.record s' a⟩

def Family.start (s : KState) : Family :=
  ⟨s,fun p => ((s.proc p).parent.map fun q => (s.proc q).pid).getD 0⟩

theorem Family.step_kernel {f' : Family} (taken : f.step a = some f') :
    Kthreads.step f.kernel a = some f'.kernel ∧ f'.forker = f.record f'.kernel a := by
  unfold Family.step at taken
  cases next : Kthreads.step f.kernel a with
  | none => simp [next] at taken
  | some s' =>
    simp only [next,Option.map_some,Option.some.injEq] at taken
    subst taken
    exact ⟨rfl,rfl⟩

/-- Every run of the kernel is the kernel of a run with a record. -/
theorem Family.follows {guard : KState → Action → Prop} {s₀ : KState} (reached : Reaches guard s₀ s) :
    ∃ forker, Interleave.Reaches Family.step (fun f a => guard f.kernel a) (Family.start s₀) ⟨s,forker⟩ := by
  induction reached with
  | refl => exact ⟨_,.refl⟩
  | tail reached allowed taken held =>
    obtain ⟨forker,before⟩ := held
    exact ⟨_,.tail before allowed (by simp only [Family.step,taken]; rfl)⟩

theorem record_same {t : Slot} (o : Oracle)
    (other : (s'.pc t).life.linked = true → (f.kernel.pc t).life.linked = true) :
    f.record s' (.run t o) = f.forker := by
  simp only [Family.record]
  split
  next nt place =>
    rw [if_neg]
    intro linked
    rw [linked,place] at other
    exact absurd (other rfl) (by simp [Pc.life,Life.linked])
  next => rfl

theorem record_moved {t : Slot} (o : Oracle) (pc : Pc) (moved : s'.pc t = pc)
    (unlinked : pc.life.linked = false) : f.record s' (.run t o) = f.forker := by
  refine record_same o ?_
  rw [moved,unlinked]
  exact fun linked => by contradiction

abbrev PidRoom (s : KState) : Action → Prop := onRun fun t _ => s.pc t = .forkProc → s.nextpid < 2^31-1

abbrev StackLeft (s : KState) : Action → Prop := onRun fun t _ =>
  (s.pc t).life.pending ≠ none → (s.pc t).fn = .kthreadCreate → s.freelist ≠ []

/-- Ids do not run out; threads are created and joined without a race. Where threads neither create
nor join others, the last three conditions are void. -/
abbrev Peaceful (s : KState) (a : Action) : Prop :=
  TidRoom s a ∧ PidRoom s a ∧ CreatesAlive s a ∧ JoinsEnded s a ∧ StackLeft s a

theorem Kindred.orderly {forker : ProcIx → Int} (inv : Kindred s forker)
    (peaceful : Peaceful s a) : Orderly s a := by
  refine ⟨peaceful.1,peaceful.2.2.1,?_,peaceful.2.2.2.1⟩
  cases a with
  | run t o =>
    intro np member i occupied
    unfold forkTarget at member
    split at member
    next place =>
      cases member
      have child := (inv.forks t np (by rw [place]; rfl)).thread i occupied
      rw [place] at child
      contradiction
    next => simp at member
  | _ => trivial

theorem Kindred.step (inv : Kindred f.kernel f.forker)
    (drained : Drained f.kernel) (peaceful : Peaceful f.kernel a) (taken : KinStep f.kernel a s') :
    Kindred s' (f.record s' a) := by
  obtain ⟨_,room,_,_,memory⟩ := peaceful
  cases taken with
  | frame same =>
    have still : f.record s' a = f.forker := by
      cases a with
      | run t o =>
        refine record_same o ?_
        intro linked
        have makes : ∃ np, (s'.pc t).life.forks = some np := by
          cases life : (s'.pc t).life <;> rw [life] at linked <;> simp [Life.linked] at linked
          exact ⟨_,rfl⟩
        obtain ⟨np,forks⟩ := makes
        rw [← (same.forks t np forks).2.2]
        exact linked
      | _ => rfl
    rw [still]
    exact inv.frame same
  | sleep t o chan site on falls =>
    have unlinked : (Pc.asleep site).life.linked = false := by
      cases site with
      | log k | lock l k | disk b k | other n k => cases k <;> rfl
      | _ => rfl
    rw [record_moved o (.asleep site) (by simp [sleepCommit]) unlinked]
    exact inv.sleep drained t chan site on falls
  | birth t o p nt pc on births found =>
    have unlinked : pc.life.linked = false := by
      cases births with
      | create | fork => rfl
    rw [record_moved o pc (by simp) unlinked]
    exact inv.birth drained t p nt pc on births found
  | createRun t o nt place =>
    have pending : (f.kernel.pc t).life.pending = some nt := by rw [place]; rfl
    have occupied : Occupied f.kernel nt := by simp [Occupied,(drained.fresh t nt pending).1]
    rw [record_moved o .retKilled (by simp [createRun]) rfl]
    exact inv.frame (KinFrame.sysret (.setThread f.kernel nt {f.kernel.thread nt with state := .tRunnable} (by simp)
      (fun _ _ => occupied)) t)
  | stackless t o nt place empty =>
    exact absurd empty (memory (by rw [place]; simp [Pc.life,Life.pending]) (by rw [place]; rfl))
  | forkProc t o np on place unused =>
    have next := next32_eq _ (by have := inv.room; omega) (room place)
    rw [record_moved o (.forkAlloc np) (by simp) rfl]
    refine Begun.kindred (?_ : Begun f.kernel t np _) inv drained
    refine ⟨unused,room place,?_,?_,?_,?_,rfl,next,rfl⟩
    · simp
    · intro p other
      simp [other]
    · simp
    · intro u other
      simp [other]
  | forkDrop t o nt s' place proc thread own pc ids hist =>
    rw [record_moved o .retKilled own rfl]
    exact inv.forkDrop (place.imp id And.left) proc thread own pc ids hist
  | forkCopied t o nt on place copied =>
    have written : f.record ((f.kernel.setProc nt.1 {f.kernel.proc nt.1 with parent := some t.1}).goto t
        (.forkRun nt)) (.run t o) = Function.update f.forker nt.1 (f.kernel.proc t.1).pid := by
      simp [Family.record,place]
    rw [written]
    exact inv.forkCopied drained on place
  | forkRun t o nt on place =>
    rw [record_moved o .retKilled (by simp [Kthreads.forkRun]) rfl]
    exact inv.forkRun drained place
  | exitFinal t o on place =>
    rw [record_moved o .dead (by simp [Kthreads.exitFinal]) rfl]
    exact inv.exitFinal drained on place
  | waitDone t o c found =>
    rw [record_moved o .retKilled (by simp [Kthreads.waitDone]) rfl]
    exact inv.waitDone drained c found

/-- A quiet state whose processes form a family under `init`. -/
structure Rooted (s : KState) : Prop where
  init : (s.proc s.initproc).state = .used ∧ (s.proc s.initproc).parent = none
  parent : ∀ p, (s.proc p).state = .used → p ≠ s.initproc →
    ∃ q, (s.proc p).parent = some q ∧ (s.proc q).state = .used ∧ q ≠ p
  unused : ∀ p, (s.proc p).state = .unused → (s.proc p).parent = none
  pid : ∀ p, (s.proc p).state = .used → 0 < (s.proc p).pid ∧ (s.proc p).pid < s.nextpid
  unique : ∀ p q, (s.proc p).state = .used → (s.proc q).state = .used →
    (s.proc p).pid = (s.proc q).pid → p = q
  nextpid : 0 < s.nextpid ∧ s.nextpid < 2^31

theorem Kindred.start (init : Start s) (rooted : Rooted s) : Kindred s (Family.start s).forker := by
  have used (p : ProcIx) (inUse : (s.proc p).state ≠ .unused) : (s.proc p).state = .used := by
    rcases init.used p with ⟨runs,_⟩ | ⟨free,_⟩
    · exact runs
    · exact absurd free inUse
  have none : returned s = [] := by simp [returned,init.hist]
  have named (c q : ProcIx) (parent : (s.proc c).parent = some q) : (s.proc q).state = .used ∧ q ≠ c := by
    by_cases free : (s.proc c).state = .unused
    · rw [rooted.unused c free] at parent
      contradiction
    · have root : c ≠ s.initproc := by
        rintro rfl
        rw [rooted.init.2] at parent
        contradiction
      obtain ⟨r,eq,runs,other⟩ := rooted.parent c (used c free) root
      rw [eq] at parent
      cases parent
      exact ⟨runs,other⟩
  have recorded (c q : ProcIx) (parent : (s.proc c).parent = some q) :
      (Family.start s).forker c = (s.proc q).pid := by simp [Family.start,parent]
  have place (u : Slot) : s.pc u = .user ∨ s.pc u = .idle := by
    rcases init.slot u with ready | vacant
    · exact .inl ready.pc
    · exact .inr vacant.pc
  refine ⟨⟨?_,?_,?_,?_,rooted.nextpid⟩,⟨rooted.init,rooted.unused,named,?_,?_⟩,?_,?_,?_,?_,?_,?_⟩
  · intro p inUse
    obtain ⟨positive,bound⟩ := rooted.pid p (used p inUse)
    exact ⟨positive,bound,by simp [none]⟩
  · intro p q first second
    exact rooted.unique p q (used p first) (used q second)
  · simp [none]
  · simp [none]
  · intro c other inUse _
    obtain ⟨q,eq,_,_⟩ := rooted.parent c (used c inUse) other
    exact ⟨q,eq,.inl (recorded c q eq).symm⟩
  · intro c
    cases parent : (s.proc c).parent with
    | none => simpa [Family.start,parent] using rooted.nextpid.1
    | some q =>
      rw [recorded c q parent]
      exact (rooted.pid q (named c q parent).1).2
  · intro u occupied
    rcases init.used u.1 with ⟨runs,_⟩ | ⟨_,vacant⟩
    · exact runs
    · exact absurd (vacant u.2).state occupied.1
  · intro u exits
    rcases place u with user | idle
    · rw [user] at exits
      contradiction
    · rw [idle] at exits
      contradiction
  · intro u np forks
    rcases place u with user | idle
    · rw [user] at forks
      contradiction
    · rw [idle] at forks
      contradiction
  · intro t u np forks _
    rcases place t with user | idle
    · rw [user] at forks
      contradiction
    · rw [idle] at forks
      contradiction
  · rintro u ⟨_,waiting⟩
    rcases place u with user | idle
    · rw [user] at waiting
      contradiction
    · rw [idle] at waiting
      contradiction
  · intro u chan holds
    rcases place u with user | idle
    · rw [user] at holds
      contradiction
    · rw [idle] at holds
      contradiction

/-- Only a finished `wait` returns an id, that of a zombie child. -/
theorem step_returns (taken : KinStep s a s') (new : List Event)
    (hist : s'.hist = new ++ s.hist) (t : Slot) (pid : Int) (member : .waitRet t pid ∈ new) (proper : pid ≠ -1) :
    ∃ c, (s.proc c).parent = some t.1 ∧ (s.proc c).state = .zombie ∧ (s.proc c).pid = pid := by
  have counted : (Event.waitRet t pid).waited = some pid := by simp [Event.waited,proper]
  have silent (later : List Event) (eq : s'.hist = later ++ s.hist) (quiet : ∀ e ∈ later, e.waited = none) : False := by
    have same : new = later := List.append_cancel_right (hist.symm.trans eq)
    have none := quiet _ (same ▸ member)
    rw [counted] at none
    contradiction
  cases taken with
  | frame same =>
    obtain ⟨later,eq,quiet⟩ := same.hist
    exact (silent later eq (fun e member => kinless_waited e (quiet e member))).elim
  | sleep | createRun | stackless | forkCopied => exact (silent [] rfl (by simp)).elim
  | birth t o p nt pc on births found => exact (silent [.created nt] rfl (by simp [Event.waited])).elim
  | forkProc t o np => exact (silent [.forkBegin np] rfl (by simp [Event.waited])).elim
  | forkRun t o nt => exact (silent [.forkDone nt.1] rfl (by simp [Event.waited])).elim
  | forkDrop t o nt s' place proc thread own pc ids quiet =>
    obtain ⟨later,eq,quiet⟩ := quiet
    exact (silent later eq (fun e member => kinless_waited e (quiet e member))).elim
  | exitFinal u o on place =>
    have still := (Prod.mk.inj (wakeParent_kin s u.1).2.1).2
    have still' := (Prod.mk.inj (abandonChildren_kin (wakeParent s u.1) u.1).2.1).2
    have ended (m : KState) : (vanish m u).hist = m.hist := rfl
    exact (silent [] ((ended _).trans (still'.trans still)) (by simp)).elim
  | waitDone u o c found =>
    obtain ⟨freed,eq,quiet⟩ := (KinFrame.reapThreads s c).hist
    have same : new = .waitRet u (s.proc c).pid :: freed := by
      have last (m : KState) : (waitDone s m u c).hist = .waitRet u (s.proc c).pid :: m.hist := rfl
      rw [last,eq] at hist
      exact List.append_cancel_right hist.symm
    rw [same] at member
    rcases List.mem_cons.mp member with last | early
    · obtain ⟨same,id⟩ := Event.waitRet.inj last
      have child := List.find?_some found
      simp only [Bool.and_eq_true,beq_iff_eq] at child
      rw [same,id]
      exact ⟨c,child.1,child.2,rfl⟩
    · have none := kinless_waited _ (quiet _ early)
      rw [counted] at none
      exact absurd none (Option.some_ne_none pid)

/-- In every run the parent of each finished process is in the table and is the process that `fork`
recorded, or `init` after that one has ended; every id is returned at most once, to a thread of the
current parent of the zombie; and no thread sleeps in `wait` while its process has a zombie child. -/
theorem fork_exit_wait_protocol {s₀ : KState} {f : Family} (start : Start s₀) (rooted : Rooted s₀)
    (reached : Interleave.Reaches Family.step (fun f a => Peaceful f.kernel a) (Family.start s₀) f) :
    (∀ c, c ≠ f.kernel.initproc → (f.kernel.proc c).state ≠ .unused → ¬ Forking f.kernel c →
      ∃ q, (f.kernel.proc c).parent = some q ∧ (f.kernel.proc q).state = .used ∧
        ((f.kernel.proc q).pid = f.forker c ∨ q = f.kernel.initproc ∧
          ∀ r, (f.kernel.proc r).state = .used → (f.kernel.proc r).pid ≠ f.forker c)) ∧
    (returned f.kernel).Nodup ∧
    (∀ a s', step f.kernel a = some s' → ∀ new, s'.hist = new ++ f.kernel.hist →
      ∀ t pid, .waitRet t pid ∈ new → pid ≠ -1 → ∃ c, (f.kernel.proc c).parent = some t.1 ∧
        (f.kernel.proc c).state = .zombie ∧ (f.kernel.proc c).pid = pid) ∧
    (f.kernel.ptableLock = none → ∀ t, (f.kernel.thread t).state = .tSleeping → f.kernel.pc t = .asleep .wait →
      ∀ c, (f.kernel.proc c).parent = some t.1 → (f.kernel.proc c).state ≠ .zombie) := by
  have inv : (Ids f.kernel ∧ Drained f.kernel) ∧ Kindred f.kernel f.forker := by
    refine reached.invariant (fun f => (Ids f.kernel ∧ Drained f.kernel) ∧ Kindred f.kernel f.forker) ?_ ?_
    · exact ⟨⟨.start start,.start start⟩,.start start rooted⟩
    · intro before action after held allowed taken
      obtain ⟨kernel,record⟩ := Family.step_kernel taken
      refine ⟨drained_step held.1 (held.2.orderly allowed) (step_thread _ _ _ kernel),?_⟩
      rw [record]
      exact held.2.step held.1.2 allowed (step_kin _ _ _ kernel)
  refine ⟨?_,inv.2.once,?_,?_⟩
  · intro c other inUse finished
    obtain ⟨q,parent,named⟩ := inv.2.settled c other inUse finished
    exact ⟨q,parent,(inv.2.parent c q parent).1,named⟩
  · intro a s' taken new hist t pid member proper
    exact step_returns (step_kin _ _ _ taken) new hist t pid member proper
  · intro _ t asleep place
    exact (inv.2.waits t ⟨asleep,place⟩).2

theorem session_rooted (live : List Slot) (m : Nat) (pid : Int) (first : ∃ t ∈ live, t.1 = 0) :
    Rooted (session live m pid) := by
  have present (p : ProcIx) (lives : ∃ t ∈ live, t.1 = p) : (session live m pid).proc p =
      ⟨.used,p.val+1,if p = 0 then none else some 0,false,(live.filter (·.1 = p)).length⟩ := if_pos lives
  have missing (p : ProcIx) (absent : ¬ ∃ t ∈ live, t.1 = p) : (session live m pid).proc p =
      ⟨.unused,0,none,false,0⟩ := if_neg absent
  have used (p : ProcIx) (runs : ((session live m pid).proc p).state = .used) : (session live m pid).proc p =
      ⟨.used,p.val+1,if p = 0 then none else some 0,false,(live.filter (·.1 = p)).length⟩ := by
    by_cases lives : ∃ t ∈ live, t.1 = p
    · exact present p lives
    · rw [missing p lives] at runs
      contradiction
  refine ⟨?_,?_,?_,?_,?_,by simp [session,nproc]⟩
  · change ((session live m pid).proc 0).state = _ ∧ ((session live m pid).proc 0).parent = _
    rw [present 0 first]
    exact ⟨rfl,rfl⟩
  · intro p runs other
    change p ≠ 0 at other
    refine ⟨0,?_,by rw [present 0 first],Ne.symm other⟩
    rw [used p runs,if_neg other]
  · intro p free
    by_cases lives : ∃ t ∈ live, t.1 = p
    · rw [present p lives] at free
      contradiction
    · rw [missing p lives]
  · intro p runs
    have bound := p.isLt
    rw [used p runs]
    simp only [session]
    omega
  · intro p q first second same
    rw [used p first,used q second] at same
    apply Fin.ext
    simp only at same
    omega

def forkExitWait : List Action :=
  call (1,0) .fork ++ List.replicate 5 (go (1,0)) ++ back (1,0) ++
  call (1,0) .wait ++ [go (1,0),.swtch (1,0),.scheduler (2,0)] ++
  call (2,0) .exit ++ List.replicate (1+17+maxMutexes+3) (go (2,0)) ++ [.swtch (2,0),.scheduler (1,0),go (1,0)]

theorem fork_exit_wait_once : ∃ f : Family,
    Interleave.Reaches Family.step (fun f a => Peaceful f.kernel a)
      (Family.start (session [(0,0),(1,0)] 0 0)) f ∧
    returned f.kernel = [65] ∧ (returned f.kernel).Nodup := by
  obtain ⟨f,reached,shown⟩ := Interleave.play_shows Family.step (fun f a => Peaceful f.kernel a)
    (Family.start (session [(0,0),(1,0)] 0 0)) forkExitWait (fun f => returned f.kernel = [65])
    (by decide +kernel)
  have rooted := session_rooted [(0,0),(1,0)] 0 0 ⟨(0,0),by simp,rfl⟩
  exact ⟨f,reached,shown,
    (fork_exit_wait_protocol (session_start [(0,0),(1,0)] 0 0 (by decide) (by decide)) rooted reached).2.1⟩

end Kthreads
