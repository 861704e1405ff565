import Kthreads.Thread.Exit

/-! What a kernel step can do to the log and the sleep locks, in runs that create and join no
thread. Only the places of file-system code touch them; a thread leaves these places when
its call is over, or in `sleep` when it has been told to die. -/
open Function (update)

namespace Kthreads
variable {s s' : KState} {t : Slot} {c c₀ : Pc}

/-- Where a thread stands with respect to the file system; `begins` is the loop of `begin_op`. -/
inductive Place
  | outside | begins | inside
  deriving DecidableEq

def Site.place : Site → Place
  | .log _ => .begins
  | .lock _ _ | .disk _ _ | .other _ _ => .inside
  | _ => .outside

def Pc.place : Pc → Place
  | .fs _ | .acquireSleep _ _ | .ideWait _ _ => .inside
  | .beginOp _ => .begins
  | .sleepHold _ site | .asleep site | .reacquire site => site.place
  | _ => .outside

def FsCtx.Clean (c : FsCtx) : Prop := c.inOp = false ∧ c.owns = []

instance (c : FsCtx) : Decidable c.Clean := inferInstanceAs (Decidable (_ ∧ _))

structure FilesFrame (s s' : KState) : Prop where
  ctx : ∀ u, (s'.fs u).inOp = (s.fs u).inOp ∧ (s'.fs u).owns = (s.fs u).owns
  outstanding : s'.log.outstanding = s.log.outstanding
  sleepLock : s'.sleepLock = s.sleepLock
  leaves : ∀ u, (s'.pc u).place = .outside → (s.pc u).place = .outside ∨ (s.fs u).Clean
  begins : ∀ u, (s'.pc u).place = .begins → (s.pc u).place = .begins ∨ (s.fs u).inOp = false

namespace FilesFrame

theorem still (same :
    (s'.fs,s'.log.outstanding,s'.sleepLock,s'.pc) = (s.fs,s.log.outstanding,s.sleepLock,s.pc)) :
    FilesFrame s s' := by
  obtain ⟨files,log,sleepLock,place⟩ := by simpa only [Prod.mk.injEq] using same
  exact ⟨fun u => by rw [files]; exact ⟨rfl,rfl⟩,log,sleepLock,
    fun u out => .inl (by rw [← place]; exact out),fun u inside => .inl (by rw [← place]; exact inside)⟩

theorem moved (t : Slot) (pc : Pc)
    (same : (s'.fs,s'.log.outstanding,s'.sleepLock) = (s.fs,s.log.outstanding,s.sleepLock))
    (place : s'.pc = update s.pc t pc)
    (leaves : pc.place = .outside → (s.pc t).place = .outside ∨ (s.fs t).Clean)
    (begins : pc.place = .begins → (s.pc t).place = .begins ∨ (s.fs t).inOp = false) :
    FilesFrame s s' := by
  obtain ⟨files,log,sleepLock⟩ := by simpa only [Prod.mk.injEq] using same
  refine ⟨fun u => by rw [files]; exact ⟨rfl,rfl⟩,log,sleepLock,?_,?_⟩
  · intro u
    by_cases here : u = t
    · subst u
      simpa [place] using leaves
    · intro out
      exact .inl (by simpa [place,here] using out)
  · intro u
    by_cases here : u = t
    · subst u
      simpa [place] using begins
    · intro inside
      exact .inl (by simpa [place,here] using inside)

theorem walk (t : Slot) (pc : Pc) (out : (s.pc t).place = .outside)
    (same : (s'.fs,s'.log.outstanding,s'.sleepLock) = (s.fs,s.log.outstanding,s.sleepLock))
    (place : s'.pc = update s.pc t pc) (calm : pc.place ≠ .begins) : FilesFrame s s' :=
  moved t pc same place (fun _ => .inl out) (fun inside => absurd inside calm)

theorem stays (t : Slot) (pc : Pc) (same : pc.place = (s.pc t).place)
    (files : (s'.fs,s'.log.outstanding,s'.sleepLock) = (s.fs,s.log.outstanding,s.sleepLock))
    (place : s'.pc = update s.pc t pc) : FilesFrame s s' :=
  moved t pc files place (fun out => .inl (same.symm.trans out)) (fun inside => .inl (same.symm.trans inside))

end FilesFrame

inductive FilesStep (s : KState) : Action → KState → Prop
  | frame {a : Action} {s' : KState} (same : FilesFrame s s') : FilesStep s a s'
  | died (t : Slot) (site : Site) (place : s.pc t = .asleep site)
      (dies : (s.thread t).shouldDie = true) :
      FilesStep s (.scheduler t) ((dispatch s t).goto t .kthreadExit)
  | began (t : Slot) (o : Oracle) (k : FsRet) (place : s.pc t = .beginOp k) (free : ¬ s.log.busy) :
      FilesStep s (.run t o) (({s with log := {s.log with outstanding := s.log.outstanding+1}}.setFs t
        {s.fs t with inOp := true}).goto t (.fs k))
  | ended (t : Slot) (o : Oracle) (k : FsRet) (c : FsCtx) (s' : KState) (place : s.pc t = .fs k)
      (opened : (s.fs t).inOp = true) (closed : c.inOp = false ∧ c.owns = (s.fs t).owns)
      (files : s'.fs = update s.fs t c) (pc : s'.pc = s.pc)
      (outstanding : s'.log.outstanding = s.log.outstanding-1) (sleepLock : s'.sleepLock = s.sleepLock) :
      FilesStep s (.run t o) s'
  | acquired (t : Slot) (o : Oracle) (l : LockIx) (k : FsRet) (place : s.pc t = .acquireSleep l k)
      (free : (s.sleepLock l).locked = false) :
      FilesStep s (.run t o) (({s with
        sleepLock := update s.sleepLock l ⟨true,(s.proc t.1).pid⟩}.setFs t
          {s.fs t with owns := l :: (s.fs t).owns}).goto t (.fs k))
  | released (t : Slot) (o : Oracle) (k : FsRet) (l : LockIx) (place : s.pc t = .fs k) :
      FilesStep s (.run t o) (releaseSleep s t l)

namespace FilesStep

section Sections
variable (s : KState) (t : Slot) (o : Oracle)

theorem fsCode (k : FsRet) (op : FsOp) (place : s.pc t = .fs k) (ready : op.ready (s.fs t)) :
    FilesStep s (.run t o) (fsCode s t k op) := by
  have inside : (s.pc t).place = .inside := by rw [place]; rfl
  cases op with
  | beginOp =>
    refine .frame (.moved t (.beginOp k) rfl rfl ?_ ?_)
    · intro out
      contradiction
    · intro _
      exact .inr ready.1
  | endOp =>
    unfold Kthreads.fsCode endOp
    simp only
    let left : FsCtx := {s.fs t with inOp := false}
    split
    · exact .ended t o k left _ place ready ⟨rfl,rfl⟩ rfl rfl rfl rfl
    · split
      · refine .ended t o k {left with inCommit := true} _ place ready ⟨rfl,rfl⟩ ?_ rfl rfl rfl
        simp [left]
      · exact .ended t o k left _ place ready ⟨rfl,rfl⟩ rfl rfl rfl rfl
  | commitEnd =>
    refine .frame ⟨?_,rfl,rfl,fun _ out => .inl out,fun _ begins => .inl begins⟩
    intro u
    by_cases here : u = t
    · subst u
      simp [Kthreads.fsCode,commitEnd,wakeup1,wakeAll]
    · simp [Kthreads.fsCode,commitEnd,wakeup1,wakeAll,here]
  | logWrite block =>
    change FilesStep s (.run t o) (logWrite s block)
    unfold logWrite
    split
    · exact .frame (.still rfl)
    · split
      · exact .frame (.still rfl)
      · split
        · exact .frame (.still rfl)
        · exact .frame (.still rfl)
  | acquireSleep l => exact .frame (.stays t (.acquireSleep l k) inside.symm rfl rfl)
  | releaseSleep l => exact .released t o k l place
  | iderw b =>
    change FilesStep s (.run t o) (iderw s t b k)
    unfold iderw
    split
    · exact .frame (.stays t (.ideWait b k) inside.symm rfl rfl)
    · exact .frame (.still rfl)
  | sleepOn n => exact .frame (.stays t (.sleepHold (.other n) (.other n k)) inside.symm rfl rfl)
  | ret =>
    refine .frame (.moved t k.next rfl rfl (fun _ => .inr ⟨ready.1,ready.2.2⟩) ?_)
    intro begins
    cases k <;> contradiction

theorem beginOp (k : FsRet) (place : s.pc t = .beginOp k) :
    FilesStep s (.run t o) (beginOp s t k) := by
  have begins : (s.pc t).place = .begins := by rw [place]; rfl
  unfold Kthreads.beginOp
  split
  · exact .frame (.stays t (.sleepHold .log (.log k)) begins.symm rfl rfl)
  next free => exact .began t o k place free

theorem acquireSleep (l : LockIx) (k : FsRet) (place : s.pc t = .acquireSleep l k) :
    FilesStep s (.run t o) (acquireSleep s t l k) := by
  have inside : (s.pc t).place = .inside := by rw [place]; rfl
  unfold Kthreads.acquireSleep
  split
  · exact .frame (.stays t (.sleepHold (.lock l) (.lock l k)) inside.symm rfl rfl)
  next free => exact .acquired t o l k place (by simpa using free)

theorem ideWait (b : Fin nbuf) (k : FsRet) (place : s.pc t = .ideWait b k) :
    FilesStep s (.run t o) (ideWait s t b k) := by
  have inside : (s.pc t).place = .inside := by rw [place]; rfl
  unfold Kthreads.ideWait
  split
  · exact .frame (.stays t (.sleepHold (.disk b) (.disk b k)) inside.symm rfl rfl)
  · exact .frame (.stays t (.fs k) inside.symm rfl rfl)

theorem code (s' : KState) (inside : (s.pc t).fn = .files) (taken : code s t o = some s') :
    FilesStep s (.run t o) s' := by
  cases place : s.pc t
  all_goals simp only [Kthreads.code,place,guarded_eq_some,Option.some.injEq,reduceCtorEq] at taken
  case fs k =>
    obtain ⟨⟨ready,_⟩,rfl⟩ := taken
    exact .fsCode s t o k _ place ready
  case beginOp k =>
    obtain ⟨_,rfl⟩ := taken
    exact .beginOp s t o k place
  case acquireSleep l k =>
    obtain ⟨_,rfl⟩ := taken
    exact .acquireSleep s t o l k place
  case ideWait b k =>
    obtain ⟨_,rfl⟩ := taken
    exact .ideWait s t o b k place
  all_goals rw [place] at inside
  case drain k _ _ | drainFree k _ _ => cases k <;> contradiction
  all_goals contradiction

end Sections

theorem walks {m : KState} {o : Oracle} (place : s.pc t = c₀)
    (out : c₀.place = .outside := by rfl) (calm : c.place ≠ .begins := by nofun)
    (same : (m.fs,m.log.outstanding,m.sleepLock) = (s.fs,s.log.outstanding,s.sleepLock) := by rfl)
    (pcs : m.pc = s.pc := by rfl) : FilesStep s (.run t o) (m.goto t c) := by
  subst place
  exact .frame (.walk t c out same (by rw [← pcs]; rfl) calm)

end FilesStep

theorem Walks.calm (walks : Walks s t c₀ c) :
    c₀.place = .outside ∧ c.place ≠ .begins ∨ c.place = c₀.place := by
  cases walks with
  | calls c => cases c <;> simp only [Syscall.entry] <;> (try split) <;> exact .inl ⟨rfl,by rintro ⟨⟩⟩
  | drain k i n c move => cases k <;> cases move <;> exact .inl ⟨rfl,by rintro ⟨⟩⟩
  | logWoken | lockWoken | diskWoken | otherWoken => exact .inr rfl
  | _ => exact .inl ⟨rfl,by rintro ⟨⟩⟩

theorem MutexWalks.outside (walks : MutexWalks c₀ c) : c₀.place = .outside ∧ c.place ≠ .begins := by
  cases walks with
  | deallocRefused id k | deallocDone i id k => cases k <;> exact ⟨rfl,nofun⟩
  | _ => exact ⟨rfl,nofun⟩

theorem MutexSection.files {o : Oracle} (sub : MutexSection s t s') :
    FilesStep s (.run t o) s' := by
  cases sub with
  | goes place walks => exact .walks place walks.outside.1 walks.outside.2
  | unlocks i id place mutex =>
    obtain ⟨thread,eq⟩ := wakeSleeper_rest {s with mutex := mutex, mtableLock := none} t.1 i
    rw [eq]
    exact .walks place
  | sleeps i id place => exact .walks place

theorem FileSection.fn (sub : FileSection s t s') : (s.pc t).fn = .files := by
  cases sub with
  | stays k place | wakes k place =>
    rw [place]
    rfl
  | goes place walks =>
    rw [place]
    cases walks <;> rfl
  | sleeps place sleeps =>
    rw [place]
    cases sleeps <;> rfl

theorem code_files (s s' : KState) (t : Slot) (o : Oracle) (calm : s.panicked = false)
    (allowed : (s.pc t).fn ∈ closedFns) (taken : code s t o = some s') : FilesStep s (.run t o) s' := by
  cases code_sections calm taken with
  | panics => exact .frame (.still rfl)
  | walk place walks =>
    rcases walks.calm with ⟨out,calm⟩ | same
    · exact .walks place out calm
    · exact .frame (.stays t _ (by rw [place]; exact same) rfl rfl)
  | mark k place =>
    cases k with
    | exit | exec => exact .walks place
  | birth p nt c births =>
    cases births with
    | create nt place | fork np nt place => exact .walks place
  | stack nt c page rest gets | stackless nt c gets =>
    -- no thread is made in these runs
    cases gets with
    | create place | fork place =>
      simp [place,Pc.fn,closedFns] at allowed
  | forkFailed nt page place =>
    simp [place,Pc.fn,closedFns] at allowed
  | exitFinal place =>
    obtain ⟨proc,thread,eq⟩ := exitFinal_rest s t
    rw [eq]
    exact .walks place
  | waitPanic c =>
    obtain ⟨_,_,_,_,eq⟩ := reapThreads_rest s c
    rw [eq]
    exact .frame (.still rfl)
  | waitDone c place =>
    obtain ⟨_,_,_,_,eq⟩ := reapThreads_rest s c
    rw [eq]
    exact .walks place
  | sleep chan site falls =>
    cases falls with
    | hold chan site place => exact .frame (.stays t (.asleep site) (by rw [place]; rfl) rfl rfl)
    | join tid u place | wait place => exact .walks place
  | mutex sub => exact sub.files
  | files sub => exact .code s t o s' sub.fn taken
  | fault place | drainWakes i n inside place | drainFree k i n page place | exitThread place | createRun nt place
      | forkProc np place | forkCopied nt place | forkRun nt place | waitNone place | joinDies tid place
      | joinMissing tid place | joinFound tid u place | joinFree tid u page place | kill pid p place =>
    exact .walks place

theorem resume_place (site : Site) : site.resume.place = (Pc.asleep site).place := by
  cases site <;> rfl

theorem step_files {a : Action} (allowed : within closedFns s a)
    (taken : step s a = some s') : FilesStep s a s' := by
  obtain ⟨calm,taken⟩ := step_cases taken
  cases taken with
  | run t o s' on taken => exact code_files s s' t o calm allowed taken
  | scheduler t =>
    by_cases asleep : ∃ site, s.pc t = .asleep site
    · obtain ⟨site,place⟩ := asleep
      by_cases dies : (s.thread t).shouldDie = true
      · rw [scheduler_dies s t site place dies]
        exact .died t site place dies
      · rw [scheduler_lives s t site place (by simpa using dies)]
        exact .frame (.stays t site.resume (by rw [place]; exact resume_place site) rfl rfl)
    · rw [scheduler_plain s t (fun site place => asleep ⟨site,place⟩)]
      exact .frame (.still rfl)
  | yield | swtch | wakeup | spurious | ideintr | takePage | givePage => exact .frame (.still rfl)

end Kthreads
