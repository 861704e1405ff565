import Kthreads.Log.Invariant

/-! Commits, crashes and recovery: after a recovery the disk has what the committed groups logged. -/
open Function

namespace Kthreads
variable {b tail : Nat}

section Commit
variable {T D : Type} {fmt : HeaderFormat D} {start : Nat} {d₀ : Nat → D} {s m : LogState T D}

structure Writes (s m : LogState T D) (b : Nat) (d : D) : Prop where
  disk : m.disk = update s.disk b d
  view : m.view = update s.view b d
  dirty : m.dirty = update s.dirty b false
  pc : m.pc = s.pc

theorem writes_bwrite (s : LogState T D) (b : Nat) (d : D) : Writes s (s.bwrite b d) b d :=
  ⟨rfl,view_bwrite s b d,dirty_bwrite s b d,rfl⟩

theorem Writes.read {c : Nat} {d : D} {o : Option T} (writes : Writes (s.bread c o) m b d) : Writes s m b d := by
  refine ⟨writes.disk,?_,?_,writes.pc⟩
  · rw [writes.view,view_bread]
  · rw [writes.dirty,dirty_bread]

theorem Writes.area {d : D} (writes : Writes s m b d) (area : ∀ c, ¬ Home start c → s.view c = s.disk c) (c : Nat)
    (away : ¬ Home start c) : m.view c = m.disk c := by
  rw [writes.view,writes.disk]
  by_cases here : c = b
  · rw [here,update_self,update_self]
  · rw [update_of_ne here,update_of_ne here]
    exact area c away

theorem Writes.disk_home {c : Nat} {d : D} (writes : Writes s m b d) (away : ¬ Home start b) (home : Home start c) :
    m.disk c = s.disk c := by
  rw [writes.disk,update_of_ne]
  rintro rfl
  exact away home

def Idle (s : LogState T D) : Prop := ∀ t, s.role t ≠ .inside

theorem Idle.untouched (idle : Idle s) (b : Nat) : Untouched s b := by
  intro t member
  have outside := idle t
  unfold LogState.role at outside
  cases place : s.pc t with
  | idle => simp [place,LogPc.touched] at member
  | op touched logged => simp [place,LogPc.role] at outside
  | logWrite c touched logged => simp [place,LogPc.role] at outside
  | commit => simp [place,LogPc.touched] at member

theorem Idle.writing (idle : Idle s) {t : T} {touched logged : List Nat}
    (place : s.pc t = .logWrite b touched logged) : False :=
  idle t (by rw [LogState.role,place]; rfl)

theorem Idle.congr (idle : Idle s) (pc : m.pc = s.pc) : Idle m := by
  intro t
  unfold LogState.role
  rw [pc]
  exact idle t

theorem Live.written {d : D} (live : Live start d₀ s) (idle : Idle s) (writes : Writes s m b d)
    (away : ¬ Home start b) (homes : ∀ c ∈ s.log.lh, Home start c) (current : m.current d₀ = s.current d₀)
    (lh : m.log.lh = s.log.lh) (stage : ∀ tail, s.stage ≠ .install tail) (unflushed : m.unflushed = s.log.lh)
    (logged : ∀ w ∈ m.pending, w.1 ∈ m.log.lh) (up : m.stage ≠ .readHead) : Live start d₀ m := by
  have other (c : Nat) (home : Home start c) : c ≠ b := fun same => away (same ▸ home)
  have still := idle.congr writes.pc
  have before : s.unflushed = s.log.lh := by
    unfold LogState.unflushed
    split
    next tail installs => exact absurd installs (stage tail)
    next => rfl
  refine ⟨?_,?_,?_,?_,by rw [lh]; exact live.nodup,logged,?_,?_,up⟩
  · intro c home _
    rw [writes.view,current,update_of_ne (other c home)]
    exact live.seen c home (idle.untouched c)
  · intro c home clean _
    rw [writes.dirty,update_of_ne (other c home)] at clean
    rw [writes.disk,current,update_of_ne (other c home)]
    exact live.clean c home clean (idle.untouched c)
  · intro c pinned
    rw [writes.dirty] at pinned
    rw [unflushed,← before]
    by_cases here : c = b
    · simp [here] at pinned
    · rw [update_of_ne here] at pinned
      exact live.pinned c pinned
  · intro _ c member
    rw [lh] at member
    rw [writes.dirty,update_of_ne (other c (homes c member))]
    exact live.flagged stage c member
  · intro t c member
    exact absurd member (still.untouched c t)
  · intro t c touched logged place
    exact (still.writing place).elim

section
variable (inv : LogInv fmt start d₀ s)
include inv

theorem LogInv.up (head : s.stage ≠ .readHead) (install : ∀ tail, s.stage ≠ .install tail) : s.recovering = false := by
  by_contra boots
  rcases (inv.booting (by simpa using boots)).stage with read | ⟨tail,installs⟩
  · exact head read
  · exact install tail installs

theorem LogInv.writeLog (idle : Idle s) (stage : s.stage = .writeLog tail)
    (next : s.log.lh[tail]? = some b) (fits : s.log.lh.length < logSize)
    (writes : Writes s m (start+tail+1) (s.view b))
    (same : (m.log,m.recovering,m.pending,m.groups) = (s.log,s.recovering,s.pending,s.groups))
    (stage' : m.stage = .writeLog (tail+1)) : LogInv fmt start d₀ m := by
  obtain ⟨log,recovering,pending,groups⟩ := by simpa only [Prod.mk.injEq] using same
  have committed : m.committed d₀ = s.committed d₀ := by rw [LogState.committed,groups,LogState.committed]
  have current : m.current d₀ = s.current d₀ := by rw [LogState.current,committed,pending,LogState.current]
  have away : ¬ Home start (start+tail+1) := slot_away (slot_index next fits)
  have up := inv.up (by simp [stage]) (by simp [stage])
  have live := inv.live up
  have onDisk := inv.onDisk
  unfold OnDisk at onDisk
  rw [stage] at onDisk
  obtain ⟨header,agrees,written⟩ := onDisk
  refine ⟨by rw [log]; exact inv.home,fun _ _ => by rw [log]; exact fits,?_,writes.area inv.area,?_,?_⟩
  · unfold OnDisk
    rw [stage',committed,current,log]
    refine ⟨?_,?_,?_⟩
    · rw [writes.disk,update_of_ne (by omega)]
      exact header
    · intro c home
      rw [writes.disk_home away home]
      exact agrees c home
    · intro i c below named
      unfold logBlock
      rw [writes.disk]
      by_cases last : i = tail
      · rw [last] at named ⊢
        cases next.symm.trans named
        rw [update_self]
        exact live.seen b (inv.home b (List.mem_of_getElem? next)) (idle.untouched b)
      · rw [update_of_ne (by omega)]
        exact written i c (by omega) named
  · intro boots
    rw [recovering,up] at boots
    contradiction
  · intro _
    refine live.written idle writes away inv.home current (by rw [log]) (by simp [stage]) ?_
      (by rw [pending,log]; exact live.logged) (by simp [stage'])
    simp [LogState.unflushed,stage',log]

theorem LogInv.commit (idle : Idle s) (stage : s.stage = .writeLog tail)
    (last : s.log.lh[tail]? = none) (writes : Writes s m start (fmt.write (s.view start) s.log.lh))
    (same : (m.log,m.recovering,m.pending,m.groups) = (s.log,s.recovering,[],s.groups ++ [s.pending]))
    (stage' : m.stage = .install 0) : LogInv fmt start d₀ m := by
  obtain ⟨log,recovering,pending,groups⟩ := by simpa only [Prod.mk.injEq] using same
  have committed : m.committed d₀ = s.current d₀ := by
    rw [LogState.committed,groups,Redo.replay_concat,LogState.current,LogState.committed]
  have current : m.current d₀ = s.current d₀ := by rw [current_none pending,committed]
  have up := inv.up (by simp [stage]) (by simp [stage])
  have live := inv.live up
  have onDisk := inv.onDisk
  unfold OnDisk at onDisk
  rw [stage] at onDisk
  obtain ⟨_,agrees,written⟩ := onDisk
  have short : s.log.lh.length < logSize := by
    by_cases first : tail = 0
    · have bound := List.getElem?_eq_none_iff.mp last
      have : 0 < logSize := by decide
      omega
    · exact inv.short (by simp [stage]) (by simpa [stage] using first)
  refine ⟨by rw [log]; exact inv.home,fun _ _ => by rw [log]; exact short,?_,writes.area inv.area,?_,?_⟩
  · unfold OnDisk
    rw [stage',committed,log]
    refine ⟨pending,?_,?_⟩
    · rw [writes.disk,update_self,fmt.read_write _ _ (by omega) fun b member => (inv.home b member).2]
    · refine Redo.Installed.commit ?_ live.logged ?_
      · intro c home
        rw [writes.disk_home start_away home]
        exact agrees c home
      · intro i c named
        have bound := List.getElem?_eq_none_iff.mp last
        have inside := (List.getElem?_eq_some_iff.mp named).1
        unfold logBlock
        rw [writes.disk,update_of_ne (by omega)]
        exact written i c (by omega) named
  · intro boots
    rw [recovering,up] at boots
    contradiction
  · intro _
    refine live.written idle writes start_away inv.home current (by rw [log]) (by simp [stage]) ?_ (by simp [pending])
      (by simp [stage'])
    simp [LogState.unflushed,stage',log]

theorem LogInv.install (idle : Idle s) (stage : s.stage = .install tail)
    (next : s.log.lh[tail]? = some b) (writes : Writes s m b (s.view (start+tail+1)))
    (same : (m.log,m.recovering,m.pending,m.groups) = (s.log,s.recovering,s.pending,s.groups))
    (stage' : m.stage = .install (tail+1)) : LogInv fmt start d₀ m := by
  obtain ⟨log,recovering,pending,groups⟩ := by simpa only [Prod.mk.injEq] using same
  have committed : m.committed d₀ = s.committed d₀ := by rw [LogState.committed,groups,LogState.committed]
  have home : Home start b := inv.home b (List.mem_of_getElem? next)
  have short := inv.short (by simp [stage]) (by simp [stage])
  have slot : s.view (start+tail+1) = logBlock start s.disk tail :=
    inv.area _ (slot_away (slot_index next short))
  have onDisk := inv.onDisk
  unfold OnDisk at onDisk
  rw [stage] at onDisk
  obtain ⟨none,header,installed⟩ := onDisk
  have value : s.view (start+tail+1) = s.committed d₀ b := slot.trans (installed.slots tail b next)
  refine ⟨by rw [log]; exact inv.home,fun _ _ => by rw [log]; exact short,?_,writes.area inv.area,?_,?_⟩
  · unfold OnDisk
    rw [stage',committed,log]
    refine ⟨by rw [pending]; exact none,?_,?_⟩
    · rw [writes.disk,update_of_ne]
      · exact header
      · rintro rfl
        exact start_away home
    · refine (installed.install next).congr ?_ ?_
      · intro i c named
        rw [writes.disk,logBlock_update home (slot_index named short)]
      · intro c _
        rw [writes.disk,slot]
  · intro boots
    have before := inv.booting (recovering ▸ boots)
    refine ⟨?_,?_,.inr ⟨tail+1,stage'⟩⟩
    · rw [writes.view,writes.disk]
      intro c
      by_cases here : c = b
      · rw [here,update_self,update_self]
      · rw [update_of_ne here,update_of_ne here]
        exact before.seen c
    · rw [writes.dirty]
      intro c
      by_cases here : c = b
      · rw [here,update_self]
      · rw [update_of_ne here]
        exact before.clean c
  · intro up
    have live := inv.live (recovering ▸ up)
    have current : m.current d₀ = s.current d₀ := by
      rw [current_none (pending.trans none),current_none none,committed]
    have still := idle.congr writes.pc
    refine ⟨?_,?_,?_,fun installs => absurd stage' (installs (tail+1)),by rw [log]; exact live.nodup,
      by simp [pending,none],?_,?_,by simp [stage']⟩
    · intro c inside _
      rw [writes.view,current]
      by_cases here : c = b
      · rw [here,update_self,value,current_none none]
      · rw [update_of_ne here]
        exact live.seen c inside (idle.untouched c)
    · intro c inside clean _
      rw [writes.disk,current]
      by_cases here : c = b
      · rw [here,update_self,value,current_none none]
      · rw [writes.dirty,update_of_ne here] at clean
        rw [update_of_ne here]
        exact live.clean c inside clean (idle.untouched c)
    · intro c pinned
      have other : c ≠ b := by
        rintro rfl
        rw [writes.dirty,update_self] at pinned
        contradiction
      rw [writes.dirty,update_of_ne other] at pinned
      have before := live.pinned c pinned
      unfold LogState.unflushed at before ⊢
      rw [stage] at before
      rw [stage',log]
      obtain ⟨bound,named⟩ := List.getElem?_eq_some_iff.mp next
      have split : c ∈ b :: s.log.lh.drop (tail+1) := by
        rwa [← named,← List.drop_eq_getElem_cons bound]
      exact (List.mem_cons.mp split).resolve_left other
    · intro t c member
      exact absurd member (still.untouched c t)
    · intro t c touched logged place
      exact (still.writing place).elim

theorem LogInv.clear (idle : Idle s) (stage : s.stage = .install tail)
    (last : s.log.lh[tail]? = none) (writes : Writes s m start (fmt.write (s.view start) []))
    (same : (m.log.lh,m.recovering,m.pending,m.groups) = ([],false,s.pending,s.groups))
    (stage' : m.stage = .rest) : LogInv fmt start d₀ m := by
  obtain ⟨lh,recovering,pending,groups⟩ := by simpa only [Prod.mk.injEq] using same
  have committed : m.committed d₀ = s.committed d₀ := by rw [LogState.committed,groups,LogState.committed]
  have onDisk := inv.onDisk
  unfold OnDisk at onDisk
  rw [stage] at onDisk
  obtain ⟨none,_,installed⟩ := onDisk
  have agrees (c : Nat) (home : Home start c) : m.disk c = s.committed d₀ c := by
    rw [writes.disk_home start_away home]
    exact installed.done last c home
  have current : m.current d₀ = s.committed d₀ := by rw [current_none (pending.trans none),committed]
  have cached (c : Nat) (home : Home start c) : s.view c = s.committed d₀ c := by
    cases boots : s.recovering with
    | true =>
      rw [(inv.booting boots).seen c]
      exact installed.done last c home
    | false =>
      rw [← current_none none]
      exact (inv.live boots).seen c home (idle.untouched c)
  have clean (c : Nat) : s.dirty c = false := by
    cases boots : s.recovering with
    | true => exact (inv.booting boots).clean c
    | false =>
      by_contra dirty
      have before := (inv.live boots).pinned c (by simpa using dirty)
      unfold LogState.unflushed at before
      simp [stage,List.drop_eq_nil_of_le (List.getElem?_eq_none_iff.mp last)] at before
  have still := idle.congr writes.pc
  refine ⟨by simp [lh],fun busy => absurd stage' busy,?_,writes.area inv.area,?_,?_⟩
  · unfold OnDisk
    rw [stage',committed]
    refine ⟨?_,agrees⟩
    rw [writes.disk,update_self,fmt.read_write _ _ (by simp) (by simp)]
  · intro boots
    rw [recovering] at boots
    contradiction
  · intro _
    refine ⟨?_,?_,?_,by simp [lh],by simp [lh],by simp [pending,none],?_,?_,by simp [stage']⟩
    · intro c home _
      rw [writes.view,current,update_of_ne (fun same => start_away (same ▸ home))]
      exact cached c home
    · intro c home _ _
      rw [current]
      exact agrees c home
    · intro c pinned
      rw [writes.dirty] at pinned
      by_cases here : c = start
      · simp [here] at pinned
      · rw [update_of_ne here,clean c] at pinned
        contradiction
    · intro t c member
      exact absurd member (still.untouched c t)
    · intro t c touched logged place
      exact (still.writing place).elim

theorem LogInv.readHead (stage : s.stage = .readHead)
    (same : (m.disk,m.view,m.dirty,m.log.lh,m.recovering,m.pending,m.groups) =
      (s.disk,s.view,s.dirty,fmt.read (s.view start),s.recovering,s.pending,s.groups))
    (stage' : m.stage = .install 0) : LogInv fmt start d₀ m := by
  obtain ⟨disk,view,dirty,lh,recovering,pending,groups⟩ := by simpa only [Prod.mk.injEq] using same
  have committed : m.committed d₀ = s.committed d₀ := by rw [LogState.committed,groups,LogState.committed]
  have boots : s.recovering = true := by
    by_contra up
    exact (inv.live (by simpa using up)).up stage
  have booting := inv.booting boots
  have onDisk := inv.onDisk
  unfold OnDisk at onDisk
  rw [stage] at onDisk
  obtain ⟨none,recoverable⟩ := onDisk
  rw [booting.seen start] at lh
  refine ⟨by rw [lh]; exact recoverable.home,fun _ _ => by rw [lh]; exact recoverable.short,?_,
    by rw [view,disk]; exact inv.area,?_,?_⟩
  · unfold OnDisk
    rw [stage',committed,disk,lh]
    exact ⟨pending.trans none,rfl,recoverable.installed⟩
  · intro _
    refine ⟨?_,?_,.inr ⟨0,stage'⟩⟩
    · rw [view,disk]
      exact booting.seen
    · rw [dirty]
      exact booting.clean
  · intro up
    rw [recovering,boots] at up
    contradiction

/-- A crash keeps the disk, from which what is committed can be recovered. -/
theorem LogInv.crash : LogInv fmt start d₀ {LogState.boot T s.disk with groups := s.groups} := by
  refine ⟨by simp [LogState.boot],by simp [LogState.boot,logSize],⟨rfl,inv.recoverable⟩,fun _ _ => rfl,?_,?_⟩
  · intro _
    exact ⟨fun _ => rfl,fun _ => rfl,.inl rfl⟩
  · intro up
    contradiction

theorem LogInv.setStage (rest : s.stage = .rest) : LogInv fmt start d₀ (s.setStage (.writeLog 0)) := by
  have up := inv.up (by simp [rest]) (by simp [rest])
  have live := inv.live up
  have onDisk := inv.onDisk
  unfold OnDisk at onDisk
  rw [rest] at onDisk
  refine ⟨inv.home,fun _ first => absurd rfl first,⟨onDisk.1,onDisk.2,fun i b below => absurd below (by omega)⟩,
    inv.area,?_,?_⟩
  · intro boots
    exact absurd (boots.symm.trans up) (by simp)
  · intro _
    refine ⟨live.seen,live.clean,?_,fun _ => live.flagged (by simp [rest]),live.nodup,live.logged,live.touched,
      live.writing,by simp [LogState.setStage]⟩
    intro b pinned
    have before := live.pinned b pinned
    unfold LogState.unflushed at before
    rw [rest] at before
    exact before

end

end Commit

section Writes
variable {T D : Type} (fmt : HeaderFormat D) (start : Nat) (s : LogState T D)

theorem writes_writeHead : Writes s (s.writeHead fmt start) start (fmt.write (s.view start) s.log.lh) :=
  (writes_bwrite _ _ _).read

theorem writes_writeLog (tail b : Nat) : Writes s (s.writeLog start tail b) (start+tail+1) (s.view b) :=
  (writes_bwrite _ _ _).read.read

theorem writes_installTrans (tail b : Nat) : Writes s (s.installTrans start tail b) b (s.view (start+tail+1)) :=
  (writes_bwrite _ _ _).read.read

end Writes

section Runs
variable {T D : Type} {fmt : HeaderFormat D} {start : Nat} {d₀ : Nat → D} {s s' : LogState T D}

/-- `write_log` finds a buffer for its first block only if not all buffers hold blocks of the log. -/
theorem LogInv.fits (inv : LogInv fmt start d₀ s) (cache : Cache s.buf s.cached)
    (stage : s.stage = .writeLog tail) (room : ([b,start+tail+1] ∪ s.cached).length ≤ nbuf) :
    s.log.lh.length < logSize := by
  by_cases first : tail = 0
  · have live := inv.live (inv.up (by simp [stage]) (by simp [stage]))
    have away : start+tail+1 ∉ s.log.lh := by
      intro member
      exact slot_away (by rw [first]; decide) (inv.home _ member)
    have held : (start+tail+1) :: s.log.lh ⊆ [b,start+tail+1] ∪ s.cached := by
      intro c member
      rcases List.mem_cons.mp member with rfl | listed
      · exact List.mem_union_left (by simp) _
      · obtain ⟨f,found,_⟩ := Option.any_eq_true _ _ |>.mp (live.flagged (by simp [stage]) c listed)
        exact List.mem_union_right _ (cache.all c f found)
    have few := (List.subperm_of_subset (List.nodup_cons.mpr ⟨away,live.nodup⟩) held).length_le
    rw [List.length_cons] at few
    have same : nbuf = logSize := rfl
    omega
  · exact inv.short (by simp [stage]) (by simpa [stage] using first)

theorem LogInv.advance (inv : LogInv fmt start d₀ s) (idle : Idle s) (cache : Cache s.buf s.cached)
    (next : Advance fmt start s s') {recovering : Bool}
    (mode : recovering = if s'.stage = .rest then false else s.recovering) :
    LogInv fmt start d₀ {s' with recovering := recovering} := by
  cases next with
  | noBuffers busy =>
    rw [if_neg busy] at mode
    rw [mode]
    exact inv.calm rfl (fun _ => rfl) (fun _ live => ⟨live.touched,live.writing⟩)
  | writeLog tail b stage next room =>
    have writes := writes_writeLog start s tail b
    exact inv.writeLog idle stage next (inv.fits cache stage room) ⟨writes.disk,writes.view,writes.dirty,writes.pc⟩
      (by rw [mode]; rfl) rfl
  | commit tail stage last room =>
    have writes := writes_writeHead fmt start s
    exact inv.commit idle stage last ⟨writes.disk,writes.view,writes.dirty,writes.pc⟩ (by rw [mode]; rfl) rfl
  | install tail b stage next room =>
    have writes := writes_installTrans start s tail b
    exact inv.install idle stage next ⟨writes.disk,writes.view,writes.dirty,writes.pc⟩ (by rw [mode]; rfl) rfl
  | clear tail stage last room =>
    have writes := writes_writeHead fmt start (s.setLh [])
    exact inv.clear idle stage last ⟨writes.disk,writes.view,writes.dirty,writes.pc⟩ (by rw [mode]; rfl) rfl
  | readHead stage room =>
    refine inv.readHead stage ?_ rfl
    simp only [Prod.mk.injEq]
    exact ⟨rfl,view_bread s start none,dirty_bread s start none,rfl,by rw [mode]; rfl,rfl,rfl⟩

theorem recover_mode (boots : s.recovering = true) (m : LogState T D) :
    decide (m.stage ≠ .rest) = if m.stage = .rest then false else s.recovering := by
  rw [boots]
  by_cases done : m.stage = .rest
  · simp [done]
  · simp [done]

variable [DecidableEq T]

theorem LogInv.step {a : LogAction T D} (inv : LogInv fmt start d₀ s) (gate : s.Gated) (cache : Cache s.buf s.cached)
    (change : LogChange fmt start s a s') : LogInv fmt start d₀ s' := by
  have role (t : T) (pc : LogPc) (place : s.pc t = pc) : s.role t = pc.role := by rw [LogState.role,place]
  have rest {t : T} (inside : s.role t = .inside) : s.recovering = false ∧ s.stage = .rest := (gate.quiet inside).2
  cases change with
  | crash => exact inv.crash
  | evict b free clean => exact inv.evict b free clean
  | recover m boots next => exact inv.advance (gate.alone next.busy) cache next (recover_mode boots m)
  | beginOp t up place room => exact inv.goto rfl (by rw [place]; rfl) (by simp)
  | noBuffers t b => exact inv.calm rfl (fun _ => rfl) (fun _ live => ⟨live.touched,live.writing⟩)
  | bread t b free room => exact inv.bread free
  | modify t b d touched logged place own home =>
    obtain ⟨f,cached,owner⟩ := cached_of_owner s b own
    have flag : f.dirty = s.dirty b := by simp [LogState.dirty,cached]
    have dirty := dirty_change s b cached (fun f => {f with data := d})
    have owners := owner_change s b cached (fun f => {f with data := d})
    rw [flag,update_eq_self] at dirty
    rw [owner,← own,update_eq_self] at owners
    refine inv.modify (rest (role t _ place)).1 place own home ?_ (view_change s b cached _) rfl
    simp only [Prod.mk.injEq]
    exact ⟨rfl,dirty,owners,rfl,rfl,rfl,rfl,rfl⟩
  | tooBig t b touched logged place full => exact inv.calm rfl (fun _ => rfl) (fun _ live => ⟨live.touched,live.writing⟩)
  | outsideOfTrans t b touched logged place few =>
    exact inv.calm rfl (fun _ => rfl) (fun _ live => ⟨live.touched,live.writing⟩)
  | logWrite t b touched logged place own home room =>
    refine inv.goto rfl (by rw [place]; rfl) ?_
    intro c ts ls same
    cases same
    exact ⟨own,home⟩
  | append t b touched logged place =>
    obtain ⟨up,quiet⟩ := rest (role t _ place)
    obtain ⟨own,_⟩ := (inv.live up).writing t b touched logged place
    obtain ⟨f,cached,owner⟩ := cached_of_owner s b own
    have data : f.data = s.view b := by simp [LogState.view,cached]
    have view := view_change s b cached (fun f => {f with dirty := true})
    have owners := owner_change s b cached (fun f => {f with dirty := true})
    rw [data,update_eq_self] at view
    rw [owner,← own,update_eq_self] at owners
    refine inv.append up quiet place ?_ (dirty_change s b cached _) rfl rfl
    simp only [Prod.mk.injEq]
    exact ⟨rfl,view,owners,rfl,rfl,rfl,rfl⟩
  | brelse t b own untouched place => exact inv.brelse own untouched place
  | committing t logged place busy => exact inv.calm rfl (fun _ => rfl) (fun _ live => ⟨live.touched,live.writing⟩)
  | lastOp t logged place one => exact inv.goto rfl (by rw [place]; rfl) (by simp)
  | endOp t logged place more => exact inv.goto rfl (by rw [place]; rfl) (by simp)
  | commit t place stage written => exact inv.setStage stage
  | commitEnd t place stage empty => exact inv.goto rfl (by rw [place]; rfl) (by simp)
  | advance t m up place next =>
    have after := inv.advance (gate.alone next.busy) cache next (by rw [up,ite_self])
    rw [← next.recovering.trans up] at after
    exact after

theorem logInv_start (T : Type) (empty : fmt.read (d₀ start) = []) : LogInv fmt start d₀ (.boot T d₀) := by
  have recoverable : Recoverable fmt start d₀ d₀ := by
    refine ⟨by simp [empty],by simp [empty,logSize],?_⟩
    rw [empty]
    exact ⟨by simp,fun _ _ _ => rfl⟩
  refine ⟨by simp [LogState.boot],by simp [LogState.boot,logSize],⟨rfl,recoverable⟩,fun _ _ => rfl,?_,?_⟩
  · intro _
    exact ⟨fun _ => rfl,fun _ => rfl,.inl rfl⟩
  · intro up
    contradiction

structure LogSound (fmt : HeaderFormat D) (start : Nat) (d₀ : Nat → D) (s : LogState T D) : Prop where
  inv : LogInv fmt start d₀ s
  gate : s.Gated
  cache : Cache s.buf s.cached

theorem logSound_boot (T : Type) (empty : fmt.read (d₀ start) = []) : LogSound fmt start d₀ (.boot T d₀) :=
  ⟨logInv_start T empty,gated_start T d₀,⟨List.nodup_nil,Nat.zero_le _,fun b f found => by contradiction⟩⟩

theorem LogSound.step {a : LogAction T D} (sound : LogSound fmt start d₀ s) (change : LogChange fmt start s a s') :
    LogSound fmt start d₀ s' :=
  ⟨sound.inv.step sound.gate sound.cache change,change.gated sound.gate,change.cache sound.cache⟩

theorem logSound_reached {guard : LogState T D → LogAction T D → Prop} (empty : fmt.read (d₀ start) = [])
    (reached : LogReaches fmt start guard (.boot T d₀) s) : LogSound fmt start d₀ s := by
  refine reached.invariant (LogSound fmt start d₀) (logSound_boot T empty) ?_
  intro before action after sound _ taken
  exact sound.step (logStep_cases taken)

end Runs

/-- Whatever was interrupted, also recovery itself, a recovery that completes leaves at home exactly
what the groups whose header had been written logged. -/
theorem recovery_restores_groups (T D : Type) [DecidableEq T] (fmt : HeaderFormat D) (start : Nat) (d₀ : Nat → D)
    (empty : fmt.read (d₀ start) = []) (s s' : LogState T D)
    (reached : LogReaches fmt start (fun _ _ => True) (.boot T d₀) s) (taken : logStep fmt start s .recover = some s')
    (done : s'.recovering = false) (b : Nat) (home : Home start b) : s'.disk b = Redo.replay d₀ s'.groups b := by
  have change := logStep_cases taken
  have onDisk := ((logSound_reached empty reached).step change).inv.onDisk
  have rest : s'.stage = .rest := by
    cases change with
    | recover m boots next => simpa using done
  unfold OnDisk at onDisk
  rw [rest] at onDisk
  exact onDisk.2 b home

def listFormat : HeaderFormat (List Nat) where
  read d := d
  write _ blocks := blocks
  read_write _ _ _ _ := rfl

def numbered (b : Nat) : List Nat := if b = 2 then [] else [b]

/-- One operation writes 5 to block 40, and the machine crashes after the first `write_head`. -/
def crashScript : List (LogAction Unit (List Nat)) :=
  [.recover,.recover,.beginOp (),.bread () 40,.modify () 40 [5],.logWrite () 40,.run (),.brelse () 40,.endOp (),
    .run (),.run (),.run (),.crash,.recover,.recover]

theorem recovery_restores_groups_once : ∃ s s', LogReaches listFormat 2 (fun _ _ => True) (.boot Unit numbered) s ∧
    logStep listFormat 2 s .recover = some s' ∧ s'.recovering = false ∧ s'.groups = [[(40,[5])]] ∧ s'.disk 40 = [5] := by
  obtain ⟨s,s',reached,_,taken,done,groups⟩ := Interleave.play_shows_step (logStep listFormat 2) (fun _ _ => True)
    (LogState.boot Unit numbered) crashScript .recover
    (fun _ s' => s'.recovering = false ∧ s'.groups = [[(40,[5])]]) (by decide +kernel)
  have restored := recovery_restores_groups Unit (List Nat) listFormat 2 numbered rfl s s' reached taken done 40 (by decide)
  rw [groups] at restored
  exact ⟨s,s',reached,taken,done,groups,restored⟩

end Kthreads
