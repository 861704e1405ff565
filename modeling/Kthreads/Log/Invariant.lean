import Kthreads.Log.Gate

/-! What is on the disk and in the buffer cache while operations run, and that operations keep it. -/
open Function

namespace Kthreads
variable {b i : Nat}

section Invariant
variable {T D : Type} (fmt : HeaderFormat D) (start : Nat) (d₀ : Nat → D)

def LogState.committed (s : LogState T D) : Nat → D := Redo.replay d₀ s.groups

def LogState.current (s : LogState T D) : Nat → D := Redo.apply (s.committed d₀) s.pending

def logBlock (disk : Nat → D) (i : Nat) : D := disk (start+i+1)

structure Recoverable (target disk : Nat → D) : Prop where
  home : ∀ b ∈ fmt.read (disk start), Home start b
  short : (fmt.read (disk start)).length < logSize
  installed : Redo.Installed (Home start) target disk (fmt.read (disk start)) (logBlock start disk) 0

def OnDisk (s : LogState T D) : Prop :=
  match s.stage with
  | .rest => fmt.read (s.disk start) = [] ∧ ∀ b, Home start b → s.disk b = s.committed d₀ b
  | .writeLog tail => fmt.read (s.disk start) = [] ∧ (∀ b, Home start b → s.disk b = s.committed d₀ b) ∧
      ∀ i b, i < tail → s.log.lh[i]? = some b → logBlock start s.disk i = s.current d₀ b
  | .install tail => s.pending = [] ∧ fmt.read (s.disk start) = s.log.lh ∧
      Redo.Installed (Home start) (s.committed d₀) s.disk s.log.lh (logBlock start s.disk) tail
  | .readHead => s.pending = [] ∧ Recoverable fmt start (s.committed d₀) s.disk

def Untouched (s : LogState T D) (b : Nat) : Prop := ∀ t, b ∉ (s.pc t).touched

/-- The blocks whose newest contents are not at home yet. -/
def LogState.unflushed (s : LogState T D) : List Nat :=
  match s.stage with
  | .install tail => s.log.lh.drop tail
  | _ => s.log.lh

structure Live (s : LogState T D) : Prop where
  seen : ∀ b, Home start b → Untouched s b → s.view b = s.current d₀ b
  clean : ∀ b, Home start b → s.dirty b = false → Untouched s b → s.disk b = s.current d₀ b
  pinned : ∀ b, s.dirty b = true → b ∈ s.unflushed
  flagged : (∀ tail, s.stage ≠ .install tail) → ∀ b ∈ s.log.lh, s.dirty b = true
  nodup : s.log.lh.Nodup
  logged : ∀ w ∈ s.pending, w.1 ∈ s.log.lh
  touched : ∀ t b, b ∈ (s.pc t).touched → s.owner b = some t
  writing : ∀ t b touched logged, s.pc t = .logWrite b touched logged → s.owner b = some t ∧ Home start b
  up : s.stage ≠ .readHead

structure Booting (s : LogState T D) : Prop where
  seen : ∀ b, s.view b = s.disk b
  clean : ∀ b, s.dirty b = false
  stage : s.stage = .readHead ∨ ∃ tail, s.stage = .install tail

structure LogInv (s : LogState T D) : Prop where
  home : ∀ b ∈ s.log.lh, Home start b
  short : s.stage ≠ .rest → s.stage ≠ .writeLog 0 → s.log.lh.length < logSize
  onDisk : OnDisk fmt start d₀ s
  area : ∀ b, ¬ Home start b → s.view b = s.disk b
  booting : s.recovering = true → Booting s
  live : s.recovering = false → Live start d₀ s

end Invariant

section Facts
variable {T D : Type} {fmt : HeaderFormat D} {start : Nat} {d₀ : Nat → D} {s s' : LogState T D}

theorem start_away : ¬ Home start start := by
  unfold Home logSize
  omega

theorem slot_away (short : i+1 < logSize) : ¬ Home start (start+i+1) := by
  unfold Home
  omega

theorem current_none (none : s.pending = []) : s.current d₀ = s.committed d₀ := by
  simp [LogState.current,none,Redo.apply]

theorem slot_index {lh : List Nat} (named : lh[i]? = some b) (short : lh.length < logSize) :
    i+1 < logSize := by
  obtain ⟨bound,_⟩ := List.getElem?_eq_some_iff.mp named
  omega

theorem Log.mem_append (log : Log) (b c : Nat) : c ∈ (log.append b).lh ↔ c ∈ log.lh ∨ c = b := by
  unfold Log.append
  split
  next listed =>
    refine ⟨.inl,?_⟩
    rintro (member | rfl)
    · exact member
    · exact listed
  next => simp

theorem logBlock_update {disk : Nat → D} {d : D} (home : Home start b) (short : i+1 < logSize) :
    logBlock start (update disk b d) i = logBlock start disk i := by
  refine update_of_ne ?_ d disk
  rintro rfl
  exact slot_away short home

theorem LogInv.recoverable (inv : LogInv fmt start d₀ s) : Recoverable fmt start (s.committed d₀) s.disk := by
  have onDisk := inv.onDisk
  unfold OnDisk at onDisk
  have unused (empty : fmt.read (s.disk start) = []) (agrees : ∀ b, Home start b → s.disk b = s.committed d₀ b) :
      Recoverable fmt start (s.committed d₀) s.disk := by
    refine ⟨by simp [empty],by simp [empty],?_⟩
    rw [empty]
    exact ⟨by simp,fun b home _ => agrees b home⟩
  split at onDisk
  next => exact unused onDisk.1 onDisk.2
  next => exact unused onDisk.1 onDisk.2.1
  next tail stage =>
    obtain ⟨_,header,installed⟩ := onDisk
    refine ⟨?_,?_,?_⟩
    · rw [header]
      exact inv.home
    · rw [header]
      exact inv.short (by simp [stage]) (by simp [stage])
    · rw [header]
      exact installed.restart
  next => exact onDisk.2

end Facts

section Cache
variable {T D : Type} {fmt : HeaderFormat D} {start : Nat}

structure Cache (buf : Nat → Option (Buf T D)) (cached : List Nat) : Prop where
  nodup : cached.Nodup
  few : cached.length ≤ nbuf
  all : ∀ b f, buf b = some f → b ∈ cached

section Rules
variable {buf : Nat → Option (Buf T D)} {cached : List Nat} {b : Nat}

section
variable (cache : Cache buf cached)
include cache

theorem Cache.replace (v : Option (Buf T D)) (held : b ∈ cached) : Cache (update buf b v) cached := by
  refine ⟨cache.nodup,cache.few,?_⟩
  intro c f found
  by_cases here : c = b
  · rw [here]
    exact held
  · rw [update_of_ne here] at found
    exact cache.all c f found

theorem Cache.insert (v : Option (Buf T D)) (room : ([b] ∪ cached).length ≤ nbuf) :
    Cache (update buf b v) ([b] ∪ cached) := by
  have wider : Cache buf ([b] ∪ cached) :=
    ⟨cache.nodup.insert,room,fun c f found => List.mem_insert_of_mem (cache.all c f found)⟩
  exact wider.replace v List.mem_insert_self

theorem Cache.map (g : Buf T D → Buf T D) : Cache (update buf b ((buf b).map g)) cached := by
  cases found : buf b with
  | none =>
    rw [Option.map_none,← found,update_eq_self]
    exact cache
  | some f => exact cache.replace _ (cache.all b f found)

theorem Cache.erase : Cache (update buf b none) (cached.erase b) := by
  refine ⟨cache.nodup.erase b,le_trans List.length_erase_le cache.few,?_⟩
  intro c f found
  by_cases here : c = b
  · simp [here] at found
  · rw [update_of_ne here] at found
    exact cache.nodup.mem_erase_iff.mpr ⟨here,cache.all c f found⟩

end

end Rules

variable {s s' : LogState T D}

theorem Cache.copy (cache : Cache s.buf s.cached) {c : Nat} (w : Nat) (d : D) (room : ([c,b] ∪ s.cached).length ≤ nbuf)
    (held : w = b ∨ w = c) : Cache (((s.bread b none).bread c none).bwrite w d).buf ([c,b] ∪ s.cached) := by
  have first : ([b] ∪ s.cached).length ≤ nbuf := le_trans List.length_le_length_insert room
  refine ((cache.insert _ first).insert _ room).replace _ ?_
  rcases held with rfl | rfl
  · exact List.mem_insert_of_mem List.mem_insert_self
  · exact List.mem_insert_self

theorem Cache.writeHead (cache : Cache s.buf s.cached) (room : ([start] ∪ s.cached).length ≤ nbuf) :
    Cache (s.writeHead fmt start).buf (s.writeHead fmt start).cached :=
  (cache.insert _ room).replace _ List.mem_insert_self

theorem Advance.cache (next : Advance fmt start s s') (cache : Cache s.buf s.cached) : Cache s'.buf s'.cached := by
  cases next with
  | noBuffers busy => exact cache
  | writeLog tail b stage next room => exact cache.copy (start+tail+1) (s.view b) room (.inl rfl)
  | commit tail stage last room => exact cache.writeHead room
  | install tail b stage next room => exact cache.copy b (s.view (start+tail+1)) room (.inr rfl)
  | clear tail stage last room =>
    have before : Cache (s.setLh []).buf (s.setLh []).cached := cache
    exact before.writeHead room
  | readHead stage room => exact cache.insert _ room

theorem LogChange.cache [DecidableEq T] {a : LogAction T D} (change : LogChange fmt start s a s')
    (cache : Cache s.buf s.cached) : Cache s'.buf s'.cached := by
  cases change with
  | crash => exact ⟨List.nodup_nil,Nat.zero_le _,fun b f found => by contradiction⟩
  | evict b free clean => exact cache.erase
  | recover m boots next => exact next.cache cache
  | bread t b free room => exact cache.insert _ room
  | modify t b d touched logged place own home => exact cache.map _
  | append t b touched logged place => exact cache.map _
  | brelse t b own untouched place => exact cache.map _
  | advance t m up place next => exact next.cache cache
  | _ => exact cache

end Cache

section Steps
variable {T D : Type} {fmt : HeaderFormat D} {start : Nat} {d₀ : Nat → D} {s s' : LogState T D}

theorem LogInv.calm (inv : LogInv fmt start d₀ s)
    (same : (s'.disk,s'.view,s'.dirty,s'.log.lh,s'.stage,s'.recovering,s'.pending,s'.groups) =
      (s.disk,s.view,s.dirty,s.log.lh,s.stage,s.recovering,s.pending,s.groups))
    (touched : ∀ t, (s'.pc t).touched = (s.pc t).touched)
    (owned : s.recovering = false → Live start d₀ s → (∀ t b, b ∈ (s.pc t).touched → s'.owner b = some t) ∧
      ∀ t b touched logged, s'.pc t = .logWrite b touched logged → s'.owner b = some t ∧ Home start b) :
    LogInv fmt start d₀ s' := by
  obtain ⟨disk,view,dirty,lh,stage,recovering,pending,groups⟩ := by simpa only [Prod.mk.injEq] using same
  have committed : s'.committed d₀ = s.committed d₀ := by rw [LogState.committed,groups,LogState.committed]
  have current : s'.current d₀ = s.current d₀ := by rw [LogState.current,committed,pending,LogState.current]
  have untouched (b : Nat) (free : Untouched s' b) : Untouched s b := fun t member => free t (touched t ▸ member)
  refine ⟨?_,?_,?_,?_,?_,?_⟩
  · rw [lh]
    exact inv.home
  · rw [lh,stage]
    exact inv.short
  · have onDisk := inv.onDisk
    unfold OnDisk at onDisk ⊢
    rw [stage,disk,lh,pending,committed,current]
    exact onDisk
  · rw [view,disk]
    exact inv.area
  · intro boots
    have before := inv.booting (recovering ▸ boots)
    exact ⟨by rw [view,disk]; exact before.seen,by rw [dirty]; exact before.clean,by rw [stage]; exact before.stage⟩
  · intro up
    have live := inv.live (recovering ▸ up)
    obtain ⟨owners,writers⟩ := owned (recovering ▸ up) live
    refine ⟨?_,?_,?_,by rw [stage,lh,dirty]; exact live.flagged,by rw [lh]; exact live.nodup,?_,?_,writers,
      by rw [stage]; exact live.up⟩
    · intro b home free
      rw [view,current]
      exact live.seen b home (untouched b free)
    · intro b home clean free
      rw [disk,current]
      exact live.clean b home (dirty ▸ clean) (untouched b free)
    · intro b pinned
      have before := live.pinned b (dirty ▸ pinned)
      unfold LogState.unflushed at before ⊢
      rw [stage,lh]
      exact before
    · rw [pending,lh]
      exact live.logged
    · intro t b member
      exact owners t b (touched t ▸ member)

theorem LogInv.evict (inv : LogInv fmt start d₀ s) (b : Nat) (free : s.owner b = none) (clean : s.dirty b = false) :
    LogInv fmt start d₀ {s with buf := update s.buf b none, cached := s.cached.erase b} := by
  have view : ({s with buf := update s.buf b none, cached := s.cached.erase b} : LogState T D).view = update s.view b (s.disk b) := by
    funext c
    by_cases here : c = b
    · simp [LogState.view,here]
    · simp [LogState.view,here]
  have dirty : ({s with buf := update s.buf b none, cached := s.cached.erase b} : LogState T D).dirty = s.dirty := by
    funext c
    by_cases here : c = b
    · rw [here,clean]
      simp [LogState.dirty]
    · simp [LogState.dirty,here]
  have owner : ({s with buf := update s.buf b none, cached := s.cached.erase b} : LogState T D).owner = s.owner := by
    funext c
    by_cases here : c = b
    · rw [here,free]
      simp [LogState.owner]
    · simp [LogState.owner,here]
  have same (c : Nat) (agrees : s.view c = s.disk c) : update s.view b (s.disk b) c = s.disk c := by
    by_cases here : c = b
    · simp [here]
    · simpa [here] using agrees
  refine ⟨inv.home,inv.short,inv.onDisk,?_,?_,?_⟩
  · intro c away
    rw [view]
    exact same c (inv.area c away)
  · intro boots
    have before := inv.booting boots
    refine ⟨?_,by rw [dirty]; exact before.clean,before.stage⟩
    intro c
    rw [view]
    exact same c (before.seen c)
  · intro up
    have live := inv.live up
    refine ⟨?_,?_,?_,by rw [dirty]; exact live.flagged,live.nodup,live.logged,?_,?_,live.up⟩
    · intro c home untouched
      rw [view]
      by_cases here : c = b
      · rw [here,update_self]
        exact live.clean b (here ▸ home) clean (here ▸ untouched)
      · rw [update_of_ne here]
        exact live.seen c home untouched
    · intro c home still untouched
      rw [dirty] at still
      exact live.clean c home still untouched
    · intro c pinned
      rw [dirty] at pinned
      exact live.pinned c pinned
    · intro t c member
      rw [owner]
      exact live.touched t c member
    · intro t c touched logged place
      rw [owner]
      exact live.writing t c touched logged place

theorem Untouched.other {m : LogState T D} {t : T} {c : Nat} (free : Untouched m c)
    (same : ∀ u, u ≠ t → m.pc u = s.pc u) (here : c ∉ (s.pc t).touched) : Untouched s c := by
  intro u member
  by_cases at_ : u = t
  · exact here (at_ ▸ member)
  · exact free u (by rw [same u at_]; exact member)

theorem LogInv.bread (inv : LogInv fmt start d₀ s) {t : T} (free : s.owner b = none) :
    LogInv fmt start d₀ (s.bread b (some t)) := by
  have owner (u : T) (c : Nat) (owned : s.owner c = some u) : (s.bread b (some t)).owner c = some u := by
    rw [owner_bread,update_of_ne]
    · exact owned
    · rintro rfl
      rw [free] at owned
      contradiction
  refine inv.calm ?_ (fun _ => rfl) ?_
  · simp only [Prod.mk.injEq]
    exact ⟨rfl,view_bread s b _,dirty_bread s b _,rfl,rfl,rfl,rfl,rfl⟩
  · intro _ live
    refine ⟨fun u c member => owner u c (live.touched u c member),?_⟩
    intro u c touched logged place
    obtain ⟨owned,home⟩ := live.writing u c touched logged place
    exact ⟨owner u c owned,home⟩

theorem LogInv.brelse (inv : LogInv fmt start d₀ s) {t : T} (own : s.owner b = some t)
    (untouched : b ∉ (s.pc t).touched) (place : s.pc t = .idle ∨ ∃ touched logged, s.pc t = .op touched logged) :
    LogInv fmt start d₀ (s.change b fun f => {f with owner := none}) := by
  obtain ⟨f,cached,_⟩ := cached_of_owner s b own
  have view := view_change s b cached (fun f => {f with owner := none})
  have dirty := dirty_change s b cached (fun f => {f with owner := none})
  have data : f.data = s.view b := by simp [LogState.view,cached]
  have flag : f.dirty = s.dirty b := by simp [LogState.dirty,cached]
  have owner (u : T) (c : Nat) (owned : s.owner c = some u) (other : u = t → c ≠ b) :
      (s.change b fun f => {f with owner := none}).owner c = some u := by
    rw [owner_change s b cached,update_of_ne]
    · exact owned
    · rintro rfl
      cases own.symm.trans owned
      exact other rfl rfl
  refine inv.calm ?_ (fun _ => rfl) ?_
  · simp only [Prod.mk.injEq]
    refine ⟨rfl,?_,?_,rfl,rfl,rfl,rfl,rfl⟩
    · rw [view,data,update_eq_self]
    · rw [dirty,flag,update_eq_self]
  · intro _ live
    refine ⟨?_,?_⟩
    · intro u c member
      refine owner u c (live.touched u c member) ?_
      rintro rfl rfl
      exact untouched member
    · intro u c touched logged writes
      obtain ⟨owned,home⟩ := live.writing u c touched logged writes
      refine ⟨owner u c owned ?_,home⟩
      rintro rfl
      rcases place with idle | ⟨_,_,op⟩
      · exact absurd (idle.symm.trans writes) (by simp)
      · exact absurd (op.symm.trans writes) (by simp)

variable [DecidableEq T]

theorem LogInv.goto (inv : LogInv fmt start d₀ s) {m : LogState T D} {t : T} {pc : LogPc}
    (same : (m.disk,m.buf,m.log.lh,m.stage,m.recovering,m.pending,m.groups,m.pc) =
      (s.disk,s.buf,s.log.lh,s.stage,s.recovering,s.pending,s.groups,s.pc))
    (touched : pc.touched = (s.pc t).touched)
    (writing : ∀ b touched logged, pc = .logWrite b touched logged → s.owner b = some t ∧ Home start b) :
    LogInv fmt start d₀ (m.goto t pc) := by
  obtain ⟨disk,buf,lh,stage,recovering,pending,groups,pcs⟩ := by simpa only [Prod.mk.injEq] using same
  have view : (m.goto t pc).view = s.view := by
    funext b
    simp [LogState.view,LogState.goto,disk,buf]
  have dirty : (m.goto t pc).dirty = s.dirty := by
    funext b
    simp [LogState.dirty,LogState.goto,buf]
  have owner : (m.goto t pc).owner = s.owner := by
    funext b
    simp [LogState.owner,LogState.goto,buf]
  have here : (m.goto t pc).pc t = pc := by simp [LogState.goto]
  have others (u : T) (other : u ≠ t) : (m.goto t pc).pc u = s.pc u := by
    simp [LogState.goto,other,pcs]
  refine inv.calm ?_ ?_ ?_
  · simp only [Prod.mk.injEq]
    exact ⟨disk,view,dirty,lh,stage,recovering,pending,groups⟩
  · intro u
    by_cases equal : u = t
    · rw [equal,here,touched]
    · rw [others u equal]
  · intro _ live
    rw [owner]
    refine ⟨live.touched,?_⟩
    intro u b ts ls writes
    by_cases equal : u = t
    · rw [equal,here] at writes
      rw [equal]
      exact writing b ts ls writes
    · rw [others u equal] at writes
      exact live.writing u b ts ls writes

theorem LogInv.modify (inv : LogInv fmt start d₀ s) {m : LogState T D} {t : T} {d : D} {touched logged : List Nat}
    (up : s.recovering = false) (place : s.pc t = .op touched logged) (own : s.owner b = some t) (home : Home start b)
    (same : (m.disk,m.dirty,m.owner,m.log,m.stage,m.recovering,m.pending,m.groups) =
      (s.disk,s.dirty,s.owner,s.log,s.stage,s.recovering,s.pending,s.groups))
    (view : m.view = update s.view b d) (pc : m.pc = update s.pc t (.op (b :: touched) logged)) :
    LogInv fmt start d₀ m := by
  obtain ⟨disk,dirty,owner,log,stage,recovering,pending,groups⟩ := by simpa only [Prod.mk.injEq] using same
  have committed : m.committed d₀ = s.committed d₀ := by rw [LogState.committed,groups,LogState.committed]
  have current : m.current d₀ = s.current d₀ := by rw [LogState.current,committed,pending,LogState.current]
  have live := inv.live up
  have here : m.pc t = .op (b :: touched) logged := by rw [pc,update_self]
  have others (u : T) (other : u ≠ t) : m.pc u = s.pc u := by rw [pc,update_of_ne other]
  have still (c : Nat) (free : Untouched m c) : c ≠ b ∧ Untouched s c := by
    have absent : c ∉ b :: touched := by
      have := free t
      rwa [here] at this
    refine ⟨fun equal => absent (by simp [equal]),free.other others ?_⟩
    rw [place]
    exact fun member => absent (List.mem_cons_of_mem _ member)
  refine ⟨by rw [log]; exact inv.home,by rw [log,stage]; exact inv.short,?_,?_,?_,?_⟩
  · have onDisk := inv.onDisk
    unfold OnDisk at onDisk ⊢
    rw [stage,disk,log,pending,committed,current]
    exact onDisk
  · intro c away
    have other : c ≠ b := fun equal => away (equal ▸ home)
    rw [view,disk,update_of_ne other]
    exact inv.area c away
  · intro boots
    rw [recovering,up] at boots
    contradiction
  · intro _
    refine ⟨?_,?_,?_,by rw [stage,log,dirty]; exact live.flagged,by rw [log]; exact live.nodup,?_,?_,?_,
      by rw [stage]; exact live.up⟩
    · intro c inside free
      obtain ⟨other,untouched⟩ := still c free
      rw [view,current,update_of_ne other]
      exact live.seen c inside untouched
    · intro c inside clean free
      rw [disk,current]
      exact live.clean c inside (dirty ▸ clean) (still c free).2
    · intro c pinned
      have before := live.pinned c (dirty ▸ pinned)
      unfold LogState.unflushed at before ⊢
      rw [stage,log]
      exact before
    · rw [pending,log]
      exact live.logged
    · intro u c member
      rw [owner]
      by_cases equal : u = t
      · rw [equal,here] at member
        rw [equal]
        rcases List.mem_cons.mp member with rfl | before
        · exact own
        · exact live.touched t c (by rw [place]; exact before)
      · rw [others u equal] at member
        exact live.touched u c member
    · intro u c ts ls writes
      rw [owner]
      by_cases equal : u = t
      · rw [equal,here] at writes
        contradiction
      · rw [others u equal] at writes
        exact live.writing u c ts ls writes

theorem LogInv.append (inv : LogInv fmt start d₀ s) {m : LogState T D} {t : T} {touched logged logged' : List Nat}
    (up : s.recovering = false) (rest : s.stage = .rest) (place : s.pc t = .logWrite b touched logged)
    (same : (m.disk,m.view,m.owner,m.log.lh,m.stage,m.recovering,m.groups) =
      (s.disk,s.view,s.owner,(s.log.append b).lh,s.stage,s.recovering,s.groups))
    (dirty : m.dirty = update s.dirty b true) (pending : m.pending = s.pending ++ [(b,s.view b)])
    (pc : m.pc = update s.pc t (.op (touched.filter (· ≠ b)) logged')) : LogInv fmt start d₀ m := by
  obtain ⟨disk,view,owner,lh,stage,recovering,groups⟩ := by simpa only [Prod.mk.injEq] using same
  have committed : m.committed d₀ = s.committed d₀ := by rw [LogState.committed,groups,LogState.committed]
  have current : m.current d₀ = update (s.current d₀) b (s.view b) := by
    rw [LogState.current,committed,pending,Redo.apply_concat,LogState.current]
  have live := inv.live up
  obtain ⟨own,home⟩ := live.writing t b touched logged place
  have here : m.pc t = .op (touched.filter (· ≠ b)) logged' := by rw [pc,update_self]
  have others (u : T) (other : u ≠ t) : m.pc u = s.pc u := by rw [pc,update_of_ne other]
  have still (c : Nat) (other : c ≠ b) (free : Untouched m c) : Untouched s c := by
    refine free.other others ?_
    rw [place]
    intro member
    refine free t ?_
    rw [here]
    exact List.mem_filter.mpr ⟨member,by simp [other]⟩
  have members (c : Nat) : c ∈ m.log.lh ↔ c ∈ s.log.lh ∨ c = b := by
    rw [lh]
    exact s.log.mem_append b c
  refine ⟨?_,?_,?_,by rw [view,disk]; exact inv.area,?_,?_⟩
  · intro c member
    rcases (members c).mp member with before | rfl
    · exact inv.home c before
    · exact home
  · intro busy
    exact absurd (stage.trans rest) busy
  · have onDisk := inv.onDisk
    unfold OnDisk at onDisk ⊢
    rw [stage,rest,disk,committed]
    rw [rest] at onDisk
    exact onDisk
  · intro boots
    rw [recovering,up] at boots
    contradiction
  · intro _
    refine ⟨?_,?_,?_,?_,?_,?_,?_,?_,by rw [stage]; exact live.up⟩
    · intro c inside free
      rw [view,current]
      by_cases equal : c = b
      · rw [equal,update_self]
      · rw [update_of_ne equal]
        exact live.seen c inside (still c equal free)
    · intro c inside clean free
      have other : c ≠ b := by
        rintro rfl
        rw [dirty,update_self] at clean
        contradiction
      rw [dirty,update_of_ne other] at clean
      rw [disk,current,update_of_ne other]
      exact live.clean c inside clean (still c other free)
    · intro c pinned
      unfold LogState.unflushed
      rw [stage,rest]
      refine (members c).mpr ?_
      by_cases equal : c = b
      · exact .inr equal
      · rw [dirty,update_of_ne equal] at pinned
        have before := live.pinned c pinned
        unfold LogState.unflushed at before
        rw [rest] at before
        exact .inl before
    · intro _ c member
      rw [dirty]
      by_cases equal : c = b
      · rw [equal,update_self]
      · rw [update_of_ne equal]
        exact live.flagged (by simp [rest]) c (((members c).mp member).resolve_right equal)
    · rw [lh,Log.append]
      split
      next => exact live.nodup
      next absent => exact live.nodup.append (List.nodup_singleton b) (by simpa using absent)
    · intro w member
      rw [pending,List.mem_append] at member
      refine (members w.1).mpr ?_
      rcases member with before | new
      · exact .inl (live.logged w before)
      · rw [List.mem_singleton.mp new]
        exact .inr rfl
    · intro u c member
      rw [owner]
      by_cases equal : u = t
      · rw [equal,here] at member
        rw [equal]
        exact live.touched t c (by rw [place]; exact (List.mem_filter.mp member).1)
      · rw [others u equal] at member
        exact live.touched u c member
    · intro u c ts ls writes
      rw [owner]
      by_cases equal : u = t
      · rw [equal,here] at writes
        contradiction
      · rw [others u equal] at writes
        exact live.writing u c ts ls writes

end Steps

end Kthreads
