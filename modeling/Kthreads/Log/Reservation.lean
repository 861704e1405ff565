import Mathlib.Algebra.BigOperators.Group.List.Basic
import Mathlib.Algebra.GroupWithZero.Nat
import Kthreads.Log.Crash

/-! The space that `begin_op` reserves in the log, and how many blocks an operation may log for it
to suffice. -/
open Function

namespace Kthreads

def Reserved {T D : Type} (limit : Nat) (s : LogState T D) (a : LogAction T D) : Prop :=
  match a with
  | .logWrite t b =>
    match s.pc t with
    | .op _ logged => b ∈ logged ∨ logged.length < limit
    | _ => True
  | _ => True

instance {T D : Type} (limit : Nat) (s : LogState T D) (a : LogAction T D) : Decidable (Reserved limit s a) := by
  unfold Reserved
  split
  · split <;> infer_instance
  · infer_instance

def LogPc.logged : LogPc → List Nat
  | .op _ logged | .logWrite _ _ logged => logged
  | _ => []

/-- How many more blocks a thread may log, when one less than `MAXOPBLOCKS` are allowed. -/
def LogPc.left (pc : LogPc) : Nat := maxOpBlocks-1-pc.logged.length

/-- What is in the log and what the operations may still put there leaves the test of `log_write`
one block of room. -/
structure Booked {T : Type} (log : Log) (pc : T → LogPc) (recovering : Bool) : Prop where
  size : log.size = logSize
  room : recovering = false → ∀ ops : List T, ops.Nodup → (∀ t ∈ ops, (pc t).role = .inside) →
    log.lh.length + (ops.map fun t => (pc t).left).sum + 2 ≤ logSize
  listed : ∀ t, ∀ b ∈ (pc t).logged, b ∈ log.lh
  writes : ∀ t b touched logged, pc t = .logWrite b touched logged → b ∈ logged ∨ logged.length < maxOpBlocks-1
  empty : recovering = false → log.outstanding = 0 → log.committing = false → log.lh = []

section Booking
variable {T : Type} {log : Log} {pc : T → LogPc} {recovering : Bool}

theorem logged_outside {place : LogPc} (outside : place.role ≠ .inside) : place.logged = [] := by
  cases place with
  | idle => rfl
  | op touched logged => simp [LogPc.role] at outside
  | logWrite b touched logged => simp [LogPc.role] at outside
  | commit => rfl

theorem Booked.idle (size : log.size = logSize) (outside : ∀ t, (pc t).role ≠ .inside)
    (empty : recovering = false → log.lh = []) : Booked log pc recovering := by
  refine ⟨size,?_,?_,?_,fun up _ _ => empty up⟩
  · intro up ops _ inside
    cases ops with
    | nil => simp [empty up,logSize]
    | cons t ops => exact absurd (inside t (by simp)) (outside t)
  · intro t b member
    simp [logged_outside (outside t)] at member
  · intro t b touched logged place
    exact absurd (by rw [place]; rfl) (outside t)

theorem Booked.short (booked : Booked log pc recovering) (up : recovering = false) : log.lh.length+2 ≤ logSize := by
  have room := booked.room up [] List.nodup_nil (by simp)
  simpa using room

variable [DecidableEq T] {t : T}

theorem Booked.stay (booked : Booked log pc recovering) {place : LogPc} (inside : (pc t).role = .inside)
    (same : place.logged = (pc t).logged)
    (writes : ∀ b touched logged, place = .logWrite b touched logged → b ∈ logged ∨ logged.length < maxOpBlocks-1) :
    Booked log (update pc t place) recovering := by
  have logged (u : T) : (update pc t place u).logged = (pc u).logged := by
    by_cases here : u = t
    · rw [here,update_self,same]
    · rw [update_of_ne here]
  refine ⟨booked.size,?_,?_,?_,booked.empty⟩
  · intro up ops nodup members
    have old : ∀ u ∈ ops, (pc u).role = .inside := by
      intro u member
      by_cases here : u = t
      · rw [here]
        exact inside
      · have := members u member
        rwa [update_of_ne here] at this
    have left : (fun u => (update pc t place u).left) = fun u => (pc u).left := by
      funext u
      rw [LogPc.left,logged,LogPc.left]
    rw [left]
    exact booked.room up ops nodup old
  · intro u b member
    rw [logged] at member
    exact booked.listed u b member
  · intro u b touched logged at_
    by_cases here : u = t
    · rw [here,update_self] at at_
      exact writes b touched logged at_
    · rw [update_of_ne here] at at_
      exact booked.writes u b touched logged at_

theorem Booked.leave (booked : Booked log pc recovering) {place : LogPc} {log' : Log} (outside : place.role ≠ .inside)
    (same : (log'.size,log'.lh) = (log.size,log.lh))
    (empty : recovering = false → log'.outstanding = 0 → log'.committing = false → log.lh = []) :
    Booked log' (update pc t place) recovering := by
  obtain ⟨size,lh⟩ := Prod.mk.inj same
  refine ⟨size.trans booked.size,?_,?_,?_,by rw [lh]; exact empty⟩
  · intro up ops nodup members
    have other (u : T) (member : u ∈ ops) : u ≠ t := by
      rintro rfl
      have := members u member
      rw [update_self] at this
      exact outside this
    have left : ops.map (fun u => (update pc t place u).left) = ops.map fun u => (pc u).left := by
      refine List.map_congr_left ?_
      intro u member
      rw [update_of_ne (other u member)]
    rw [left,lh]
    refine booked.room up ops nodup ?_
    intro u member
    have := members u member
    rwa [update_of_ne (other u member)] at this
  · intro u b member
    rw [lh]
    by_cases here : u = t
    · rw [here,update_self,logged_outside outside] at member
      contradiction
    · rw [update_of_ne here] at member
      exact booked.listed u b member
  · intro u b touched logged at_
    by_cases here : u = t
    · rw [here,update_self] at at_
      exact absurd (by rw [at_]; rfl) outside
    · rw [update_of_ne here] at at_
      exact booked.writes u b touched logged at_

omit [DecidableEq T] in
theorem sum_left_le (pc : T → LogPc) (ops : List T) :
    (ops.map fun t => (pc t).left).sum ≤ (maxOpBlocks-1)*ops.length := by
  induction ops with
  | nil => simp
  | cons t ops ih =>
    have one : (pc t).left ≤ maxOpBlocks-1 := Nat.sub_le _ _
    simp only [List.map_cons,List.sum_cons,List.length_cons,Nat.mul_add,Nat.mul_one]
    omega

/-- `begin_op` admits a thread: ten blocks for each operation fit, and each will use nine at most. -/
theorem Booked.enter (booked : Booked log pc recovering) {log' : Log} (up : recovering = false)
    (same : (log'.size,log'.lh,log'.committing) = (log.size,log.lh,log.committing))
    (more : log'.outstanding = log.outstanding+1) (room : ¬ log.busy)
    (count : ∀ ops : List T, ops.Nodup → (∀ u ∈ ops, (update pc t (.op [] []) u).role = .inside) →
      ops.length ≤ log.outstanding+1) (counted : 0 ≤ log.outstanding) :
    Booked log' (update pc t (.op [] [])) recovering := by
  obtain ⟨size,lh,_⟩ := by simpa only [Prod.mk.injEq] using same
  have calm : log.committing = false := by
    by_contra busy
    exact room (.inl (by simpa using busy))
  have fits : log.lh.length + (log.outstanding+1)*maxOpBlocks ≤ logSize := by
    by_contra more
    exact room (.inr (by omega))
  refine ⟨size.trans booked.size,?_,?_,?_,?_⟩
  · intro _ ops nodup members
    have few := count ops nodup members
    have sum := sum_left_le (update pc t (.op [] [])) ops
    have fresh := booked.empty up
    rw [lh]
    unfold maxOpBlocks logSize at *
    -- the first operation finds an empty log; from the second on the tenth block of each is spare
    by_cases first : log.outstanding = 0
    · rw [fresh first calm,List.length_nil]
      omega
    · omega
  · intro u b member
    rw [lh]
    by_cases here : u = t
    · rw [here,update_self] at member
      contradiction
    · rw [update_of_ne here] at member
      exact booked.listed u b member
  · intro u b touched logged at_
    by_cases here : u = t
    · rw [here,update_self] at at_
      contradiction
    · rw [update_of_ne here] at at_
      exact booked.writes u b touched logged at_
  · intro _ none
    omega

/-- The part of `log_write` under `log.lock`: a new block uses one of the blocks the thread had left. -/
theorem Booked.append (booked : Booked log pc recovering) {b : Nat} {touched touched' logged : List Nat}
    (place : pc t = .logWrite b touched logged) (counted : 1 ≤ log.outstanding) :
    Booked (log.append b) (update pc t (.op touched' (if b ∈ logged then logged else b :: logged))) recovering := by
  obtain ⟨after,fresh⟩ : ∃ after, after = if b ∈ logged then logged else b :: logged := ⟨_,rfl⟩
  rw [← fresh]
  have inside : (pc t).role = .inside := by rw [place]; rfl
  have left : (pc t).left = maxOpBlocks-1-logged.length := by rw [place]; rfl
  have others (u : T) (other : u ≠ t) : update pc t (.op touched' after) u = pc u :=
    update_of_ne other _ _
  have pays : (log.append b).lh.length + (maxOpBlocks-1-after.length) ≤ log.lh.length + (pc t).left := by
    have listed : b ∈ logged → b ∈ log.lh := fun member => booked.listed t b (by rw [place]; exact member)
    have writes := booked.writes t b touched logged place
    rw [left,fresh,Log.append]
    split
    next =>
      split
      · omega
      · rw [List.length_cons]
        omega
    next absent =>
      have new : b ∉ logged := fun member => absent (listed member)
      rw [if_neg new,List.length_cons,List.length_append,List.length_singleton]
      have := writes.resolve_left new
      omega
  refine ⟨?_,?_,?_,?_,?_⟩
  · rw [← booked.size,Log.append]
    split <;> rfl
  · intro up ops nodup members
    have rest : (ops.map fun u => (update pc t (.op touched' after) u).left).sum ≤
        maxOpBlocks-1-after.length + ((ops.erase t).map fun u => (pc u).left).sum := by
      have same : (ops.erase t).map (fun u => (update pc t (.op touched' after) u).left) =
          (ops.erase t).map fun u => (pc u).left := by
        refine List.map_congr_left ?_
        intro u member
        rw [others u (nodup.mem_erase_iff.mp member).1]
      rw [← same]
      by_cases listed : t ∈ ops
      · rw [← List.sum_map_erase _ listed,update_self]
        rfl
      · rw [List.erase_of_not_mem listed]
        omega
    have before := booked.room up (t :: ops.erase t) (List.nodup_cons.mpr ⟨nodup.not_mem_erase,nodup.erase t⟩) (by
      intro u member
      rcases List.mem_cons.mp member with rfl | other
      · exact inside
      · obtain ⟨different,listed⟩ := nodup.mem_erase_iff.mp other
        rw [← others u different]
        exact members u listed)
    rw [List.map_cons,List.sum_cons] at before
    omega
  · intro u c member
    rw [Log.mem_append]
    by_cases here : u = t
    · rw [here,update_self] at member
      change c ∈ after at member
      rw [fresh] at member
      split at member
      · exact .inl (booked.listed t c (by rw [place]; exact member))
      · rcases List.mem_cons.mp member with rfl | before
        · exact .inr rfl
        · exact .inl (booked.listed t c (by rw [place]; exact before))
    · rw [others u here] at member
      exact .inl (booked.listed u c member)
  · intro u c ts ls at_
    by_cases here : u = t
    · rw [here,update_self] at at_
      contradiction
    · rw [others u here] at at_
      exact booked.writes u c ts ls at_
  · intro _ none
    have : (log.append b).outstanding = log.outstanding := by
      unfold Log.append
      split <;> rfl
    omega

end Booking

section Runs
variable {T D : Type} {fmt : HeaderFormat D} {start : Nat} {d₀ : Nat → D} {s s' : LogState T D}

theorem Booked.advance (booked : Booked s.log s.pc s.recovering) (idle : Idle s) (inv : LogInv fmt start d₀ s)
    (next : Advance fmt start s s') {recovering : Bool}
    (mode : recovering = if s'.stage = .rest then false else s.recovering) : Booked s'.log s'.pc recovering := by
  cases next with
  | noBuffers busy =>
    rw [mode,if_neg busy]
    exact booked
  | writeLog tail b stage next room =>
    rw [mode]
    exact booked
  | commit tail stage last room =>
    rw [mode]
    exact booked
  | install tail b stage next room =>
    rw [mode]
    exact booked
  | clear tail stage last room => exact .idle booked.size idle (fun _ => rfl)
  | readHead stage room =>
    have boots : s.recovering = true := by
      by_contra up
      exact (inv.live (by simpa using up)).up stage
    refine .idle booked.size idle ?_
    rw [mode,boots]
    intro up
    contradiction

variable [DecidableEq T]

theorem Booked.step {a : LogAction T D} (booked : Booked s.log s.pc s.recovering) (gate : s.Gated)
    (inv : LogInv fmt start d₀ s) (change : LogChange fmt start s a s') (reserved : Reserved (maxOpBlocks-1) s a) :
    Booked s'.log s'.pc s'.recovering := by
  have role (t : T) (pc : LogPc) (place : s.pc t = pc) : s.role t = pc.role := by rw [LogState.role,place]
  have quiet {t : T} (inside : s.role t = .inside) : s.recovering = false := (gate.quiet inside).2.1
  cases change with
  | crash => exact .idle rfl (by simp [LogState.boot,LogPc.role]) (by simp [LogState.boot])
  | evict b free clean => exact booked
  | recover m boots next => exact booked.advance (gate.alone next.busy) inv next (recover_mode boots m)
  | beginOp t up place room =>
    have after : (s.beginOp t).Gated := (LogChange.beginOp t up place room : LogChange fmt start s _ _).gated gate
    refine booked.enter up rfl rfl room ?_ ?_
    · intro ops nodup members
      obtain ⟨all,_,inside,count⟩ := after.ops
      have few : ops.length ≤ all.length :=
        (List.subperm_of_subset nodup fun u member => (inside u).mpr (members u member)).length_le
      have more : (s.beginOp t).log.outstanding = s.log.outstanding+1 := rfl
      omega
    · obtain ⟨all,_,_,count⟩ := gate.ops
      omega
  | noBuffers t b => exact booked
  | bread t b free room => exact booked
  | modify t b d touched logged place own home =>
    exact booked.stay (role t _ place) (by rw [place]; rfl) (by simp)
  | tooBig t b touched logged place full => exact booked
  | outsideOfTrans t b touched logged place few => exact booked
  | logWrite t b touched logged place own home room =>
    refine booked.stay (role t _ place) (by rw [place]; rfl) ?_
    intro c ts ls same
    cases same
    unfold Reserved at reserved
    simpa only [place] using reserved
  | append t b touched logged place => exact booked.append place (gate.counted (role t _ place))
  | brelse t b own untouched place => exact booked
  | committing t logged place busy => exact booked
  | lastOp t logged place one =>
    exact booked.leave (by simp [LogPc.role]) rfl (fun _ _ calm => absurd calm (by simp [LogState.goto]))
  | endOp t logged place more => exact booked.leave (by simp [LogPc.role]) rfl (fun _ none => absurd none more)
  | commit t place stage written => exact booked
  | commitEnd t place stage empty => exact booked.leave (by simp [LogPc.role]) rfl (fun _ _ _ => empty)
  | advance t m up place next =>
    rw [next.recovering.trans up]
    exact booked.advance (gate.alone next.busy) inv next (by rw [up,ite_self])

theorem Booked.calm {a : LogAction T D} (booked : Booked s.log s.pc s.recovering) (gate : s.Gated)
    (change : LogChange fmt start s a s') (calm : s.panicked = none ∨ s.panicked = some .noBuffers) :
    s'.panicked = none ∨ s'.panicked = some .noBuffers := by
  have role (t : T) (pc : LogPc) (place : s.pc t = pc) : s.role t = pc.role := by rw [LogState.role,place]
  have advance {m : LogState T D} (next : Advance fmt start s m) : m.panicked = none ∨ m.panicked = some .noBuffers := by
    cases next with
    | noBuffers busy => exact .inr rfl
    | _ => exact calm
  cases change with
  | crash => exact .inl rfl
  | recover m boots next =>
    have after := advance next
    exact after
  | noBuffers t b => exact .inr rfl
  | tooBig t b touched logged place full =>
    have short := booked.short (gate.quiet (role t _ place)).2.1
    have size := booked.size
    rcases full with many | many
    · omega
    · omega
  | outsideOfTrans t b touched logged place few =>
    have many := gate.counted (role t _ place)
    omega
  | committing t logged place busy =>
    have closed := (gate.quiet (role t _ place)).1
    rw [closed] at busy
    contradiction
  | advance t m up place next => exact advance next
  | _ => exact calm

end Runs

/-- With at most one block less than `MAXOPBLOCKS` for each operation the reservation suffices. -/
theorem reservation_suffices (T D : Type) [DecidableEq T] (fmt : HeaderFormat D) (start : Nat) (d₀ : Nat → D)
    (empty : fmt.read (d₀ start) = []) (s : LogState T D)
    (reached : LogReaches fmt start (Reserved (maxOpBlocks-1)) (.boot T d₀) s) :
    s.panicked ≠ some .tooBig ∧ s.panicked ≠ some .outsideOfTrans ∧ s.panicked ≠ some .committing ∧
      s.log.size = logSize ∧ s.log.lh.length ≤ s.log.size-1 := by
  have held : (s.panicked = none ∨ s.panicked = some .noBuffers) ∧ Booked s.log s.pc s.recovering ∧
      LogSound fmt start d₀ s := by
    refine reached.invariant
      (fun s => (s.panicked = none ∨ s.panicked = some .noBuffers) ∧ Booked s.log s.pc s.recovering ∧ LogSound fmt start d₀ s)
      ⟨.inl rfl,.idle rfl (by simp [LogState.boot,LogPc.role]) (by simp [LogState.boot]),logSound_boot T empty⟩ ?_
    intro before action after held reserved taken
    obtain ⟨calm,booked,sound⟩ := held
    have change := logStep_cases taken
    exact ⟨booked.calm sound.gate change calm,booked.step sound.gate sound.inv change reserved,sound.step change⟩
  obtain ⟨calm,booked,sound⟩ := held
  have size := booked.size
  have short : s.log.lh.length < logSize := by
    cases boots : s.recovering with
    | false =>
      have room := booked.short boots
      omega
    | true =>
      rcases (sound.inv.booting boots).stage with head | ⟨tail,install⟩
      · exact sound.inv.short (by simp [head]) (by simp [head])
      · exact sound.inv.short (by simp [install]) (by simp [install])
  refine ⟨?_,?_,?_,size,by omega⟩
  · rcases calm with none | stuck
    · simp [none]
    · simp [stuck]
  · rcases calm with none | stuck
    · simp [none]
    · simp [stuck]
  · rcases calm with none | stuck
    · simp [none]
    · simp [stuck]

def logBlockScript {T D : Type} (t : T) (b : Nat) : List (LogAction T D) :=
  [.bread t b,.logWrite t b,.run t,.brelse t b]

def nineScript : List (LogAction (Fin 3) (List Nat)) :=
  [.recover,.recover,.evict 2,.beginOp 0,.beginOp 1,.beginOp 2] ++
    (List.range' 40 9).flatMap (logBlockScript 0) ++ (List.range' 50 9).flatMap (logBlockScript 1) ++
    (List.range' 60 9).flatMap (logBlockScript 2)

theorem reservation_suffices_nine :
    ∃ s, LogReaches listFormat 2 (Reserved (maxOpBlocks-1)) (.boot (Fin 3) numbered) s ∧ s.log.lh.length = 27 ∧
      s.panicked ≠ some .tooBig := by
  obtain ⟨s,reached,shown⟩ := Interleave.play_shows (logStep listFormat 2) (Reserved (maxOpBlocks-1))
    (LogState.boot (Fin 3) numbered) nineScript (fun s => s.log.lh.length = 27) (by decide +kernel)
  exact ⟨s,reached,shown,(reservation_suffices _ _ listFormat 2 numbered rfl s reached).1⟩

/-- Three operations of ten blocks each: the test of `log_write` stops the machine at the thirtieth
block, or, when two threads pass the test before either has `log.lock`, 30 blocks are in a log with
room for 29. -/
theorem reservation_of_ten :
    (∃ s, LogReaches listFormat 2 (Reserved maxOpBlocks) (.boot (Fin 3) numbered) s ∧ s.panicked = some .tooBig) ∧
    ∃ s, LogReaches listFormat 2 (Reserved maxOpBlocks) (.boot (Fin 3) numbered) s ∧ s.log.size = logSize ∧
      s.log.lh.length = logSize := by
  refine ⟨?_,?_⟩
  · exact Interleave.play_shows _ _ _
      (nineScript ++ logBlockScript 0 49 ++ logBlockScript 1 59 ++ [.bread 2 69,.logWrite 2 69]) _ (by decide +kernel)
  · exact Interleave.play_shows _ _ _
      (nineScript ++ logBlockScript 0 49 ++ [.bread 1 59,.bread 2 69,.logWrite 1 59,.logWrite 2 69,.run 1,.run 2]) _
      (by decide +kernel)

end Kthreads
