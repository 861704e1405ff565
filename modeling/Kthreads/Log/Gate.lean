import Mathlib.Data.List.Nodup
import Kthreads.Log.Machine

/-! `begin_op` and `end_op` keep operations and commits apart. -/
open Function

namespace Kthreads

/-- What a thread is to the log: it has nothing to do with it, it is in an operation, or it commits. -/
inductive LogRole
  | outside | inside | commits
  deriving DecidableEq

def LogPc.role : LogPc → LogRole
  | .idle => .outside
  | .op _ _ | .logWrite _ _ _ => .inside
  | .commit => .commits

/-- The operations are counted, and a commit has the log for itself. -/
structure Gate {T : Type} (role : T → LogRole) (log : Log) (stage : Stage) (recovering : Bool) : Prop where
  ops : ∃ ops : List T, ops.Nodup ∧ (∀ t, t ∈ ops ↔ role t = .inside) ∧ log.outstanding = ops.length
  closed : log.committing = true → log.outstanding = 0
  staged : stage ≠ .rest → log.committing = true ∨ recovering = true
  commits : ∀ t, role t = .commits → log.committing = true
  one : ∀ t u, role t = .commits → role u = .commits → t = u
  booting : recovering = true → ∀ t, role t = .outside

namespace Gate

variable {T : Type} {role : T → LogRole} {log : Log} {stage : Stage} {recovering : Bool}

section
variable (gate : Gate role log stage recovering)
include gate

theorem counted {t : T} (inside : role t = .inside) : 1 ≤ log.outstanding := by
  obtain ⟨ops,_,members,count⟩ := gate.ops
  have positive : 0 < ops.length := List.length_pos_of_mem ((members t).mpr inside)
  omega

theorem quiet {t : T} (inside : role t = .inside) : log.committing = false ∧ recovering = false ∧ stage = .rest := by
  have many := gate.counted inside
  have calm : log.committing = false := by
    by_contra busy
    have none := gate.closed (by simpa using busy)
    omega
  have up : recovering = false := by
    by_contra boots
    have out := gate.booting (by simpa using boots) t
    exact absurd (out.symm.trans inside) (by simp)
  refine ⟨calm,up,?_⟩
  by_contra busy
  rcases gate.staged busy with commits | boots
  · rw [calm] at commits
    contradiction
  · rw [up] at boots
    contradiction

theorem alone (busy : stage ≠ .rest) (t : T) : role t ≠ .inside := by
  intro inside
  exact busy (gate.quiet inside).2.2

theorem setLh (log' : Log) (same : (log'.outstanding,log'.committing) = (log.outstanding,log.committing)) :
    Gate role log' stage recovering := by
  obtain ⟨outstanding,committing⟩ := Prod.mk.inj same
  refine ⟨?_,?_,?_,?_,gate.one,gate.booting⟩
  · rw [outstanding]
    exact gate.ops
  · rw [outstanding,committing]
    exact gate.closed
  · rw [committing]
    exact gate.staged
  · rw [committing]
    exact gate.commits

theorem setStage (stage' : Stage)
    (busy : stage' ≠ .rest → log.committing = true ∨ recovering = true) : Gate role log stage' recovering :=
  ⟨gate.ops,gate.closed,busy,gate.commits,gate.one,gate.booting⟩

theorem up (rest : stage = .rest) : Gate role log stage false :=
  ⟨gate.ops,gate.closed,fun busy => absurd rest busy,gate.commits,gate.one,by simp⟩

end

theorem start (log : Log) (outstanding : log.outstanding = 0) (stage : Stage) :
    Gate (fun _ : T => LogRole.outside) log stage true := by
  refine ⟨⟨[],List.nodup_nil,by simp,by simp [outstanding]⟩,fun _ => outstanding,fun _ => .inr rfl,?_,?_,fun _ _ => rfl⟩
  · intro t commits
    contradiction
  · intro t u commits
    contradiction

variable [DecidableEq T] {t : T}

theorem moved (role' : LogRole) (gate : Gate role log stage recovering) (log' : Log)
    (committing : log'.committing = log.committing) (calm : role' ≠ .commits)
    (ops : ∃ ops : List T, ops.Nodup ∧ (∀ u, u ∈ ops ↔ update role t role' u = .inside) ∧
      log'.outstanding = ops.length) (closed : log.committing = false) (up : recovering = false) :
    Gate (update role t role') log' stage recovering := by
  have old (u : T) (commits : update role t role' u = .commits) : role u = .commits := by
    by_cases here : u = t
    · rw [here,update_self] at commits
      exact absurd commits calm
    · rwa [update_of_ne here] at commits
  refine ⟨ops,?_,?_,?_,?_,?_⟩
  · intro busy
    rw [committing,closed] at busy
    contradiction
  · rw [committing]
    exact gate.staged
  · intro u commits
    rw [committing]
    exact gate.commits u (old u commits)
  · intro u v first second
    exact gate.one u v (old u first) (old v second)
  · intro boots
    rw [up] at boots
    contradiction

section
variable (gate : Gate role log stage recovering)
include gate

theorem enter (out : role t = .outside) (closed : log.committing = false)
    (up : recovering = false) (log' : Log) (committing : log'.committing = log.committing)
    (more : log'.outstanding = log.outstanding+1) :
    Gate (update role t .inside) log' stage recovering := by
  obtain ⟨ops,nodup,members,count⟩ := gate.ops
  have fresh : t ∉ ops := by
    intro member
    exact absurd (out.symm.trans ((members t).mp member)) (by simp)
  refine gate.moved .inside log' committing (by simp) ⟨t :: ops,List.nodup_cons.mpr ⟨fresh,nodup⟩,?_,?_⟩ closed up
  · intro u
    by_cases here : u = t
    · simp [here]
    · simp [here,members]
  · rw [more,count]
    simp

theorem leave (inside : role t = .inside) (log' : Log)
    (committing : log'.committing = log.committing) (less : log'.outstanding = log.outstanding-1) :
    Gate (update role t .outside) log' stage recovering := by
  obtain ⟨ops,nodup,members,count⟩ := gate.ops
  obtain ⟨closed,up,_⟩ := gate.quiet inside
  have member := (members t).mpr inside
  refine gate.moved .outside log' committing (by simp) ⟨ops.erase t,nodup.erase t,?_,?_⟩ closed up
  · intro u
    rw [nodup.mem_erase_iff]
    by_cases here : u = t
    · simp [here]
    · simp [here,members]
  · have positive := List.length_pos_of_mem member
    rw [less,count,List.length_erase_of_mem member]
    omega

theorem last (inside : role t = .inside) (one : log.outstanding-1 = 0)
    (log' : Log) (committing : log'.committing = true) (none : log'.outstanding = 0) :
    Gate (update role t .commits) log' stage recovering := by
  obtain ⟨ops,nodup,members,count⟩ := gate.ops
  obtain ⟨closed,up,_⟩ := gate.quiet inside
  have only (u : T) (other : u ≠ t) : role u ≠ .inside := by
    intro member
    have both : [t,u].length ≤ ops.length := by
      refine List.Subperm.length_le (List.subperm_of_subset (by simp [Ne.symm other]) ?_)
      intro v listed
      rcases List.mem_pair.mp listed with rfl | rfl
      · exact (members v).mpr inside
      · exact (members v).mpr member
    simp only [List.length_cons,List.length_nil] at both
    omega
  have old (u : T) (commits : update role t .commits u = .commits) : u = t := by
    by_contra here
    rw [update_of_ne here] at commits
    have busy := gate.commits u commits
    rw [closed] at busy
    contradiction
  refine ⟨⟨[],List.nodup_nil,?_,by simp [none]⟩,fun _ => none,fun _ => .inl committing,fun _ _ => committing,?_,?_⟩
  · intro u
    by_cases here : u = t
    · simp [here]
    · simp [here,only u here]
  · intro u v first second
    exact (old u first).trans (old v second).symm
  · intro boots
    rw [up] at boots
    contradiction

theorem finish (commits : role t = .commits) (rest : stage = .rest) (log' : Log)
    (committing : log'.committing = false) (same : log'.outstanding = log.outstanding) :
    Gate (update role t .outside) log' stage recovering := by
  obtain ⟨ops,nodup,members,count⟩ := gate.ops
  refine ⟨⟨ops,nodup,?_,same.trans count⟩,?_,fun busy => absurd rest busy,?_,?_,?_⟩
  · intro u
    by_cases here : u = t
    · simp [here,members,commits]
    · simp [here,members]
  · intro busy
    rw [committing] at busy
    contradiction
  · intro u other
    by_cases here : u = t
    · simp [here] at other
    · rw [update_of_ne here] at other
      exact absurd (gate.one u t other commits) here
  · intro u v other
    by_cases here : u = t
    · simp [here] at other
    · rw [update_of_ne here] at other
      exact absurd (gate.one u t other commits) here
  · intro boots u
    by_cases here : u = t
    · simp [here]
    · rw [update_of_ne here]
      exact gate.booting boots u

end

end Gate

section Step
variable {T D : Type} {fmt : HeaderFormat D} {start : Nat} {s s' : LogState T D}

def LogState.role (s : LogState T D) (t : T) : LogRole := (s.pc t).role

abbrev LogState.Gated (s : LogState T D) : Prop := Gate s.role s.log s.stage s.recovering

theorem Gate.goto [DecidableEq T] {m : LogState T D} {t : T} {pc : LogPc} (same : m.pc = s.pc)
    (gate : Gate (update s.role t pc.role) m.log m.stage m.recovering) : (m.goto t pc).Gated := by
  have roles : (m.goto t pc).role = update s.role t pc.role := by
    funext u
    by_cases here : u = t
    · simp [LogState.role,LogState.goto,here]
    · simp [LogState.role,LogState.goto,here,same]
  unfold LogState.Gated
  rw [roles]
  exact gate

theorem Gate.stay [DecidableEq T] {m : LogState T D} {t : T} {pc : LogPc} (same : m.pc = s.pc)
    (still : s.role t = pc.role) (gate : Gate s.role m.log m.stage m.recovering) : (m.goto t pc).Gated := by
  refine Gate.goto same ?_
  rw [← still,update_eq_self]
  exact gate

theorem Advance.gated (next : Advance fmt start s s') (gate : s.Gated) : s'.Gated := by
  have busy (stage : s.stage ≠ .rest) : s.log.committing = true ∨ s.recovering = true := gate.staged stage
  cases next with
  | noBuffers busy => exact gate
  | writeLog tail b stage next room => exact gate.setStage _ (fun _ => busy (by simp [stage]))
  | commit tail stage last room => exact gate.setStage _ (fun _ => busy (by simp [stage]))
  | install tail b stage next room => exact gate.setStage _ (fun _ => busy (by simp [stage]))
  | clear tail stage last room => exact (gate.setLh {s.log with lh := []} rfl).setStage .rest (by simp)
  | readHead stage room =>
    exact (gate.setLh {s.log with lh := fmt.read (s.view start)} rfl).setStage (.install 0)
      (fun _ => busy (by simp [stage]))

theorem LogChange.gated [DecidableEq T] {a : LogAction T D} (change : LogChange fmt start s a s') (gate : s.Gated) :
    s'.Gated := by
  have role (t : T) (pc : LogPc) (place : s.pc t = pc) : s.role t = pc.role := by rw [LogState.role,place]
  cases change with
  | crash => exact .start _ rfl _
  | evict b free clean => exact gate
  | recover m boots next =>
    have after := next.gated gate
    have still := next.recovering.trans boots
    have next : Gate m.role m.log m.stage (decide (m.stage ≠ .rest)) := by
      by_cases rest : m.stage = .rest
      · rw [decide_eq_false (by simp [rest])]
        exact after.up rest
      · rw [decide_eq_true rest,← still]
        exact after
    exact next
  | beginOp t up place room =>
    have closed : s.log.committing = false := by
      by_contra busy
      exact room (.inl (by simpa using busy))
    have next := gate.enter (role t _ place) closed up {s.log with outstanding := s.log.outstanding+1} rfl rfl
    exact .goto rfl next
  | noBuffers t b => exact gate
  | bread t b free room => exact gate
  | modify t b d touched logged place own home =>
    exact .stay rfl (role t (.op touched logged) place) gate
  | tooBig t b touched logged place full => exact gate
  | outsideOfTrans t b touched logged place few => exact gate
  | logWrite t b touched logged place own home room =>
    exact .stay rfl (role t (.op touched logged) place) gate
  | append t b touched logged place =>
    refine .stay rfl (role t (.logWrite b touched logged) place) (gate.setLh (s.log.append b) ?_)
    unfold Log.append
    split <;> rfl
  | brelse t b own untouched place => exact gate
  | committing t logged place busy => exact gate
  | lastOp t logged place one =>
    have next := gate.last (role t _ place) one {s.log with outstanding := 0, committing := true} rfl rfl
    exact .goto rfl next
  | endOp t logged place more =>
    have next := gate.leave (role t _ place) {s.log with outstanding := s.log.outstanding-1} rfl rfl
    exact .goto rfl next
  | commit t place stage written =>
    exact gate.setStage _ (fun _ => .inl (gate.commits t (role t _ place)))
  | commitEnd t place stage empty =>
    have next := gate.finish (role t _ place) stage {s.log with committing := false} rfl rfl
    exact .goto rfl next
  | advance t m up place next => exact next.gated gate

theorem gated_start (T : Type) (disk : Nat → D) : (LogState.boot T disk).Gated := .start _ rfl _

end Step

end Kthreads
