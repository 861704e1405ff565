import Mathlib.Logic.Basic

/-! Interleaved runs of a partial step function.
A guard says which steps a run may take, so that one step function serves every
group of operations and every side condition on the state before a step. Runs
are judgments; `play` is the executable form used to exhibit one of them. -/
namespace Interleave

variable {S A : Type}

-- A condition on the entry that a step names is tested there, not over the whole table.
instance (priority := 1100) decidableNamed (o : Option A) (p : A → Prop) [DecidablePred p] : Decidable (∀ a ∈ o, p a) :=
  Option.decidableForallMem o

inductive Reaches (step : S → A → Option S) (guard : S → A → Prop) (initial : S) : S → Prop
  | refl : Reaches step guard initial initial
  | tail {before after : S} {action : A} (reached : Reaches step guard initial before)
      (allowed : guard before action) (taken : step before action = some after) :
      Reaches step guard initial after

section Rules
variable {step : S → A → Option S} {guard : S → A → Prop} {initial final : S}

/-- What holds at the start and survives every permitted step holds throughout. -/
theorem Reaches.invariant (inv : S → Prop) (reached : Reaches step guard initial final)
    (start : inv initial)
    (keeps : ∀ before action after, inv before → guard before action →
      step before action = some after → inv after) : inv final := by
  induction reached with
  | refl => exact start
  | tail reached allowed taken held => exact keeps _ _ _ held allowed taken

/-- A run under a guard is a run under every weaker guard. -/
theorem Reaches.weaken {wider : S → A → Prop} (reached : Reaches step guard initial final)
    (implied : ∀ state action, guard state action → wider state action) :
    Reaches step wider initial final := by
  induction reached with
  | refl => exact .refl
  | tail reached allowed taken held => exact .tail held (implied _ _ allowed) taken

theorem Reaches.single (action : A) (allowed : guard initial action) (taken : step initial action = some final) :
    Reaches step guard initial final :=
  .tail .refl allowed taken

theorem Reaches.trans {middle : S} (first : Reaches step guard initial middle)
    (second : Reaches step guard middle final) : Reaches step guard initial final := by
  induction second with
  | refl => exact first
  | tail reached allowed taken held => exact .tail held allowed taken

end Rules

/-- Execute a list of actions, stopping at the first one that is not permitted. -/
def play (step : S → A → Option S) (guard : S → A → Prop) [∀ s a, Decidable (guard s a)] :
    S → List A → Option S
  | state, [] => some state
  | state, action :: rest =>
    if guard state action then (step state action).bind (fun next => play step guard next rest)
    else none

section Play
variable {step : S → A → Option S} {guard : S → A → Prop} [∀ s a, Decidable (guard s a)]

theorem play_reaches (actions : List A) (initial middle final : S)
    (reached : Reaches step guard initial middle)
    (played : play step guard middle actions = some final) :
    Reaches step guard initial final := by
  induction actions generalizing middle with
  | nil =>
    cases Option.some.inj played
    exact reached
  | cons action rest ih =>
    unfold play at played
    split at played
    next allowed =>
      obtain ⟨next,taken,continued⟩ := Option.bind_eq_some_iff.mp played
      exact ih next (.tail reached allowed taken) continued
    next refused => contradiction

variable (step) (guard)

/-- A played run whose last state has a property exhibits a reachable state with it. -/
theorem play_shows (initial : S) (actions : List A) (property : S → Prop) [DecidablePred property]
    (passed : (play step guard initial actions).any (fun final => decide (property final)) = true) :
    ∃ final, Reaches step guard initial final ∧ property final := by
  cases played : play step guard initial actions with
  | none => simp [played] at passed
  | some final =>
    refine ⟨final,play_reaches actions initial initial final .refl played,?_⟩
    simpa [played] using passed

/-- A played run and one more step that have a property exhibit a reachable step. -/
theorem play_shows_step (initial : S) (actions : List A) (action : A) (property : S → S → Prop)
    [∀ before, DecidablePred (property before)] (passed : (play step guard initial actions).any (fun before =>
      decide (guard before action) && (step before action).any (fun after => decide (property before after))) = true) :
    ∃ before after, Reaches step guard initial before ∧ guard before action ∧
      step before action = some after ∧ property before after := by
  obtain ⟨before,reached,allowed,moved⟩ := play_shows step guard initial actions (fun before =>
    guard before action ∧ (step before action).any (fun after => decide (property before after)) = true)
    (by simpa using passed)
  cases taken : step before action with
  | none => simp [taken] at moved
  | some after => exact ⟨before,after,reached,allowed,taken,by simpa [taken] using moved⟩

end Play

end Interleave
