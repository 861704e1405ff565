import Mathlib.Logic.Basic

/-! Past-time properties of event histories, newest event first. -/
namespace History

variable {E : Type}

/-- Some event satisfied `on`, and no event since has satisfied `off`. -/
def since (on off : E → Bool) : List E → Bool
  | [] => false
  | event :: earlier => if off event then false else on event || since on off earlier

section Since
variable {on off : E → Bool} {event : E} {earlier : List E}

theorem since_off (ended : off event = true) : since on off (event :: earlier) = false := by
  simp [since,ended]

theorem since_on (kept : off event = false) (began : on event = true) :
    since on off (event :: earlier) = true := by
  simp [since,kept,began]

theorem since_skip (kept : off event = false) (silent : on event = false) :
    since on off (event :: earlier) = since on off earlier := by
  simp [since,kept,silent]

/-- Events that neither start nor end anything can be left out. -/
theorem since_append (new old : List E) (quiet : ∀ e ∈ new, off e = false ∧ on e = false) :
    since on off (new ++ old) = since on off old := by
  induction new with
  | nil => rfl
  | cons e new ih =>
    obtain ⟨kept,silent⟩ := quiet e (by simp)
    rw [List.cons_append,since_skip kept silent]
    apply ih
    intro later member
    exact quiet later (by simp [member])

end Since

/-- Some event satisfied `first`, a later one `second`, and none since the first has satisfied `off`. -/
def following (first second off : E → Bool) : List E → Bool
  | [] => false
  | event :: earlier =>
    if off event then false else second event && since first off earlier || following first second off earlier

section Following
variable {first second off : E → Bool}

theorem following_none (hist : List E) (never : since first off hist = false) :
    following first second off hist = false := by
  induction hist with
  | nil => rfl
  | cons event earlier ih =>
    unfold since at never
    unfold following
    split
    · rfl
    next kept =>
      simp only [kept,Bool.false_eq_true,if_false,Bool.or_eq_false_iff] at never
      simp [never.2,ih never.2]

theorem following_skip {event : E} {earlier : List E} (silent : second event = false)
    (before : following first second off earlier = false) :
    following first second off (event :: earlier) = false := by
  simp [following,silent,before]

theorem since_cut {later earlier : List E} {x : E} (quiet : ∀ e ∈ later ++ [x], off e = false) (began : first x = true) :
    since first off (later ++ x :: earlier) = true := by
  induction later with
  | nil => exact since_on (quiet x (by simp)) began
  | cons e later ih =>
    have rest := ih (fun last member => quiet last (List.mem_cons_of_mem _ member))
    rw [List.cons_append]
    simp [since,quiet e (by simp),rest]

theorem following_cut {later between earlier : List E} {x y : E}
    (quiet : ∀ e ∈ later ++ y :: (between ++ [x]), off e = false) (began : first x = true) (ended : second y = true) :
    following first second off (later ++ y :: (between ++ x :: earlier)) = true := by
  induction later with
  | nil =>
    have before : since first off (between ++ x :: earlier) = true :=
      since_cut (fun e member => quiet e (List.mem_cons_of_mem _ member)) began
    rw [List.nil_append]
    simp [following,quiet y (by simp),ended,before]
  | cons e later ih =>
    have rest := ih (fun last member => quiet last (List.mem_cons_of_mem _ member))
    rw [List.cons_append]
    simp [following,quiet e (by simp),rest]

end Following

/-- A property of each event together with what had happened before it. -/
def Each (property : E → List E → Prop) : List E → Prop
  | [] => True
  | event :: earlier => property event earlier ∧ Each property earlier

/-- `Each` speaks about every way of cutting the history at an event. -/
theorem each_cut {property : E → List E → Prop} {later earlier : List E} {event : E}
    (every : Each property (later ++ event :: earlier)) : property event earlier := by
  induction later with
  | nil => exact every.1
  | cons last later ih => exact ih every.2

theorem each_append {property : E → List E → Prop} (new old : List E)
    (free : ∀ event ∈ new, ∀ earlier, property event earlier) (every : Each property old) :
    Each property (new ++ old) := by
  induction new with
  | nil => exact every
  | cons event new ih =>
    refine ⟨free event (by simp) _,ih ?_⟩
    intro later member
    exact free later (by simp [member])

end History
