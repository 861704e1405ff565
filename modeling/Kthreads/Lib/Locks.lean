import Mathlib.Data.Fintype.Basic
import Mathlib.Data.List.Basic
import Mathlib.Logic.Function.Basic
import Mathlib.Logic.Relation
import Kthreads.Lib.Interleave

/-! Programs that take and release spin locks, run by several processors that switch between threads
while they hold one lock. What a condition evaluates to, and how often a loop runs, is up to the run.
The rules below say which locks a program may hold where; a processor then takes a lock only above
those it holds, so that no two wait for each other. -/
open Function

namespace Locks

/-- A program over locks `L`, functions `F` and conditions `Q`. `ret` leaves the function, `switch`
changes to another context. -/
inductive Prog (L F Q : Type)
  | skip
  | ret
  | panic
  | acquire (l : L)
  | release (l : L)
  | call (f : F)
  | switch
  | seq (p q : Prog L F Q)
  | test (c : Q) (yes no : Prog L F Q)
  | loop (p : Prog L F Q)
  | forever (p : Prog L F Q)
  | pick (p : Nat → Prog L F Q)

namespace Prog
variable {L F Q : Type}

def block : List (Prog L F Q) → Prog L F Q
  | [] => .skip
  | p :: rest => .seq p (block rest)

/-- One of several programs, on a condition `c` that nothing is said about. -/
def oneOf (c : Q) : List (Prog L F Q) → Prog L F Q
  | [] => .skip
  | [p] => p
  | p :: q :: rest => .test c p (oneOf c (q :: rest))

end Prog

inductive Item (L F Q : Type)
  | run (p : Prog L F Q)
  | frame

section Machine
variable (C T L F Q : Type)

/-- `home` is the context of the scheduler while a thread runs. -/
structure Cpu where
  code : List (Item L F Q)
  held : List L
  thread : Option T
  home : List (Item L F Q)

structure State where
  cpu : C → Cpu T L F Q
  saved : T → Option (List (Item L F Q))

inductive Choice
  | go
  | branch (b : Bool)
  | number (n : Nat)
  | thread (t : T)

inductive Action
  | step (c : C) (choice : Choice T)
  | interrupt (c : C)
  | spawn (t : T)

end Machine

section Step
variable {C T L F Q : Type}

def unwind : List (Item L F Q) → List (Item L F Q)
  | [] => []
  | .frame :: k => k
  | .run _ :: k => unwind k

def Cpu.wants (m : Cpu T L F Q) : Option L :=
  match m.code with
  | .run (.acquire l) :: _ => some l
  | _ => none

def Cpu.asks (m : Cpu T L F Q) : Option Q :=
  match m.code with
  | .run (.test c _ _) :: _ => some c
  | _ => none

/-- A program with its functions, the handler of interrupts and the code of a new thread. -/
structure Code (L F Q : Type) where
  body : F → Prog L F Q
  handler : F
  start : List (Item L F Q)

variable [DecidableEq C] [DecidableEq T] [DecidableEq L] [Fintype C] (code : Code L F Q) (s : State C T L F Q)

def State.setCpu (c : C) (m : Cpu T L F Q) : State C T L F Q := {s with cpu := update s.cpu c m}

def State.free (l : L) : Prop := ∀ d, l ∉ (s.cpu d).held

instance (l : L) : Decidable (s.free l) := inferInstanceAs (Decidable (∀ d, l ∉ (s.cpu d).held))

/-- The next step of a processor. A lock that somebody else holds is waited for; taking a lock twice
and releasing one that is not held are panics. -/
def State.step (c : C) (choice : Choice T) : Option (State C T L F Q) :=
  let m := s.cpu c
  match m.code with
  | [] => none
  | .frame :: k => some (s.setCpu c {m with code := k})
  | .run p :: k =>
    match p,choice with
    | .skip,.go => some (s.setCpu c {m with code := k})
    | .ret,.go => some (s.setCpu c {m with code := unwind k})
    | .acquire l,.go =>
      if l ∈ m.held then some (s.setCpu c {m with code := [.run .panic]})
      else if s.free l then some (s.setCpu c {m with code := k,held := l :: m.held})
      else none
    | .release l,.go =>
      if l ∈ m.held then some (s.setCpu c {m with code := k,held := m.held.erase l})
      else some (s.setCpu c {m with code := [.run .panic]})
    | .call f,.go => some (s.setCpu c {m with code := .run (code.body f) :: .frame :: k})
    | .seq p q,.go => some (s.setCpu c {m with code := .run p :: .run q :: k})
    | .test _ yes no,.branch b => some (s.setCpu c {m with code := .run (if b then yes else no) :: k})
    | .loop p,.branch b =>
      some (s.setCpu c {m with code := if b then .run p :: .run (.loop p) :: k else k})
    | .forever p,.go => some (s.setCpu c {m with code := .run p :: .run (.forever p) :: k})
    | .pick p,.number n => some (s.setCpu c {m with code := .run (p n) :: k})
    | .switch,.go =>
      match m.thread with
      | some t =>
        some {s.setCpu c {m with code := m.home,thread := none} with saved := update s.saved t (some k)}
      | none => none
    | .switch,.thread t =>
      match m.thread,s.saved t with
      | none,some context =>
        some {s.setCpu c {m with code := context,thread := some t,home := k} with
          saved := update s.saved t none}
      | _,_ => none
    | _,_ => none

/-- A processor without locks takes interrupts; a context that is not running may be set up anew. -/
def step (s : State C T L F Q) : Action C T → Option (State C T L F Q)
  | .step c choice => s.step code c choice
  | .interrupt c =>
    if (s.cpu c).held = [] then
      some (s.setCpu c {s.cpu c with code := .run (.call code.handler) :: (s.cpu c).code})
    else none
  | .spawn t =>
    if (s.saved t).isSome then some {s with saved := update s.saved t (some code.start)} else none

end Step

section Rules
variable {L F Q : Type}

/-- The order of the locks, what may be held when a function is called, whether it returns (with the
same locks), which outcomes a condition may have, and the lock that is held when contexts are switched. -/
structure Rules (L F Q : Type) where
  rank : L → Nat
  pre : F → List L → Prop
  returns : F → Prop
  allowed : Q → Bool → List L → Prop
  big : L

variable [DecidableEq L] (rules : Rules L F Q)

/-- Run with the locks `h`, a program takes locks in order; `next` holds of the locks at its end, `back`
where it leaves the function. -/
def wp : Prog L F Q → List L → (List L → Prop) → (List L → Prop) → Prop
  | .skip,h,next,_ => next h
  | .ret,h,_,back => back h
  | .panic,_,_,_ => True
  | .acquire l,h,next,_ => l ∈ h ∨ (∀ x ∈ h, rules.rank x < rules.rank l) ∧ next (l :: h)
  | .release l,h,next,_ => l ∈ h → next (h.erase l)
  | .call f,h,next,_ => rules.pre f h ∧ (rules.returns f → next h)
  | .switch,h,next,_ => h = [rules.big] ∧ next h
  | .seq p q,h,next,back => wp p h (fun h' => wp q h' next back) back
  | .test c yes no,h,next,back =>
    (rules.allowed c true h → wp yes h next back) ∧ (rules.allowed c false h → wp no h next back)
  | .loop p,h,next,back => wp p h (fun h' => h' = h) back ∧ next h
  | .forever p,h,_,back => wp p h (fun h' => h' = h) back
  | .pick p,h,next,back => ∀ n, wp (p n) h next back

def Verified (body : F → Prog L F Q) : Prop :=
  ∀ f h, rules.pre f h →
    wp rules (body f) h (fun h' => rules.returns f ∧ h' = h) (fun h' => rules.returns f ∧ h' = h)

variable {rules}

theorem wp_mono (p : Prog L F Q) {h : List L} {next next' back back' : List L → Prop}
    (weaker : ∀ h, next h → next' h) (weaker' : ∀ h, back h → back' h) (holds : wp rules p h next back) :
    wp rules p h next' back' := by
  induction p generalizing h next next' with
  | skip => exact weaker h holds
  | ret => exact weaker' h holds
  | panic => trivial
  | acquire l =>
    rcases holds with twice | ⟨above,rest⟩
    · exact .inl twice
    · exact .inr ⟨above,weaker _ rest⟩
  | release l =>
    intro member
    exact weaker _ (holds member)
  | call f => exact ⟨holds.1,fun returns => weaker h (holds.2 returns)⟩
  | «switch» => exact ⟨holds.1,weaker h holds.2⟩
  | seq p q ihp ihq => exact ihp (fun h' rest => ihq weaker rest) holds
  | test c yes no ihy ihn =>
    exact ⟨fun allowed => ihy weaker (holds.1 allowed),fun allowed => ihn weaker (holds.2 allowed)⟩
  | loop p ih => exact ⟨ih (fun _ same => same) holds.1,weaker h holds.2⟩
  | «forever» p ih => exact ih (fun _ same => same) holds
  | pick p ih =>
    intro n
    exact ih n weaker (holds n)

@[simp] theorem wp_block_nil (h : List L) (next back : List L → Prop) :
    wp rules (.block []) h next back = next h := rfl

@[simp] theorem wp_block_cons (p : Prog L F Q) (rest : List (Prog L F Q)) (h : List L) (next back : List L → Prop) :
    wp rules (.block (p :: rest)) h next back = wp rules p h (fun h' => wp rules (.block rest) h' next back) back :=
  rfl

/-- What holds of the locks when the code goes on, and when it leaves the function. -/
def outcome (rules : Rules L F Q) : List (Item L F Q) → (List L → Prop) × (List L → Prop)
  | [] => (fun _ => True,fun _ => True)
  | .frame :: k => ((outcome rules k).1,(outcome rules k).1)
  | .run p :: k => (fun h => wp rules p h (outcome rules k).1 (outcome rules k).2,(outcome rules k).2)

/-- Code that keeps to the rules when it goes on with the locks `h`. -/
def Fits (rules : Rules L F Q) (k : List (Item L F Q)) (h : List L) : Prop := (outcome rules k).1 h

theorem outcome_unwind (k : List (Item L F Q)) : (outcome rules k).2 = (outcome rules (unwind k)).1 := by
  induction k with
  | nil => rfl
  | cons item k ih =>
    cases item with
    | run p => exact ih
    | frame => rfl

end Rules

section Order
variable {C T L F Q : Type} [DecidableEq L] {rules : Rules L F Q} {code : Code L F Q} {s s' : State C T L F Q}

structure Ordered (rules : Rules L F Q) (s : State C T L F Q) : Prop where
  current : ∀ c, Fits rules (s.cpu c).code (s.cpu c).held
  home : ∀ c, (s.cpu c).thread.isSome → Fits rules (s.cpu c).home [rules.big]
  saved : ∀ t context, s.saved t = some context → Fits rules context [rules.big]
  exclusive : ∀ l c d, l ∈ (s.cpu c).held → l ∈ (s.cpu d).held → c = d

def Permitted (rules : Rules L F Q) (s : State C T L F Q) : Action C T → Prop
  | .step c (.branch b) => ∀ q ∈ (s.cpu c).asks, rules.allowed q b (s.cpu c).held
  | _ => True

variable [DecidableEq C]

theorem Ordered.goes (ordered : Ordered rules s) (c : C) (m : Cpu T L F Q) (cpu : s'.cpu = update s.cpu c m)
    (current : Fits rules m.code m.held) (home : m.thread.isSome → Fits rules m.home [rules.big])
    (saved : ∀ t context, s'.saved t = some context → Fits rules context [rules.big])
    (locks : ∀ l ∈ m.held, l ∈ (s.cpu c).held ∨ ∀ d, l ∉ (s.cpu d).held) : Ordered rules s' := by
  have here : s'.cpu c = m := by rw [cpu,update_self]
  have there (d : C) (other : d ≠ c) : s'.cpu d = s.cpu d := by rw [cpu,update_of_ne other]
  have apart (l : L) (d : C) (other : d ≠ c) (mine : l ∈ m.held) (others : l ∈ (s.cpu d).held) : False := by
    rcases locks l mine with before | free
    · exact other (ordered.exclusive l d c others before)
    · exact free d others
  refine ⟨?_,?_,saved,?_⟩
  · intro d
    by_cases this : d = c
    · rw [this,here]
      exact current
    · rw [there d this]
      exact ordered.current d
  · intro d
    by_cases this : d = c
    · rw [this,here]
      exact home
    · rw [there d this]
      exact ordered.home d
  · intro l d e first second
    by_cases left : d = c
    · subst left
      by_cases right : e = d
      · exact right.symm
      · rw [here] at first
        rw [there e right] at second
        exact (apart l e right first second).elim
    · rw [there d left] at first
      by_cases right : e = c
      · subst right
        rw [here] at second
        exact (apart l d left second first).elim
      · rw [there e right] at second
        exact ordered.exclusive l d e first second

variable [DecidableEq T] [Fintype C]

theorem Ordered.step_cpu (verified : Verified rules code.body) (ordered : Ordered rules s) (c : C) (choice : Choice T)
    (permitted : Permitted rules s (.step c choice)) (step : s.step code c choice = some s') : Ordered rules s' := by
  have fits := ordered.current c
  have home := ordered.home c
  have goes (k : List (Item L F Q)) (current : Fits rules k (s.cpu c).held) :
      Ordered rules (s.setCpu c {s.cpu c with code := k}) :=
    ordered.goes c _ rfl current home ordered.saved (fun _ member => .inl member)
  unfold State.step at step
  simp only at step
  split at step
  · contradiction
  next k place =>
    cases step
    rw [place] at fits
    exact goes k fits
  next p k place =>
    rw [place] at fits
    cases p with
    | skip =>
      cases choice <;> simp only [reduceCtorEq,Option.some.injEq] at step
      subst step
      exact goes k fits
    | ret =>
      cases choice <;> simp only [reduceCtorEq,Option.some.injEq] at step
      subst step
      refine goes _ ?_
      rw [Fits,← outcome_unwind]
      exact fits
    | panic => cases choice <;> simp at step
    | acquire l =>
      cases choice <;> simp only [reduceCtorEq] at step
      split at step
      · cases step
        exact goes _ trivial
      next fresh =>
        split at step
        next free =>
          cases step
          rcases fits with twice | ⟨_,rest⟩
          · contradiction
          · refine ordered.goes c _ rfl rest home ordered.saved ?_
            intro x member
            rcases List.mem_cons.mp member with rfl | before
            · exact .inr free
            · exact .inl before
        next => contradiction
    | release l =>
      cases choice <;> simp only [reduceCtorEq] at step
      split at step
      next member =>
        cases step
        exact ordered.goes c _ rfl (fits member) home ordered.saved (fun _ kept => .inl (List.mem_of_mem_erase kept))
      next =>
        cases step
        exact goes _ trivial
    | call f =>
      cases choice <;> simp only [reduceCtorEq,Option.some.injEq] at step
      subst step
      obtain ⟨pre,rest⟩ := fits
      refine goes _ (wp_mono _ ?_ ?_ (verified f _ pre))
      · rintro h ⟨returns,rfl⟩
        exact rest returns
      · rintro h ⟨returns,rfl⟩
        exact rest returns
    | «switch» =>
      obtain ⟨only,rest⟩ := fits
      cases choice with
      | go =>
        simp only at step
        split at step
        next t running =>
          cases step
          refine ordered.goes c _ rfl ?_ (by simp) ?_ (fun _ member => .inl member)
          · rw [only]
            exact home (by rw [running]; rfl)
          · intro u context there
            by_cases this : u = t
            · subst this
              simp only [update_self,Option.some.injEq] at there
              subst there
              rw [only] at rest
              exact rest
            · simp only [update_of_ne this] at there
              exact ordered.saved u context there
        next => contradiction
      | thread t =>
        simp only at step
        split at step
        next context idle found =>
          cases step
          refine ordered.goes c _ rfl ?_ ?_ ?_ (fun _ member => .inl member)
          · rw [only]
            exact ordered.saved t context found
          · intro _
            rw [only] at rest
            exact rest
          · intro u context' there
            by_cases this : u = t
            · subst this
              simp at there
            · simp only [update_of_ne this] at there
              exact ordered.saved u context' there
        next => contradiction
      | branch b => simp at step
      | number n => simp at step
    | seq p q =>
      cases choice <;> simp only [reduceCtorEq,Option.some.injEq] at step
      subst step
      exact goes _ fits
    | test q yes no =>
      cases choice with
      | branch b =>
        simp only [Option.some.injEq] at step
        subst step
        have allowed := permitted q (by simp [Cpu.asks,place])
        refine goes _ ?_
        cases b with
        | true => exact fits.1 allowed
        | false => exact fits.2 allowed
      | go => simp at step
      | number n => simp at step
      | thread t => simp at step
    | loop p =>
      cases choice with
      | branch b =>
        simp only [Option.some.injEq] at step
        subst step
        obtain ⟨body,rest⟩ := fits
        refine goes _ ?_
        cases b with
        | true =>
          refine wp_mono p ?_ (fun _ back => back) body
          rintro h rfl
          exact ⟨body,rest⟩
        | false => exact rest
      | go => simp at step
      | number n => simp at step
      | thread t => simp at step
    | «forever» p =>
      cases choice <;> simp only [reduceCtorEq,Option.some.injEq] at step
      subst step
      refine goes _ (wp_mono p ?_ (fun _ back => back) fits)
      rintro h rfl
      exact fits
    | pick p =>
      cases choice <;> simp only [reduceCtorEq,Option.some.injEq] at step
      subst step
      exact goes _ (fits _)

theorem Ordered.step (verified : Verified rules code.body) (interrupts : rules.pre code.handler [])
    (start : Fits rules code.start [rules.big]) (ordered : Ordered rules s) (a : Action C T)
    (permitted : Permitted rules s a) (step : step code s a = some s') : Ordered rules s' := by
  cases a with
  | step c choice => exact ordered.step_cpu verified c choice permitted step
  | interrupt c =>
    simp only [Locks.step] at step
    split at step
    next idle =>
      cases step
      refine ordered.goes c _ rfl ?_ (ordered.home c) ordered.saved (fun _ member => .inl member)
      have fits := ordered.current c
      rw [idle] at fits ⊢
      exact ⟨interrupts,fun _ => fits⟩
    next => contradiction
  | spawn t =>
    simp only [Locks.step] at step
    split at step
    next =>
      cases step
      refine ⟨ordered.current,ordered.home,?_,ordered.exclusive⟩
      intro u context there
      by_cases this : u = t
      · subst this
        simp only [update_self,Option.some.injEq] at there
        subst there
        exact start
      · simp only [update_of_ne this] at there
        exact ordered.saved u context there
    next => contradiction

omit [DecidableEq C] [DecidableEq T] [Fintype C] in
theorem Ordered.above (ordered : Ordered rules s) (c : C) (a b : L) (held : a ∈ (s.cpu c).held)
    (wants : (s.cpu c).wants = some b) (other : b ∉ (s.cpu c).held) : rules.rank a < rules.rank b := by
  have fits := ordered.current c
  unfold Cpu.wants at wants
  split at wants
  next l k place =>
    cases wants
    rw [place] at fits
    rcases fits with twice | ⟨above,_⟩
    · contradiction
    · exact above a held
  next => contradiction

end Order

section Nesting
variable {C T L : Type} {F Q : Type} [DecidableEq C] [DecidableEq T] [DecidableEq L] [Fintype C]

/-- In some state of a run, a processor that holds `a` is about to take `b`. -/
def Nested (code : Code L F Q) (guard : State C T L F Q → Action C T → Prop) (initial : State C T L F Q)
    (a b : L) : Prop :=
  ∃ s, Interleave.Reaches (step code) guard initial s ∧ ∃ c, a ∈ (s.cpu c).held ∧ b ∉ (s.cpu c).held ∧
    (s.cpu c).wants = some b

/-- A processor holds a lock and waits for one that another holds, and the other way round. -/
def Deadlocked (s : State C T L F Q) : Prop :=
  ∃ c d a b, c ≠ d ∧ a ∈ (s.cpu c).held ∧ (s.cpu c).wants = some b ∧ b ∈ (s.cpu d).held ∧
    (s.cpu d).wants = some a

variable {rules : Rules L F Q} {code : Code L F Q} {initial : State C T L F Q}

/-- Locks are taken in an acyclic order, and no two processors wait for each other. -/
theorem no_deadlock (verified : Verified rules code.body) (interrupts : rules.pre code.handler [])
    (start : Fits rules code.start [rules.big]) (ordered : Ordered rules initial) :
    (∀ a, ¬Relation.TransGen (Nested code (Permitted rules) initial) a a) ∧
    ∀ s, Interleave.Reaches (step code) (Permitted rules) initial s → ¬Deadlocked s := by
  have all (s : State C T L F Q) (run : Interleave.Reaches (step code) (Permitted rules) initial s) : Ordered rules s :=
    run.invariant (Ordered rules) ordered (fun m a m' before permitted taken =>
      before.step verified interrupts start a permitted taken)
  refine ⟨?_,?_⟩
  · have rises (a b : L) (path : Relation.TransGen (Nested code (Permitted rules) initial) a b) :
        rules.rank a < rules.rank b := by
      induction path with
      | single nested =>
        obtain ⟨s,run,c,held,other,wants⟩ := nested
        exact (all s run).above c _ _ held wants other
      | tail _ nested ih =>
        obtain ⟨s,run,c,held,other,wants⟩ := nested
        exact ih.trans ((all s run).above c _ _ held wants other)
    intro a cycle
    exact Nat.lt_irrefl _ (rises a a cycle)
  · rintro s run ⟨c,d,a,b,distinct,first,wants,second,wants'⟩
    have order := all s run
    have up := order.above c a b first wants (fun mine => distinct (order.exclusive b c d mine second))
    have down := order.above d b a second wants' (fun mine => distinct (order.exclusive a c d first mine))
    omega

end Nesting

end Locks
