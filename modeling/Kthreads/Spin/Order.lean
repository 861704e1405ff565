import Kthreads.Spin.Kernel

/-! The order in which spin locks are taken. `ptable.lock` stands above every lock under which a thread
sleeps or wakes others, the console among them; so nothing may be printed while it is held. -/
namespace Kthreads.Spin
open Locks

def Lock.rank : Lock → Nat
  | .mtable => 0
  | .cons => 2
  | .ptable => 3
  | .kmem => 4
  | _ => 1

/-- What may be held when a function is called: nothing, as a rule. -/
def Fn.pre : Fn → List Lock → Prop
  | .kalloc,h | .kfree,h => ∀ x ∈ h, x.rank < 4
  | .wakeup,h => ∀ x ∈ h, x.rank < 3
  | .cprintf,h | .kernelTrap,h => .cons ∈ h ∨ ∀ x ∈ h, x.rank < 2
  | .walkpgdir,h | .mappages,h | .setupkvm,h | .inituvm,h | .allocuvm,h | .deallocuvm,h | .freevm,h | .clearpteu,h
  | .copyout,h => h = [] ∨ h = [.ptable]
  | .sched,h => h = [.ptable]
  | .sleep lk,h => h = [lk] ∧ (lk = .ptable ∨ lk.rank < 3)
  | _,h => h = []

def Fn.returns : Fn → Prop
  | .exit | .exitThread | .kthreadExit | .kernelTrap | .scheduler => False
  | _ => True

/-- While `ptable.lock` is held, `allocuvm` does not run out of memory and no access to user memory
traps. -/
def Chance.allowed : Chance → Bool → List Lock → Prop
  | .outOfMemory,true,h | .fault,true,h => .ptable ∉ h
  | _,_,_ => True

def rules : Rules Lock Fn Chance := ⟨Lock.rank,Fn.pre,Fn.returns,Chance.allowed,.ptable⟩

section Wp
variable {h : List Lock} {next back : List Lock → Prop}

@[simp] theorem wp_skip : wp rules .skip h next back = next h := rfl

@[simp] theorem wp_ret : wp rules .ret h next back = back h := rfl

@[simp] theorem wp_panic : wp rules .panic h next back := trivial

@[simp] theorem wp_acquire (l : Lock) :
    wp rules (.acquire l) h next back ↔ l ∈ h ∨ (∀ x ∈ h, x.rank < l.rank) ∧ next (l :: h) := Iff.rfl

@[simp] theorem wp_release (l : Lock) : wp rules (.release l) h next back ↔ (l ∈ h → next (h.erase l)) := Iff.rfl

@[simp] theorem wp_switch : wp rules .switch h next back ↔ h = [.ptable] ∧ next h := Iff.rfl

@[simp] theorem wp_loop (p : Code) :
    wp rules (.loop p) h next back ↔ wp rules p h (fun h' => h' = h) back ∧ next h := Iff.rfl

@[simp] theorem wp_forever (p : Code) :
    wp rules (.forever p) h next back ↔ wp rules p h (fun h' => h' = h) back := Iff.rfl

@[simp] theorem wp_pick (p : Nat → Code) :
    wp rules (.pick p) h next back ↔ ∀ n, wp rules (p n) h next back := Iff.rfl

@[simp] theorem wp_call (f : Fn) : wp rules (.call f) h next back ↔ f.pre h ∧ (f.returns → next h) := Iff.rfl

@[simp] theorem wp_calls_nil : wp rules (calls []) h next back = next h := rfl

@[simp] theorem wp_calls (f : Fn) (rest : List Fn) :
    wp rules (calls (f :: rest)) h next back ↔ f.pre h ∧ (f.returns → wp rules (calls rest) h next back) := Iff.rfl

theorem wp_other (p q : Code) :
    wp rules (.test .other p q) h next back ↔ wp rules p h next back ∧ wp rules q h next back :=
  ⟨fun both => ⟨both.1 trivial,both.2 trivial⟩,fun both => ⟨fun _ => both.1,fun _ => both.2⟩⟩

@[simp] theorem wp_perhaps (p : Code) : wp rules (perhaps p) h next back ↔ wp rules p h next back ∧ next h :=
  wp_other p .skip

@[simp] theorem wp_either (p q : Code) :
    wp rules (either p q) h next back ↔ wp rules p h next back ∧ wp rules q h next back := wp_other p q

@[simp] theorem wp_oneOf (p q : Code) (rest : List Code) :
    wp rules (.oneOf .other (p :: q :: rest)) h next back ↔
      wp rules p h next back ∧ wp rules (.oneOf .other (q :: rest)) h next back :=
  wp_other p (.oneOf .other (q :: rest))

@[simp] theorem wp_oneOf_last (p : Code) :
    wp rules (.oneOf .other [p]) h next back = wp rules p h next back := rfl

@[simp] theorem wp_outOfMemory (p : Code) :
    wp rules (.test .outOfMemory p .skip) h next back ↔ (.ptable ∉ h → wp rules p h next back) ∧ next h :=
  ⟨fun both => ⟨both.1,both.2 trivial⟩,fun both => ⟨both.1,fun _ => both.2⟩⟩

@[simp] theorem wp_touch : wp rules touch h next back ↔ (.ptable ∉ h → Fn.pre .kernelTrap h) ∧ next h :=
  ⟨fun both => ⟨fun free => (both.1 free).1,both.2 trivial⟩,
   fun both => ⟨fun free => ⟨both.1 free,fun back => back.elim⟩,fun _ => both.2⟩⟩

end Wp

theorem wp_freelist {h : List Lock} {next back : List Lock → Prop} (below : ∀ x ∈ h, x.rank < 4) (after : next h) :
    wp rules freelist h next back := by
  simp only [freelist,wp_either,wp_block_cons,wp_block_nil,wp_acquire,wp_release,wp_skip]
  exact ⟨.inr ⟨below,fun _ => by rw [List.erase_cons_head]; exact after⟩,after⟩

theorem wp_cprintf {h : List Lock} {next back : List Lock → Prop} (below : .cons ∈ h ∨ ∀ x ∈ h, x.rank < 2)
    (after : next h) : wp rules (body .cprintf) h next back := by
  change wp rules (either _ (perhaps .panic)) h next back
  simp only [wp_either,wp_perhaps,wp_block_cons,wp_block_nil,wp_acquire,wp_release,wp_panic]
  refine ⟨?_,trivial,after⟩
  rcases below with twice | below
  · exact .inl twice
  · exact .inr ⟨below,trivial,fun _ => by rw [List.erase_cons_head]; exact after⟩

/-- `sleep` gives its lock up for `ptable.lock` and takes it again. -/
theorem wp_sleep (lk : Lock) (below : lk = .ptable ∨ lk.rank < 3) :
    wp rules (body (.sleep lk)) [lk] (fun h' => Fn.returns (.sleep lk) ∧ h' = [lk])
      (fun h' => Fn.returns (.sleep lk) ∧ h' = [lk]) := by
  have sched : Fn.pre .sched [.ptable] := rfl
  have exits : Fn.pre .kthreadExit [] ∧ ¬Fn.returns .kthreadExit := ⟨rfl,id⟩
  have wakes : Fn.returns (.sleep lk) := trivial
  change wp rules (.block [_,_,_,_,_,_,_]) _ _ _
  by_cases same : lk = .ptable
  · simp [same,sched,exits]
    exact fun _ => trivial
  · have other := Ne.symm same
    rcases below with equal | less
    · contradiction
    · have order : lk.rank < Lock.ptable.rank := less
      simp [same,other,sched,exits,wakes,order,List.erase_cons_tail]

theorem verified : Verified rules body := by
  intro f h pre
  change f.pre h at pre
  change wp rules (body f) h (fun h' => f.returns ∧ h' = h) (fun h' => f.returns ∧ h' = h)
  cases f with
  | kalloc => exact wp_freelist pre ⟨trivial,rfl⟩
  | kfree =>
    simp only [body,wp_block_cons,wp_block_nil,wp_perhaps,wp_panic]
    exact ⟨trivial,wp_freelist pre ⟨trivial,rfl⟩⟩
  | wakeup =>
    simp only [body,wp_block_cons,wp_block_nil,wp_acquire,wp_release]
    exact .inr ⟨pre,fun _ => by simp [Fn.returns]⟩
  | cprintf => exact wp_cprintf pre ⟨trivial,rfl⟩
  | kernelTrap => exact ⟨pre,fun _ => trivial⟩
  | walkpgdir | mappages | setupkvm | inituvm | allocuvm | deallocuvm | freevm | clearpteu | copyout =>
    rcases pre with rfl | rfl
    · simp [body,Fn.pre,Fn.returns]
    · simp [body,Fn.pre,Fn.returns,Lock.rank]
  | sched =>
    obtain rfl : h = [.ptable] := pre
    simp [body,Fn.returns]
  | sleep lk =>
    obtain ⟨rfl,below⟩ := pre
    exact wp_sleep lk below
  | _ =>
    obtain rfl : h = [] := pre
    -- from the outside in, so that each part is met with the locks that are held there
    simp [↓wp_block_cons,↓wp_block_nil,↓wp_skip,↓wp_ret,↓wp_panic,↓wp_acquire,↓wp_release,↓wp_switch,↓wp_loop,
      ↓wp_forever,↓wp_pick,↓wp_call,↓wp_calls_nil,↓wp_calls,↓wp_perhaps,↓wp_either,↓wp_oneOf,↓wp_oneOf_last,
      ↓wp_touch,body,Fn.pre,Fn.returns,Lock.rank,updateBlock,readBlock,pipeallocBad,execBad,
      execBadLocked]

theorem forkret_fits : Locks.Fits rules kernel.start [.ptable] := by
  change wp rules forkret [.ptable] (fun _ => True) (fun _ => True)
  have starts : Fn.pre .iinit [] ∧ Fn.pre .initlog [] ∧ Fn.pre .trap [] := ⟨rfl,rfl,rfl⟩
  simp [forkret,starts]

section Boot
variable {C T : Type} (first : C → Bool)

theorem boot_ordered : Ordered rules (boot T first) where
  current c := by
    change wp rules (mpmain (first c)) [] (fun _ => True) (fun _ => True)
    have starts : Fn.pre .userinit [] ∧ Fn.pre .scheduler [] := ⟨rfl,rfl⟩
    have prints : Fn.pre .cprintf [] := .inr (by simp)
    cases first c with
    | true => simp [mpmain,starts,prints]
    | false => simp [mpmain,starts,prints]
  home c running := by cases running
  saved t context ready := by
    cases ready
    exact forkret_fits
  exclusive l c d held := by cases held

variable [DecidableEq C] [DecidableEq T] [Fintype C]

/-- Locks are taken in an acyclic order and no two processors wait for each other, in every run of any number
of processors and threads in which nothing goes wrong with user memory while `ptable.lock` is held. -/
theorem spin_locks_ordered :
    (∀ a, ¬Relation.TransGen (Nested kernel (Permitted rules) (boot T first)) a a) ∧
    ∀ s, Interleave.Reaches (Locks.step kernel) (Permitted rules) (boot T first) s → ¬Deadlocked s :=
  no_deadlock verified rfl forkret_fits (boot_ordered first)

end Boot

instance (q : Chance) (b : Bool) (h : List Lock) : Decidable (rules.allowed q b h) :=
  match q,b with
  | .outOfMemory,true => inferInstanceAs (Decidable (.ptable ∉ h))
  | .fault,true => inferInstanceAs (Decidable (.ptable ∉ h))
  | .outOfMemory,false => .isTrue trivial
  | .fault,false => .isTrue trivial
  | .other,_ => .isTrue trivial

instance {C T : Type} (s : State C T Lock Fn Chance) (a : Locks.Action C T) : Decidable (Permitted rules s a) :=
  match a with
  | .step c (.branch b) => inferInstanceAs (Decidable (∀ q ∈ (s.cpu c).asks, rules.allowed q b (s.cpu c).held))
  | .step _ .go | .step _ (.number _) | .step _ (.thread _) | .interrupt _ | .spawn _ => .isTrue trivial

section Runs

/-- Between two branches of a processor, the number of its other steps. -/
def paced (c : Fin 2) (pace : List (Nat × Bool)) : List (Locks.Action (Fin 2) Unit) :=
  pace.flatMap fun (n,b) => List.replicate n (.step c .go) ++ [.step c (.branch b)]

def booting : List (Locks.Action (Fin 2) Unit) :=
  paced 1 [(5,true),(3,false)] ++ List.replicate 9 (.step 1 .go) ++
  paced 0 [(8,false),(10,false),(5,true),(7,false),(7,true),(7,false),(2,false),(2,false),(4,false),(5,false),(4,true),
    (8,false),(7,true),(4,false),(1,false),(6,false),(1,false),(13,true),(3,false),(11,true),(0,true),(0,true)] ++
  [.step 0 (.thread ())]

def growing : List (Locks.Action (Fin 2) Unit) :=
  paced 0 [(3,false),(4,true),(1,false),(2,false),(3,true),(2,false),(6,true),(3,false),(2,false),(2,true),(2,true)]

def typing : List (Locks.Action (Fin 2) Unit) :=
  .interrupt 1 :: paced 1 [(1,false),(1,false),(0,false),(0,true),(4,true),(0,true)] ++ List.replicate 2 (.step 1 .go)

/-- One processor waits for `ptable.lock` with the console locked, and the other holds it and goes on. -/
theorem spin_locks_ordered_typing :
    ∃ s, Interleave.Reaches (Locks.step kernel) (Permitted rules) (boot Unit (fun c : Fin 2 => c == 0)) s ∧
      (.ptable ∈ (s.cpu 0).held ∧ .cons ∈ (s.cpu 1).held ∧ (s.cpu 1).wants = some .ptable) ∧ ¬Deadlocked s := by
  obtain ⟨s,run,shown⟩ := Interleave.play_shows (Locks.step kernel) (Permitted rules)
    (boot Unit (fun c : Fin 2 => c == 0)) (booting ++ growing ++ typing)
    (fun s => .ptable ∈ (s.cpu 0).held ∧ .cons ∈ (s.cpu 1).held ∧ (s.cpu 1).wants = some .ptable)
    (by decide +kernel)
  exact ⟨s,run,shown,(spin_locks_ordered _).2 s run⟩

/-- When memory runs out in `sbrk`, `allocuvm` prints with `ptable.lock` held; `consoleintr` takes that lock
to wake the readers, with the console locked. -/
theorem spin_locks_deadlock :
    (∃ a, Relation.TransGen (Nested kernel (fun _ _ => True) (boot Unit (fun c : Fin 2 => c == 0))) a a) ∧
    ∃ s, Interleave.Reaches (Locks.step kernel) (fun _ _ => True) (boot Unit (fun c : Fin 2 => c == 0)) s ∧ Deadlocked s := by
  obtain ⟨s,run,first,wants,second,wants'⟩ := Interleave.play_shows (Locks.step kernel) (fun _ _ => True)
    (boot Unit (fun c : Fin 2 => c == 0))
    (booting ++ growing ++ typing ++ paced 0 [(7,true),(3,true)] ++ [.step 0 .go])
    (fun s => (s.cpu 0).held = [.ptable] ∧ (s.cpu 0).wants = some .cons ∧ (s.cpu 1).held = [.cons] ∧
      (s.cpu 1).wants = some .ptable)
    (by decide +kernel)
  have up : Nested kernel (fun _ _ => True) (boot Unit (fun c : Fin 2 => c == 0)) .ptable .cons :=
    ⟨s,run,0,by simp [first],by simp [first],wants⟩
  have down : Nested kernel (fun _ _ => True) (boot Unit (fun c : Fin 2 => c == 0)) .cons .ptable :=
    ⟨s,run,1,by simp [second],by simp [second],wants'⟩
  exact ⟨⟨.ptable,.tail (.single up) down⟩,s,run,0,1,.ptable,.cons,by decide,by simp [first],wants,by simp [second],
    wants'⟩

end Runs

end Kthreads.Spin
