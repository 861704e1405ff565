import Kthreads.Pipe.Machine

/-! The pipe as a queue. The counters are taken modulo `2^32` and the cells modulo `PIPESIZE`;
what has been stored and not yet returned is what the ring holds, whoever stored it. -/
open Function

namespace Kthreads
open PipeState

def PipePc.writes : PipePc → Option ((Nat → Byte) × Int × Nat)
  | .writeSleep addr n i | .writeWoken addr n i => some (addr,n,i)
  | _ => none

variable {T P : Type}

namespace PipeState

theorem wakeReaders_writes (s : PipeState T P) (u : T) : (s.wakeReaders.pc u).writes = (s.pc u).writes := by
  cases place : s.pc u <;> simp [wakeReaders,place,PipePc.writes]

theorem wakeWriters_writes (s : PipeState T P) (u : T) : (s.wakeWriters.pc u).writes = (s.pc u).writes := by
  cases place : s.pc u <;> simp [wakeWriters,place,PipePc.writes]

variable [DecidableEq T]

def mine (s : PipeState T P) (t : T) (call : Nat) : List Byte :=
  (s.stored.filter fun e => e.thread = t ∧ e.call = call).map (·.byte)

theorem goto_others (s : PipeState T P) (t u : T) (pc : PipePc) (other : u ≠ t) : (s.goto t pc).pc u = s.pc u := by
  simp [goto,other]

theorem goto_here (s : PipeState T P) (t : T) (pc : PipePc) : (s.goto t pc).pc t = pc := by
  simp [goto]

end PipeState

structure Fed (s : PipeState T P) (t : T) (bytes : List Byte) (s' : PipeState T P) : Prop where
  stored : s'.stored = s.stored ++ bytes.map fun b => ⟨t,s.calls t,b⟩
  rest : (s'.readopen,s'.writeopen,s'.freed,s'.killed,s'.pc,s'.calls,s'.taken,s'.written) =
    (s.readopen,s.writeopen,s.freed,s.killed,s.pc,s.calls,s.taken,s.written)
  ring : ∀ done rest, Ring.Holds (2^32) s.data s.nread s.nwrite done rest →
    Ring.Holds (2^32) s'.data s'.nread s'.nwrite done (rest ++ bytes)

theorem full_iff_length (s : PipeState T P) (done rest : List Byte)
    (holds : Ring.Holds (2^32) s.data s.nread s.nwrite done rest) : s.Full ↔ rest.length = pipeSize :=
  holds.full_iff (by decide)

theorem Fed.refl (s : PipeState T P) (t : T) : Fed s t [] s :=
  ⟨by simp,rfl,fun done rest holds => by simpa using holds⟩

theorem copy_drained (s : PipeState T P) (left : Nat) :
    ((s.copy left).readopen,(s.copy left).writeopen,(s.copy left).freed,(s.copy left).killed,(s.copy left).pc,
      (s.copy left).calls,(s.copy left).stored,(s.copy left).written) =
        (s.readopen,s.writeopen,s.freed,s.killed,s.pc,s.calls,s.stored,s.written) ∧
    ∀ rest, Ring.Holds (2^32) s.data s.nread s.nwrite s.taken rest →
      ∃ bytes more, rest = bytes ++ more ∧ (s.copy left).taken = s.taken ++ bytes ∧
        Ring.Holds (2^32) (s.copy left).data (s.copy left).nread (s.copy left).nwrite (s.copy left).taken more := by
  induction left generalizing s with
  | zero => exact ⟨rfl,fun rest holds => ⟨[],rest,rfl,by simp [copy],holds⟩⟩
  | succ left ih =>
    unfold copy
    split
    next => exact ⟨rfl,fun rest holds => ⟨[],rest,rfl,by simp,holds⟩⟩
    next some_ =>
      obtain ⟨same,drains⟩ := ih {s with
        nread := (s.nread+1) % 2^32
        taken := s.taken ++ [s.data (Fin.ofNat pipeSize s.nread)]}
      refine ⟨same,?_⟩
      intro rest holds
      cases rest with
      | nil => exact absurd ((holds.empty_iff (by decide)).mpr rfl) some_
      | cons x rest =>
        obtain ⟨front,after⟩ := holds.take (by decide)
        rw [← front] at after
        obtain ⟨bytes,more,split,taken,last⟩ := drains rest after
        refine ⟨x :: bytes,more,by rw [split]; rfl,?_,last⟩
        rw [taken,front,List.append_assoc]
        rfl

theorem Fed.cons {s m : PipeState T P} {t : T} {b : Byte} {bytes : List Byte} (room : ¬ s.Full)
    (fed : Fed (s.store t b) t bytes m) : Fed s t (b :: bytes) m := by
  refine ⟨?_,fed.rest,?_⟩
  · rw [fed.stored]
    simp [store]
  · intro done rest holds
    have space : rest.length < pipeSize := by
      rw [full_iff_length s done rest holds] at room
      exact lt_of_le_of_ne holds.fits room
    have next := fed.ring done (rest ++ [b]) (holds.put (by decide) space b)
    rwa [List.append_assoc] at next

/-- The loop of `pipewrite` stores bytes in order and stops early only at a full pipe. -/
theorem fill_fed (s : PipeState T P) (t : T) (addr : Nat → Byte) (left i : Nat) :
    ∃ k, (s.fill t addr left i).2 = i+k ∧ k ≤ left ∧
      Fed s t ((List.range k).map fun j => addr (i+j)) (s.fill t addr left i).1 ∧
      (k < left → (s.fill t addr left i).1.Full) := by
  induction left generalizing s i with
  | zero => exact ⟨0,rfl,le_rfl,.refl s t,fun bad => absurd bad (by simp)⟩
  | succ left ih =>
    unfold fill
    split
    next full => exact ⟨0,rfl,by simp,.refl s t,fun _ => full⟩
    next room =>
      obtain ⟨k,index,bound,fed,stops⟩ := ih (s.store t (addr i)) (i+1)
      refine ⟨k+1,by rw [index]; omega,by omega,?_,fun early => stops (by omega)⟩
      have bytes : (List.range (k+1)).map (fun j => addr (i+j)) =
          addr i :: (List.range k).map fun j => addr (i+1+j) := by
        rw [List.range_succ_eq_map,List.map_cons,List.map_map]
        congr 1
        apply List.map_congr_left
        intro j _
        simp only [comp]
        congr 1
        omega
      rw [bytes]
      exact fed.cons room

variable [DecidableEq T] {proc : T → P}

structure PipeInv (s : PipeState T P) : Prop where
  ring : ∃ rest, s.stored.map (·.byte) = s.taken ++ rest ∧
    Ring.Holds (2^32) s.data s.nread s.nwrite s.taken rest
  begun : ∀ e ∈ s.stored, e.call ≤ s.calls e.thread
  writes : ∀ t addr n i, (s.pc t).writes = some (addr,n,i) →
    i ≤ n.toNat ∧ s.mine t (s.calls t) = (List.range i).map addr
  returned : ∀ w ∈ s.written, w.call ≤ s.calls w.thread ∧
    (w.call = s.calls w.thread → (s.pc w.thread).writes = none) ∧
    (w.result = w.n → s.mine w.thread w.call = (List.range w.n.toNat).map w.addr)

namespace PipeInv

theorem start (data : Fin pipeSize → Byte) : PipeInv (alloc data : PipeState T P) :=
  ⟨⟨[],rfl,.start data⟩,by simp [alloc],by simp [alloc,PipePc.writes],by simp [alloc]⟩

theorem keep {s s' : PipeState T P} (inv : PipeInv s)
    (same : (s'.data,s'.nread,s'.nwrite,s'.calls,s'.stored,s'.taken,s'.written) =
      (s.data,s.nread,s.nwrite,s.calls,s.stored,s.taken,s.written))
    (pc : ∀ u, (s'.pc u).writes = (s.pc u).writes ∨ (s'.pc u).writes = none) : PipeInv s' := by
  obtain ⟨data,nread,nwrite,calls,stored,taken,written⟩ := by simpa only [Prod.mk.injEq] using same
  have mine (t : T) (call : Nat) : s'.mine t call = s.mine t call := by rw [mine,stored,mine]
  refine ⟨?_,?_,?_,?_⟩
  · rw [data,nread,nwrite,stored,taken]
    exact inv.ring
  · rw [stored,calls]
    exact inv.begun
  · intro t addr n i writes
    rcases pc t with still | none
    · rw [mine,calls]
      exact inv.writes t addr n i (still ▸ writes)
    · rw [none] at writes
      contradiction
  · intro w member
    rw [written] at member
    obtain ⟨begun,current,whole⟩ := inv.returned w member
    rw [mine,calls]
    refine ⟨begun,fun same => ?_,whole⟩
    rcases pc w.thread with still | none
    · rw [still]
      exact current same
    · exact none

structure Ready (s : PipeState T P) (t : T) (addr : Nat → Byte) (i : Nat) : Prop where
  mine : s.mine t (s.calls t) = (List.range i).map addr
  open_ : ∀ w ∈ s.written, w.thread = t → w.call ≠ s.calls t

theorem mine_fed {s m : PipeState T P} {t : T} {bytes : List Byte} (fed : Fed s t bytes m) (u : T) (call : Nat) :
    m.mine u call = s.mine u call ++ if u = t ∧ call = s.calls t then bytes else [] := by
  rw [mine,fed.stored,List.filter_append,List.map_append,← mine]
  congr 1
  split
  next here =>
    obtain ⟨rfl,rfl⟩ := here
    rw [List.filter_map,List.map_map]
    simp [comp_def]
  next other =>
    rw [List.filter_eq_nil_iff.mpr]
    · rfl
    · intro e member
      obtain ⟨b,_,rfl⟩ := List.mem_map.mp member
      simp only [decide_eq_true_eq]
      rintro ⟨same,count⟩
      exact other ⟨same.symm,count.symm⟩

/-- The outcome of a section of `pipewrite`: bytes are stored, the calls of others go on, and the
own call sleeps or returns. -/
theorem fed {s m s' : PipeState T P} (inv : PipeInv s) (t : T) (addr : Nat → Byte) (n : Int) (i k : Nat)
    (ready : Ready s t addr i) (fed : Fed s t ((List.range k).map fun j => addr (i+j)) m)
    (same : (s'.data,s'.nread,s'.nwrite,s'.calls,s'.stored,s'.taken) =
      (m.data,m.nread,m.nwrite,m.calls,m.stored,m.taken))
    (others : ∀ u, u ≠ t → (s'.pc u).writes = (m.pc u).writes)
    (own : (s'.pc t).writes = some (addr,n,i+k) ∧ i+k ≤ n.toNat ∧ s'.written = m.written ∨
      (s'.pc t).writes = none ∧ ∃ result, (result = n → i+k = n.toNat) ∧
        s'.written = ⟨t,s.calls t,addr,n,result⟩ :: m.written) : PipeInv s' := by
  obtain ⟨data,nread,nwrite,calls,stored,taken⟩ := by simpa only [Prod.mk.injEq] using same
  obtain ⟨_,_,_,_,pc,calls',taken',written⟩ := by simpa only [Prod.mk.injEq] using fed.rest
  have mine (u : T) (call : Nat) : s'.mine u call = s.mine u call ++
      if u = t ∧ call = s.calls t then (List.range k).map (fun j => addr (i+j)) else [] := by
    rw [mine,stored,← mine,mine_fed fed]
  have whole : s'.mine t (s.calls t) = (List.range (i+k)).map addr := by
    rw [mine,if_pos ⟨rfl,rfl⟩,ready.mine,List.range_add,List.map_append,List.map_map]
    rfl
  have apart (u : T) (call : Nat) (other : ¬ (u = t ∧ call = s.calls t)) : s'.mine u call = s.mine u call := by
    rw [mine,if_neg other,List.append_nil]
  have old : ∀ w ∈ s.written, w.call ≤ s'.calls w.thread ∧
      (w.call = s'.calls w.thread → (s'.pc w.thread).writes = none) ∧
      (w.result = w.n → s'.mine w.thread w.call = (List.range w.n.toNat).map w.addr) := by
    intro w member
    obtain ⟨begun,current,done⟩ := inv.returned w member
    have other : ¬ (w.thread = t ∧ w.call = s.calls t) := fun here => ready.open_ w member here.1 here.2
    rw [calls,calls',apart w.thread w.call other]
    refine ⟨begun,fun same => ?_,done⟩
    have elsewhere : w.thread ≠ t := by
      intro here
      exact other ⟨here,by rw [same,here]⟩
    rw [others w.thread elsewhere,pc]
    exact current same
  refine ⟨?_,?_,?_,?_⟩
  · obtain ⟨rest,split,holds⟩ := inv.ring
    refine ⟨rest ++ (List.range k).map (fun j => addr (i+j)),?_,?_⟩
    · rw [stored,taken,taken',fed.stored,List.map_append,split,List.map_map,List.append_assoc]
      simp [comp_def]
    · rw [data,nread,nwrite,taken,taken']
      exact fed.ring s.taken rest holds
  · intro e member
    rw [stored,fed.stored] at member
    rw [calls,calls']
    rcases List.mem_append.mp member with early | late
    · exact inv.begun e early
    · obtain ⟨b,_,rfl⟩ := List.mem_map.mp late
      exact le_rfl
  · intro u addr' n' i' writes
    rw [calls,calls']
    by_cases here : u = t
    · subst u
      rcases own with ⟨sleeps,bound,_⟩ | ⟨none,_⟩
      · rw [sleeps] at writes
        cases writes
        exact ⟨bound,whole⟩
      · rw [none] at writes
        contradiction
    · rw [others u here,pc] at writes
      rw [apart u _ (fun same => here same.1)]
      exact inv.writes u addr' n' i' writes
  · intro w member
    rcases own with ⟨_,_,still⟩ | ⟨none,result,done,new⟩
    · rw [still,written] at member
      exact old w member
    · rw [new,written] at member
      rcases List.mem_cons.mp member with rfl | early
      · refine ⟨by rw [calls,calls'],fun _ => none,?_⟩
        intro success
        change s'.mine t (s.calls t) = (List.range n.toNat).map addr
        rw [whole,done success]
      · exact old w early

theorem writeFrom {s : PipeState T P} (inv : PipeInv s) (t : T) (addr : Nat → Byte) (n : Int) (i : Nat)
    (bound : i ≤ n.toNat) (ready : Ready s t addr i) : PipeInv (s.writeFrom proc t addr n i) := by
  obtain ⟨k,index,few,fed,stops⟩ := fill_fed s t addr (n.toNat-i) i
  obtain ⟨_,_,_,_,_,calls,_,_⟩ := by simpa only [Prod.mk.injEq] using fed.rest
  unfold PipeState.writeFrom
  simp only
  rw [index]
  generalize (s.fill t addr (n.toNat-i) i).1 = m at fed calls ⊢
  split
  next early =>
    split
    · refine inv.fed t addr n i k ready fed rfl ?_ (.inr ⟨?_,-1,?_,?_⟩)
      · intro u other
        exact congrArg PipePc.writes (PipeState.goto_others _ t u .user other)
      · exact congrArg PipePc.writes (PipeState.goto_here _ t .user)
      · intro failed
        omega
      · exact congrArg (fun c => ⟨t,c,addr,n,-1⟩ :: m.written) (congrFun calls t)
    · refine inv.fed t addr n i k ready fed rfl ?_ (.inl ⟨?_,by omega,rfl⟩)
      · intro u other
        rw [PipeState.goto_others _ t u _ other,PipeState.wakeReaders_writes]
      · rw [PipeState.goto_here]
        rfl
  next done =>
    refine inv.fed t addr n i k ready fed rfl ?_ (.inr ⟨?_,n,fun _ => by omega,?_⟩)
    · intro u other
      refine (congrArg PipePc.writes (PipeState.goto_others _ t u .user other)).trans ?_
      exact PipeState.wakeReaders_writes m u
    · exact congrArg PipePc.writes (PipeState.goto_here _ t .user)
    · exact congrArg (fun c => ⟨t,c,addr,n,n⟩ :: m.written) (congrFun calls t)

theorem pipewrite {s : PipeState T P} (inv : PipeInv s) (t : T) (addr : Nat → Byte) (n : Int)
    (outside : (s.pc t).inside = false) : PipeInv (s.pipewrite proc t addr n) := by
  have idle : (s.pc t).writes = none := by
    cases place : s.pc t <;> rw [place] at outside <;> simp [PipePc.inside] at outside
    rfl
  have older (u : T) (call : Nat) (begun : call ≤ s.calls u) :
      call ≤ update s.calls t (s.calls t+1) u := by
    by_cases here : u = t
    · subst here
      simp
      omega
    · simpa [here] using begun
  refine writeFrom (s := {s with calls := update s.calls t (s.calls t+1)}) ?_ t addr n 0 (Nat.zero_le _) ?_
  · refine ⟨inv.ring,fun e member => older e.thread e.call (inv.begun e member),?_,?_⟩
    · intro u addr' n' i' writes
      have here : u ≠ t := by
        rintro rfl
        change (s.pc u).writes = _ at writes
        rw [idle] at writes
        contradiction
      obtain ⟨bound,mine⟩ := inv.writes u addr' n' i' writes
      refine ⟨bound,?_⟩
      change s.mine u (update s.calls t (s.calls t+1) u) = _
      rw [update_of_ne here]
      exact mine
    · intro w member
      obtain ⟨begun,current,done⟩ := inv.returned w member
      refine ⟨older w.thread w.call begun,?_,done⟩
      change w.call = update s.calls t (s.calls t+1) w.thread → _
      by_cases here : w.thread = t
      · rw [here,update_self]
        rw [here] at begun
        intro same
        omega
      · rw [update_of_ne here]
        exact current
  · have next : (update s.calls t (s.calls t+1)) t = s.calls t+1 := by simp
    constructor
    · change s.mine t ((update s.calls t (s.calls t+1)) t) = _
      rw [next,mine,List.filter_eq_nil_iff.mpr]
      · rfl
      · intro e member
        simp only [decide_eq_true_eq,not_and]
        intro own same
        have begun := inv.begun e member
        rw [own] at begun
        omega
    · intro w member own same
      change w.call = (update s.calls t (s.calls t+1)) t at same
      rw [next] at same
      have begun := (inv.returned w member).1
      rw [own] at begun
      omega

theorem piperead {s : PipeState T P} (inv : PipeInv s) (t : T) (n : Int) :
    PipeInv (s.piperead proc t n) := by
  have moved (pc : PipePc) (idle : pc.writes = none) (u : T) :
      ((s.goto t pc).pc u).writes = (s.pc u).writes ∨ ((s.goto t pc).pc u).writes = none := by
    by_cases here : u = t
    · rw [here,PipeState.goto_here]
      exact .inr idle
    · rw [PipeState.goto_others s t u pc here]
      exact .inl rfl
  unfold PipeState.piperead
  split
  · split
    · exact inv.keep rfl (moved .user rfl)
    · exact inv.keep rfl (moved (.readSleep n) rfl)
  · obtain ⟨same,drains⟩ := copy_drained s n.toNat
    obtain ⟨rest,split,holds⟩ := inv.ring
    obtain ⟨bytes,more,cut,taken,after⟩ := drains rest holds
    generalize s.copy n.toNat = m at same taken after
    obtain ⟨_,_,_,_,pc,calls,stored,written⟩ := by simpa only [Prod.mk.injEq] using same
    have middle : PipeInv m := by
      have mine (u : T) (call : Nat) : m.mine u call = s.mine u call := by rw [PipeState.mine,stored,PipeState.mine]
      refine ⟨⟨more,?_,after⟩,?_,?_,?_⟩
      · rw [stored,taken,split,cut,List.append_assoc]
      · rw [stored,calls]
        exact inv.begun
      · intro u addr n i writes
        rw [pc] at writes
        rw [mine,calls]
        exact inv.writes u addr n i writes
      · intro w member
        rw [written] at member
        rw [mine,calls,pc]
        exact inv.returned w member
    refine middle.keep rfl ?_
    intro u
    by_cases here : u = t
    · rw [here,PipeState.goto_here]
      exact .inr rfl
    · rw [PipeState.goto_others _ t u .user here,PipeState.wakeWriters_writes]
      exact .inl rfl

theorem pipeclose {s : PipeState T P} (inv : PipeInv s) (writable : Bool) : PipeInv (s.pipeclose writable) := by
  have closed : PipeInv (if writable then {s with writeopen := false}.wakeReaders
      else {s with readopen := false}.wakeWriters) := by
    cases writable with
    | true => exact inv.keep rfl (fun u => .inl (PipeState.wakeReaders_writes _ u))
    | false => exact inv.keep rfl (fun u => .inl (PipeState.wakeWriters_writes _ u))
  unfold PipeState.pipeclose
  simp only
  generalize (if writable then {s with writeopen := false}.wakeReaders
    else {s with readopen := false}.wakeWriters : PipeState T P) = m at closed ⊢
  split
  · exact closed.keep rfl (fun _ => .inl rfl)
  · exact closed

theorem kill [DecidableEq P] {s : PipeState T P} (inv : PipeInv s) (p : P) : PipeInv (s.kill proc p) := by
  refine inv.keep rfl ?_
  intro u
  left
  cases place : s.pc u <;> simp only [PipeState.kill,place]
  all_goals split <;> rfl

theorem step [DecidableEq P] {s s' : PipeState T P} {a : PipeAction T P} (inv : PipeInv s)
    (taken : pipeStep proc s a = some s') : PipeInv s' := by
  unfold pipeStep at taken
  split at taken
  · contradiction
  · cases a with
    | pipewrite t addr n =>
      simp only [Option.ite_none_left_eq_some,Option.some.injEq] at taken
      obtain ⟨outside,rfl⟩ := taken
      exact inv.pipewrite t addr n (by simpa using outside)
    | piperead t n =>
      simp only [Option.ite_none_left_eq_some,Option.some.injEq] at taken
      obtain ⟨outside,rfl⟩ := taken
      exact inv.piperead t n
    | resume t =>
      simp only at taken
      split at taken
      next n place =>
        cases taken
        exact inv.piperead t n
      next addr n i place =>
        cases taken
        have writes : (s.pc t).writes = some (addr,n,i) := by rw [place]; rfl
        obtain ⟨bound,mine⟩ := inv.writes t addr n i writes
        refine inv.writeFrom t addr n i bound ⟨mine,?_⟩
        rintro w member rfl same
        rw [(inv.returned w member).2.1 same] at writes
        contradiction
      next => contradiction
    | pipeclose writable =>
      cases taken
      exact inv.pipeclose writable
    | kill p =>
      cases taken
      exact inv.kill p
    | die t =>
      simp only [Option.ite_none_right_eq_some,Option.some.injEq] at taken
      obtain ⟨_,rfl⟩ := taken
      refine inv.keep rfl ?_
      intro u
      by_cases here : u = t
      · rw [here,goto_here]
        exact .inr rfl
      · rw [goto_others s t u .user here]
        exact .inl rfl

end PipeInv

theorem pipeInv_reached [DecidableEq P] {guard : PipeState T P → PipeAction T P → Prop} {data : Fin pipeSize → Byte}
    {s : PipeState T P} (reached : PipeReaches proc guard data s) : PipeInv s :=
  reached.invariant PipeInv (.start data) fun _ _ _ inv _ taken => inv.step taken

def PipeState.contents (s : PipeState T P) : List Byte :=
  (List.range ((s.nwrite+2^32-s.nread) % 2^32)).map fun j => s.data (Fin.ofNat pipeSize (s.nread+j))

/-- The pipe is a queue: the counters differ by what it holds, at most `PIPESIZE`; what was returned
is the beginning of what was stored and the ring holds the rest; and a call of `pipewrite` that has
returned `n` has stored its `n` bytes in order. -/
theorem pipe_fifo [DecidableEq P] (proc : T → P) (data : Fin pipeSize → Byte) {s : PipeState T P}
    (reached : PipeReaches proc (fun _ _ => True) data s) :
    (s.nwrite+2^32-s.nread) % 2^32 ≤ pipeSize ∧
    s.stored.map (·.byte) = s.taken ++ s.contents ∧ s.taken <+: s.stored.map (·.byte) ∧
    ∀ w ∈ s.written, w.result = w.n →
      (s.stored.filter fun e => e.thread = w.thread ∧ e.call = w.call).map (·.byte) =
        (List.range w.n.toNat).map w.addr := by
  have inv := pipeInv_reached reached
  obtain ⟨rest,split,holds⟩ := inv.ring
  have used := holds.used (by decide)
  have contents : s.contents = rest := by
    rw [contents,used]
    exact holds.contents (by decide)
  refine ⟨by rw [used]; exact holds.fits,by rw [contents]; exact split,⟨rest,split.symm⟩,?_⟩
  intro w member success
  exact (inv.returned w member).2.2 success

/-- One thread writes three bytes, another reads two of them. -/
theorem pipe_fifo_three : ∃ s : PipeState Bool Unit,
    PipeReaches (fun _ => ()) (fun _ _ => True) (fun _ => 0) s ∧
    s.taken = [7,8] ∧ s.stored.map (·.byte) = [7,8,9] ∧ s.stored.map (·.byte) = s.taken ++ s.contents := by
  obtain ⟨s,reached,taken,stored⟩ := Interleave.play_shows (pipeStep fun _ => ()) (fun _ _ => True)
    (alloc fun _ => 0) [.pipewrite true (fun i => BitVec.ofNat 8 (7+i)) 3,.piperead false 2]
    (fun s => s.taken = [7,8] ∧ s.stored.map (·.byte) = [7,8,9]) (by decide +kernel)
  exact ⟨s,reached,taken,stored,(pipe_fifo (fun _ => ()) (fun _ => 0) reached).2.1⟩

end Kthreads
