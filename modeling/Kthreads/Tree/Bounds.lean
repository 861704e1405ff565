import Kthreads.Tree.Release

/-! Array accesses of `trnmnt_tree_acquire` and `trnmnt_tree_release` with the C ints that they compute. What a
call reads and what the mutex calls return is arbitrary, so that other threads may do anything in between. -/
namespace Kthreads

def int32 (x : Int) : Int := x.bmod (2^32)

/-- `(position - 1) / 2` with the division of C, which rounds towards zero. -/
def fatherPosition (position : Int) : Int := (int32 (position-1)).tdiv 2

/-- What a call does with the tree. -/
inductive TreeOp
  | lockTree
  | unlockTree
  | readMap (i : Int)
  | writeMap (i v : Int)
  | lockNode (i : Int)
  | unlockNode (i : Int)
  deriving DecidableEq

def TreeOp.Inside (d : Nat) : TreeOp → Prop
  | .readMap i | .writeMap i _ => 0 ≤ i ∧ i ≤ 2^d - 1
  | .lockNode i | .unlockNode i => 0 ≤ i ∧ i ≤ 2^d - 2
  | .lockTree | .unlockTree => True

/-- The places of one call, with its local variables. -/
inductive IntPc
  | acquire (id : Int)
  | acquireLock (id : Int)
  | acquireTest (id : Int)
  | acquireRefuse (id : Int)
  | acquireSet (id : Int)
  | acquireUnlock (id : Int)
  | acquireLeaf (id : Int)
  | climb (id treePosition fatherPosition : Int)
  | releaseLock (id : Int)
  | releaseTest (id : Int)
  | releaseRec (id position : Int) (stack : List Int)
  | releaseNode (id position : Int) (stack : List Int)
  | releaseClear (id : Int)
  | releaseUnlock (id : Int)
  | releaseRefuse (id : Int)
  | done (result : Int)
  deriving DecidableEq

/-- The entry of `threadMap` that a step reads, and whether its unlock succeeds. -/
structure Answer where
  entry : Int
  unlocked : Bool

namespace IntPc

def op (self : Int) : IntPc → Option TreeOp
  | .acquireLock _ | .releaseLock _ => some .lockTree
  | .acquireTest id | .releaseTest id => some (.readMap id)
  | .acquireRefuse _ | .acquireUnlock _ | .releaseUnlock _ | .releaseRefuse _ => some .unlockTree
  | .acquireSet id => some (.writeMap id self)
  | .climb _ pos father => if pos = 0 then none else some (.lockNode father)
  | .releaseNode _ pos _ => some (.unlockNode (fatherPosition pos))
  | .releaseClear id => some (.writeMap id (-1))
  | .acquire _ | .acquireLeaf _ | .releaseRec _ _ _ | .done _ => none

def next (d : Nat) (self : Int) (answer : Answer) : IntPc → IntPc
  | .acquire id => if id < 0 ∨ id > (powordepth d : Int) - 1 then .done (-1) else .acquireLock id
  | .acquireLock id => .acquireTest id
  | .acquireTest id => if answer.entry ≠ -1 then .acquireRefuse id else .acquireSet id
  | .acquireRefuse _ => .done (-1)
  | .acquireSet id => .acquireUnlock id
  | .acquireUnlock id => .acquireLeaf id
  | .acquireLeaf id => .climb id (int32 (powordepth d - 1 + id)) (fatherPosition (int32 (powordepth d - 1 + id)))
  | .climb id pos father => if pos = 0 then .done 0 else .climb id father (fatherPosition father)
  | .releaseLock id => .releaseTest id
  | .releaseTest id =>
    if answer.entry ≠ self then .releaseRefuse id else .releaseRec id (int32 (powordepth d - 1 + id)) []
  | .releaseRec id pos stack =>
    if fatherPosition pos ≠ 0 then .releaseRec id (fatherPosition pos) (pos :: stack) else .releaseNode id pos stack
  | .releaseNode id _ stack =>
    if answer.unlocked = true then
      match stack with
      | [] => .releaseClear id
      | outer :: rest => .releaseNode id outer rest
    else .releaseRefuse id
  | .releaseClear id => .releaseUnlock id
  | .releaseUnlock _ => .done 0
  | .releaseRefuse _ => .done (-1)
  | .done result => .done result

def ended : IntPc → Bool
  | .done _ => true
  | _ => false

def left (d : Nat) : IntPc → Nat
  | .acquire _ => 2^(d+1)+8
  | .acquireLock _ => 2^(d+1)+7
  | .acquireTest _ => 2^(d+1)+6
  | .acquireSet _ => 2^(d+1)+5
  | .acquireUnlock _ => 2^(d+1)+4
  | .acquireLeaf _ => 2^(d+1)+3
  | .climb _ pos _ => pos.toNat+1
  | .releaseLock _ => 2*2^(d+1)+6
  | .releaseTest _ => 2*2^(d+1)+5
  | .releaseRec _ pos stack => 2*pos.toNat+stack.length+4
  | .releaseNode _ _ stack => stack.length+3
  | .releaseClear _ => 2
  | .releaseUnlock _ | .acquireRefuse _ | .releaseRefuse _ => 1
  | .done _ => 0

end IntPc

structure TreeCall where
  pc : IntPc
  trace : List TreeOp

def intStep (d : Nat) (self : Int) (c : TreeCall) (answer : Answer) : Option TreeCall :=
  if c.pc.ended = true then none else some ⟨c.pc.next d self answer,c.trace ++ (c.pc.op self).toList⟩

abbrev CallReaches (d : Nat) (self : Int) (first : IntPc) (c : TreeCall) : Prop :=
  Interleave.Reaches (intStep d self) (fun _ _ => True) ⟨first,[]⟩ c

section Positions
variable {d : Nat} {id : Int}

theorem int32_small (x : Int) (low : -2^31 ≤ x) (high : x < 2^31) : int32 x = x :=
  Int.bmod_eq_of_le (by omega) (by omega)

theorem fatherPosition_cast (pos : Nat) (small : pos < 2^31) : fatherPosition pos = (father pos : Int) := by
  unfold fatherPosition
  rw [int32_small _ (by omega) (by omega)]
  cases pos with
  | zero => rfl
  | succ pos =>
    have cast : ((pos+1 : Nat) : Int) - 1 = (pos : Nat) := by omega
    rw [cast]
    rfl

variable (allowed : d ≤ 6) (range : InRange d id)
include range

theorem node_inside (h : Nat) (above : 0 < h) (low : h ≤ d) : (0 : Int) ≤ up d id h ∧ (up d id h : Int) ≤ 2^d - 2 := by
  have node := up_node range h above low
  have count : up d id h + 2 ≤ 2^d := by omega
  have cast : ((up d id h + 2 : Nat) : Int) ≤ ((2^d : Nat) : Int) := by exact_mod_cast count
  push_cast at cast
  exact ⟨by omega,by omega⟩

theorem up_small (h : Nat) (low : h ≤ d) : up d id h < 2^(d+1) - 1 := by
  have small := range.toNat_lt
  have positive : 0 < 2^d := Nat.two_pow_pos d
  have leaf : up d id 0 < 2^(d+1) - 1 := by
    rw [up_zero,Nat.pow_succ]
    omega
  rcases Nat.eq_zero_or_pos h with zero | above
  · rw [zero]
    exact leaf
  · exact (up_lt id 0 h above low).trans leaf

include allowed

theorem leaf_cast : int32 (powordepth d - 1 + id) = (up d id 0 : Int) := by
  have bound : 2^d ≤ 2^6 := Nat.pow_le_pow_right (by omega) allowed
  have positive : 0 < 2^d := Nat.two_pow_pos d
  have small := range.toNat_lt
  have nonneg := range.1
  rw [powordepth_eq,int32_small _ (by omega) (by omega),up_zero]
  omega

theorem father_cast (h : Nat) (low : h ≤ d) : fatherPosition (up d id h) = (up d id (h+1) : Int) := by
  have bound : 2^(d+1) ≤ 2^7 := Nat.pow_le_pow_right (by omega) (by omega)
  have small := up_small range h low
  rw [fatherPosition_cast _ (by omega),up_succ]

end Positions

/-- What a place says about the positions. -/
def IntPc.Proper (d : Nat) : IntPc → Prop
  | .acquireLock id | .acquireTest id | .acquireSet id | .acquireUnlock id | .acquireLeaf id | .releaseLock id
  | .releaseTest id | .releaseClear id => InRange d id
  | .climb id pos father => InRange d id ∧ ∃ h, h ≤ d ∧ pos = up d id h ∧ father = up d id (h+1)
  | .releaseRec id pos stack | .releaseNode id pos stack =>
    InRange d id ∧ ∃ h, h < d ∧ pos = up d id h ∧ stack = (frames d id h).map Nat.cast
  | _ => True

namespace IntPc
section Steps
variable {d : Nat} (positive : 0 < d) (allowed : d ≤ 6) {pc : IntPc} (proper : pc.Proper d) (self : Int)
include proper

include allowed in
theorem op_inside (op : TreeOp) (made : pc.op self = some op) : op.Inside d := by
  cases pc with
  | acquireTest id | acquireSet id | releaseTest id | releaseClear id =>
    cases made
    obtain ⟨low,high⟩ : InRange d id := proper
    exact ⟨low,by omega⟩
  | climb id pos father =>
    obtain ⟨range,h,low,rfl,rfl⟩ := proper
    simp only [IntPc.op] at made
    split at made
    next => contradiction
    next inner =>
      cases made
      have below : h ≠ d := by
        rintro rfl
        exact inner (by rw [up_root range]; rfl)
      exact node_inside range (h+1) (by omega) (by omega)
  | releaseNode id pos stack =>
    cases made
    obtain ⟨range,h,low,rfl,_⟩ := proper
    rw [father_cast allowed range h low.le]
    exact node_inside range (h+1) (by omega) low
  | acquireLock id | releaseLock id | acquireRefuse id | acquireUnlock id | releaseUnlock id | releaseRefuse id =>
    cases made
    trivial
  | _ => contradiction

include positive allowed in
theorem next_proper (answer : Answer) : (pc.next d self answer).Proper d := by
  cases pc with
  | acquire id =>
    simp only [IntPc.next]
    split
    next => trivial
    next inside =>
      rw [powordepth_eq] at inside
      push_cast at inside
      exact ⟨by omega,by omega⟩
  | acquireTest id =>
    simp only [IntPc.next]
    split
    · trivial
    · exact proper
  | acquireLeaf id =>
    have range : InRange d id := proper
    simp only [IntPc.next,leaf_cast allowed range,father_cast allowed range 0 (by omega)]
    exact ⟨range,0,by omega,rfl,rfl⟩
  | climb id pos father =>
    obtain ⟨range,h,low,rfl,rfl⟩ := proper
    simp only [IntPc.next]
    split
    next => trivial
    next inner =>
      have below : h ≠ d := by
        rintro rfl
        exact inner (by rw [up_root range]; rfl)
      rw [father_cast allowed range (h+1) (by omega)]
      exact ⟨range,h+1,by omega,rfl,rfl⟩
  | releaseTest id =>
    have range : InRange d id := proper
    simp only [IntPc.next,leaf_cast allowed range]
    split
    · trivial
    · exact ⟨range,0,positive,rfl,rfl⟩
  | releaseRec id pos stack =>
    obtain ⟨range,h,low,rfl,rfl⟩ := proper
    simp only [IntPc.next,father_cast allowed range h low.le]
    split
    next inner =>
      have below : h+1 ≠ d := by
        rintro rfl
        exact inner (by rw [up_root range]; rfl)
      exact ⟨range,h+1,by omega,rfl,rfl⟩
    next => exact ⟨range,h,low,rfl,rfl⟩
  | releaseNode id pos stack =>
    obtain ⟨range,h,low,rfl,rfl⟩ := proper
    simp only [IntPc.next]
    split
    · cases h with
      | zero => exact range
      | succ h => exact ⟨range,h,by omega,rfl,rfl⟩
    · trivial
  | acquireLock id | acquireSet id | acquireUnlock id | releaseLock id => exact proper
  | acquireRefuse id | releaseClear id | releaseUnlock id | releaseRefuse id | done result => trivial

include positive allowed in
theorem next_left (answer : Answer) (inside : pc.ended = false) : (pc.next d self answer).left d < pc.left d := by
  have level : 0 < 2^(d+1) := Nat.two_pow_pos _
  cases pc with
  | acquire id =>
    simp only [IntPc.next]
    split <;> simp only [IntPc.left] <;> omega
  | acquireTest id =>
    simp only [IntPc.next]
    split <;> simp only [IntPc.left] <;> omega
  | acquireLeaf id =>
    have range : InRange d id := proper
    have small := up_small range 0 (by omega)
    simp only [IntPc.next,leaf_cast allowed range,IntPc.left]
    omega
  | climb id pos father =>
    obtain ⟨range,h,low,rfl,rfl⟩ := proper
    simp only [IntPc.next]
    split
    next => simp [IntPc.left]
    next inner =>
      have below : h ≠ d := by
        rintro rfl
        exact inner (by rw [up_root range]; rfl)
      have lower := up_lt id h (h+1) (by omega) (by omega : h+1 ≤ d)
      simp only [IntPc.left]
      omega
  | releaseTest id =>
    have range : InRange d id := proper
    have small := up_small range 0 (by omega)
    simp only [IntPc.next,leaf_cast allowed range]
    split
    · simp only [IntPc.left]
      omega
    · simp only [IntPc.left,List.length_nil]
      omega
  | releaseRec id pos stack =>
    obtain ⟨range,h,low,rfl,rfl⟩ := proper
    have lower := up_lt id h (h+1) (by omega) (by omega : h+1 ≤ d)
    simp only [IntPc.next,father_cast allowed range h low.le]
    split <;> simp only [IntPc.left,List.length_cons] <;> omega
  | releaseNode id pos stack =>
    simp only [IntPc.next]
    split
    · cases stack with
      | nil => simp [IntPc.left]
      | cons outer rest => simp [IntPc.left]
    · simp only [IntPc.left]
      omega
  | done result => contradiction
  | acquireLock id | acquireSet id | acquireUnlock id | releaseLock id | acquireRefuse id | releaseClear id
  | releaseUnlock id | releaseRefuse id =>
    simp only [IntPc.next,IntPc.left]
    omega

end Steps
end IntPc

def Calls (d : Nat) (id : Int) (first : IntPc) : Prop :=
  first = .acquire id ∨ first = .releaseLock id ∧ InRange d id

section Runs
variable {d : Nat} {self : Int} {first : IntPc} {c : TreeCall}

theorem intStep_eq {c' : TreeCall} {answer : Answer} (taken : intStep d self c answer = some c') :
    c.pc.ended = false ∧ c' = ⟨c.pc.next d self answer,c.trace ++ (c.pc.op self).toList⟩ := by
  unfold intStep at taken
  split at taken
  next => contradiction
  next inside => exact ⟨by simpa using inside,(Option.some.inj taken).symm⟩

/-- A call that starts at a proper place stays so, with all its operations in the arrays. -/
theorem proper_reached (positive : 0 < d) (allowed : d ≤ 6) (proper : first.Proper d)
    (reached : CallReaches d self first c) : c.pc.Proper d ∧ ∀ op ∈ c.trace, op.Inside d := by
  induction reached with
  | refl => exact ⟨proper,by simp⟩
  | tail reached _ taken held =>
    obtain ⟨_,rfl⟩ := intStep_eq taken
    refine ⟨IntPc.next_proper positive allowed held.1 self _,?_⟩
    intro op member
    rcases List.mem_append.mp member with before | now
    · exact held.2 op before
    · exact IntPc.op_inside allowed held.1 self op (Option.mem_toList.mp now)

theorem outside_reached (id : Int) (outside : ¬ InRange d id) (reached : CallReaches d self (.acquire id) c) :
    (c.pc = .acquire id ∨ c.pc = .done (-1)) ∧ c.trace = [] := by
  induction reached with
  | refl => exact ⟨.inl rfl,rfl⟩
  | tail reached _ taken held =>
    obtain ⟨inside,rfl⟩ := intStep_eq taken
    obtain ⟨here | ended,empty⟩ := held
    · have refused : id < 0 ∨ id > (powordepth d : Int) - 1 := by
        by_contra fits
        refine outside ?_
        rw [powordepth_eq] at fits
        push_cast at fits
        exact ⟨by omega,by omega⟩
      simp only [here,IntPc.next,if_pos refused,IntPc.op,empty]
      exact ⟨.inr trivial,rfl⟩
    · rw [ended] at inside
      contradiction

end Runs

/-- The place of a call in ints; the waits for a mutex belong to its lock call. -/
def TreePc.ints : TreePc → Option IntPc
  | .acquire id => some (.acquire id)
  | .acquireLock id | .acquireWait id => some (.acquireLock id)
  | .acquireTest id => some (.acquireTest id)
  | .acquireRefuse id => some (.acquireRefuse id)
  | .acquireSet id => some (.acquireSet id)
  | .acquireUnlock id => some (.acquireUnlock id)
  | .acquireLeaf id => some (.acquireLeaf id)
  | .climb id pos | .climbWait id pos => some (.climb id pos (father pos))
  | .releaseLock id | .releaseWait id => some (.releaseLock id)
  | .releaseTest id => some (.releaseTest id)
  | .releaseRec id pos stack => some (.releaseRec id pos (stack.map Nat.cast))
  | .releaseNode id pos stack => some (.releaseNode id pos (stack.map Nat.cast))
  | .releaseClear id => some (.releaseClear id)
  | .releaseUnlock id => some (.releaseUnlock id)
  | .releaseRefuse id => some (.releaseRefuse id)
  | _ => none

theorem ints_running {pc : TreePc} {c : IntPc} (here : pc.ints = some c) : c.ended = false := by
  cases pc <;> first | contradiction | (cases here; rfl)

section Tree
variable {T : Type} [DecidableEq T] {d : Nat} {s s' : TrnmntTree T} {t : T}

theorem ViewStep.ints {v v' : View} (own : Own d v) (allowed : d ≤ 6) (self : Int) (taken : ViewStep d v v')
    {c' : IntPc} (inside : v'.pc.ints = some c') :
    ∃ c, v.pc.ints = some c ∧ (c = c' ∨ ∃ answer, c.next d self answer = c') := by
  have goes {pc : TreePc} (place : v.pc = pc) {c : IntPc} (starts : pc.ints = some c)
      (next : c = c' ∨ ∃ answer, c.next d self answer = c') :
      ∃ c, v.pc.ints = some c ∧ (c = c' ∨ ∃ answer, c.next d self answer = c') := ⟨c,by rw [place,starts],next⟩
  have climbs {pos h : Nat} {id : Int} (range : InRange d id) (low : h ≤ d) (same : pos = up d id h) (inner : pos ≠ 0) :
      (IntPc.climb id pos (father pos)).next d self ⟨-1,true⟩ = .climb id (father pos) (father (father pos)) := by
    have small := up_small range h low
    have level : 2^(d+1) ≤ 2^7 := Nat.pow_le_pow_right (by omega) (by omega)
    have lower : father pos < 2^31 := by
      unfold father
      omega
    have nonzero : ¬ (pos : Int) = 0 := by omega
    simp only [IntPc.next,if_neg nonzero,fatherPosition_cast _ lower]
  have fits := own.fits
  unfold FitsPlace at fits
  cases taken with
  | destroys pc before after => cases pc <;> contradiction
  | enter id place range =>
    cases inside
    have bound : ¬ (id < 0 ∨ id > (powordepth d : Int) - 1) := by
      obtain ⟨low,high⟩ := range
      rw [powordepth_eq]
      push_cast
      omega
    exact goes place rfl (.inr ⟨⟨-1,true⟩,if_neg bound⟩)
  | acquireLock id place | climb id pos place | releaseLock id place =>
    cases inside
    exact goes place rfl (.inl rfl)
  | acquireWait id place | vacant id place | acquireSet id place | acquireUnlock id place | releaseWait id place
  | last id pos place | down id pos outer rest place | releaseClear id place =>
    cases inside
    exact goes place rfl (.inr ⟨⟨-1,true⟩,rfl⟩)
  | taken id place =>
    cases inside
    exact goes place rfl (.inr ⟨⟨0,true⟩,rfl⟩)
  | acquireLeaf id place =>
    cases inside
    rw [place] at fits
    have range := own.ranged id fits
    refine goes place rfl (.inr ⟨⟨-1,true⟩,?_⟩)
    simp only [IntPc.next,leaf_cast allowed range,father_cast allowed range 0 (by omega),up_succ]
  | shared id pos place inner =>
    cases inside
    rw [place] at fits
    obtain ⟨mine,h,low,same⟩ := fits
    exact goes place rfl (.inr ⟨_,climbs (own.ranged id mine) low same inner⟩)
  | climbWait id pos place =>
    cases inside
    rw [place] at fits
    obtain ⟨mine,h,low,same⟩ := fits
    have inner := up_pos id h low
    exact goes place rfl (.inr ⟨_,climbs (own.ranged id mine) low.le same (by omega)⟩)
  | owns id place =>
    cases inside
    rw [place] at fits
    refine goes place rfl (.inr ⟨⟨self,true⟩,?_⟩)
    simp only [IntPc.next,leaf_cast allowed fits,ne_eq,not_true,if_false]
    rfl
  | disowns id place =>
    cases inside
    exact goes place rfl (.inr ⟨⟨self+1,true⟩,if_pos (show self+1 ≠ self by omega)⟩)
  | inner id pos stack place below | root id pos stack place below =>
    cases inside
    rw [place] at fits
    obtain ⟨mine,h,low,same,_⟩ := fits
    have cast := father_cast allowed (own.ranged id mine) h low.le
    rw [← same,up_succ,← same] at cast
    refine goes place rfl (.inr ⟨⟨-1,true⟩,?_⟩)
    simp [IntPc.next,cast,below]
  | stuck id pos stack place =>
    cases inside
    exact goes place rfl (.inr ⟨⟨-1,false⟩,rfl⟩)
  | _ => contradiction

/-- In every run of the tree each thread makes the steps of a call in ints. -/
theorem ints_reached (positive : 0 < d) (allowed : d ≤ 6) (self : Int) (reached : TreeReaches Apart (newTree T d) s)
    (u : T) (c : IntPc) (here : (s.pc u).ints = some c) :
    ∃ id first trace, Calls d id first ∧ CallReaches d self first ⟨c,trace⟩ := by
  have sound {s : TrnmntTree T} (reached : TreeReaches Apart (newTree T d) s) : Sound d s :=
    reached.invariant (Sound d) (.start T d) fun _ _ _ inv apart taken => inv.step positive apart taken
  induction reached generalizing c with
  | refl => contradiction
  | @tail s s' a reached apart taken held =>
    have inv := sound reached
    -- a call puts its thread at the first place and moves nobody else
    have called (t : T) (m : TrnmntTree T) (pc : TreePc) (id : Int) (places : m.pc = s.pc) (now : m.goto t pc = s')
        (starts : ∀ c, pc.ints = some c → Calls d id c) :
        ∃ id first trace, Calls d id first ∧ CallReaches d self first ⟨c,trace⟩ := by
      rw [← now] at here
      by_cases same : u = t
      · rw [same] at here
        have first : pc.ints = some c := by simpa [TrnmntTree.goto] using here
        exact ⟨id,c,[],starts c first,.refl⟩
      · have still : (m.goto t pc).pc u = s.pc u := by simp [TrnmntTree.goto,same,places]
        exact held c (still ▸ here)
    cases a with
    | acquire t id =>
      simp only [treeStep] at taken
      split at taken
      next =>
        refine called t _ (.acquire id) id ?_ (Option.some.inj taken) ?_
        · rfl
        · intro c first
          cases first
          exact .inl rfl
      next => contradiction
    | release t id =>
      simp only [treeStep] at taken
      split at taken
      next ready =>
        refine called t _ (.releaseLock id) id ?_ (Option.some.inj taken) ?_
        · rfl
        · intro c first
          cases first
          obtain ⟨_,low,high⟩ := ready
          rw [inv.whole apart.1,powordepth_eq] at high
          push_cast at high
          exact .inr ⟨rfl,low,high⟩
      next => contradiction
    | dealloc t =>
      simp only [treeStep] at taken
      split at taken
      next =>
        refine called t _ .deallocLock 0 rfl (Option.some.inj taken) ?_
        intro c first
        contradiction
      next => contradiction
    | run t =>
      obtain ⟨m,code,eq⟩ := Option.map_eq_some_iff.mp taken
      have places : s'.pc = m.pc := by
        rw [← eq]
        split <;> rfl
      rw [places] at here
      obtain ⟨seen,others⟩ := inv.code_view code
      by_cases same : u = t
      · subst u
        obtain ⟨c₀,start,waits | ⟨answer,goes⟩⟩ := seen.ints (inv.own t) allowed self here
        · exact held c (waits ▸ start)
        · obtain ⟨id,first,trace,calls,run⟩ := held c₀ start
          subst goes
          have running : intStep d self ⟨c₀,trace⟩ answer = some _ := if_neg (by simp [ints_running start])
          exact ⟨id,first,trace ++ (c₀.op self).toList,calls,.tail run trivial running⟩
      · have place : m.pc u = s.pc u := congrArg View.pc (others u same)
        exact held c (place ▸ here)

/-- A thread that has got the first of the two mutexes on its way. -/
theorem ints_reached_climb : ∃ id first trace, Calls 2 id first ∧ CallReaches 2 7 first ⟨.climb 0 1 0,trace⟩ := by
  obtain ⟨s,reached,place⟩ := Interleave.play_shows treeStep Apart (newTree Bool 2)
    (.acquire true 0 :: List.replicate 9 (.run true)) (fun s => s.pc true = .climb 0 1) (by decide +kernel)
  exact ints_reached (by decide) (by decide) 7 reached true _ (by rw [place]; rfl)

end Tree

/-- The trees that `trnmnt_tree_alloc` makes have depths 1 to 6. `acquire` of any id and `release` of an id of the
tree use only entries of the arrays and come to an end whatever other threads do, and `acquire` of another id
returns -1 and does nothing with the tree. `release` of another id reads outside of `threadMap`. -/
theorem tree_accesses_in_bounds (d : Nat) (positive : 0 < d) (allowed : d ≤ 6) (self id : Int) (first : IntPc)
    (called : first = .acquire id ∨ first = .releaseLock id) : (∀ c, CallReaches d self first c →
      (∀ op ∈ c.trace, op.Inside d) ∧
      (c.pc.ended = false → ∀ answer, ∃ c', intStep d self c answer = some c' ∧ c'.pc.left d < c.pc.left d) ∧
      (¬ InRange d id → (c.pc = first ∨ c.pc = .done (-1)) ∧ c.trace = [])) ↔
    (first = .releaseLock id → InRange d id) := by
  constructor
  · rintro safe rfl
    have taken : CallReaches d self (.releaseLock id) ⟨_,[.lockTree,.readMap id]⟩ :=
      .tail (.single ⟨0,true⟩ trivial rfl) trivial (show intStep d self _ ⟨0,true⟩ = some _ from rfl)
    obtain ⟨low,high⟩ := (safe _ taken).1 (.readMap id) (by simp)
    exact ⟨low,by omega⟩
  intro within c reached
  have proper : first.Proper d := by
    rcases called with rfl | rfl
    · trivial
    · exact within rfl
  obtain ⟨now,inside⟩ := proper_reached positive allowed proper reached
  refine ⟨inside,?_,?_⟩
  · intro running answer
    refine ⟨_,if_neg (by simp [running]),?_⟩
    exact IntPc.next_left positive allowed now self answer running
  · intro outside
    rcases called with rfl | rfl
    · exact outside_reached id outside reached
    · exact absurd (within rfl) outside

/-- `release` of the last id of a tree of depth 2 by its owner. -/
theorem tree_accesses_in_bounds_release : ∃ c, CallReaches 2 7 (.releaseLock 3) c ∧ c.pc = .done 0 ∧
    c.trace = [.lockTree,.readMap 3,.unlockNode 0,.unlockNode 2,.writeMap 3 (-1),.unlockTree] ∧
    ∀ op ∈ c.trace, op.Inside 2 := by
  obtain ⟨c,reached,ended,trace⟩ := Interleave.play_shows (intStep 2 7) (fun _ _ => True)
    (⟨.releaseLock 3,[]⟩ : TreeCall) (List.replicate 8 ⟨7,true⟩)
    (fun c => c.pc = .done 0 ∧
      c.trace = [.lockTree,.readMap 3,.unlockNode 0,.unlockNode 2,.writeMap 3 (-1),.unlockTree])
    (by decide +kernel)
  have safe := (tree_accesses_in_bounds 2 (by decide) (by decide) 7 3 _ (.inr rfl)).mpr fun _ => by decide
  exact ⟨c,reached,ended,trace,(safe c reached).1⟩

/-- `release` does not test its id. With 2 in a tree of depth 1 it reads behind `threadMap`; with -2, if the memory
before the array happens to hold the id of the caller, `release_rec` calls itself with -1 for ever. -/
theorem release_out_of_bounds :
    (∃ c, CallReaches 1 7 (.releaseLock 2) c ∧ .readMap 2 ∈ c.trace ∧ ¬ (TreeOp.readMap 2).Inside 1) ∧
    ∀ n, ∃ c, CallReaches 1 7 (.releaseLock (-2)) c ∧ c.pc = .releaseRec (-2) (-1) (List.replicate n (-1)) := by
  refine ⟨?_,?_⟩
  · obtain ⟨c,reached,shown⟩ := Interleave.play_shows (intStep 1 7) (fun _ _ => True)
      (⟨.releaseLock 2,[]⟩ : TreeCall) (List.replicate 2 ⟨7,true⟩) (fun c => .readMap 2 ∈ c.trace)
      (by decide +kernel)
    refine ⟨c,reached,shown,?_⟩
    rintro ⟨_,high⟩
    omega
  · intro n
    induction n with
    | zero =>
      exact Interleave.play_shows _ _ _ (List.replicate 2 ⟨7,true⟩) _ (by decide +kernel)
    | succ n ih =>
      obtain ⟨⟨pc,trace⟩,reached,rfl⟩ := ih
      have again : intStep 1 7 ⟨.releaseRec (-2) (-1) (List.replicate n (-1)),trace⟩ ⟨7,true⟩ = some _ := rfl
      exact ⟨_,.tail reached trivial again,rfl⟩

end Kthreads
