import Kthreads.Bio.Machine
import Kthreads.Lib.Refs
import Mathlib.Data.Fintype.Option

/-! The buffer cache is coherent: one buffer for each block, in one list, and what a caller reads is what was
last written. -/
open Function

namespace Kthreads.Bio

def holders {U : Type} (use : U → Option Use) (u : U) : Option Buf := (use u).map Use.buf

theorem holders_update {U : Type} [DecidableEq U] (use : U → Option Use) (u : U) (x : Option Use) :
    holders (update use u x) = update (holders use) u (x.map Use.buf) := by
  funext v
  by_cases here : v = u
  · simp [holders,here]
  · simp [holders,here]

structure Coherent {U C : Type} [Fintype U] (s : Cache U C) (latest : Nat → C) : Prop where
  linked : ∃ l, Chain.Double s.next s.prev head l ∧ ∀ i, some i ∈ l
  spare : s.dev head = 0
  single : ∀ b b', s.dev b = 1 → s.dev b' = 1 → s.blockno b = s.blockno b' → b = b'
  counts : ∀ b, s.refcnt b = Refs.count (holders s.use) b
  uses : ∀ u x, s.use u = some x → s.dev x.buf = 1 ∧ s.blockno x.buf = x.blockno
  held : ∀ u x, s.use u = some x → x.phase = .held → s.lock x.buf = some u ∧ s.valid x.buf = true
  cached : ∀ b, s.valid b = true → s.dev b = 1 ∧ s.blockno b < s.disksize
  pinned : ∀ b, s.dirty b = true → s.valid b = true
  content : ∀ b, s.valid b = true → s.data b = latest (s.blockno b)
  clean : ∀ n, s.disk n = latest n ∨ ∃ b, s.dirty b = true ∧ s.blockno b = n
  panic : ∀ p, s.panic = some p → p = .bgetNoBuffers ∨ p = .iderwBlockOutOfRange

theorem walk_all {links : Buf → Buf} {l : List Buf} (path : Chain.Path links head l head) (nodup : (head :: l).Nodup)
    (all : ∀ i, some i ∈ l) (wanted : Buf → Bool) :
    (∃ b, Chain.walk links head wanted (nbuf+1) (links head) = some b ∧ b ≠ head ∧ wanted b = true) ∨
    (Chain.walk links head wanted (nbuf+1) (links head) = none ∧ ∀ b, b ≠ head → wanted b = false) := by
  have length := nodup.length_le_card
  rw [Fintype.card_option,Fintype.card_fin,List.length_cons] at length
  have off := (List.nodup_cons.mp nodup).1
  rw [path.walk wanted off (by omega)]
  cases found : l.find? wanted with
  | some b =>
    refine .inl ⟨b,rfl,?_,List.find?_some found⟩
    rintro rfl
    exact off (List.mem_of_find?_eq_some found)
  | none =>
    refine .inr ⟨rfl,fun b other => ?_⟩
    cases b with
    | none => exact absurd rfl other
    | some i => simpa using List.find?_eq_none.mp found _ (all i)

section Links
variable {U C : Type} {s : Cache U C} {l : List Buf} {b : Buf}

theorem link_double (double : Chain.Double s.next s.prev head l) (fresh : b ∉ head :: l) :
    Chain.Double (s.link b).next (s.link b).prev head (b :: l) := by
  have other : head ≠ b := fun same => fresh (by simp [same])
  have linked := double.link fresh
  simp only [Cache.link,update_of_ne other]
  exact linked

theorem unlink_double {l₁ l₂ : List Buf} (double : Chain.Double s.next s.prev head (l₁ ++ b :: l₂)) :
    Chain.Double (s.unlink b).next (s.unlink b).prev head (l₁ ++ l₂) := by
  -- `b` is not its own neighbour, so that its link back is read unchanged
  have kept : update s.prev (s.next b) (s.prev b) b = s.prev b := by
    by_cases same : b = s.next b
    · rw [← same,update_self]
    · exact update_of_ne same ..
  have unlinked := double.unlink
  simp only [Cache.unlink,kept]
  exact unlinked

theorem refront (linked : ∃ l, Chain.Double s.next s.prev head l ∧ ∀ i, some i ∈ l) (other : b ≠ head) :
    ∃ l, Chain.Double ((s.unlink b).link b).next ((s.unlink b).link b).prev head l ∧ ∀ i, some i ∈ l := by
  obtain ⟨l,double,all⟩ := linked
  have member : b ∈ l := by
    cases b with
    | none => exact absurd rfl other
    | some i => exact all i
  obtain ⟨l₁,l₂,rfl⟩ := List.append_of_mem member
  have apart := double.nodup
  have fresh : b ∉ head :: (l₁ ++ l₂) := by
    simp only [List.nodup_cons,List.nodup_append,List.mem_append,List.mem_cons] at apart
    simp only [List.mem_cons,List.mem_append]
    rintro (same | inside | inside)
    · exact other same
    · exact apart.2.2.2 b inside b (.inl rfl) rfl
    · exact apart.2.2.1.1 inside
  refine ⟨b :: (l₁ ++ l₂),link_double (unlink_double double) fresh,fun i => ?_⟩
  have inside := all i
  simp only [List.mem_cons,List.mem_append] at inside ⊢
  tauto

end Links

namespace Coherent
variable {U C : Type} [Fintype U] {s : Cache U C} {latest : Nat → C}

theorem not_head (co : Coherent s latest) {b : Buf} (dev : s.dev b = 1) : b ≠ head := by
  rintro rfl
  rw [co.spare] at dev
  cases dev

theorem unused (co : Coherent s latest) {b : Buf} (zero : s.refcnt b = 0) {u : U} {x : Use} (use : s.use u = some x) :
    x.buf ≠ b := by
  rintro rfl
  have pos := (Refs.count_pos (holders s.use) x.buf).mpr ⟨u,by simp [holders,use]⟩
  rw [← co.counts] at pos
  omega

theorem panics {p : Panic} (co : Coherent s latest) (known : p = .bgetNoBuffers ∨ p = .iderwBlockOutOfRange) :
    Coherent {s with panic := some p} latest :=
  ⟨co.linked,co.spare,co.single,co.counts,co.uses,co.held,co.cached,co.pinned,co.content,co.clean,
    fun _ same => Option.some.inj same ▸ known⟩

variable {u : U} {b : Buf} {blockno : Nat}

theorem fill (co : Coherent s latest) (invalid : s.valid b = false) (dev : s.dev b = 1) (bound : s.blockno b < s.disksize) :
    Coherent {s with
      data := update s.data b (s.disk (s.blockno b))
      valid := update s.valid b true} latest := by
  refine ⟨co.linked,co.spare,co.single,co.counts,co.uses,?_,?_,?_,?_,co.clean,co.panic⟩
  · intro v x use held
    obtain ⟨lock,valid⟩ := co.held v x use held
    refine ⟨lock,?_⟩
    simp only [update_apply,valid,ite_self]
  · intro q valid
    simp only [update_apply] at valid
    split at valid
    next same =>
      subst same
      exact ⟨dev,bound⟩
    next => exact co.cached q valid
  · intro q dirty
    simp only [update_apply,co.pinned q dirty,ite_self]
  · intro q valid
    simp only [update_apply] at valid ⊢
    split
    next same =>
      subst same
      -- no buffer of this block is dirty, as this one would be it
      rcases co.clean (s.blockno q) with clean | ⟨p,dirty,block⟩
      · exact clean
      · have valid := co.pinned p dirty
        rw [co.single p q (co.cached p valid).1 dev block,invalid] at valid
        cases valid
    next different =>
      rw [if_neg different] at valid
      exact co.content q valid

theorem logWrite (co : Coherent s latest) (use : s.use u = some ⟨b,blockno,.held⟩) (c : C) :
    Coherent (s.logWrite b c) (update latest (s.blockno b) c) := by
  obtain ⟨_,valid⟩ := co.held u _ use rfl
  have dev := (co.cached b valid).1
  refine ⟨co.linked,co.spare,co.single,co.counts,co.uses,co.held,co.cached,?_,?_,?_,co.panic⟩
  · intro q dirty
    simp only [Cache.logWrite,update_apply] at dirty
    split at dirty
    next same => exact same ▸ valid
    next => exact co.pinned q dirty
  · intro q valid
    simp only [Cache.logWrite,update_apply] at valid ⊢
    by_cases same : q = b
    · simp [same]
    · have apart : s.blockno q ≠ s.blockno b := fun block => same (co.single q b (co.cached q valid).1 dev block)
      simp only [if_neg same,if_neg apart]
      exact co.content q valid
  · intro n
    simp only [Cache.logWrite,update_apply]
    by_cases here : n = s.blockno b
    · exact .inr ⟨b,by simp,here.symm⟩
    · rw [if_neg here]
      rcases co.clean n with same | ⟨q,dirty,block⟩
      · exact .inl same
      · exact .inr ⟨q,by simp [dirty],block⟩

theorem flush (co : Coherent s latest) (dirty : s.dirty b = true) :
    Coherent {s with
      dirty := update s.dirty b false
      disk := update s.disk (s.blockno b) (s.data b)
      valid := update s.valid b true} latest := by
  have valid := co.pinned b dirty
  have same : update s.valid b true = s.valid := by rw [← valid,update_eq_self]
  rw [same]
  refine ⟨co.linked,co.spare,co.single,co.counts,co.uses,co.held,co.cached,?_,co.content,?_,co.panic⟩
  · intro q dirty
    simp only [update_apply] at dirty
    split at dirty
    · cases dirty
    · exact co.pinned q dirty
  · intro n
    simp only [update_apply]
    by_cases here : n = s.blockno b
    · rw [if_pos here,here]
      exact .inl (co.content b valid)
    · rw [if_neg here]
      rcases co.clean n with same | ⟨q,dirty,block⟩
      · exact .inl same
      · have different : q ≠ b := by
          rintro rfl
          exact here block.symm
        exact .inr ⟨q,by simp [different,dirty],block⟩

variable [DecidableEq U]

section
variable (co : Coherent s latest)
include co

theorem hit (fresh : s.use u = none) (dev : s.dev b = 1) (block : s.blockno b = blockno) : Coherent {s with
      refcnt := update s.refcnt b (s.refcnt b+1)
      use := update s.use u (some ⟨b,blockno,.got⟩)} latest := by
  refine ⟨co.linked,co.spare,co.single,?_,?_,?_,co.cached,co.pinned,co.content,co.clean,co.panic⟩
  · intro q
    rw [holders_update,Option.map_some,Refs.count_take u b q (by simp [holders,fresh]),← co.counts]
    simp only [update_apply]
    split
    next same => rw [same]
    next => rfl
  · intro v x use
    simp only [update_apply] at use
    split at use
    · cases use
      exact ⟨dev,block⟩
    · exact co.uses v x use
  · intro v x use phase
    simp only [update_apply] at use
    split at use
    · cases use
      cases phase
    · exact co.held v x use phase

theorem recycle (fresh : s.use u = none) (other : b ≠ head) (zero : s.refcnt b = 0)
    (clean : s.dirty b = false) (apart : ∀ q, s.dev q = 1 → s.blockno q ≠ blockno) :
    Coherent {s with
      dev := update s.dev b 1
      blockno := update s.blockno b blockno
      valid := update s.valid b false
      dirty := update s.dirty b false
      refcnt := update s.refcnt b 1
      use := update s.use u (some ⟨b,blockno,.got⟩)} latest := by
  refine ⟨co.linked,(update_of_ne (Ne.symm other) ..).trans co.spare,?_,?_,?_,?_,?_,?_,?_,?_,co.panic⟩
  · intro p q
    simp only [update_apply]
    split
    next left =>
      split
      next right => exact fun _ _ _ => left.trans right.symm
      next => exact fun _ dev block => absurd block.symm (apart q dev)
    next =>
      split
      next => exact fun dev _ block => absurd block (apart p dev)
      next => exact co.single p q
  · intro q
    rw [holders_update,Option.map_some,Refs.count_take u b q (by simp [holders,fresh]),← co.counts]
    simp only [update_apply]
    split
    next same => rw [same,zero]
    next => rfl
  · intro v x use
    simp only [update_apply] at use ⊢
    split at use
    · cases use
      simp
    · rw [if_neg (co.unused zero use),if_neg (co.unused zero use)]
      exact co.uses v x use
  · intro v x use phase
    simp only [update_apply] at use ⊢
    split at use
    · cases use
      cases phase
    · rw [if_neg (co.unused zero use)]
      exact co.held v x use phase
  · intro q valid
    simp only [update_apply] at valid ⊢
    split at valid
    · cases valid
    next different => simpa only [if_neg different] using co.cached q valid
  · intro q dirty
    simp only [update_apply] at dirty ⊢
    split at dirty
    · cases dirty
    next different => simpa only [if_neg different] using co.pinned q dirty
  · intro q valid
    simp only [update_apply] at valid ⊢
    split at valid
    · cases valid
    next different => simpa only [if_neg different] using co.content q valid
  · intro n
    rcases co.clean n with same | ⟨q,dirty,block⟩
    · exact .inl same
    · have different : q ≠ b := by
        rintro rfl
        rw [clean] at dirty
        cases dirty
      exact .inr ⟨q,by simpa [different] using dirty,by simpa [different] using block⟩

theorem bget (fresh : s.use u = none) : Coherent (s.settle (s.bget u 1 blockno)) latest := by
  obtain ⟨l,double,all⟩ := co.linked
  unfold Cache.bget
  rcases walk_all double.forward double.nodup all (fun b => s.dev b == 1 && s.blockno b == blockno) with
    ⟨b,found,_,hit⟩ | ⟨missed,absent⟩
  · obtain ⟨dev,block⟩ : s.dev b = 1 ∧ s.blockno b = blockno := by simpa using hit
    rw [found]
    exact co.hit fresh dev block
  · rw [missed]
    rcases walk_all double.backward double.nodup_reverse (fun i => by simpa using all i)
      (fun b => s.refcnt b == 0 && !s.dirty b) with ⟨b,found,other,free⟩ | ⟨full,_⟩
    · obtain ⟨zero,clean⟩ : s.refcnt b = 0 ∧ s.dirty b = false := by simpa using free
      simp only [found]
      refine co.recycle fresh other zero clean fun q dev block => ?_
      have different := absent q (co.not_head dev)
      simp [dev,block] at different
    · simp only [full]
      exact co.panics (.inl rfl)

theorem advance {phase phase' : Phase} (use : s.use u = some ⟨b,blockno,phase⟩)
    (lock : Buf → Option U) (kept : ∀ v x, v ≠ u → s.use v = some x → x.phase = .held → lock x.buf = some v)
    (mine : phase' = .held → lock b = some u ∧ s.valid b = true) :
    Coherent {s with lock := lock, use := update s.use u (some ⟨b,blockno,phase'⟩)} latest := by
  refine ⟨co.linked,co.spare,co.single,?_,?_,?_,co.cached,co.pinned,co.content,co.clean,co.panic⟩
  · intro q
    have mine : holders s.use u = some b := by simp [holders,use]
    rw [holders_update,Option.map_some,← mine,update_eq_self]
    exact co.counts q
  · intro v x other
    simp only [update_apply] at other
    split at other
    · cases other
      exact co.uses u ⟨b,blockno,phase⟩ use
    · exact co.uses v x other
  · intro v x other held
    simp only [update_apply] at other
    split at other
    next here =>
      cases other
      exact here ▸ mine held
    next different => exact ⟨kept v x different other held,(co.held v x other held).2⟩

theorem enter (use : s.use u = some ⟨b,blockno,.got⟩) (free : s.lock b = none) :
    Coherent (s.settle (s.enter u b blockno)) latest := by
  obtain ⟨dev,block⟩ := co.uses u _ use
  have kept (v : U) (x : Use) (_ : v ≠ u) (other : s.use v = some x) (held : x.phase = .held) :
      update s.lock b (some u) x.buf = some v := by
    have lock := (co.held v x other held).1
    have different : x.buf ≠ b := by
      intro same
      rw [same,free] at lock
      cases lock
    rw [update_of_ne different]
    exact lock
  unfold Cache.enter
  dsimp only
  split
  next valid => exact co.advance use _ kept fun _ => ⟨update_self ..,valid⟩
  next invalid =>
    have invalid : s.valid b = false := by simpa using invalid
    have undirty : s.dirty b = false := by
      cases dirty : s.dirty b with
      | false => rfl
      | true => exact absurd (co.pinned b dirty) (by simp [invalid])
    simp only [Cache.iderw,update_self,ne_eq,not_true,if_false,invalid,undirty,dev,Bool.false_eq_true,false_and]
    split
    · exact co.panics (.inr rfl)
    next inside =>
      have filled := co.fill invalid dev (by simpa using inside)
      exact filled.advance (b := b) use _
        (fun v x different other held => kept v x different other held)
        fun _ => ⟨update_self ..,update_self ..⟩

theorem bwrite (use : s.use u = some ⟨b,blockno,.held⟩) (c : C) :
    ∃ s', s.bwrite u b c = .ok s' ∧ Coherent s' (update latest (s.blockno b) c) := by
  obtain ⟨lock,valid⟩ := co.held u _ use rfl
  obtain ⟨dev,bound⟩ := co.cached b valid
  have flushed := (co.logWrite use c).flush (b := b) (by simp [Cache.logWrite])
  refine ⟨_,?_,flushed⟩
  unfold Cache.bwrite
  rw [if_neg (by simp [lock])]
  change (s.logWrite b c).iderw u b = _
  have dirty : (s.logWrite b c).dirty b = true := update_self ..
  have lock : (s.logWrite b c).lock b = some u := lock
  have dev : (s.logWrite b c).dev b = 1 := dev
  have bound : ¬(s.logWrite b c).disksize ≤ (s.logWrite b c).blockno b := Nat.not_le.mpr bound
  simp only [Cache.iderw,lock,dirty,dev,bound,ne_eq,not_true,if_false,if_true,Bool.true_eq_false,and_false]

theorem releasesleep (use : s.use u = some ⟨b,blockno,.held⟩) :
    ∃ s', s.releasesleep u b blockno = .ok s' ∧ Coherent s' latest := by
  obtain ⟨lock,_⟩ := co.held u _ use rfl
  refine ⟨_,if_neg (by simp [lock]),co.advance use _ ?_ fun held => by cases held⟩
  intro v x different other held
  have theirs := (co.held v x other held).1
  have apart : x.buf ≠ b := by
    intro same
    rw [same,lock] at theirs
    exact different (Option.some.inj theirs).symm
  rw [update_of_ne apart]
  exact theirs

theorem brelse (use : s.use u = some ⟨b,blockno,.dropped⟩) : Coherent (s.brelse u b) latest := by
  obtain ⟨dev,_⟩ := co.uses u _ use
  have counts (q : Buf) : update s.refcnt b (s.refcnt b-1) q =
      Refs.count (holders (update s.use u none)) q := by
    have before := co.counts q
    rw [Refs.count_drop u b q (by simp [holders,use])] at before
    rw [holders_update,Option.map_none,update_apply]
    split
    next same =>
      rw [← same,before,if_pos same]
      rfl
    next different => rw [before,if_neg different,Nat.add_zero]
  have uses (v : U) (x : Use) (other : update s.use u none v = some x) : s.use v = some x := by
    rw [update_apply] at other
    split at other
    · cases other
    · exact other
  unfold Cache.brelse
  dsimp only
  split
  · refine ⟨?_,co.spare,co.single,counts,fun v x other => co.uses v x (uses v x other),
      fun v x other => co.held v x (uses v x other),co.cached,co.pinned,co.content,co.clean,co.panic⟩
    exact refront (s := {s with
      refcnt := update s.refcnt b (s.refcnt b-1), use := update s.use u none})
      co.linked (co.not_head dev)
  · exact ⟨co.linked,co.spare,co.single,counts,fun v x other => co.uses v x (uses v x other),
      fun v x other => co.held v x (uses v x other),co.cached,co.pinned,co.content,co.clean,co.panic⟩

end

end Coherent

section Boot
variable {U C : Type}

theorem foldl_link (bs : List Buf) {s : Cache U C} {l : List Buf} (double : Chain.Double s.next s.prev head l)
    (nodup : bs.Nodup) (fresh : ∀ b ∈ bs, b ∉ head :: l) :
    ∃ next prev, bs.foldl Cache.link s = {s with next := next, prev := prev} ∧
      Chain.Double next prev head (bs.reverse ++ l) := by
  induction bs generalizing s l with
  | nil => exact ⟨s.next,s.prev,rfl,double⟩
  | cons b bs ih =>
    obtain ⟨apart,nodup⟩ := List.nodup_cons.mp nodup
    have linked := link_double double (fresh b (by simp))
    obtain ⟨next,prev,folded,double⟩ := ih linked nodup (by
      intro q member
      have outside := fresh q (by simp [member])
      simp only [List.mem_cons,not_or] at outside ⊢
      exact ⟨outside.1,fun same => apart (same ▸ member),outside.2⟩)
    refine ⟨next,prev,?_,by simpa using double⟩
    rw [List.foldl_cons,folded]
    rfl

variable [Fintype U]

theorem Coherent.boot (disk : Nat → C) (disksize : Nat) (data : Buf → C) :
    Coherent ((Cache.start disk disksize data).binit : Cache U C) disk := by
  obtain ⟨next,prev,folded,double⟩ := foldl_link (s := {(Cache.start disk disksize data : Cache U C) with
      prev := update (fun _ => head) head head, next := update (fun _ => head) head head})
    ((List.finRange nbuf).map some) (l := []) (.empty _ _ rfl rfl)
    ((List.nodup_finRange nbuf).map (Option.some_injective _)) (by simp [head])
  have started : ((Cache.start disk disksize data).binit : Cache U C) =
      {(Cache.start disk disksize data : Cache U C) with next := next, prev := prev} := folded
  rw [started]
  refine ⟨⟨_,double,by simp⟩,rfl,?_,?_,?_,?_,?_,?_,?_,fun _ => .inl rfl,?_⟩
  · intro _ _ dev
    cases dev
  · exact fun b => (Refs.count_none b).symm
  · intro _ _ use
    cases use
  · intro _ _ use
    cases use
  · intro _ valid
    cases valid
  · intro _ dirty
    cases dirty
  · intro _ valid
    cases valid
  · intro _ panic
    cases panic

end Boot

section Steps
variable {U C : Type} {s s' : Cache U C}

structure Keeps (s s' : Cache U C) (b : Buf) : Prop where
  dev : s'.dev b = s.dev b
  blockno : s'.blockno b = s.blockno b
  valid : s.valid b = true → s'.valid b = true

theorem keeps_settle {r : Except Panic (Cache U C)} {b : Buf} (done : ∀ s', r = .ok s' → Keeps s s' b) :
    Keeps s (s.settle r) b := by
  cases r with
  | ok s' => exact done s' rfl
  | error => exact ⟨rfl,rfl,id⟩

def Run.latest (disk : Nat → C) (r : Run U C) (n : Nat) : C := (r.put n).getD (disk n)

theorem latest_update (disk : Nat → C) (s : Cache U C) (put : Nat → Option C) (n : Nat) (c : C) :
    Run.latest disk ⟨s,update put n (some c)⟩ = update (Run.latest disk ⟨s,put⟩) n c := by
  funext m
  by_cases here : m = n
  · simp [Run.latest,here]
  · simp [Run.latest,here]

variable [DecidableEq U]

theorem step_cases {a : Action U C} (taken : s.step a = some s') :
    (∃ u blockno, a = .bget u blockno ∧ s.use u = none ∧ s' = s.settle (s.bget u 1 blockno)) ∨
    (∃ u b blockno, a = .enter u ∧ s.use u = some ⟨b,blockno,.got⟩ ∧ s.lock b = none ∧
      s' = s.settle (s.enter u b blockno)) ∨
    (∃ u c b blockno, a = .logWrite u c ∧ s.use u = some ⟨b,blockno,.held⟩ ∧ s' = s.logWrite b c) ∨
    (∃ u c b blockno, a = .bwrite u c ∧ s.use u = some ⟨b,blockno,.held⟩ ∧ s' = s.settle (s.bwrite u b c)) ∨
    (∃ u b blockno, a = .releasesleep u ∧ s.use u = some ⟨b,blockno,.held⟩ ∧
      s' = s.settle (s.releasesleep u b blockno)) ∨
    ∃ u b blockno, a = .brelse u ∧ s.use u = some ⟨b,blockno,.dropped⟩ ∧ s' = s.brelse u b := by
  unfold Cache.step at taken
  split at taken
  · cases a with
    | bget u blockno =>
      simp only [Option.isNone_iff_eq_none] at taken
      split at taken
      next fresh => exact .inl ⟨u,blockno,rfl,fresh,(Option.some.inj taken).symm⟩
      next => cases taken
    | enter u =>
      simp only at taken
      split at taken
      next b blockno use =>
        split at taken
        next free => exact .inr (.inl ⟨u,b,blockno,rfl,use,free,(Option.some.inj taken).symm⟩)
        next => cases taken
      next => cases taken
    | logWrite u c =>
      simp only at taken
      split at taken
      next b blockno use => exact .inr (.inr (.inl ⟨u,c,b,blockno,rfl,use,(Option.some.inj taken).symm⟩))
      next => cases taken
    | bwrite u c =>
      simp only at taken
      split at taken
      next b blockno use => exact .inr (.inr (.inr (.inl ⟨u,c,b,blockno,rfl,use,(Option.some.inj taken).symm⟩)))
      next => cases taken
    | releasesleep u =>
      simp only at taken
      split at taken
      next b blockno use => exact .inr (.inr (.inr (.inr (.inl ⟨u,b,blockno,rfl,use,(Option.some.inj taken).symm⟩))))
      next => cases taken
    | brelse u =>
      simp only at taken
      split at taken
      next b blockno use => exact .inr (.inr (.inr (.inr (.inr ⟨u,b,blockno,rfl,use,(Option.some.inj taken).symm⟩))))
      next => cases taken
  · cases taken

theorem iderw_keeps {u : U} {b : Buf} (done : s.iderw u b = .ok s') (q : Buf) : Keeps s s' q := by
  have valid : s.valid q = true → update s.valid b true q = true := by
    intro valid
    rw [update_apply,valid,ite_self]
  unfold Cache.iderw at done
  split at done
  · cases done
  split at done
  · cases done
  split at done
  · cases done
  split at done
  · cases done
  split at done
  · cases done
    exact ⟨rfl,rfl,valid⟩
  · cases done
    exact ⟨rfl,rfl,valid⟩

theorem bget_keeps {u : U} {dev blockno : Nat} (done : s.bget u dev blockno = .ok s') {b : Buf}
    (busy : 0 < s.refcnt b ∨ s.dirty b = true) : Keeps s s' b := by
  unfold Cache.bget at done
  split at done
  · cases done
    exact ⟨rfl,rfl,id⟩
  · split at done
    next q found =>
      obtain ⟨zero,clean⟩ : s.refcnt q = 0 ∧ s.dirty q = false := by simpa using Chain.walk_wanted found
      have other : b ≠ q := by
        rintro rfl
        rcases busy with counted | dirty
        · omega
        · rw [clean] at dirty
          cases dirty
      cases done
      exact ⟨update_of_ne other ..,update_of_ne other ..,fun valid =>
        (update_of_ne other ..).trans valid⟩
    · cases done

theorem step_keeps {a : Action U C} (taken : s.step a = some s') {b : Buf}
    (busy : 0 < s.refcnt b ∨ s.dirty b = true) : Keeps s s' b := by
  rcases step_cases taken with ⟨u,blockno,_,_,rfl⟩ | ⟨u,q,blockno,_,_,_,rfl⟩ | ⟨u,c,q,blockno,_,_,rfl⟩ |
    ⟨u,c,q,blockno,_,_,rfl⟩ | ⟨u,q,blockno,_,_,rfl⟩ | ⟨u,q,blockno,_,_,rfl⟩
  · exact keeps_settle fun s' done => bget_keeps done busy
  · refine keeps_settle fun s' done => ?_
    unfold Cache.enter at done
    dsimp only at done
    split at done
    · cases done
      exact ⟨rfl,rfl,id⟩
    · obtain ⟨dev,block,valid⟩ := iderw_keeps done b
      exact ⟨dev,block,valid⟩
  · exact ⟨rfl,rfl,id⟩
  · refine keeps_settle fun s' done => ?_
    unfold Cache.bwrite at done
    split at done
    · cases done
    · obtain ⟨dev,block,valid⟩ := iderw_keeps done b
      exact ⟨dev,block,valid⟩
  · refine keeps_settle fun s' done => ?_
    unfold Cache.releasesleep at done
    split at done
    · cases done
    · cases done
      exact ⟨rfl,rfl,id⟩
  · unfold Cache.brelse
    dsimp only
    split
    · exact ⟨rfl,rfl,id⟩
    · exact ⟨rfl,rfl,id⟩

variable [Fintype U] {disk : Nat → C} {r r' : Run U C}

theorem Coherent.step {a : Action U C} (co : Coherent r.cache (r.latest disk)) (taken : r.step a = some r') :
    Coherent r'.cache (r'.latest disk) := by
  obtain ⟨s',moved,rfl⟩ := Option.map_eq_some_iff.mp taken
  rcases step_cases moved with ⟨u,blockno,rfl,fresh,rfl⟩ | ⟨u,b,blockno,rfl,use,free,rfl⟩ |
    ⟨u,c,b,blockno,rfl,use,rfl⟩ | ⟨u,c,b,blockno,rfl,use,rfl⟩ | ⟨u,b,blockno,rfl,use,rfl⟩ | ⟨u,b,blockno,rfl,use,rfl⟩
  · exact co.bget fresh
  · exact co.enter use free
  · simp only [Cache.puts,use,Option.map_some,latest_update]
    exact co.logWrite use c
  · simp only [Cache.puts,use,Option.map_some,latest_update]
    obtain ⟨s',done,after⟩ := co.bwrite use c
    rw [done]
    exact after
  · obtain ⟨s',done,after⟩ := co.releasesleep use
    simp only [done]
    exact after
  · exact co.brelse use

theorem Coherent.reached {disksize : Nat} {data : Buf → C} (run : Reaches disk disksize data r) :
    Coherent r.cache (r.latest disk) :=
  Interleave.Reaches.invariant (fun r => Coherent r.cache (r.latest disk)) run (.boot disk disksize data)
    fun _ _ _ co _ taken => co.step taken

/-- After `binit`, whatever blocks the callers read and write. -/
theorem bcache_coherent {disksize : Nat} {data : Buf → C} (run : Reaches disk disksize data r) :
    (∃ l, Chain.Double r.cache.next r.cache.prev head l ∧ ∀ i, some i ∈ l) ∧
    (∀ b b', r.cache.dev b = 1 → r.cache.dev b' = 1 → r.cache.blockno b = r.cache.blockno b' → b = b') ∧
    (∀ a r', r.step a = some r' → ∀ b, 0 < r.cache.refcnt b ∨ r.cache.dirty b = true → Keeps r.cache r'.cache b) ∧
    ∀ u b n, r.cache.use u = some ⟨b,n,.held⟩ →
      r.cache.dev b = 1 ∧ r.cache.blockno b = n ∧ r.cache.lock b = some u ∧
      r.cache.data b = (r.put n).getD (disk n) := by
  have co := Coherent.reached run
  refine ⟨co.linked,co.single,?_,?_⟩
  · intro a r' taken b busy
    obtain ⟨s',moved,rfl⟩ := Option.map_eq_some_iff.mp taken
    exact step_keeps moved busy
  · intro u b n use
    obtain ⟨dev,block⟩ := co.uses u _ use
    obtain ⟨lock,valid⟩ := co.held u _ use rfl
    have content := co.content b valid
    rw [show r.cache.blockno b = n from block] at content
    exact ⟨dev,block,lock,content⟩

/-- A block is written, given up, and read again while another one is held. -/
theorem bcache_coherent_again : ∃ r : Run Bool Nat, Reaches (fun _ => 0) 10 (fun _ => 0) r ∧
    r.cache.use true = some ⟨some 0,5,.held⟩ ∧ r.cache.use false = some ⟨some 1,6,.held⟩ ∧ r.cache.data (some 0) = 7 := by
  obtain ⟨r,run,first,second,put⟩ := Interleave.play_shows Run.step (fun _ _ => True)
    (⟨(Cache.start (fun _ => 0) 10 (fun _ => 0)).binit,fun _ => none⟩ : Run Bool Nat)
    ([.bget true 5,.enter true,.bwrite true 7,.releasesleep true,.bget false 6,.enter false,.brelse true,
      .bget true 5,.enter true] : List (Action Bool Nat))
    (fun r => r.cache.use true = some ⟨some 0,5,.held⟩ ∧ r.cache.use false = some ⟨some 1,6,.held⟩ ∧ r.put 5 = some 7)
    (by decide +kernel)
  have content := ((bcache_coherent run).2.2.2 true (some 0) 5 first).2.2.2
  rw [put] at content
  exact ⟨r,run,first,second,content⟩

end Steps

end Kthreads.Bio
