import Kthreads.Console.Machine

/-! The line discipline. A terminal has a line that is being edited, the characters that are committed and not yet
consumed, and those that are; the console shows such a terminal in a ring. -/
open Function

namespace Kthreads

/-- What a read takes: the characters that it consumes, what it has got then, and whether it has ended. -/
structure Taken where
  consumed : List UInt8
  got : List UInt8
  ended : Bool

/-- A read that has `got` bytes and wants `n` more. It ends at a newline; it ends at a control-D too, and consumes it
only if it has got nothing. -/
def take : Nat → List UInt8 → List UInt8 → Taken
  | 0,got,_ => ⟨[],got,true⟩
  | _+1,got,[] => ⟨[],got,false⟩
  | n+1,got,c :: ready =>
    if c = ctrl 'D' then ⟨if got = [] then [c] else [],got,true⟩
    else if c = 10 then ⟨[c],got ++ [c],true⟩
    else
      let rest := take n (got ++ [c]) ready
      {rest with consumed := c :: rest.consumed}

/-- `delivered` has the bytes that readers have got, in this order. -/
structure Tty (U : Type) where
  consumed : List UInt8
  ready : List UInt8
  line : List UInt8
  delivered : List (U × UInt8)
  readers : Readers U

namespace Tty
variable {U : Type} [DecidableEq U] (t : Tty U)

/-- A character is added to the line, which a newline, control-D or a full buffer commits. -/
def type (c : UInt8) : Tty U :=
  if c = 10 ∨ c = ctrl 'D' ∨ t.ready.length+(t.line.length+1) = inputBuf then
    {t with ready := t.ready ++ (t.line ++ [c]), line := []}
  else {t with line := t.line ++ [c]}

def key (c : UInt8) : Tty U :=
  if c = ctrl 'P' then t
  else if c = ctrl 'U' then {t with line := []}
  else if c = ctrl 'H' ∨ c = 127 then {t with line := t.line.dropLast}
  else if c ≠ 0 ∧ t.ready.length+t.line.length < inputBuf then t.type (if c = 13 then 10 else c)
  else t

def read (u : U) (target : Int) (n : Nat) (got : List UInt8) : Tty U :=
  let taken := take n got t.ready
  {t with
    consumed := t.consumed ++ taken.consumed
    ready := t.ready.drop taken.consumed.length
    delivered := t.delivered ++ (taken.got.drop got.length).map (u,·)
    readers :=
      if taken.ended then t.readers.ret u ⟨target,taken.got⟩ taken.got.length
      else t.readers.sleep u ⟨target,taken.got⟩}

def step (t : Tty U) : ConsoleEvent U → Tty U
  | .intr cs => cs.foldl key t
  | .read u target => if (t.readers.sleeping u).isNone then t.read u target target.toNat [] else t
  | .run u =>
    match t.readers.sleeping u with
    | some call => t.read u call.target (call.target.toNat-call.got.length) call.got
    | none => t
  | .kill u => {t with readers := {t.readers with killed := update t.readers.killed u true}}

def boot : Tty U := ⟨[],[],[],[],fun _ => false,fun _ => none,[]⟩

end Tty

/-- What a reader has got, by the calls that have returned and by one that sleeps. -/
def Readers.gotten {U : Type} [DecidableEq U] (readers : Readers U) (u : U) : List UInt8 :=
  (readers.returned.filter (·.1 = u)).flatMap (·.2.1.got) ++ ((readers.sleeping u).map ReadCall.got).getD []

structure Tty.Sound {U : Type} [DecidableEq U] (t : Tty U) : Prop where
  fits : t.ready.length+t.line.length ≤ inputBuf
  unended : 10 ∉ t.line
  sleeps : ∀ u call, t.readers.sleeping u = some call → call.got.length ≤ call.target.toNat
  bytes : t.delivered.map Prod.snd = t.consumed.filter (· ≠ ctrl 'D')
  share : ∀ u, (t.delivered.filter (·.1 = u)).map Prod.snd = t.readers.gotten u
  results : ∀ x ∈ t.readers.returned, x.2.2 = x.2.1.got.length ∨ x.2.2 = -1 ∧ t.readers.killed x.1 = true

/-- The ring has what is committed up to `w` and the line up to `e`. -/
structure Shows {U : Type} (s : Console U) (t : Tty U) : Prop where
  ring : Ring.Holds (2^32) s.buf s.r s.e t.consumed (t.ready ++ t.line)
  mark : s.w = (t.consumed.length+t.ready.length) % 2^32
  readers : s.readers = t.readers

variable {U : Type} {s : Console U} {t : Tty U} {c : UInt8}

theorem input_divides : inputBuf ∣ 2^32 := ⟨2^25,by decide⟩

namespace Shows
variable (shows : Shows s t)
include shows

theorem line_empty : s.e = s.w ↔ t.line = [] := by
  have holds := shows.ring.back
  rw [← shows.mark] at holds
  rw [← holds.empty_iff (by decide)]
  exact eq_comm

theorem ready_empty : s.r = s.w ↔ t.ready = [] := by
  have holds := shows.ring.front
  rw [← shows.mark] at holds
  exact holds.empty_iff (by decide)

theorem erase {l : List UInt8} (last : t.line = l ++ [c]) : Shows s.erase {t with line := l} := by
  have ring := shows.ring
  rw [last,← List.append_assoc] at ring
  have older := (ring.untake input_divides (by decide)).2
  unfold Console.erase
  exact ⟨older,shows.mark,shows.readers⟩

theorem killLine (n : Nat) (enough : t.line.length ≤ n) (unended : 10 ∉ t.line) :
    Shows (s.killLine n) {t with line := []} := by
  induction n generalizing s t with
  | zero =>
    have empty := List.eq_nil_of_length_eq_zero (Nat.le_zero.mp enough)
    rw [← empty]
    exact shows
  | succ n ih =>
    rcases List.eq_nil_or_concat t.line with empty | ⟨l,c,last⟩
    · unfold Console.killLine
      rw [if_neg (fun test => test.1 (shows.line_empty.mpr empty)),← empty]
      exact shows
    · rw [List.concat_eq_append] at last
      have ring := shows.ring
      rw [last,← List.append_assoc] at ring
      have newest := (ring.untake input_divides (by decide)).1
      rw [last] at unended enough
      unfold Console.killLine
      rw [if_pos]
      · refine ih (t := {t with line := l}) (shows.erase last) ?_ ?_
        · simpa using enough
        · intro member
          exact unended (List.mem_append_left _ member)
      · refine ⟨fun same => ?_,?_⟩
        · rw [shows.line_empty.mp same] at last
          simp at last
        · rw [newest]
          rintro rfl
          simp at unended

theorem store (room : t.ready.length+t.line.length < inputBuf) (c : UInt8) : Shows (s.store c) (t.type c) := by
  have ring := shows.ring.put input_divides (by rwa [List.length_append]) c
  rw [List.append_assoc] at ring
  have full := ring.full_iff (by decide)
  have next := ring.next
  simp only [List.length_append,List.length_singleton] at full next
  unfold Console.store Tty.type
  simp only [full]
  split
  · refine ⟨by rwa [List.append_nil],?_,shows.readers⟩
    simpa using next
  · exact ⟨ring,shows.mark,shows.readers⟩

variable [DecidableEq U]

theorem key (sound : t.Sound) (c : UInt8) : Shows (s.key c) (t.key c) := by
  have used := shows.ring.used (by decide)
  have line := shows.ring.back.used (by decide)
  rw [← shows.mark] at line
  rw [List.length_append] at used
  unfold Console.key Tty.key
  rw [used]
  split
  · exact shows
  · split
    · exact shows.killLine _ (by rw [line]) sound.unended
    · split
      · rcases List.eq_nil_or_concat t.line with empty | ⟨l,c,last⟩
        · rw [if_neg (not_not.mpr (shows.line_empty.mpr empty)),empty,List.dropLast_nil,← empty]
          exact shows
        · rw [List.concat_eq_append] at last
          rw [if_pos,last,List.dropLast_concat]
          · exact shows.erase last
          · intro same
            rw [shows.line_empty.mp same] at last
            simp at last
      · split
        next room => exact shows.store room.2 _
        next => exact shows

theorem readLoop (u : U) (target : Int) (n : Nat) (got : List UInt8) (whole : n+got.length = target.toNat) :
    Shows (s.readLoop u target n got) (t.read u target n got) := by
  have readers := shows.readers
  induction n generalizing s t got with
  | zero =>
    unfold Console.readLoop Tty.read take
    exact ⟨by simpa using shows.ring,by simpa using shows.mark,by simp [readers]⟩
  | succ n ih =>
    unfold Console.readLoop
    by_cases empty : s.r = s.w
    · rw [if_pos empty,Tty.read,shows.ready_empty.mp empty]
      refine ⟨?_,?_,by simp [readers,take]⟩
      · simpa [take,shows.ready_empty.mp empty] using shows.ring
      · simpa [take,shows.ready_empty.mp empty] using shows.mark
    · rw [if_neg empty]
      obtain ⟨c,rest,ready⟩ := List.exists_cons_of_ne_nil (fun none => empty (shows.ready_empty.mpr none))
      have ring := shows.ring
      have mark := shows.mark
      rw [ready] at ring
      rw [ready,List.length_cons] at mark
      obtain ⟨oldest,after⟩ := ring.take input_divides
      have further : s.w = ((t.consumed ++ [c]).length+rest.length) % 2^32 := by
        rw [mark,List.length_append,List.length_singleton]
        congr 1
        omega
      simp only [oldest]
      split
      next last =>
        rw [Tty.read,ready,take,if_pos last]
        by_cases none : got = []
        · subst none
          rw [if_neg (by simp at whole; omega)]
          exact ⟨by simpa using after,by simpa using further,by simp [readers]⟩
        · have more : ((n+1 : Nat) : Int) < target := by
            have := List.length_pos_iff.mpr none
            omega
          -- The decrement takes the increment back.
          have back : ((s.r+1) % 2^32+2^32-1) % 2^32 = s.r := by
            have first := ring.first
            omega
          rw [if_pos more,if_neg none]
          simp only [back]
          exact ⟨by simpa using ring,by simpa using mark,by simp [readers]⟩
      next data =>
        split
        next ends =>
          rw [Tty.read,ready,take,if_neg data,if_pos ends]
          exact ⟨by simpa using after,by simpa using further,by simp [readers]⟩
        next goes =>
          have shifted := ih (t := ⟨t.consumed ++ [c],rest,t.line,t.delivered ++ [(u,c)],t.readers⟩)
            (s := {s with r := (s.r+1) % 2^32}) ⟨after,further,readers⟩ (got ++ [c]) (by simp; omega) readers
          rw [Tty.read,ready,take,if_neg data,if_neg goes]
          refine ⟨?_,?_,?_⟩
          · simpa [Tty.read] using shifted.ring
          · simpa [Tty.read] using shifted.mark
          · simpa [Tty.read] using shifted.readers

end Shows

/-- A read consumes a part of what is ready, gets it without control-D, and waits for no more than it wants. -/
theorem take_spec (n : Nat) (got ready : List UInt8) :
    (take n got ready).consumed <+: ready ∧
      (take n got ready).got = got ++ (take n got ready).consumed.filter (· ≠ ctrl 'D') ∧
      (take n got ready).got.length ≤ n+got.length := by
  induction n generalizing got ready with
  | zero => simp [take]
  | succ n ih =>
    cases ready with
    | nil =>
      simp only [take,List.nil_prefix,List.filter_nil,List.append_nil,true_and]
      omega
    | cons c ready =>
      unfold take
      split
      next last =>
        split
        · simp [last]
        · simp only [List.nil_prefix,List.filter_nil,List.append_nil,true_and]
          omega
      next data =>
        split
        · refine ⟨by simp,by simp [data],?_⟩
          simp only [List.length_append,List.length_singleton]
          omega
        · obtain ⟨part,gets,short⟩ := ih (got ++ [c]) ready
          refine ⟨by simpa using part,?_,?_⟩
          · simpa [data] using gets
          · rw [List.length_append,List.length_singleton] at short
            simp only
            omega

namespace Tty.Sound
variable [DecidableEq U]

theorem key (sound : t.Sound) (c : UInt8) : (t.key c).Sound := by
  obtain ⟨fits,unended,sleeps,bytes,share,results⟩ := sound
  unfold Tty.key
  split
  · exact ⟨fits,unended,sleeps,bytes,share,results⟩
  · split
    · exact ⟨by simp; omega,List.not_mem_nil,sleeps,bytes,share,results⟩
    · split
      · exact ⟨by simp; omega,fun member => unended (List.dropLast_subset _ member),sleeps,bytes,share,results⟩
      · split
        next room =>
          generalize (if c = 13 then 10 else c) = c
          unfold type
          split
          · exact ⟨by simp; omega,List.not_mem_nil,sleeps,bytes,share,results⟩
          next more =>
            refine ⟨by simp; omega,?_,sleeps,bytes,share,results⟩
            simp only [List.mem_append,List.mem_singleton,not_or]
            exact ⟨unended,fun same => more (.inl same.symm)⟩
        · exact ⟨fits,unended,sleeps,bytes,share,results⟩

theorem read (sound : t.Sound) (u : U) (target : Int) (n : Nat) (got : List UInt8)
    (whole : n+got.length = target.toNat) (mine : ((t.readers.sleeping u).map ReadCall.got).getD [] = got) :
    (t.read u target n got).Sound := by
  obtain ⟨fits,unended,sleeps,bytes,share,results⟩ := sound
  obtain ⟨part,gets,short⟩ := take_spec n got t.ready
  unfold Tty.read
  generalize take n got t.ready = taken at part gets short
  obtain ⟨consumed,gotten,ended⟩ := taken
  simp only at part gets short
  subst gets
  simp only [List.drop_left]
  have shorter : (t.ready.drop consumed.length).length+t.line.length ≤ inputBuf := by
    rw [List.length_drop]
    omega
  have all : (t.delivered ++ (consumed.filter (· ≠ ctrl 'D')).map (u,·)).map Prod.snd =
      (t.consumed ++ consumed).filter (· ≠ ctrl 'D') := by
    rw [List.map_append,bytes,List.filter_append,List.map_map]
    exact congrArg _ (List.map_id _)
  generalize consumed.filter (· ≠ ctrl 'D') = more at *
  have gives (v : U) : ((t.delivered ++ more.map (u,·)).filter (·.1 = v)).map Prod.snd =
      t.readers.gotten v ++ if v = u then more else [] := by
    rw [List.filter_append,List.map_append,share]
    by_cases here : v = u
    · simp [here,List.filter_map,comp_def]
    · have other : u ≠ v := fun same => here same.symm
      simp [here,other]
  have returns (result : Int) (right : result = (got ++ more).length ∨ result = -1 ∧ t.readers.killed u = true) :
      Tty.Sound ⟨t.consumed ++ consumed,t.ready.drop consumed.length,t.line,t.delivered ++ more.map (u,·),
        t.readers.ret u ⟨target,got ++ more⟩ result⟩ := by
    refine ⟨shorter,unended,?_,all,?_,?_⟩
    · intro v call reads
      by_cases here : v = u
      · simp [Readers.ret,here] at reads
      · simp only [Readers.ret,update_of_ne here] at reads
        exact sleeps v call reads
    · intro v
      rw [gives]
      by_cases here : v = u
      · subst here
        simp [Readers.gotten,Readers.ret,mine]
      · have other : u ≠ v := fun same => here same.symm
        simp [Readers.gotten,Readers.ret,here,other]
    · intro x member
      rcases List.mem_append.mp member with old | new
      · exact results x old
      · cases List.mem_singleton.mp new
        exact right
  split
  · exact returns _ (.inl rfl)
  · unfold Readers.sleep
    split
    next killed => exact returns _ (.inr ⟨rfl,killed⟩)
    · refine ⟨shorter,unended,?_,all,?_,results⟩
      · intro v call reads
        by_cases here : v = u
        · simp only [here,update_self] at reads
          cases reads
          simp only
          omega
        · simp only [update_of_ne here] at reads
          exact sleeps v call reads
      · intro v
        rw [gives]
        by_cases here : v = u
        · subst here
          simp [Readers.gotten,mine]
        · simp [Readers.gotten,here]

theorem step (sound : t.Sound) (a : ConsoleEvent U) : (t.step a).Sound := by
  cases a with
  | intr cs =>
    induction cs generalizing t with
    | nil => exact sound
    | cons c cs ih => exact ih (sound.key c)
  | read u target =>
    unfold Tty.step
    simp only
    split
    next idle => exact sound.read u target _ [] (by simp) (by simp [Option.isNone_iff_eq_none.mp idle])
    · exact sound
  | run u =>
    unfold Tty.step
    simp only
    split
    next call reads =>
      have short := sound.sleeps u call reads
      exact sound.read u call.target _ call.got (by omega) (by simp [reads])
    · exact sound
  | kill u =>
    refine ⟨sound.fits,sound.unended,sound.sleeps,sound.bytes,sound.share,?_⟩
    intro x member
    rcases sound.results x member with whole | ⟨failed,killed⟩
    · exact .inl whole
    · refine .inr ⟨failed,?_⟩
      simp only [Tty.step,update_apply,killed,ite_self]

end Tty.Sound

variable [DecidableEq U]

theorem Shows.step (shows : Shows s t) (sound : t.Sound) (a : ConsoleEvent U) : Shows (consoleStep s a) (t.step a) := by
  cases a with
  | intr cs =>
    induction cs generalizing s t with
    | nil => exact shows
    | cons c cs ih => exact ih (shows.key sound c) (sound.key c)
  | read u target =>
    unfold consoleStep Tty.step
    simp only [shows.readers]
    split
    · exact shows.readLoop u target _ [] (by simp)
    · exact shows
  | run u =>
    unfold consoleStep Tty.step
    simp only [shows.readers]
    cases reads : t.readers.sleeping u with
    | none => exact shows
    | some call =>
      have short := sound.sleeps u call reads
      exact shows.readLoop u call.target _ call.got (by omega)
  | kill u => exact ⟨shows.ring,shows.mark,by rw [consoleStep,Tty.step,shows.readers]⟩

theorem Shows.run (shows : Shows s t) (sound : t.Sound) (events : List (ConsoleEvent U)) :
    Shows (events.foldl consoleStep s) (events.foldl Tty.step t) ∧ (events.foldl Tty.step t).Sound := by
  induction events generalizing s t with
  | nil => exact ⟨shows,sound⟩
  | cons a events ih => exact ih (shows.step sound a) (sound.step a)

/-- After any events the console shows what the terminal has after them: its indices are that far apart, its calls
have returned the same, and the bytes that readers have got are those committed and consumed, without control-D. A
call returns what it has got, or -1 if its reader has been killed. One that comes to a control-D returns with what it
has got then. -/
theorem console_lines (events : List (ConsoleEvent U)) :
    let s := events.foldl consoleStep .boot
    let t := events.foldl Tty.step .boot
    Shows s t ∧ (s.w+2^32-s.r) % 2^32 = t.ready.length ∧ (s.e+2^32-s.r) % 2^32 = t.ready.length+t.line.length ∧
      t.ready.length+t.line.length ≤ inputBuf ∧
      t.delivered.map Prod.snd = t.consumed.filter (· ≠ ctrl 'D') ∧
      (∀ u, (t.delivered.filter (·.1 = u)).map Prod.snd = s.readers.gotten u) ∧
      (∀ x ∈ s.readers.returned, x.2.2 = x.2.1.got.length ∨ x.2.2 = -1 ∧ s.readers.killed x.1 = true) ∧
      ∀ u a call, (a = .read u call.target ∧ s.readers.sleeping u = none ∧ call.got = [] ∨
          a = .run u ∧ s.readers.sleeping u = some call) → (call.got.length : Int) < call.target →
        t.ready.head? = some (ctrl 'D') →
        (consoleStep s a).readers.returned = s.readers.returned ++ [(u,call,(call.got.length : Int))] := by
  intro s t
  obtain ⟨shows,sound⟩ : Shows s t ∧ t.Sound :=
    Shows.run ⟨.start _,rfl,rfl⟩ ⟨Nat.zero_le _,List.not_mem_nil,nofun,rfl,fun _ => rfl,
      fun _ member => absurd member List.not_mem_nil⟩ events
  have committed := shows.ring.front.used (by decide)
  have all := shows.ring.used (by decide)
  rw [← shows.mark] at committed
  rw [List.length_append] at all
  refine ⟨shows,committed,all,sound.fits,sound.bytes,?_,?_,?_⟩
  · rw [shows.readers]
    exact sound.share
  · rw [shows.readers]
    exact sound.results
  · intro u a call reads wanted first
    rw [shows.readers] at reads
    obtain ⟨rest,ready⟩ := List.head?_eq_some_iff.mp first
    obtain ⟨n,count⟩ : ∃ n, call.target.toNat-call.got.length = n+1 := ⟨call.target.toNat-call.got.length-1,by omega⟩
    rw [(shows.step sound _).readers,shows.readers]
    rcases reads with ⟨rfl,idle,none⟩ | ⟨rfl,sleeps⟩
    · obtain ⟨target,got⟩ := call
      subst none
      rw [List.length_nil,Nat.sub_zero] at count
      simp [Tty.step,idle,Tty.read,count,ready,take,Readers.ret]
    · simp [Tty.step,sleeps,Tty.read,count,ready,take,Readers.ret]

/-- A full buffer commits a line without a newline. A reader that is killed while it waits for more has consumed
the line and returns -1, so that no read returns it. -/
theorem console_line_lost : ∃ events : List (ConsoleEvent Unit),
    let s := events.foldl consoleStep .boot
    s.r = 128 ∧ s.w = 128 ∧ s.readers.sleeping () = none ∧ s.readers.returned.map (·.2.2) = [-1] :=
  ⟨[.intr (List.replicate 128 97),.read () 200,.kill (),.run ()],by decide +kernel⟩

end Kthreads
