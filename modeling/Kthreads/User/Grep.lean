import Kthreads.User.Memmove

/-! The user program grep. A string is the list of its bytes before the NUL. -/
open Function

namespace Kthreads.Grep

def caret : UInt8 := 94

def star : UInt8 := 42

def dollar : UInt8 := 36

def dot : UInt8 := 46

def newline : UInt8 := 10

/-- `here` is `matchhere` with the pattern behind the star. -/
def matchstar (here : List UInt8 → Bool) (c : UInt8) : List UInt8 → Bool
  | [] => here []
  | x :: text => here (x :: text) || ((x == c || c == dot) && matchstar here c text)

/-- The last test of `matchhere`; `here` is `matchhere` with the rest of the pattern. -/
def matchone (here : List UInt8 → Bool) (c : UInt8) : List UInt8 → Bool
  | [] => false
  | x :: text => (c == dot || c == x) && here text

def matchhere : List UInt8 → List UInt8 → Bool
  | [],_ => true
  | [c],text => if c = dollar then text.isEmpty else matchone (fun _ => true) c text
  | c :: c' :: re,text =>
    if c' = star then matchstar (matchhere re) c text else matchone (matchhere (c' :: re)) c text

/-- The loop of `match`. -/
def search (re : List UInt8) : List UInt8 → Bool
  | [] => matchhere re []
  | x :: text => matchhere re (x :: text) || search re text

def «match» (re text : List UInt8) : Bool :=
  if re.head? = some caret then matchhere re.tail text else search re text

/-- What a pattern is made of. -/
inductive Item
  | one (c : UInt8)
  | many (c : UInt8)
  | finish

def items : List UInt8 → List Item
  | [] => []
  | [c] => if c = dollar then [.finish] else [.one c]
  | c :: c' :: re => if c' = star then .many c :: items re else .one c :: items (c' :: re)

def Fits (c x : UInt8) : Prop := c = dot ∨ c = x

/-- The items match the second list where the third one follows it in the text. -/
inductive Denotes : List Item → List UInt8 → List UInt8 → Prop
  | nil (after : List UInt8) : Denotes [] [] after
  | one {c x : UInt8} {rest : List Item} {w after : List UInt8} (fits : Fits c x) (tail : Denotes rest w after) :
      Denotes (.one c :: rest) (x :: w) after
  | many {c : UInt8} {rest : List Item} {run w after : List UInt8} (fits : ∀ x ∈ run, Fits c x)
      (tail : Denotes rest w after) : Denotes (.many c :: rest) (run ++ w) after
  | finish : Denotes [.finish] [] []

theorem fits_iff (c x : UInt8) : (c == dot || c == x) = true ↔ Fits c x := by
  simp [Fits]

theorem matchstar_iff (here : List UInt8 → Bool) (c : UInt8) (text : List UInt8) : matchstar here c text = true ↔
    ∃ run rest, text = run ++ rest ∧ (∀ x ∈ run, Fits c x) ∧ here rest = true := by
  induction text with
  | nil =>
    constructor
    · intro found
      exact ⟨[],[],rfl,by simp,found⟩
    · rintro ⟨run,rest,eq,_,found⟩
      obtain ⟨rfl,rfl⟩ := List.append_eq_nil_iff.mp eq.symm
      exact found
  | cons x text ih =>
    have swap : (x == c || c == dot) = true ↔ Fits c x := by
      rw [Bool.or_comm,← fits_iff,BEq.comm (a := x)]
    rw [matchstar,Bool.or_eq_true,Bool.and_eq_true,ih,swap]
    constructor
    · rintro (found | ⟨fits,run,rest,rfl,all,found⟩)
      · exact ⟨[],x :: text,rfl,by simp,found⟩
      · exact ⟨x :: run,rest,rfl,by simpa using ⟨fits,all⟩,found⟩
    · rintro ⟨run,rest,eq,all,found⟩
      cases run with
      | nil => exact .inl (eq ▸ found)
      | cons y run =>
        obtain ⟨rfl,rfl⟩ := List.cons.inj eq
        exact .inr ⟨all x (by simp),run,rest,rfl,fun z member => all z (by simp [member]),found⟩

theorem matchone_iff (here : List UInt8 → Bool) (c : UInt8) (rest : List Item) (text : List UInt8)
    (correct : ∀ text, here text = true ↔ ∃ w after, text = w ++ after ∧ Denotes rest w after) :
    matchone here c text = true ↔ ∃ w after, text = w ++ after ∧ Denotes (.one c :: rest) w after := by
  constructor
  · intro found
    cases text with
    | nil => contradiction
    | cons x text =>
      rw [matchone,Bool.and_eq_true,fits_iff,correct] at found
      obtain ⟨fits,w,after,rfl,tail⟩ := found
      exact ⟨x :: w,after,rfl,.one fits tail⟩
  · rintro ⟨_,after,rfl,⟨⟩⟩
    next x w fits tail =>
      rw [List.cons_append,matchone,Bool.and_eq_true,fits_iff,correct]
      exact ⟨fits,w,after,rfl,tail⟩

theorem matchhere_iff (re text : List UInt8) :
    matchhere re text = true ↔ ∃ w after, text = w ++ after ∧ Denotes (items re) w after := by
  induction re using items.induct generalizing text with
  | case1 => simpa [matchhere,items] using ⟨[],text,rfl,.nil text⟩
  | case2 =>
    rw [matchhere,if_pos rfl,items,if_pos rfl,List.isEmpty_iff]
    constructor
    · rintro rfl
      exact ⟨[],[],rfl,.finish⟩
    · rintro ⟨w,after,rfl,⟨⟩⟩
      rfl
  | case3 c other =>
    rw [matchhere,if_neg other,items,if_neg other]
    exact matchone_iff _ c [] text fun text => by simpa using ⟨[],text,rfl,.nil text⟩
  | case4 c re ih =>
    rw [matchhere,if_pos rfl,items,if_pos rfl,matchstar_iff]
    constructor
    · rintro ⟨run,rest,rfl,all,found⟩
      obtain ⟨w,after,rfl,tail⟩ := (ih rest).mp found
      exact ⟨run ++ w,after,by rw [List.append_assoc],.many all tail⟩
    · rintro ⟨_,after,rfl,⟨⟩⟩
      next run w all tail => exact ⟨run,w ++ after,by rw [List.append_assoc],all,(ih _).mpr ⟨w,after,rfl,tail⟩⟩
  | case5 c c' re other ih =>
    rw [matchhere,if_neg other,items,if_neg other]
    exact matchone_iff _ c _ text ih

/-- The loop of `match` is that of `matchstar` behind a dot. -/
theorem search_eq (re text : List UInt8) : search re text = matchstar (matchhere re) dot text := by
  induction text with
  | nil => rfl
  | cons x text ih => simp [search,matchstar,ih]

/-- `match` finds a substring that the pattern denotes; behind a leading caret, one at the beginning. -/
theorem match_denotes (re text : List UInt8) : «match» re text = true ↔
    ∃ left w after, text = left ++ w ++ after ∧
      (if re.head? = some caret then left = [] ∧ Denotes (items re.tail) w after else Denotes (items re) w after) := by
  unfold «match»
  split
  next =>
    rw [matchhere_iff]
    constructor
    · rintro ⟨w,after,rfl,found⟩
      exact ⟨[],w,after,rfl,rfl,found⟩
    · rintro ⟨_,w,after,rfl,rfl,found⟩
      exact ⟨w,after,rfl,found⟩
  next =>
    rw [search_eq,matchstar_iff]
    constructor
    · rintro ⟨left,rest,rfl,_,found⟩
      obtain ⟨w,after,rfl,tail⟩ := (matchhere_iff re rest).mp found
      exact ⟨left,w,after,by rw [List.append_assoc],tail⟩
    · rintro ⟨left,w,after,rfl,found⟩
      refine ⟨left,w ++ after,by rw [List.append_assoc],fun _ _ => .inl rfl,?_⟩
      exact (matchhere_iff re _).mpr ⟨w,after,rfl,found⟩

/-- The buffer with the number of its bytes that are in use, and what has been written. -/
structure State where
  buf : Nat → UInt8
  m : Nat
  out : List UInt8

/-- The first position, from `s` on, at which a loop over the bytes of the buffer stops. -/
def scan (b : Nat → UInt8) (stop : UInt8 → Bool) : Nat → Nat → Nat
  | 0,s => s
  | n+1,s => if stop (b s) then s else scan b stop n (s+1)

def bytes (b : Nat → UInt8) (p n : Nat) : List UInt8 := (List.range n).map fun i => b (p+i)

def sizeofBuf : Nat := 1024

def strchr (b : Nat → UInt8) (s : Nat) (c : UInt8) : Option Nat :=
  let s := scan b (fun x => x == 0 || x == c) (sizeofBuf-s) s
  if b s = 0 then none else some s

/-- The string at `p`. -/
def string (b : Nat → UInt8) (p : Nat) : List UInt8 := bytes b p (scan b (· == 0) (sizeofBuf-p) p-p)

def store (b : Nat → UInt8) (p : Nat) (piece : List UInt8) : Nat → UInt8 := fun a =>
  if a < p then b a else (piece[a-p]?).getD (b a)

/-- The inner loop: lines that are complete, with the position behind the last one. -/
def lines (pattern : List UInt8) : Nat → (Nat → UInt8) → Nat → List UInt8 → (Nat → UInt8) × Nat × List UInt8
  | 0,b,p,out => (b,p,out)
  | n+1,b,p,out =>
    match strchr b p newline with
    | none => (b,p,out)
    | some q =>
      let b := update b q 0
      if «match» pattern (string b p) then
        let b := update b q newline
        lines pattern n b (q+1) (out ++ bytes b p (q+1-p))
      else lines pattern n b (q+1) out

/-- One round of the loop of `grep`, in which `read` returns `piece`. -/
def round (pattern : List UInt8) (s : State) (piece : List UInt8) : State :=
  let m := s.m+piece.length
  match lines pattern sizeofBuf (update (store s.buf s.m piece) m 0) 0 s.out with
  | (b,p,out) =>
    let m := if p = 0 then 0 else m
    if 0 < m then ⟨User.memmove b 0 p (m-p : Nat),m-p,out⟩ else ⟨b,m,out⟩

def grep (pattern : List UInt8) (s : State) (pieces : List (List UInt8)) : State := pieces.foldl (round pattern) s

/-- What `read` may return: at least one byte, and no more than asked for. -/
def Reads (pattern : List UInt8) : State → List (List UInt8) → Prop
  | _,[] => True
  | s,piece :: rest =>
    0 < piece.length ∧ piece.length ≤ sizeofBuf-s.m-1 ∧ Reads pattern (round pattern s piece) rest

def joined (ls : List (List UInt8)) : List UInt8 := ls.flatMap (· ++ [newline])

theorem joined_cons (l : List UInt8) (ls : List (List UInt8)) : joined (l :: ls) = l ++ newline :: joined ls := by
  simp [joined]

theorem joined_append (ls ls' : List (List UInt8)) : joined (ls ++ ls') = joined ls ++ joined ls' :=
  List.flatMap_append ..

theorem length_joined (ls : List (List UInt8)) : ls.length ≤ (joined ls).length := by
  induction ls with
  | nil => exact Nat.le_refl _
  | cons l ls ih =>
    rw [joined_cons,List.length_append,List.length_cons,List.length_cons]
    omega

def Clean (l : List UInt8) : Prop := newline ∉ l ∧ 0 ∉ l

section Buffer
variable {b b' : Nat → UInt8} {p p' n : Nat}

theorem bytes_congr (same : ∀ i < n, b' (p'+i) = b (p+i)) : bytes b' p' n = bytes b p n :=
  List.map_congr_left fun i member => same i (List.mem_range.mp member)

theorem bytes_succ : bytes b p (n+1) = b p :: bytes b (p+1) n := by
  simp only [bytes,List.range_succ_eq_map,List.map_cons,List.map_map,Nat.add_zero]
  congr 1
  exact List.map_congr_left fun i _ => by simp only [comp_apply,Nat.succ_eq_add_one,Nat.add_assoc,Nat.add_comm 1]

theorem bytes_append (xs ys : List UInt8) : bytes b p (xs ++ ys).length = xs ++ ys ↔
    bytes b p xs.length = xs ∧ bytes b (p+xs.length) ys.length = ys := by
  induction xs generalizing p with
  | nil => simp [bytes]
  | cons x xs ih =>
    simp only [List.cons_append,List.length_cons,bytes_succ,List.cons.injEq]
    rw [ih,Nat.add_assoc,Nat.add_comm 1,and_assoc]

theorem scan_eq (stop : UInt8 → Bool) (k : Nat) (go : ∀ i < k, stop (b (p+i)) = false) (ends : stop (b (p+k)) = true)
    (enough : k < n) : scan b stop n p = p+k := by
  induction k generalizing p n with
  | zero =>
    obtain ⟨n,rfl⟩ := Nat.exists_eq_succ_of_ne_zero (Nat.ne_of_gt enough)
    exact if_pos ends
  | succ k ih =>
    obtain ⟨n,rfl⟩ := Nat.exists_eq_succ_of_ne_zero (Nat.ne_of_gt (Nat.zero_lt_of_lt enough))
    have shift (i : Nat) : p+1+i = p+(i+1) := by omega
    rw [scan,if_neg (by simpa using go 0 (Nat.succ_pos k)),
      ih (fun i less => by rw [shift]; exact go (i+1) (Nat.succ_lt_succ less)) (by rw [shift]; exact ends)
      (Nat.lt_of_succ_lt_succ enough),shift]

section Line
variable {l : List UInt8} (content : bytes b p l.length = l) (small : p+l.length < sizeofBuf)
include content small

theorem scan_line (stop : UInt8 → Bool) (go : ∀ x ∈ l, stop x = false) (ends : stop (b (p+l.length)) = true) :
    scan b stop (sizeofBuf-p) p = p+l.length := by
  refine scan_eq stop l.length (fun i inside => go _ ?_) ends (by omega)
  rw [← content]
  exact List.mem_map_of_mem (List.mem_range.mpr inside)

theorem strchr_eq (clean : Clean l) (ends : b (p+l.length) = 0 ∨ b (p+l.length) = newline) :
    strchr b p newline = if b (p+l.length) = 0 then none else some (p+l.length) := by
  have stops := scan_line content small (fun x => x == 0 || x == newline) (fun x member => by
    have zero : x ≠ 0 := fun same => clean.2 (same ▸ member)
    have other : x ≠ newline := fun same => clean.1 (same ▸ member)
    simp [zero,other]) (by simpa using ends)
  simp only [strchr,stops]

theorem string_eq (clean : Clean l) (ends : b (p+l.length) = 0) : string b p = l := by
  have stops := scan_line content small (· == 0) (fun x member => by
    have zero : x ≠ 0 := fun same => clean.2 (same ▸ member)
    simp [zero]) (by simp [ends])
  rw [string,stops,Nat.add_sub_cancel_left,content]

end Line

end Buffer

theorem lines_eq (pattern : List UInt8) {tail : List UInt8} (partly : Clean tail) (ls : List (List UInt8))
    (clean : ∀ l ∈ ls, Clean l) (n p : Nat) (b : Nat → UInt8) (out : List UInt8)
    (content : bytes b p (joined ls ++ tail).length = joined ls ++ tail)
    (ends : b (p+(joined ls ++ tail).length) = 0) (small : p+(joined ls ++ tail).length < sizeofBuf)
    (enough : ls.length < n) :
    ∃ b', lines pattern n b p out = (b',p+(joined ls).length,out ++ joined (ls.filter («match» pattern))) ∧
      bytes b' (p+(joined ls).length) tail.length = tail := by
  induction n generalizing ls p b out with
  | zero => contradiction
  | succ n ih =>
    cases ls with
    | nil =>
      refine ⟨b,?_,content⟩
      rw [lines,strchr_eq content small partly (.inl ends),if_pos ends]
      simp [joined]
    | cons l ls =>
      obtain ⟨here,others⟩ := List.forall_mem_cons.mp clean
      rw [joined_cons,List.append_assoc,List.cons_append] at content ends small
      obtain ⟨line,rest⟩ := (bytes_append _ _).mp content
      rw [List.length_cons,bytes_succ,List.cons.injEq] at rest
      rw [List.length_append,List.length_cons] at small ends
      have width : p+l.length+1+(joined ls).length = p+(joined (l :: ls)).length := by
        rw [joined_cons,List.length_append,List.length_cons]
        omega
      have sum : p+l.length+1+(joined ls ++ tail).length = p+(l.length+((joined ls ++ tail).length+1)) := by omega
      have behind (b' : Nat → UInt8) (same : ∀ a, p+l.length < a → b' a = b a) (out : List UInt8) :=
        ih ls others (p+l.length+1) b' out
          ((bytes_congr fun i _ => same (p+l.length+1+i) (by omega)).trans rest.2)
          (by rw [same _ (by omega),sum,ends]) (by omega) (Nat.lt_of_succ_lt_succ enough)
      have cut : string (update b (p+l.length) 0) p = l := by
        refine string_eq ?_ (by omega) here (update_self ..)
        rw [bytes_congr fun i inside => update_of_ne (by omega) ..]
        exact line
      rw [lines,strchr_eq line (by omega) here (.inr rest.1),rest.1,if_neg (by decide),← width]
      simp only [cut]
      split
      next found =>
        have restored : update (update b (p+l.length) 0) (p+l.length) newline = b := by
          rw [update_idem,← rest.1,update_eq_self]
        have written : bytes b p (p+l.length+1-p) = l ++ [newline] := by
          have both := (bytes_append l [newline]).mpr ⟨line,by rw [List.length_singleton,bytes_succ,rest.1]; rfl⟩
          rw [List.length_append,List.length_singleton] at both
          rw [Nat.add_assoc,Nat.add_sub_cancel_left,both]
        obtain ⟨b',run,final⟩ := behind b (fun _ _ => rfl) (out ++ (l ++ [newline]))
        refine ⟨b',?_,final⟩
        rw [restored,written,run,List.filter_cons_of_pos found,joined_cons]
        simp
      next missed =>
        obtain ⟨b',run,final⟩ := behind (update b (p+l.length) 0) (fun a above => update_of_ne (by omega) ..) out
        refine ⟨b',?_,final⟩
        rw [run,List.filter_cons_of_neg missed]

/-- A round with at least one complete line prints what matches and keeps the last, incomplete line. A round
without one keeps nothing. -/
theorem round_eq (pattern piece tail : List UInt8) (s : State) (ls : List (List UInt8))
    (clean : ∀ l ∈ ls, Clean l) (partly : Clean tail)
    (content : bytes s.buf 0 s.m ++ piece = joined ls ++ tail) (small : s.m+piece.length < sizeofBuf) :
    (ls ≠ [] → ∃ b', round pattern s piece = ⟨b',tail.length,s.out ++ joined (ls.filter («match» pattern))⟩ ∧
      bytes b' 0 tail.length = tail) ∧
    (ls = [] → ∃ b', round pattern s piece = ⟨b',0,s.out⟩) := by
  have length : s.m+piece.length = (joined ls ++ tail).length := by
    rw [← content,List.length_append,bytes,List.length_map,List.length_range]
  have enough := length_joined ls
  have sum : (joined ls ++ tail).length = (joined ls).length+tail.length := List.length_append
  generalize filled : update (store s.buf s.m piece) (s.m+piece.length) 0 = b
  have whole : bytes b 0 (joined ls ++ tail).length = joined ls ++ tail := by
    rw [← content,bytes_append]
    have old : (bytes s.buf 0 s.m).length = s.m := by simp [bytes]
    rw [old]
    constructor
    · refine bytes_congr fun i inside => ?_
      rw [← filled,update_of_ne (by omega),store,if_pos (by omega)]
    · apply List.ext_getElem
      · simp [bytes]
      · intro i _ inside
        simp only [bytes,List.getElem_map,List.getElem_range,Nat.zero_add]
        rw [← filled,update_of_ne (by omega),store,if_neg (by omega),Nat.add_sub_cancel_left,
          List.getElem?_eq_getElem inside]
        rfl
  obtain ⟨b',run,final⟩ := lines_eq pattern partly ls clean sizeofBuf 0 b s.out whole
    (by rw [← filled,Nat.zero_add,← length,update_self]) (by omega) (by omega)
  rw [Nat.zero_add] at run final
  have left : s.m+piece.length-(joined ls).length = tail.length := by omega
  constructor
  · intro some
    have positive : 0 < (joined ls).length :=
      Nat.lt_of_lt_of_le (List.length_pos_iff.mpr some) (length_joined ls)
    refine ⟨User.memmove b' 0 (joined ls).length tail.length,?_,?_⟩
    · simp only [round,filled,run]
      rw [if_neg (Nat.ne_of_gt positive),if_pos (by omega),left]
    · have moved := copyUp_moves (m := b') (d := 0) (s := (joined ls).length) (n := tail.length)
        (by simp only [sizeofBuf] at small; omega) (by simp only [sizeofBuf] at small; omega) (.inl (Nat.zero_le _))
      refine (bytes_congr fun i inside => ?_).trans final
      exact moved.copied i inside
  · rintro rfl
    refine ⟨b',?_⟩
    simp only [round,filled,run]
    simp [joined]

/-- Where a stream of lines is cut, the lines before the cut and the part of the next one are determined. -/
theorem cut_lines (rest : List (List UInt8)) (clean : ∀ l ∈ rest, Clean l) (xs ys : List UInt8)
    (eq : xs ++ ys = joined rest) : ∃ ls tail rest', rest = ls ++ rest' ∧ xs = joined ls ++ tail ∧
      tail ++ ys = joined rest' ∧ Clean tail := by
  induction rest generalizing xs with
  | nil =>
    obtain ⟨rfl,rfl⟩ := List.append_eq_nil_iff.mp eq
    exact ⟨[],[],[],rfl,rfl,rfl,by simp [Clean]⟩
  | cons l rest ih =>
    obtain ⟨here,others⟩ := List.forall_mem_cons.mp clean
    rw [joined_cons] at eq
    -- the cut is in this line, just behind it, or behind its newline
    rcases List.append_eq_append_iff.mp eq with ⟨as,first,_⟩ | ⟨bs,first,after⟩
    · refine ⟨[],xs,l :: rest,rfl,rfl,by rw [eq,joined_cons],?_,?_⟩
      · exact fun member => here.1 (by simp [first,member])
      · exact fun member => here.2 (by simp [first,member])
    · cases bs with
      | nil =>
        rw [List.append_nil] at first
        exact ⟨[],xs,l :: rest,rfl,rfl,by rw [eq,joined_cons],first ▸ here⟩
      | cons c bs =>
        obtain ⟨rfl,further⟩ := List.cons.inj after
        obtain ⟨ls,tail,rest',rfl,rfl,eq,free⟩ := ih others bs further.symm
        exact ⟨l :: ls,tail,rest',rfl,by rw [first,joined_cons]; simp,eq,free⟩

/-- Without the beginning of its first line, a stream is shorter and still one of lines. -/
theorem cut_tail (rest : List (List UInt8)) (clean : ∀ l ∈ rest, Clean l) (tail ys : List UInt8) (free : Clean tail)
    (some : 0 < tail.length) (eq : tail ++ ys = joined rest) : ∃ rest', ys = joined rest' ∧ (∀ l ∈ rest', Clean l) ∧
      (joined rest').length < (joined rest).length := by
  cases rest with
  | nil =>
    rw [(List.append_eq_nil_iff.mp eq).1] at some
    contradiction
  | cons l rest =>
    obtain ⟨here,others⟩ := List.forall_mem_cons.mp clean
    rw [joined_cons] at eq
    have length := congrArg List.length eq
    rcases List.append_eq_append_iff.mp eq with ⟨as,rfl,rfl⟩ | ⟨bs,rfl,after⟩
    · refine ⟨as :: rest,(joined_cons as rest).symm,List.forall_mem_cons.mpr ⟨?_,others⟩,?_⟩
      · exact ⟨fun member => here.1 (by simp [member]),fun member => here.2 (by simp [member])⟩
      · simp only [joined_cons,List.length_append,List.length_cons]
        omega
    · cases bs with
      | nil => exact ⟨[] :: rest,after.symm,List.forall_mem_cons.mpr ⟨by simp [Clean],others⟩,
          by simp only [joined_cons,List.length_append,List.length_cons,List.length_nil] at *; omega⟩
      | cons c bs =>
        obtain ⟨rfl,_⟩ := List.cons.inj after
        exact absurd (by simp) free.1

/-- `grep` sees the lines of the stream, or fewer bytes if there is a piece without a newline. -/
theorem grep_from (pattern : List UInt8) (pieces : List (List UInt8)) (s : State) (reads : Reads pattern s pieces)
    (rest : List (List UInt8)) (clean : ∀ l ∈ rest, Clean l) (partly : Clean (bytes s.buf 0 s.m))
    (stream : bytes s.buf 0 s.m ++ pieces.flatten = joined rest) :
    ∃ seen, (grep pattern s pieces).out = s.out ++ joined (seen.filter («match» pattern)) ∧
      ((∀ piece ∈ pieces, newline ∈ piece) ∧ seen = rest ∨
        (∃ piece ∈ pieces, newline ∉ piece) ∧ (joined seen).length < (joined rest).length) := by
  induction pieces generalizing s rest with
  | nil =>
    cases rest with
    | nil => exact ⟨[],by simp [grep,joined],.inl ⟨nofun,rfl⟩⟩
    | cons l rest =>
      rw [List.flatten_nil,List.append_nil] at stream
      rw [stream,joined_cons] at partly
      simp [Clean] at partly
  | cons piece pieces ih =>
    obtain ⟨filled,fits,more⟩ := reads
    rw [List.flatten_cons,← List.append_assoc] at stream
    obtain ⟨ls,tail,rest',rfl,content,onward,free⟩ := cut_lines rest clean _ _ stream
    obtain ⟨keeps,drops⟩ := round_eq pattern piece tail s ls
      (fun l member => clean l (List.mem_append_left _ member)) free content
      (by simp only [sizeofBuf] at fits ⊢; omega)
    have later (l : List UInt8) (member : l ∈ rest') : Clean l := clean l (List.mem_append_right _ member)
    rw [grep,List.foldl_cons]
    by_cases line : newline ∈ piece
    · have some : ls ≠ [] := by
        rintro rfl
        refine free.1 ?_
        rw [← List.nil_append tail,show ([] : List UInt8) = joined [] from rfl,← content]
        simp [line]
      obtain ⟨b,next,kept⟩ := keeps some
      rw [next] at more ⊢
      obtain ⟨seen,out,lines⟩ := ih _ more rest' later (kept.symm ▸ free) (by rw [kept]; exact onward)
      refine ⟨ls ++ seen,?_,lines.imp ?_ ?_⟩
      · exact out.trans (by rw [List.filter_append,joined_append,List.append_assoc])
      · rintro ⟨full,rfl⟩
        exact ⟨List.forall_mem_cons.mpr ⟨line,full⟩,rfl⟩
      · rintro ⟨⟨short,member,none⟩,less⟩
        refine ⟨⟨short,List.mem_cons_of_mem _ member,none⟩,?_⟩
        rw [joined_append,joined_append,List.length_append,List.length_append]
        omega
    · -- what the buffer has is the beginning of a line, and is thrown away
      obtain rfl : ls = [] := by
        cases ls with
        | nil => rfl
        | cons l ls =>
          have member : newline ∈ bytes s.buf 0 s.m ++ piece := by simp [content,joined_cons]
          exact absurd (List.mem_append.mp member) (not_or.mpr ⟨partly.1,line⟩)
      obtain ⟨b,next⟩ := drops rfl
      have dropped : 0 < tail.length := by
        have length := congrArg List.length content
        simp only [joined,List.flatMap_nil,List.nil_append,List.length_append] at length
        omega
      rw [next] at more ⊢
      obtain ⟨rest'',stream',clean',less⟩ := cut_tail rest' later tail pieces.flatten free dropped onward
      obtain ⟨seen,out,lines⟩ := ih _ more rest'' clean' (by simp [bytes,Clean]) stream'
      refine ⟨seen,out,.inr ⟨⟨piece,List.mem_cons_self,line⟩,?_⟩⟩
      rcases lines with ⟨_,rfl⟩ | ⟨_,shorter⟩
      · exact less
      · exact shorter.trans less

/-- `grep` writes the lines that match, in order, whatever the pattern is, just if every piece that `read`
returns has a newline. -/
theorem grep_writes_matching_lines (buf : Nat → UInt8) (ls : List (List UInt8)) (clean : ∀ l ∈ ls, Clean l)
    (pieces : List (List UInt8)) (stream : pieces.flatten = joined ls)
    (reads : ∀ pattern, Reads pattern ⟨buf,0,[]⟩ pieces) :
    (∀ pattern, (grep pattern ⟨buf,0,[]⟩ pieces).out = joined (ls.filter («match» pattern))) ↔
      ∀ piece ∈ pieces, newline ∈ piece := by
  have runs (pattern : List UInt8) := grep_from pattern pieces ⟨buf,0,[]⟩ (reads pattern) ls clean
    (by simp [bytes,Clean]) stream
  constructor
  · -- the empty pattern matches every line, so that every byte has to be written
    intro writes
    obtain ⟨seen,out,⟨full,_⟩ | ⟨_,less⟩⟩ := runs []
    · exact full
    · have all (texts : List (List UInt8)) : texts.filter («match» []) = texts :=
        List.filter_eq_self.mpr fun text _ => by cases text <;> rfl
      have whole : joined ls = joined seen := by simpa only [all,List.nil_append] using (writes []).symm.trans out
      exact absurd less (whole ▸ Nat.lt_irrefl _)
  · intro full pattern
    obtain ⟨seen,out,⟨_,rfl⟩ | ⟨⟨piece,member,none⟩,_⟩⟩ := runs pattern
    · exact out
    · exact absurd (full piece member) none

/-- The line `cd` arrives in two pieces, between two lines that match. -/
theorem grep_writes_two_lines :
    (grep [97] ⟨fun _ => 0,0,[]⟩ [[97,98,10,99],[100,10,99,97,10]]).out = [97,98,10,99,97,10] := by
  have writes := (grep_writes_matching_lines (fun _ => 0) [[97,98],[99,100],[99,97]] (by simp [Clean,newline])
    [[97,98,10,99],[100,10,99,97,10]] rfl ?_).mpr (by decide) [97]
  · exact writes
  · intro pattern
    obtain ⟨b,next,_⟩ := (round_eq pattern [97,98,10,99] [99] ⟨fun _ => 0,0,[]⟩ [[97,98]] (by simp [Clean,newline])
      (by simp [Clean,newline]) rfl (by decide)).1 (by simp)
    exact ⟨by decide,by decide,next.symm ▸ ⟨by decide,by simp [sizeofBuf],trivial⟩⟩

/-- The line `ab` arrives in two pieces. The first one is thrown away because it has no newline. -/
theorem grep_loses_line : Reads [97] ⟨fun _ => 0,0,[]⟩ [[97],[98,10]] ∧ [[97],[98,10]].flatten = joined [[97,98]] ∧
    (grep [97] ⟨fun _ => 0,0,[]⟩ [[97],[98,10]]).out = [] ∧
    joined ([[97,98]].filter («match» [97])) = [97,98,10] :=
  ⟨⟨by decide,by decide,by decide,by decide,trivial⟩,rfl,by decide +kernel,by decide⟩

end Kthreads.Grep
