import Mathlib.Data.List.TakeWhile

/-! The lookup of paths in fs.c. A path is a list of characters that ends with the NUL; 47 is the slash. The tree is
what `ilock` and `dirlookup` find: which inodes are directories, and the inode that a name stands for. -/
namespace Kthreads

def dirsiz : Nat := 14

/-- What remains of the path and `name`, or a null pointer. -/
def skipelem (path : List UInt8) : Option (List UInt8 × List UInt8) :=
  let path := path.dropWhile (· == 47)
  if path = [] then none
  else
    let s := path.takeWhile (· != 47)
    some ((path.dropWhile (· != 47)).dropWhile (· == 47),s.take dirsiz)

/-- After the slashes the path begins with a name, which ends at a slash or with the path. -/
theorem skipelem_cases (path : List UInt8) : (path.dropWhile (· == 47) = [] ∧ skipelem path = none) ∨
    ∃ name rest, path.dropWhile (· == 47) = name ++ rest ∧ name ≠ [] ∧ (∀ c ∈ name, (c == 47) = false) ∧
      (∀ c ∈ rest.head?, (c == 47) = true) ∧ skipelem path = some (rest.dropWhile (· == 47),name.take dirsiz) := by
  unfold skipelem
  cases left : path.dropWhile (· == 47) with
  | nil => exact .inl ⟨rfl,rfl⟩
  | cons c after =>
    have first := List.head_dropWhile_not (· == 47) (l := path) (by simp [left])
    simp only [left,List.head_cons] at first
    refine .inr ⟨_,_,(List.takeWhile_append_dropWhile (p := (· != 47))).symm,?_,?_,?_,rfl⟩
    · simp [bne,first]
    · intro c member
      simpa using List.mem_takeWhile_imp member
    · intro d member
      obtain ⟨rest,next⟩ := List.head?_eq_some_iff.mp member
      have ends := List.head_dropWhile_not (· != 47) (l := c :: after) (by simp [next])
      simpa [next] using ends

theorem length_skipelem {path rest name : List UInt8} (found : skipelem path = some (rest,name)) :
    rest.length < path.length := by
  rcases skipelem_cases path with ⟨_,none⟩ | ⟨elem,after,parts,some,_,_,eq⟩
  · rw [none] at found
    contradiction
  · cases eq.symm.trans found
    have whole := (path.dropWhile_suffix (· == 47)).length_le
    have tail := (after.dropWhile_suffix (· == 47)).length_le
    have positive := List.length_pos_iff.mpr some
    rw [parts,List.length_append] at whole
    omega

/-- The names that a loop of at most `n` rounds with `skipelem` meets. -/
def elems : Nat → List UInt8 → List (List UInt8)
  | 0,_ => []
  | n+1,path =>
    match skipelem path with
    | none => []
    | some (rest,name) => name :: elems n rest

structure Dirs (I : Type) where
  root : I
  isDir : I → Bool
  dirlookup : I → List UInt8 → Option I

namespace Dirs
variable {I : Type} (dirs : Dirs I)

/-- The loop of `namex`, at most `n` rounds of it; `name` is what the round before has left there. -/
def walk (parent : Bool) : Nat → I → List UInt8 → List UInt8 → Option (I × List UInt8)
  | 0,ip,_,name => if parent then none else some (ip,name)
  | n+1,ip,path,name =>
    match skipelem path with
    | none => if parent then none else some (ip,name)
    | some (rest,name) =>
      if dirs.isDir ip = false then none
      else if parent = true ∧ rest = [] then some (ip,name)
      else
        match dirs.dirlookup ip name with
        | none => none
        | some next => walk parent n next rest name

def start (cwd : I) (path : List UInt8) : I := if path.head? = some 47 then dirs.root else cwd

/-- Every round takes a character of the path. -/
def namex (cwd : I) (path : List UInt8) (parent : Bool) : Option (I × List UInt8) :=
  dirs.walk parent path.length (dirs.start cwd path) path []

def namei (cwd : I) (path : List UInt8) : Option I := (dirs.namex cwd path false).map Prod.fst

def nameiparent (cwd : I) (path : List UInt8) : Option (I × List UInt8) := dirs.namex cwd path true

/-- One component further: the inode must be a directory that has the name. -/
def enter (ip : I) (name : List UInt8) : Option I := if dirs.isDir ip then dirs.dirlookup ip name else none

end Dirs

/-- The longest parts of the path without a slash that are not empty, each cut to `DIRSIZ`. -/
def components (path : List UInt8) : List (List UInt8) :=
  ((path.splitOnP (· == 47)).filter (· ≠ [])).map (·.take dirsiz)

theorem components_slashes (path : List UInt8) : components (path.dropWhile (· == 47)) = components path := by
  induction path with
  | nil => rfl
  | cons c path ih =>
    by_cases slash : (c == 47) = true
    · rw [List.dropWhile_cons_of_pos (p := (· == 47)) slash,ih]
      simp [components,List.splitOnP_cons_eq_if_modifyHead,slash]
    · rw [List.dropWhile_cons_of_neg (p := (· == 47)) slash]

theorem components_skipelem {path rest name : List UInt8} (found : skipelem path = some (rest,name)) :
    components path = name :: components rest := by
  rcases skipelem_cases path with ⟨_,none⟩ | ⟨elem,after,parts,some,plain,ends,eq⟩
  · rw [none] at found
    contradiction
  · cases eq.symm.trans found
    rw [← components_slashes path,parts,components_slashes]
    cases after with
    | nil =>
      rw [List.append_nil,components,List.splitOnP_eq_singleton plain]
      simp [components,some,List.splitOnP_nil]
    | cons c after =>
      have slash := ends c rfl
      rw [components,List.splitOnP_append_cons_of_forall_mem plain c slash]
      simp [components,some,List.splitOnP_cons_eq_if_modifyHead,slash]

theorem components_none {path : List UInt8} (none : skipelem path = none) : components path = [] := by
  rcases skipelem_cases path with ⟨empty,_⟩ | ⟨_,_,_,_,_,_,eq⟩
  · rw [← components_slashes path,empty]
    rfl
  · rw [eq] at none
    contradiction

theorem elems_eq (n : Nat) (path : List UInt8) (enough : path.length ≤ n) : elems n path = components path := by
  induction n generalizing path with
  | zero =>
    rw [List.eq_nil_of_length_eq_zero (Nat.le_zero.mp enough)]
    rfl
  | succ n ih =>
    unfold elems
    split
    next none => rw [components_none none]
    next rest name found =>
      have shorter := length_skipelem found
      rw [components_skipelem found,ih rest (by omega)]

/-- What `skipelem` leaves has no slash at its front. -/
theorem rest_empty {path rest name : List UInt8} (found : skipelem path = some (rest,name)) :
    rest = [] ↔ components rest = [] := by
  rcases skipelem_cases path with ⟨_,failed⟩ | ⟨_,after,_,_,_,_,eq⟩
  · rw [failed] at found
    contradiction
  · cases eq.symm.trans found
    constructor
    · intro empty
      rw [empty]
      rfl
    · intro none
      rw [components_slashes] at none
      rcases skipelem_cases after with ⟨empty,_⟩ | ⟨_,_,_,_,_,_,finds⟩
      · exact empty
      · rw [components_skipelem finds] at none
        contradiction

namespace Dirs
variable {I : Type} (dirs : Dirs I)

theorem walk_inode (n : Nat) (ip : I) (path name : List UInt8) (enough : path.length ≤ n) :
    (dirs.walk false n ip path name).map Prod.fst = (components path).foldlM dirs.enter ip := by
  induction n generalizing ip path name with
  | zero =>
    rw [List.eq_nil_of_length_eq_zero (Nat.le_zero.mp enough)]
    rfl
  | succ n ih =>
    unfold walk
    split
    next none =>
      rw [components_none none]
      rfl
    next rest elem found =>
      have shorter := length_skipelem found
      rw [components_skipelem found,List.foldlM_cons,enter]
      by_cases dir : dirs.isDir ip = true
      · simp only [dir,Bool.true_eq_false,if_false,if_true]
        cases dirs.dirlookup ip elem with
        | none => rfl
        | some next => exact ih next rest elem (by omega)
      · simp [dir]

theorem walk_parent (n : Nat) (ip : I) (path name : List UInt8) (enough : path.length ≤ n) :
    dirs.walk true n ip path name = (components path).getLast?.bind fun last =>
      ((components path).dropLast.foldlM dirs.enter ip).bind fun dp => if dirs.isDir dp then some (dp,last) else none := by
  induction n generalizing ip path name with
  | zero =>
    rw [List.eq_nil_of_length_eq_zero (Nat.le_zero.mp enough)]
    rfl
  | succ n ih =>
    unfold walk
    split
    next none =>
      rw [components_none none]
      rfl
    next rest elem found =>
      have shorter := length_skipelem found
      rw [components_skipelem found]
      by_cases last : rest = []
      · rw [(rest_empty found).mp last]
        by_cases dir : dirs.isDir ip = true
        · simp [dir,last]
        · simp [dir]
      · obtain ⟨c,after,more⟩ := List.exists_cons_of_ne_nil (mt (rest_empty found).mpr last)
        have next (dp : I) := ih dp rest elem
        rw [more] at next ⊢
        rw [List.getLast?_cons_cons,List.dropLast_cons_cons,List.foldlM_cons,enter]
        by_cases dir : dirs.isDir ip = true
        · simp only [dir,last,Bool.true_eq_false,if_false,and_false,if_true]
          cases dirs.dirlookup ip elem with
          | none => simp
          | some dp => exact next dp (by omega)
        · simp [dir]

/-- The components of a path are what iterated `skipelem` finds; `namei` enters them one after the other, and
`nameiparent` stops before the last one. -/
theorem path_lookup (cwd : I) (path : List UInt8) :
    (∀ n, path.length ≤ n → elems n path = components path) ∧
      dirs.namei cwd path = (components path).foldlM dirs.enter (dirs.start cwd path) ∧
      (dirs.nameiparent cwd path = (components path).getLast?.bind fun last =>
        ((components path).dropLast.foldlM dirs.enter (dirs.start cwd path)).bind fun dp =>
          if dirs.isDir dp then some (dp,last) else none) ∧
      ∀ dp name, dirs.nameiparent cwd path = some (dp,name) → dirs.namei cwd path = dirs.dirlookup dp name := by
  have inode := dirs.walk_inode path.length (dirs.start cwd path) path [] le_rfl
  have parent := dirs.walk_parent path.length (dirs.start cwd path) path [] le_rfl
  refine ⟨fun n => elems_eq n path,inode,parent,?_⟩
  intro dp name found
  obtain ⟨last,ends,rest⟩ := Option.bind_eq_some_iff.mp (parent.symm.trans found)
  obtain ⟨ip,prefixed,stops⟩ := Option.bind_eq_some_iff.mp rest
  split at stops
  next dir =>
    cases stops
    obtain ⟨before,parts⟩ := List.getLast?_eq_some_iff.mp ends
    rw [parts,List.dropLast_concat] at prefixed
    refine inode.trans ?_
    rw [parts,List.foldlM_append,prefixed]
    simp [enter,dir]
  · contradiction

end Dirs

end Kthreads
