import Mathlib.Tactic

/-!
# Directories, as a process sees them

A file system is given by what the system calls return: which directory an absolute path or a
`chdir` leads to, the absolute path of a directory, its entries, and what `stat` reports.  Nothing
is assumed of a `FileSystem`; permissions show in the calls that return nothing.

* `Accessible fs` collects what holds where every directory can be read and searched: names and
  directories belong to each other, and a `chdir` from a directory leads where its path does with
  one more name;
* `Tree` builds an accessible file system from a root and the children of each directory.
-/

namespace PosixHw

/-- A path or a file name: its bytes, without the NUL at the end. -/
abbrev Path := List UInt8

/-- What `stat` reports of a file. -/
structure Stat where
  size : ℤ
  isDir : Bool
  deriving DecidableEq

/-- A file system with the directories `D`: the directory that an absolute path names, the one that
`chdir` goes to, the absolute path of a directory, what a `getcwd` that fails leaves in the buffer
(`none` for what was there), whether the directory can be read, its entries, and `stat`. -/
structure FileSystem (D : Type*) where
  find : Path → Option D
  chdir : D → Path → Option D
  getcwd : D → Option Path
  leaves : D → Option (List UInt8)
  readable : D → Bool
  entries : D → List Path
  stat : Path → Option Stat

/-- The byte `/`. -/
def slash : UInt8 := 47

/-- The path `p/n`. -/
def join (p n : Path) : Path := p ++ slash :: n

theorem length_join (p n : Path) : (join p n).length = p.length + n.length + 1 := by
  simp only [join, List.length_append, List.length_cons]
  omega

/-- `PATH_MAX`: the kernel follows no path of this length. -/
def pathMax : ℕ := 4096

namespace FileSystem

variable {D : Type*} (fs : FileSystem D)

/-- `opendir` with the `readdir`s that follow it. -/
def opendir (p : Path) : Option (List Path) :=
  (fs.find p).bind fun d => if fs.readable d then some (fs.entries d) else none

/-- Every directory can be read and searched. -/
structure Accessible : Prop where
  find_nil : fs.find [] = none
  find_getcwd : ∀ {d p}, fs.getcwd d = some p → p.length < pathMax → fs.find p = some d
  chdir_eq : ∀ {d p n}, fs.getcwd d = some p → n ≠ [] → slash ∉ n →
    (join p n).length < pathMax → fs.chdir d n = fs.find (join p n)
  find_of_stat : ∀ {p st}, fs.stat p = some st → st.isDir = true → (fs.find p).isSome = true
  readable : ∀ d, fs.readable d = true
  entry_name : ∀ {d n}, n ∈ fs.entries d → n ≠ [] ∧ slash ∉ n ∧ n.length < 256

/-- Names and paths are C strings. -/
structure NulFree : Prop where
  entries : ∀ {d n}, n ∈ fs.entries d → 0 ∉ n
  getcwd : ∀ {d p}, fs.getcwd d = some p → 0 ∉ p

variable {fs} {p : Path}

theorem Accessible.opendir_isSome (h : fs.Accessible) {d : D} (hp : fs.find p = some d) :
    fs.opendir p = some (fs.entries d) := by
  simp only [opendir, hp, Option.bind_some, h.readable d, if_true]

theorem mem_opendir {names : List Path} (h : fs.opendir p = some names) :
    ∃ d, fs.find p = some d ∧ names = fs.entries d := by
  obtain ⟨d, hd, hn⟩ := Option.bind_eq_some_iff.1 h
  split_ifs at hn
  cases hn
  exact ⟨d, hd, rfl⟩

end FileSystem

/-! ### Trees of directories -/

/-- Directories with their children under each name, an absolute path of each, and their entries. -/
structure Tree (D : Type*) where
  root : D
  child : D → Path → Option D
  path : D → Path
  entries : D → List Path

namespace Tree

variable {D : Type*} (T : Tree D)

/-- From `d` to its child `n`; an empty component changes nothing. -/
def enter (d : Option D) (n : Path) : Option D :=
  if n = [] then d else d.bind fun d => T.child d n

/-- Follows `p` from `d`, with the bytes `comp` of a component already read (the last first). -/
def scan : Path → Option D → Path → Option D
  | [], d, comp => T.enter d comp.reverse
  | b :: p, d, comp =>
    if b = slash then scan p (T.enter d comp.reverse) [] else scan p d (b :: comp)

/-- The directory that an absolute path names. -/
def find : Path → Option D
  | [] => none
  | b :: p => if b = slash then T.scan p (some T.root) [] else none

/-- The file system that has the directories of `T` and no other files. -/
def toFileSystem : FileSystem D where
  find := T.find
  chdir := T.child
  getcwd d := some (T.path d)
  leaves _ := none
  readable _ := true
  entries := T.entries
  stat p := (T.find p).map fun _ => ⟨4096, true⟩

variable {T} {d : Option D} {n comp : Path}

theorem scan_component (hn : slash ∉ n) : T.scan n d comp = T.enter d (comp.reverse ++ n) := by
  induction n generalizing comp with
  | nil => rw [List.append_nil]; rfl
  | cons b n ih =>
    rw [List.mem_cons, not_or] at hn
    unfold scan
    rw [if_neg (Ne.symm hn.1), ih hn.2, List.reverse_cons, List.append_assoc, List.singleton_append]

theorem scan_join (p : Path) (hn : slash ∉ n) :
    T.scan (join p n) d comp = T.enter (T.scan p d comp) n := by
  induction p generalizing d comp with
  | nil =>
    show T.scan (slash :: n) d comp = _
    unfold scan
    rw [if_pos rfl, scan_component hn]
    rfl
  | cons b p ih =>
    show T.scan (b :: join p n) d comp = _
    unfold scan
    split_ifs
    · exact ih
    · exact ih

theorem find_join {p : Path} {d : D} (hp : T.find p = some d) (hne : n ≠ []) (hn : slash ∉ n) :
    T.find (join p n) = T.child d n := by
  cases p with
  | nil => cases hp
  | cons b p =>
    simp only [find] at hp
    split_ifs at hp with hb
    have hscan : T.scan (join p n) (some T.root) [] = T.child d n := by
      rw [scan_join p hn, hp, enter, if_neg hne]
      rfl
    show (if b = slash then T.scan (join p n) (some T.root) [] else none) = _
    rw [if_pos hb, hscan]

/-- A tree is accessible if its paths name its directories and its entries are file names. -/
theorem accessible (hpath : ∀ d, T.find (T.path d) = some d)
    (hname : ∀ d, ∀ n ∈ T.entries d, n ≠ [] ∧ slash ∉ n ∧ n.length < 256) :
    T.toFileSystem.Accessible where
  find_nil := rfl
  find_getcwd h _ := by
    cases h
    exact hpath _
  chdir_eq h hne hn _ := by
    cases h
    exact (find_join (hpath _) hne hn).symm
  find_of_stat h _ := by
    obtain ⟨d, hd, -⟩ := Option.map_eq_some_iff.1 h
    exact Option.isSome_iff_exists.2 ⟨d, hd⟩
  readable _ := rfl
  entry_name h := hname _ _ h

end Tree
end PosixHw
