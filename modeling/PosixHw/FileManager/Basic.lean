import PosixHw.Base.FileSystem
import PosixHw.Base.Run

/-!
# The file manager: two panels over one working directory

The program `file system/fm/file_manager.c`: `list_files`, `handle_navigation` and the key loop of
`main`.  The working directory belongs to the process; each panel has its own path, list and
cursor.

* `FileSystem D` stands for the kernel.  It may change between two keys (`Action.change`).
* A store to `files[i]` with `i ≥ MAX_FILES` is outside the array: `listFiles` is then `none`.
* A `getcwd` that fails may leave anything in the buffer that ends there (`FileSystem.leaves`).
* `height`, the number of rows, is fixed when the program starts.  A run ends at the latest at the
  key `q`; the other keys that `main` does not know are `Key.other`.
* `seen` records the file system in which a panel was last listed; no step reads it.
-/

namespace PosixHw
namespace FileManager

open Run

/-- `MAX_FILES`. -/
def maxFiles : ℤ := 1024

/-- `struct File`. -/
structure File where
  name : Path
  size : ℤ
  isDir : Bool
  deriving DecidableEq

/-- `struct Panel`. -/
structure Panel (D : Type*) where
  files : ℤ → File
  fileCount : ℤ
  currentFile : ℤ
  scrollOffset : ℤ
  currentPath : Path
  seen : Option (FileSystem D)

variable {D : Type*}

/-- A panel of the static array `panels` before `main` fills it. -/
def Panel.zero : Panel D where
  files _ := ⟨[], 0, false⟩
  fileCount := 0
  currentFile := 0
  scrollOffset := 0
  currentPath := []
  seen := none

/-- The record that `list_files` makes of the entry `n` of `path`: `name` has 256 bytes and
`full_path` 1024, the NUL included. -/
def fileAt (fs : FileSystem D) (path n : Path) : File :=
  match fs.stat ((join path n).take 1023) with
  | some st => ⟨n.take 255, st.size, st.isDir⟩
  | none => ⟨n.take 255, 0, false⟩

/-- `panel->files[panel->file_count] = f; panel->file_count++`. -/
def Panel.store (p : Panel D) (f : File) : Option (Panel D) :=
  if p.fileCount < maxFiles then
    some { p with
      files := Function.update p.files p.fileCount f
      fileCount := p.fileCount + 1 }
  else none

/-- The loop over `readdir`. -/
def storeAll (fs : FileSystem D) (path : Path) : List Path → Panel D → Option (Panel D)
  | [], p => some p
  | n :: ns, p => (p.store (fileAt fs path n)).bind (storeAll fs path ns)

/-- `list_files`: a directory that cannot be opened leaves the panel as it is. -/
def listFiles (fs : FileSystem D) (p : Panel D) (path : Path) : Option (Panel D) :=
  match fs.opendir path with
  | none => some p
  | some names => storeAll fs path names { p with fileCount := 0, seen := some fs }

/-- `getcwd(buf, 1024)` succeeds. -/
def HasPath (fs : FileSystem D) (cwd : D) : Prop := ∃ p, fs.getcwd cwd = some p ∧ p.length < 1024

/-- The string in the buffer after a `getcwd` that fails. -/
def leftover (fs : FileSystem D) (cwd : D) (buf : Path) : Path :=
  match fs.leaves cwd with
  | some bs => (bs.take 1023 ++ [0]).takeWhile (· ≠ 0)
  | none => buf

/-- The string in the buffer after `getcwd(buf, 1024)`. -/
def getcwd (fs : FileSystem D) (cwd : D) (buf : Path) : Path :=
  match fs.getcwd cwd with
  | some p => if p.length < 1024 then p else leftover fs cwd buf
  | none => leftover fs cwd buf

/-- The keys. -/
inductive Key
  | up
  | down
  | enter
  | tab
  | other
  deriving DecidableEq

/-- The entry under the cursor, `panel->files[panel->current_file]`. -/
def Panel.entry (p : Panel D) : File := p.files p.currentFile

/-- The `chdir` of lines 114–118. -/
def changeDir (fs : FileSystem D) (cwd : D) (name : Path) : D :=
  let dotdot : Path := [46, 46]
  if name = dotdot then (fs.chdir cwd dotdot).getD cwd else (fs.chdir cwd name).getD cwd

/-- `handle_navigation`, with the working directory before and after it. -/
def handleNavigation (fs : FileSystem D) (height : ℤ) (cwd : D) (p : Panel D) :
    Key → Option (D × Panel D)
  | .up =>
    if 0 < p.currentFile then
      let p := { p with currentFile := p.currentFile - 1 }
      some (cwd, if p.currentFile < p.scrollOffset then
        { p with scrollOffset := p.scrollOffset - 1 } else p)
    else some (cwd, p)
  | .down =>
    if p.currentFile < p.fileCount - 1 then
      let p := { p with currentFile := p.currentFile + 1 }
      some (cwd, if p.scrollOffset + height ≤ p.currentFile then
        { p with scrollOffset := p.scrollOffset + 1 } else p)
    else some (cwd, p)
  | .enter =>
    if p.entry.isDir then
      let cwd := changeDir fs cwd p.entry.name
      let path := getcwd fs cwd p.currentPath
      (listFiles fs { p with currentPath := path } path).map fun p =>
        (cwd, { p with currentFile := 0, scrollOffset := 0 })
    else some (cwd, p)
  | .tab | .other => some (cwd, p)

/-- The process. -/
structure State (D : Type*) where
  fs : FileSystem D
  cwd : D
  panels : Fin 2 → Panel D
  activePanel : Fin 2

/-- Lines 147–150, in the working directory `cwd`. -/
def start (fs : FileSystem D) (cwd : D) : Option (State D) :=
  let path := getcwd fs cwd []
  (listFiles fs { Panel.zero with currentPath := path } path).map fun p => ⟨fs, cwd, fun _ => p, 0⟩

/-- A key is pressed, or the file system changes. -/
inductive Action (D : Type*)
  | key (k : Key)
  | change (fs : FileSystem D)

/-- One step; `none` if it stores outside an array. -/
def step (height : ℤ) (s : State D) : Action D → Option (State D)
  | .change fs => some { s with fs := fs }
  | .key .tab => some { s with activePanel := 1 - s.activePanel }
  | .key k =>
    (handleNavigation s.fs height s.cwd (s.panels s.activePanel) k).map fun r =>
      { s with cwd := r.1, panels := Function.update s.panels s.activePanel r.2 }

/-! ### What list_files does -/

/-- What the panel shows: `files[0..file_count)`. -/
def Panel.list (p : Panel D) : List File :=
  (List.range p.fileCount.toNat).map fun i : ℕ => p.files i

section Listing

variable {fs : FileSystem D} {p p' : Panel D} {path : Path}

theorem mem_list_of_lt (h0 : 0 ≤ p.currentFile) (h : p.currentFile < p.fileCount) :
    p.entry ∈ p.list := by
  refine List.mem_map.2 ⟨p.currentFile.toNat, List.mem_range.2 (by omega), ?_⟩
  rw [Int.toNat_of_nonneg h0]
  rfl

/-- What one store does. -/
theorem store_cases {f : File} (h : p.store f = some p') (h0 : 0 ≤ p.fileCount) :
    p'.list = p.list ++ [f] ∧ p'.fileCount = p.fileCount + 1 ∧ p'.currentFile = p.currentFile ∧
      p'.scrollOffset = p.scrollOffset ∧ p'.currentPath = p.currentPath ∧ p'.seen = p.seen := by
  unfold Panel.store at h
  split_ifs at h
  cases h
  refine ⟨?_, rfl, rfl, rfl, rfl, rfl⟩
  obtain ⟨n, hn⟩ : ∃ n : ℕ, p.fileCount = n := ⟨p.fileCount.toNat, by omega⟩
  have hn' : ((n : ℤ) + 1).toNat = n + 1 := by omega
  simp only [Panel.list, hn, hn', Int.toNat_natCast, List.range_succ, List.map_append,
    List.map_singleton, Function.update_self]
  congr 1
  refine List.map_congr_left fun i hi => ?_
  have : i < n := List.mem_range.1 hi
  rw [Function.update_of_ne]
  omega

/-- The loop appends a record for each name. -/
theorem storeAll_cases {names : List Path} (h : storeAll fs path names p = some p')
    (h0 : 0 ≤ p.fileCount) :
    p'.list = p.list ++ names.map (fileAt fs path) ∧ p'.fileCount = p.fileCount + names.length ∧
      p'.currentFile = p.currentFile ∧ p'.scrollOffset = p.scrollOffset ∧
      p'.currentPath = p.currentPath ∧ p'.seen = p.seen := by
  induction names generalizing p with
  | nil =>
    cases h
    refine ⟨?_, ?_, rfl, rfl, rfl, rfl⟩ <;> simp
  | cons n ns ih =>
    obtain ⟨q, hq, h⟩ := Option.bind_eq_some_iff.1 h
    obtain ⟨hl, hc, hcur, hscr, hpath, hseen⟩ := store_cases hq h0
    obtain ⟨hl', hc', hcur', hscr', hpath', hseen'⟩ := ih h (by omega)
    refine ⟨?_, ?_, hcur'.trans hcur, hscr'.trans hscr, hpath'.trans hpath, hseen'.trans hseen⟩
    · rw [hl', hl, List.map_cons, List.append_assoc, List.singleton_append]
    · rw [hc', hc, List.length_cons]
      push_cast
      omega

/-- `list_files` leaves the panel alone, or fills it with the records of the directory. -/
theorem listFiles_cases (h : listFiles fs p path = some p') :
    (fs.opendir path = none ∧ p' = p) ∨
    ∃ names, fs.opendir path = some names ∧ p'.list = names.map (fileAt fs path) ∧
      p'.fileCount = names.length ∧ p'.currentPath = p.currentPath ∧ p'.seen = some fs := by
  unfold listFiles at h
  split at h
  · rename_i hn
    cases h
    exact Or.inl ⟨hn, rfl⟩
  · rename_i names hn
    obtain ⟨hl, hc, -, -, hpath, hseen⟩ := storeAll_cases h le_rfl
    refine Or.inr ⟨names, hn, ?_, ?_, hpath, hseen⟩
    · rw [hl]
      rfl
    · rw [hc]
      simp

end Listing

/-! ### What a key does -/

/-- Where a key moves the cursor without listing anything. -/
structure Moved (p p' : Panel D) : Prop where
  list : p'.list = p.list
  fileCount : p'.fileCount = p.fileCount
  currentPath : p'.currentPath = p.currentPath
  seen : p'.seen = p.seen
  cursor : 0 ≤ p.currentFile → 0 ≤ p'.currentFile ∧
    (p'.currentFile = p.currentFile ∨ p'.currentFile < p.currentFile ∨
      p'.currentFile < p.fileCount)

theorem Moved.refl (p : Panel D) : Moved p p := ⟨rfl, rfl, rfl, rfl, fun h => ⟨h, Or.inl rfl⟩⟩

/-- Enter on a directory lists what `chdir` and `getcwd` lead to. -/
theorem handleNavigation_enter {fs : FileSystem D} {height : ℤ} {cwd cwd' : D} {p p' : Panel D}
    (h : handleNavigation fs height cwd p .enter = some (cwd', p')) (hd : p.entry.isDir = true) :
    cwd' = changeDir fs cwd p.entry.name ∧
      ∃ q, listFiles fs { p with currentPath := getcwd fs cwd' p.currentPath }
          (getcwd fs cwd' p.currentPath) = some q ∧
        p' = { q with currentFile := 0, scrollOffset := 0 } := by
  simp only [handleNavigation, hd, if_true] at h
  obtain ⟨q, hq, he⟩ := Option.map_eq_some_iff.1 h
  cases he
  exact ⟨rfl, q, hq, rfl⟩

/-- Any other key moves the cursor at most, in every working directory alike. -/
theorem handleNavigation_move {fs : FileSystem D} {height : ℤ} {cwd cwd' : D} {p p' : Panel D}
    {k : Key} (h : handleNavigation fs height cwd p k = some (cwd', p'))
    (hk : k = .enter → p.entry.isDir = false) :
    cwd' = cwd ∧ Moved p p' ∧ ∀ c, handleNavigation fs height c p k = some (c, p') := by
  cases k with
  | tab | other => cases h; exact ⟨rfl, .refl p, fun c => rfl⟩
  | enter =>
    simp only [handleNavigation, hk rfl, Bool.false_eq_true, if_false] at h ⊢
    cases h
    exact ⟨rfl, .refl p, fun c => rfl⟩
  | up =>
    simp only [handleNavigation] at h ⊢
    split_ifs at h ⊢ with h0 hs <;> cases h
    · exact ⟨rfl, ⟨rfl, rfl, rfl, rfl, fun _ => ⟨by dsimp only; omega, by dsimp only; omega⟩⟩,
        fun c => rfl⟩
    · exact ⟨rfl, ⟨rfl, rfl, rfl, rfl, fun _ => ⟨by dsimp only; omega, by dsimp only; omega⟩⟩,
        fun c => rfl⟩
    · exact ⟨rfl, .refl p, fun c => rfl⟩
  | down =>
    simp only [handleNavigation] at h ⊢
    split_ifs at h ⊢ with h0 hs <;> cases h
    · exact ⟨rfl, ⟨rfl, rfl, rfl, rfl, fun _ => ⟨by dsimp only; omega, by dsimp only; omega⟩⟩,
        fun c => rfl⟩
    · exact ⟨rfl, ⟨rfl, rfl, rfl, rfl, fun _ => ⟨by dsimp only; omega, by dsimp only; omega⟩⟩,
        fun c => rfl⟩
    · exact ⟨rfl, .refl p, fun c => rfl⟩

theorem currentPath_listFiles {fs : FileSystem D} {p p' : Panel D} {path : Path}
    (h : listFiles fs { p with currentPath := path } path = some p') : p'.currentPath = path := by
  rcases listFiles_cases h with ⟨-, rfl⟩ | ⟨-, -, -, -, hp, -⟩
  · rfl
  · exact hp

/-- At the start both panels show the working directory, with the cursor on the first entry. -/
theorem start_cases {fs : FileSystem D} {cwd : D} {s : State D} (h : start fs cwd = some s) :
    ∃ p, listFiles fs { Panel.zero with currentPath := getcwd fs cwd [] } (getcwd fs cwd [])
        = some p ∧ p.currentFile = 0 ∧ p.currentPath = getcwd fs cwd [] ∧
      s = ⟨fs, cwd, fun _ => p, 0⟩ := by
  obtain ⟨p, hp, rfl⟩ := Option.map_eq_some_iff.1 h
  refine ⟨p, hp, ?_, ?_, rfl⟩
  · unfold listFiles at hp
    split at hp
    · cases hp; rfl
    · exact (storeAll_cases hp le_rfl).2.2.1
  · exact currentPath_listFiles hp

/-- What a step does. -/
theorem step_cases {height : ℤ} {s s' : State D} {a : Action D} (h : step height s a = some s') :
    (∃ fs, a = .change fs ∧ s' = { s with fs := fs }) ∨
    (a = .key .tab ∧ s' = { s with activePanel := 1 - s.activePanel }) ∨
    ∃ k cwd p, a = .key k ∧ k ≠ .tab ∧
      handleNavigation s.fs height s.cwd (s.panels s.activePanel) k = some (cwd, p) ∧
      s' = { s with cwd := cwd, panels := Function.update s.panels s.activePanel p } := by
  cases a with
  | change fs => cases h; exact Or.inl ⟨fs, rfl, rfl⟩
  | key k =>
    cases k with
    | tab => cases h; exact Or.inr (Or.inl ⟨rfl, rfl⟩)
    | _ =>
      simp only [step] at h
      obtain ⟨⟨cwd, p⟩, hp, rfl⟩ := Option.map_eq_some_iff.1 h
      exact Or.inr (Or.inr ⟨_, cwd, p, rfl, nofun, hp, rfl⟩)

end FileManager
end PosixHw
