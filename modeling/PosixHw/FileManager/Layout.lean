import PosixHw.Base.Flat
import PosixHw.FileManager.Basic

/-!
# The file manager: the panels in memory

The array `panels` of `file_manager.c` as the bytes that it is.  A `File` has 272 bytes, and behind
the 1024 files of a panel come its counters, its path and the other panel.  `list_files` does not
compare `file_count` with `MAX_FILES`, and it reads `file_count` again for each of the three stores
of an entry; so the record 1024 is stored over the counters, and the stores after it go where these
lead.

* Addresses are relative to `panels`.  An access outside of the array is undefined, which is `none`.
* Both callers pass the path of the panel itself to `list_files`; it is read from memory for every
  entry.
* `State.listed` counts the calls of `list_files` before the loop of `main`.
-/

namespace PosixHw
namespace FileManager
namespace Layout

open Run Flat

variable {D : Type*}

/-! ### The layout -/

/-- `sizeof(File)`, and the offsets of `size` and `is_dir`; the name is at 0. -/
def fileSize : ℤ := 272
def sizeOffset : ℤ := 256
def isDirOffset : ℤ := 264

/-- `sizeof(Panel)`, and the offsets of the fields behind `files`, which are at 0. -/
def panelSize : ℤ := 279568
def fileCountOffset : ℤ := fileSize * maxFiles
def currentFileOffset : ℤ := fileCountOffset + 4
def scrollOffsetOffset : ℤ := fileCountOffset + 8
def currentPathOffset : ℤ := fileCountOffset + 12

/-- `sizeof(panels)`. -/
def size : ℤ := 2 * panelSize

/-- `panels[0]` and `panels[1]`. -/
abbrev first : Fin 2 := ⟨0, Nat.two_pos⟩
abbrev second : Fin 2 := ⟨1, Nat.one_lt_two⟩

/-- `&panels[i]`. -/
def panelAt (i : Fin 2) : ℤ := panelSize * (i : ℕ)

/-- `&panels[i].files[k]`. -/
def fileAddr (i : Fin 2) (k : ℤ) : ℤ := panelAt i + fileSize * k

def fileCountAt (i : Fin 2) : ℤ := panelAt i + fileCountOffset
def currentFileAt (i : Fin 2) : ℤ := panelAt i + currentFileOffset
def scrollOffsetAt (i : Fin 2) : ℤ := panelAt i + scrollOffsetOffset
def currentPathAt (i : Fin 2) : ℤ := panelAt i + currentPathOffset

def fileCount (m : Memory) (i : Fin 2) : ℤ := int m (fileCountAt i)
def currentFile (m : Memory) (i : Fin 2) : ℤ := int m (currentFileAt i)
def scrollOffset (m : Memory) (i : Fin 2) : ℤ := int m (scrollOffsetAt i)

/-- The string at `p`, which ends in `panels`. -/
def text (m : Memory) (p : ℤ) : Path := string m p (size - p).toNat

def currentPath (m : Memory) (i : Fin 2) : Path := text m (currentPathAt i)

/-- A store to `panels`. -/
def put (m : Memory) (p : ℤ) (bs : List UInt8) : Option Memory :=
  if 0 ≤ p ∧ p + bs.length ≤ size then some (store m p bs) else none

/-! ### list_files -/

/-- Line 42: the name of the entry, cut to 255 bytes. -/
def storeName (i : Fin 2) (m : Memory) (n : Path) : Option Memory :=
  put m (fileAddr i (fileCount m i)) (n.take 255 ++ [0])

/-- Lines 45–54: what is known of the entry. -/
def statOf (fs : FileSystem D) (i : Fin 2) (m : Memory) (n : Path) : Stat :=
  (fs.stat ((join (currentPath m i) n).take 1023)).getD ⟨0, false⟩

/-- Lines 49 and 52. -/
def storeSize (i : Fin 2) (m : Memory) (st : Stat) : Option Memory :=
  put m (fileAddr i (fileCount m i) + sizeOffset) (encode 8 (st.size % 2 ^ 64).toNat)

/-- Lines 50 and 53. -/
def storeIsDir (i : Fin 2) (m : Memory) (st : Stat) : Option Memory :=
  put m (fileAddr i (fileCount m i) + isDirOffset) (encode 4 (if st.isDir then 1 else 0))

/-- Lines 42–54: an entry is stored. -/
def storeEntry (fs : FileSystem D) (i : Fin 2) (m : Memory) (n : Path) : Option Memory :=
  (storeName i m n).bind fun m₁ =>
    (storeSize i m₁ (statOf fs i m₁ n)).bind fun m₂ => storeIsDir i m₂ (statOf fs i m₁ n)

/-- The indices at which the entry is stored. -/
def indices (fs : FileSystem D) (i : Fin 2) (m : Memory) (n : Path) : List ℤ :=
  fileCount m i :: match storeName i m n with
    | none => []
    | some m₁ => fileCount m₁ i :: match storeSize i m₁ (statOf fs i m₁ n) with
      | none => []
      | some m₂ => [fileCount m₂ i]

/-- Line 56: `panel->file_count++`. -/
def increment (i : Fin 2) (m : Memory) : Option Memory :=
  if fileCount m i < 2 ^ 31 - 1 then some (setInt m (fileCountAt i) (fileCount m i + 1)) else none

/-- A turn of the loop. -/
def readEntry (fs : FileSystem D) (i : Fin 2) (m : Memory) (n : Path) : Option Memory :=
  (storeEntry fs i m n).bind (increment i)

/-- Line 40. -/
def reset (i : Fin 2) (m : Memory) : Memory := setInt m (fileCountAt i) 0

/-- `list_files`. -/
def listFiles (fs : FileSystem D) (i : Fin 2) (m : Memory) : Option Memory :=
  match fs.opendir (currentPath m i) with
  | none => some m
  | some names => run (readEntry fs i) (reset i m) names

/-! ### main -/

/-- What a `getcwd` that fails leaves in the path of a panel: a NUL is behind it. -/
def leavePath (fs : FileSystem D) (cwd : D) (i : Fin 2) (m : Memory) : Memory :=
  match fs.leaves cwd with
  | some bs => store m (currentPathAt i) (bs.take 1023 ++ [0])
  | none => m

/-- `getcwd` into the path of a panel. -/
def putPath (fs : FileSystem D) (cwd : D) (i : Fin 2) (m : Memory) : Memory :=
  match fs.getcwd cwd with
  | some p => if p.length < 1024 then store m (currentPathAt i) (p ++ [0])
    else leavePath fs cwd i m
  | none => leavePath fs cwd i m

/-- The process; `mem` is the array `panels`. -/
structure State (D : Type*) where
  fs : FileSystem D
  cwd : D
  mem : Memory
  activePanel : Fin 2
  listed : ℕ

/-- Lines 147 and 148, in the working directory `cwd`. -/
def start (fs : FileSystem D) (cwd : D) : State D :=
  ⟨fs, cwd, putPath fs cwd second (putPath fs cwd first fun _ => 0), first, 0⟩

/-- `KEY_UP`. -/
def up (i : Fin 2) (m : Memory) : Memory :=
  if 0 < currentFile m i then
    let m := setInt m (currentFileAt i) (currentFile m i - 1)
    if currentFile m i < scrollOffset m i then
      setInt m (scrollOffsetAt i) (scrollOffset m i - 1)
    else m
  else m

/-- `KEY_DOWN`. -/
def down (height : ℤ) (i : Fin 2) (m : Memory) : Memory :=
  if currentFile m i < fileCount m i - 1 then
    let m := setInt m (currentFileAt i) (currentFile m i + 1)
    if scrollOffset m i + height ≤ currentFile m i then
      setInt m (scrollOffsetAt i) (scrollOffset m i + 1)
    else m
  else m

/-- `panel->files[panel->current_file].is_dir`. -/
def onDir (m : Memory) (i : Fin 2) : Bool :=
  int m (fileAddr i (currentFile m i) + isDirOffset) ≠ 0

/-- Lines 114–118: the working directory after Enter. -/
def State.entered (s : State D) : D :=
  changeDir s.fs s.cwd (text s.mem (fileAddr s.activePanel (currentFile s.mem s.activePanel)))

/-- Lines 114–119: the panels when Enter calls `list_files`. -/
def State.renamed (s : State D) : Memory := putPath s.fs s.entered s.activePanel s.mem

/-- Lines 121 and 122. -/
def home (i : Fin 2) (m : Memory) : Memory :=
  setInt (setInt m (currentFileAt i) 0) (scrollOffsetAt i) 0

/-- The first two listings, a key, or a change of the file system. -/
inductive Action (D : Type*)
  | list
  | key (k : Key)
  | change (fs : FileSystem D)

/-- The panel that `main` lists next. -/
def State.next (s : State D) : Fin 2 := if s.listed = 0 then first else second

/-- One step; `none` if it is not enabled, or undefined. -/
def step (height : ℤ) (s : State D) : Action D → Option (State D)
  | .change fs => some { s with fs := fs }
  | .list =>
    if s.listed < 2 then
      (listFiles s.fs s.next s.mem).map fun m => { s with mem := m, listed := s.listed + 1 }
    else none
  | .key k =>
    if s.listed < 2 then none
    else match k with
      | .up => some { s with mem := up s.activePanel s.mem }
      | .down => some { s with mem := down height s.activePanel s.mem }
      | .enter =>
        if onDir s.mem s.activePanel then
          (listFiles s.fs s.activePanel s.renamed).map fun m =>
            { s with cwd := s.entered, mem := home s.activePanel m }
        else some s
      | .tab => some { s with activePanel := second - s.activePanel }
      | .other => some s

end Layout
end FileManager
end PosixHw
