import PosixHw.FileManager.Cursor

/-!
# The file manager: what a record tells of its file

`list_files` builds the path of each entry in 1024 bytes, as many as the path of the directory may
take alone.  A longer path is cut off, and what is recorded is then what `stat` reports of a file
with a shorter name, or zeros if there is none.
-/

namespace PosixHw
namespace FileManager

variable {D : Type*} {fs : FileSystem D} {p : Panel D} {path n : Path} {names : List Path}

/-- What is recorded of the file: zeros if `stat` fails. -/
def examine (fs : FileSystem D) (path : Path) : Stat := (fs.stat path).getD ⟨0, false⟩

/-- The path of the entry fits into `full_path`, or the file whose path is the part that fits looks
like the entry. -/
def WellRecorded (fs : FileSystem D) (path n : Path) : Prop :=
  (join path n).length ≤ 1023 ∨ examine fs ((join path n).take 1023) = examine fs (join path n)

theorem fileAt_eq (hn : n.length ≤ 255) :
    fileAt fs path n = ⟨n, (examine fs ((join path n).take 1023)).size,
      (examine fs ((join path n).take 1023)).isDir⟩ := by
  unfold fileAt examine
  rw [List.take_of_length_le hn]
  cases fs.stat ((join path n).take 1023) with
  | none => rfl
  | some st => rfl

theorem record_eq :
    record fs path n = ⟨n, (examine fs (join path n)).size, (examine fs (join path n)).isDir⟩ := by
  unfold record examine
  cases fs.stat (join path n) with
  | none => rfl
  | some st => rfl

theorem fileAt_eq_record_iff (hn : n.length ≤ 255) :
    fileAt fs path n = record fs path n ↔ WellRecorded fs path n := by
  have hfits : (join path n).length ≤ 1023 →
      examine fs ((join path n).take 1023) = examine fs (join path n) := fun h => by
    rw [List.take_of_length_le h]
  rw [WellRecorded, or_iff_right_of_imp hfits, fileAt_eq hn, record_eq]
  constructor
  · intro h
    obtain ⟨-, hsize, hdir⟩ := File.mk.inj h
    generalize examine fs ((join path n).take 1023) = cut at *
    generalize examine fs (join path n) = full at *
    cases cut
    cases full
    rw [Stat.mk.injEq]
    exact ⟨hsize, hdir⟩
  · intro h
    rw [h]

/-- A directory with few enough entries is listed, with a record for each. -/
theorem listFiles_defined (hn : fs.opendir path = some names)
    (hcount : (names.length : ℤ) ≤ maxFiles) :
    ∃ q, listFiles fs p path = some q ∧ q.list = names.map (fileAt fs path) := by
  obtain ⟨q, hq⟩ : ∃ q, storeAll fs path names { p with fileCount := 0, seen := some fs }
      = some q := storeAll_defined fs path (by simpa using hcount)
  refine ⟨q, ?_, (storeAll_cases hq le_rfl).1⟩
  rw [listFiles, hn]
  exact hq

/-- **When every record describes its own entry**: exactly if each path fits into the buffer, or
what it is cut to looks like the entry. -/
theorem records_iff (hn : fs.opendir path = some names) (hcount : (names.length : ℤ) ≤ maxFiles)
    (hnames : ∀ n ∈ names, n.length ≤ 255) :
    (∃ p', listFiles fs p path = some p' ∧ p'.list = names.map (record fs path)) ↔
      ∀ n ∈ names, WellRecorded fs path n := by
  obtain ⟨q, hlist, hrecords⟩ := listFiles_defined (p := p) hn hcount
  rw [hlist]
  simp only [Option.some_inj, exists_eq_left']
  rw [hrecords, List.map_inj_left]
  exact forall₂_congr fun n hmem => fileAt_eq_record_iff (hnames n hmem)

/-- In particular, if each path fits. -/
theorem records_of_fits (hn : fs.opendir path = some names)
    (hcount : (names.length : ℤ) ≤ maxFiles) (hnames : ∀ n ∈ names, n.length ≤ 255)
    (hfits : ∀ n ∈ names, (join path n).length ≤ 1023) :
    ∃ p', listFiles fs p path = some p' ∧ p'.list = names.map (record fs path) := by
  obtain ⟨q, hlist, hrecords⟩ := listFiles_defined (p := p) hn hcount
  refine ⟨q, hlist, hrecords.trans (List.map_congr_left fun n hmem => ?_)⟩
  exact (fileAt_eq_record_iff (hnames n hmem)).2 (.inl (hfits n hmem))

/-! ### Short and long paths -/

theorem sample_recorded : ∃ p', listFiles sample.toFileSystem Panel.zero [slash] = some p' ∧
    p'.list = [dot, dotdot, nameA, nameB].map (record sample.toFileSystem [slash]) := by
  have hshort : ∀ n ∈ [dot, dotdot, nameA, nameB], WellRecorded sample.toFileSystem [slash] n := by
    intro n hn
    have hlen : ∀ n ∈ [dot, dotdot, nameA, nameB], (join [slash] n).length ≤ 1023 := by decide
    exact .inl (hlen n hn)
  exact (records_iff (p := Panel.zero) (show sample.toFileSystem.opendir [slash]
    = some [dot, dotdot, nameA, nameB] by decide) (by decide) (by decide)).2 hshort

/-- The name of 200 letters. -/
def longName : Path := List.replicate 200 97

/-- Six directories inside each other, each with the long name. -/
def nested : Tree (Fin 7) where
  root := 0
  child d n := if n = longName ∧ d < 6 then some (d + 1) else none
  path d := if d = 0 then [slash] else (List.replicate d.val (slash :: longName)).flatten
  entries d := if d < 6 then [longName] else []

/-- The last directory is recorded as a file without contents. -/
theorem longPath_not_recorded : ∃ path : Path, path.length ≤ 1023 ∧
    nested.toFileSystem.opendir path = some [longName] ∧
    nested.toFileSystem.stat (join path longName) = some ⟨4096, true⟩ ∧
    ¬ ∃ p', listFiles nested.toFileSystem Panel.zero path = some p' ∧
      p'.list = [longName].map (record nested.toFileSystem path) := by
  refine ⟨nested.path 5, by decide +kernel, by decide +kernel, by decide +kernel, ?_⟩
  rintro ⟨p', hp', hlist⟩
  have hrun : (listFiles nested.toFileSystem Panel.zero (nested.path 5)).map Panel.list
      = some [⟨longName, 0, false⟩] := by decide +kernel
  have hrecord : [longName].map (record nested.toFileSystem (nested.path 5))
      = [⟨longName, 4096, true⟩] := by decide +kernel
  rw [hp', Option.map_some, hlist, hrecord] at hrun
  simp at hrun

end FileManager
end PosixHw
