import PosixHw.FileManager.Capacity

/-!
# The file manager: the panels and their bytes

`Represents m i p` says that the bytes of the panel `i` in the memory `m` are those of the panel
`p`: its records, its counters and its path, each string with the NUL behind it.

As long as every listing fits, the program over the bytes makes the same steps as the program over
the panels, and represents its panels after each of them (`represents_of_run`).
-/

namespace PosixHw
namespace FileManager
namespace Layout

open Run Flat

variable {D : Type*} {fs : FileSystem D} {m m' : Memory} {i j : Fin 2} {k : ℤ} {n : Path}
  {p p' : Panel D}

/-- The record at `a` holds `f`; `size` has 64 bits. -/
structure Holds (m : Memory) (a : ℤ) (f : File) : Prop where
  name : StringAt m a f.name
  length_name : f.name.length < 256
  size : load m (a + sizeOffset) 8 = encode 8 (f.size % 2 ^ 64).toNat
  isDir : int m (a + isDirOffset) = if f.isDir then 1 else 0

/-- The bytes of the panel `i` are those of `p`. -/
structure Represents (m : Memory) (i : Fin 2) (p : Panel D) : Prop where
  files : ∀ k, 0 ≤ k → k < maxFiles → Holds m (fileAddr i k) (p.files k)
  fileCount : fileCount m i = p.fileCount
  currentFile : currentFile m i = p.currentFile
  scrollOffset : scrollOffset m i = p.scrollOffset
  currentPath : StringAt m (currentPathAt i) p.currentPath
  length_path : p.currentPath.length < 1024

/-! ### Memories that agree on a panel -/

theorem Holds.congr {a : ℤ} {f : File} (h : Holds m a f)
    (hm : ∀ q, a ≤ q → q < a + 272 → m' q = m q) : Holds m' a f := by
  have hsize : sizeOffset = 256 := rfl
  have hdir : isDirOffset = 264 := rfl
  have hlen := h.length_name
  refine ⟨h.name.congr fun q hq hq' => hm q hq (by omega), h.length_name, ?_, ?_⟩
  · rw [load_congr fun q hq hq' => hm q (by omega) (by omega), h.size]
  · rw [int_congr fun q hq hq' => hm q (by omega) (by omega), h.isDir]

/-- The memories agree on the panel `i` without its counters. -/
def SameRecords (i : Fin 2) (m m' : Memory) : Prop :=
  ∀ q, panelAt i ≤ q → q < panelAt i + 279568 → q < fileCountAt i ∨ currentPathAt i ≤ q →
    m' q = m q

theorem Represents.counters (h : Represents m i p) (hm : SameRecords i m m')
    {count current scroll : ℤ} (hfile : Layout.fileCount m' i = count)
    (hcursor : Layout.currentFile m' i = current) (hrow : Layout.scrollOffset m' i = scroll) :
    Represents m' i { p with
      fileCount := count
      currentFile := current
      scrollOffset := scroll } := by
  have hcount := fileCountAt_eq i
  have hpath := currentPathAt_eq i
  have hlen := h.length_path
  refine ⟨fun k h0 hk => (h.files k h0 hk).congr fun q hq hq' => ?_, hfile,
    hcursor, hrow, h.currentPath.congr fun q hq hq' => ?_, hlen⟩
  · have hk : k < 1024 := hk
    have haddr := fileAddr_eq i k
    exact hm q (by omega) (by omega) (.inl (by omega))
  · refine hm q (by omega) ?_ (.inr hq)
    omega

theorem Represents.congr (h : Represents m i p)
    (hm : ∀ q, panelAt i ≤ q → q < panelAt i + 279568 → m' q = m q) : Represents m' i p := by
  have hcount := fileCountAt_eq i
  have hcurrent := currentFileAt_eq i
  have hscroll := scrollOffsetAt_eq i
  refine h.counters (fun q hq hq' _ => hm q hq hq') ?_ ?_ ?_
  · exact (int_congr fun q hq hq' => hm q (by omega) (by omega)).trans h.fileCount
  · exact (int_congr fun q hq hq' => hm q (by omega) (by omega)).trans h.currentFile
  · exact (int_congr fun q hq hq' => hm q (by omega) (by omega)).trans h.scrollOffset

/-- What is done to the other panel is of no consequence. -/
theorem Represents.frame (h : Represents m j p) (hm : Inside i m m') (hij : j ≠ i) :
    Represents m' j p := by
  have hi := panelAt_eq i
  have hj : panelAt j = 279568 - panelAt i := by
    rw [← panelAt_other]
    exact congrArg _ (by omega)
  exact h.congr fun q hq hq' => hm q (by omega)

theorem represents_zero (i : Fin 2) : Represents (fun _ => 0) i (Panel.zero : Panel D) where
  files k _ _ := by
    refine ⟨stringAt_zero _, Nat.zero_lt_succ _, ?_, int_zero _⟩
    show load _ _ 8 = encode 8 ((0 : ℤ) % 2 ^ 64).toNat
    rw [Int.zero_emod, Int.toNat_zero]
    rfl
  fileCount := int_zero _
  currentFile := int_zero _
  scrollOffset := int_zero _
  currentPath := stringAt_zero _
  length_path := Nat.zero_lt_succ _

/-! ### What is read -/

theorem currentPath_of_stringAt {s : Path} (h : StringAt m (currentPathAt i) s)
    (hlen : s.length < 1024) : Layout.currentPath m i = s := by
  have hi := panelAt_eq i
  have hpath := currentPathAt_eq i
  have hsize : size = 559136 := rfl
  exact h.string_eq (by omega)

theorem Represents.path_eq (h : Represents m i p) : Layout.currentPath m i = p.currentPath :=
  currentPath_of_stringAt h.currentPath h.length_path

/-- The entry under the cursor. -/
theorem Represents.entry (h : Represents m i p) (h0 : 0 ≤ p.currentFile)
    (hlt : p.currentFile < maxFiles) :
    onDir m i = p.entry.isDir ∧
      text m (fileAddr i (Layout.currentFile m i)) = p.entry.name := by
  have hentry : Holds m (fileAddr i p.currentFile) p.entry := h.files _ h0 hlt
  have hlt : p.currentFile < 1024 := hlt
  rw [h.currentFile]
  constructor
  · rw [onDir, h.currentFile, hentry.isDir]
    cases p.entry.isDir <;> rfl
  · have hi := panelAt_eq i
    have haddr := fileAddr_eq i p.currentFile
    have hsize : size = 559136 := rfl
    have hlen := hentry.length_name
    exact hentry.name.string_eq (by omega)

/-! ### The counters -/

theorem sameRecords_setInt (m : Memory) {a v : ℤ} (ha : fileCountAt i ≤ a)
    (ha' : a + 4 ≤ currentPathAt i) : SameRecords i m (setInt m a v) := by
  intro q _ _ hq
  exact setInt_of_outside (by omega)

theorem SameRecords.trans {m'' : Memory} (h : SameRecords i m m') (h' : SameRecords i m' m'') :
    SameRecords i m m'' :=
  fun q hq hq' hr => (h' q hq hq' hr).trans (h q hq hq' hr)

theorem Represents.setFileCount (h : Represents m i p) {v : ℤ} (h0 : 0 ≤ v) (hv : v ≤ maxFiles) :
    Represents (setInt m (fileCountAt i) v) i { p with fileCount := v } := by
  have hcount := fileCountAt_eq i
  have hpath := currentPathAt_eq i
  obtain ⟨hv, hsame⟩ := Layout.setFileCount (m := m) (i := i) h0 hv
  exact h.counters (sameRecords_setInt m le_rfl (by omega)) hv
    (hsame.currentFile.trans h.currentFile) (hsame.scrollOffset.trans h.scrollOffset)

theorem Represents.setCurrentFile (h : Represents m i p) {v : ℤ} (hv : -2 ^ 31 ≤ v ∧ v < 2 ^ 31) :
    Represents (setInt m (currentFileAt i) v) i { p with currentFile := v } := by
  have hcount := fileCountAt_eq i
  have hcurrent := currentFileAt_eq i
  have hpath := currentPathAt_eq i
  obtain ⟨hv, hs, hn, -⟩ := Layout.setCurrentFile (m := m) (i := i) hv
  exact h.counters (sameRecords_setInt m (by omega) (by omega)) (hn.trans h.fileCount) hv
    (hs.trans h.scrollOffset)

theorem Represents.setScrollOffset (h : Represents m i p) {v : ℤ}
    (hv : -2 ^ 31 ≤ v ∧ v < 2 ^ 31) :
    Represents (setInt m (scrollOffsetAt i) v) i { p with scrollOffset := v } := by
  have hcount := fileCountAt_eq i
  have hscroll := scrollOffsetAt_eq i
  have hpath := currentPathAt_eq i
  obtain ⟨hv, hc, hn, -⟩ := Layout.setScrollOffset (m := m) (i := i) hv
  exact h.counters (sameRecords_setInt m (by omega) (by omega)) (hn.trans h.fileCount)
    (hc.trans h.currentFile) hv

/-- The counters of a represented panel are in the range that its bytes allow. -/
theorem Represents.range (h : Represents m i p) (hgood : Good m i) :
    0 ≤ p.scrollOffset ∧ p.scrollOffset < 1024 ∧ 0 ≤ p.currentFile ∧ p.currentFile < 1024 := by
  have hrange := hgood.range
  rwa [h.scrollOffset, h.currentFile] at hrange

theorem Represents.up (h : Represents m i p) (hgood : Good m i) (fs : FileSystem D) (height : ℤ)
    (cwd : D) :
    ∃ p', handleNavigation fs height cwd p .up = some (cwd, p') ∧
      Represents (Layout.up i m) i p' := by
  obtain ⟨hs0, hs1, hc0, hc1⟩ := h.range hgood
  have h₁ := h.setCurrentFile (v := p.currentFile - 1) ⟨by omega, by omega⟩
  have h₂ := h₁.setScrollOffset (v := p.scrollOffset - 1) ⟨by omega, by omega⟩
  have hc := h₁.currentFile
  have hs := h₁.scrollOffset
  dsimp only at hc hs
  simp only [handleNavigation, Layout.up, h.currentFile, hc, hs]
  split_ifs
  · exact ⟨_, rfl, h₂⟩
  · exact ⟨_, rfl, h₁⟩
  · exact ⟨_, rfl, h⟩

theorem Represents.down (h : Represents m i p) (hgood : Good m i) (fs : FileSystem D)
    (height : ℤ) (cwd : D) :
    ∃ p', handleNavigation fs height cwd p .down = some (cwd, p') ∧
      Represents (Layout.down height i m) i p' := by
  obtain ⟨hs0, hs1, hc0, hc1⟩ := h.range hgood
  have h₁ := h.setCurrentFile (v := p.currentFile + 1) ⟨by omega, by omega⟩
  have h₂ := h₁.setScrollOffset (v := p.scrollOffset + 1) ⟨by omega, by omega⟩
  have hc := h₁.currentFile
  have hs := h₁.scrollOffset
  dsimp only at hc hs
  simp only [handleNavigation, Layout.down, h.currentFile, h.fileCount, hc, hs]
  split_ifs
  · exact ⟨_, rfl, h₂⟩
  · exact ⟨_, rfl, h₁⟩
  · exact ⟨_, rfl, h⟩

theorem Represents.home (h : Represents m i p) :
    Represents (Layout.home i m) i { p with currentFile := 0, scrollOffset := 0 } :=
  (h.setCurrentFile (v := 0) (by decide)).setScrollOffset (v := 0) (by decide)

/-! ### Listings -/

theorem put_eq {a : ℤ} {bs : List UInt8} (h : put m a bs = some m') : m' = store m a bs := by
  rw [put] at h
  split_ifs at h
  exact (Option.some.inj h).symm

/-- Where the three stores of an entry go. -/
theorem storeEntry_cases (hcount : Layout.fileCount m i = k) (hk : k < maxFiles)
    (h : storeEntry fs i m n = some m') :
    ∃ m₁ st, m₁ = store m (fileAddr i k) (n.take 255 ++ [0]) ∧ SameOutside i k m m₁ ∧
      st = statOf fs i m₁ n ∧
      m' = setInt (store m₁ (fileAddr i k + sizeOffset) (encode 8 (st.size % 2 ^ 64).toNat))
        (fileAddr i k + isDirOffset) (if st.isDir then 1 else 0) := by
  have hsize : sizeOffset = 256 := rfl
  obtain ⟨m₁, h₁, h⟩ := Option.bind_eq_some_iff.1 h
  obtain ⟨m₂, h₂, h₃⟩ := Option.bind_eq_some_iff.1 h
  rw [storeName, hcount] at h₁
  obtain rfl := put_eq h₁
  have hname : SameOutside i k m (store m (fileAddr i k) (n.take 255 ++ [0])) := by
    have hle := List.length_take_le 255 n
    have hsame := sameOutside_store m i k 0 (n.take 255 ++ [0]) le_rfl (by
      rw [List.length_append, List.length_singleton]
      omega)
    rwa [add_zero] at hsame
  refine ⟨_, _, rfl, hname, rfl, ?_⟩
  have hcount₁ := (hname.fileCount hk).trans hcount
  generalize store m (fileAddr i k) (n.take 255 ++ [0]) = m₁ at h₂ h₃ hcount₁ ⊢
  generalize statOf fs i m₁ n = st at h₂ h₃ ⊢
  rw [storeSize, hcount₁] at h₂
  obtain rfl := put_eq h₂
  have hstat := sameOutside_store m₁ i k sizeOffset (encode 8 (st.size % 2 ^ 64).toNat)
    (by omega) (by rw [length_encode]; omega)
  rw [storeIsDir, hstat.fileCount hk, hcount₁] at h₃
  rw [put_eq h₃, setInt]
  cases st.isDir <;> rfl

/-- The record that is stored is the one of the entry. -/
theorem holds_storeEntry (h : Represents m i p) (h0 : 0 ≤ p.fileCount)
    (hk : p.fileCount < maxFiles) (hn : 0 ∉ n) (hstore : storeEntry fs i m n = some m') :
    Holds m' (fileAddr i p.fileCount) (fileAt fs p.currentPath n) := by
  obtain ⟨m₁, st, hm₁, hsame, hst, rfl⟩ := storeEntry_cases h.fileCount hk hstore
  have hsize : sizeOffset = 256 := rfl
  have hdir : isDirOffset = 264 := rfl
  have hle := List.length_take_le 255 n
  have hpath : Layout.currentPath m₁ i = p.currentPath := by
    have hk : p.fileCount < 1024 := hk
    have haddr := fileAddr_eq i p.fileCount
    have hpath := currentPathAt_eq i
    exact currentPath_of_stringAt (h.currentPath.congr fun q hq _ => hsame q (by omega))
      h.length_path
  -- `stat` is asked about the path as it stands in the panel, cut to the array
  have hfile : fileAt fs p.currentPath n = ⟨n.take 255, st.size, st.isDir⟩ := by
    rw [hst, statOf, hpath, fileAt]
    cases fs.stat ((join p.currentPath n).take 1023) <;> rfl
  have hflag : ∀ b : Bool, -2 ^ 31 ≤ (if b then (1 : ℤ) else 0) ∧
      (if b then (1 : ℤ) else 0) < 2 ^ 31 := by decide
  rw [hfile]
  refine ⟨?_, Nat.lt_succ_of_le hle, ?_, int_setInt (hflag st.isDir)⟩
  · have hname : StringAt m₁ (fileAddr i p.fileCount) (n.take 255) :=
      hm₁ ▸ stringAt_store m _ fun h => hn (List.mem_of_mem_take h)
    refine hname.congr fun q hq hq' => ?_
    rw [setInt_of_outside (by omega), store_of_outside (by omega)]
  · rw [load_congr fun q hq hq' => setInt_of_outside (by omega)]
    have hload := load_store m₁ (fileAddr i p.fileCount + sizeOffset)
      (encode 8 (st.size % 2 ^ 64).toNat)
    rwa [length_encode] at hload

/-- A turn of the loop below `MAX_FILES` stores the record of the entry. -/
theorem Represents.readEntry (h : Represents m i p) (h0 : 0 ≤ p.fileCount)
    (hp : p.store (fileAt fs p.currentPath n) = some p') (hn : 0 ∉ n) :
    ∃ m', readEntry fs i m n = some m' ∧ Represents m' i p' := by
  rw [Panel.store] at hp
  split_ifs at hp with hk
  obtain rfl := Option.some.inj hp
  have hk' : p.fileCount < 1024 := hk
  obtain ⟨m₁, h₁, -, hsame⟩ := storeEntry_inside fs n h.fileCount h0 hk
  have hrest := hsame.sameRest h0 hk
  have haddr := fileAddr_eq i p.fileCount
  have hpath := currentPathAt_eq i
  have hstored : Represents m₁ i { p with
      files := Function.update p.files p.fileCount (fileAt fs p.currentPath n) } := by
    refine ⟨fun j h0' hj => ?_, hrest.fileCount.trans h.fileCount,
      hrest.currentFile.trans h.currentFile, hrest.scrollOffset.trans h.scrollOffset,
      h.currentPath.congr fun q hq _ => hsame q (by omega), h.length_path⟩
    show Holds m₁ _ (Function.update p.files p.fileCount _ j)
    -- the record that is stored, and those before it
    by_cases e : j = p.fileCount
    · rw [e, Function.update_self]
      exact holds_storeEntry h h0 hk hn h₁
    · rw [Function.update_of_ne e]
      have haddr' := fileAddr_eq i j
      exact (h.files j h0' hj).congr fun q hq hq' => hsame q (by omega)
  have hcount := hstored.fileCount
  dsimp only at hcount
  refine ⟨_, ?_, hstored.setFileCount (v := p.fileCount + 1) (by omega) (show _ ≤ 1024 by omega)⟩
  rw [Layout.readEntry, h₁, Option.bind_some, increment, hcount, if_pos (by omega)]

/-- The loop over the entries. -/
theorem Represents.storeAll {names : List Path} {path : Path} (h : Represents m i p)
    (h0 : 0 ≤ p.fileCount) (hpath : p.currentPath = path)
    (hp : storeAll fs path names p = some p') (hn : ∀ n ∈ names, 0 ∉ n) :
    ∃ m', run (Layout.readEntry fs i) m names = some m' ∧ Represents m' i p' := by
  -- over the entries, for any panel that is represented
  induction names generalizing m p with
  | nil =>
    cases hp
    exact ⟨m, rfl, h⟩
  | cons n ns ih =>
    obtain ⟨q, hq, hp⟩ := Option.bind_eq_some_iff.1 hp
    obtain ⟨-, hcount, -, -, hpath', -⟩ := store_cases hq h0
    rw [← hpath] at hq
    obtain ⟨m₁, h₁, hq⟩ := h.readEntry h0 hq (hn n List.mem_cons_self)
    obtain ⟨m', hm', hp'⟩ := ih hq (by omega) (hpath'.trans hpath) hp
      fun n' hn' => hn n' (List.mem_cons_of_mem n hn')
    exact ⟨m', run_cons_eq_some.2 ⟨m₁, h₁, hm'⟩, hp'⟩

/-- A listing that is defined has no more than `MAX_FILES` entries. -/
theorem length_storeAll_le {names : List Path} {path : Path}
    (hp : FileManager.storeAll fs path names p = some p') (h0 : 0 ≤ p.fileCount)
    (hle : p.fileCount ≤ maxFiles) : p.fileCount + names.length ≤ maxFiles := by
  induction names generalizing p with
  | nil => simpa using hle
  | cons n ns ih =>
    obtain ⟨q, hq, hp⟩ := Option.bind_eq_some_iff.1 hp
    obtain ⟨-, hcount, -, -, -, -⟩ := store_cases hq h0
    rw [Panel.store] at hq
    split_ifs at hq with hlt
    have hle' := ih hp (by omega) (by omega)
    rw [List.length_cons]
    push_cast
    omega

theorem Represents.listSmall (h : Represents m i p)
    (hp : FileManager.listFiles fs p p.currentPath = some p') : ListSmall fs i m := by
  intro names hn
  rw [h.path_eq] at hn
  rw [FileManager.listFiles, hn] at hp
  have hle := length_storeAll_le hp le_rfl (show (0 : ℤ) ≤ 1024 by decide)
  simpa using hle

/-- A call of `list_files`. -/
theorem Represents.listFiles (h : Represents m i p) (hfs : fs.NulFree)
    (hp : FileManager.listFiles fs p p.currentPath = some p') :
    ∃ m', listFiles fs i m = some m' ∧ Represents m' i p' ∧ Inside i m m' := by
  obtain ⟨m', hm', hsame, -⟩ := listFiles_small (h.listSmall hp)
  refine ⟨m', hm', ?_, hsame.other⟩
  rw [FileManager.listFiles] at hp
  rw [Layout.listFiles, h.path_eq] at hm'
  cases hn : fs.opendir p.currentPath with
  | none =>
    rw [hn] at hp hm'
    cases hp
    cases hm'
    exact h
  | some names =>
    rw [hn] at hp hm'
    obtain ⟨d, -, rfl⟩ := FileSystem.mem_opendir hn
    have hreset := h.setFileCount (v := 0) le_rfl (by decide)
    have hseen : Represents (reset i m) i { p with fileCount := 0, seen := some fs } :=
      ⟨hreset.files, hreset.fileCount, hreset.currentFile, hreset.scrollOffset,
        hreset.currentPath, hreset.length_path⟩
    obtain ⟨m'', hm'', hrep⟩ := hseen.storeAll le_rfl rfl hp fun n hn' => hfs.entries hn'
    obtain rfl := Option.some.inj (hm'.symm.trans hm'')
    exact hrep

/-- A string is stored in the path, with anything behind it. -/
theorem Represents.storePath (h : Represents m i p) {s rest bs : List UInt8} (h0 : 0 ∉ s)
    (hbs : bs = s ++ 0 :: rest) (hlen : bs.length ≤ 1024) :
    Represents (store m (currentPathAt i) bs) i { p with currentPath := s } := by
  obtain ⟨hcount, hsame⟩ := store_path_spec i m hlen
  have hstring := stringAt_store_append m (currentPathAt i) h0 rest
  rw [← hbs] at hstring
  refine ⟨fun k h0 hk => (h.files k h0 hk).congr fun q hq hq' => store_of_outside ?_,
    hcount.trans h.fileCount, hsame.currentFile.trans h.currentFile,
    hsame.scrollOffset.trans h.scrollOffset, hstring, ?_⟩
  · have hk : k < 1024 := hk
    have haddr := fileAddr_eq i k
    have hpath := currentPathAt_eq i
    omega
  · show s.length < 1024
    rw [hbs, List.length_append, List.length_cons] at hlen
    omega

theorem Represents.leavePath (h : Represents m i p) (cwd : D) :
    Represents (leavePath fs cwd i m) i
      { p with currentPath := leftover fs cwd p.currentPath } := by
  rw [Layout.leavePath, leftover]
  cases fs.leaves cwd with
  | none => exact h
  | some bs =>
    have hmem : 0 ∈ bs.take 1023 ++ [0] := List.mem_append_right _ List.mem_cons_self
    obtain ⟨h0, rest, hbs⟩ := eq_string_append hmem
    refine h.storePath h0 hbs ?_
    have hle := List.length_take_le 1023 bs
    rw [List.length_append, List.length_singleton]
    omega

theorem Represents.putPath (h : Represents m i p) (hfs : fs.NulFree) (cwd : D) :
    Represents (putPath fs cwd i m) i { p with currentPath := getcwd fs cwd p.currentPath } := by
  rw [Layout.putPath, getcwd]
  cases hp : fs.getcwd cwd with
  | none => exact h.leavePath cwd
  | some path =>
    dsimp only
    split_ifs with hlen
    · refine h.storePath (hfs.getcwd hp) rfl ?_
      rw [List.length_append, List.length_singleton]
      omega
    · exact h.leavePath cwd

/-! ### Runs -/

variable {s : State D} {t t' : FileManager.State D} {height : ℤ}

/-- The program over the bytes is where the program over the panels is. -/
structure Refines (s : State D) (t : FileManager.State D) : Prop where
  inv : Inv s
  listed : s.listed = 2
  nulFree : s.fs.NulFree
  fs : s.fs = t.fs
  cwd : s.cwd = t.cwd
  activePanel : s.activePanel = t.activePanel
  panels : ∀ i, Represents s.mem i (t.panels i)

/-- The action over the bytes. -/
def lift : FileManager.Action D → Action D
  | .key k => .key k
  | .change fs => .change fs

/-- The file systems that appear have C strings as names. -/
def NamesOk : FileManager.Action D → Prop
  | .key _ => True
  | .change fs => fs.NulFree

theorem Refines.looping (h : Refines s t) : ¬ s.listed < 2 := by
  have htwo := h.listed
  omega

/-- A key that changes the active panel only. -/
theorem Refines.write (h : Refines s t) {k : Key} {cwd : D} (hsmall : Small s (.key k))
    (hs : step height s (.key k) = some { s with cwd := cwd, mem := m' })
    (hm : Inside s.activePanel s.mem m') (hp : Represents m' s.activePanel p') :
    Refines { s with cwd := cwd, mem := m' }
      { t with cwd := cwd, panels := Function.update t.panels t.activePanel p' } := by
  obtain ⟨s', hs', hinv⟩ := inv_step h.inv hsmall (show s.listed = 2 from h.listed)
  obtain rfl := Option.some.inj (hs.symm.trans hs')
  refine ⟨hinv, h.listed, h.nulFree, h.fs, rfl, h.activePanel, fun i => ?_⟩
  show Represents m' i (Function.update t.panels t.activePanel p' i)
  rw [← h.activePanel]
  by_cases hi : i = s.activePanel
  · rw [hi, Function.update_self]
    exact hp
  · rw [Function.update_of_ne hi]
    exact (h.panels i).frame hm hi

/-- Enter on a directory. -/
theorem Refines.enter (h : Refines s t) {cwd : D} (hdir : onDir s.mem s.activePanel = true)
    (hentered : s.entered = cwd) {q : Panel D}
    (hq : FileManager.listFiles s.fs { t.panels s.activePanel with
        currentPath := getcwd s.fs cwd (t.panels s.activePanel).currentPath }
      (getcwd s.fs cwd (t.panels s.activePanel).currentPath) = some q) :
    ∃ s', step height s (.key .enter) = some s' ∧
      Refines s' { t with
        cwd := cwd
        panels := Function.update t.panels t.activePanel
          { q with currentFile := 0, scrollOffset := 0 } } := by
  have hlt := h.looping
  have hrenamed := (h.panels s.activePanel).putPath h.nulFree cwd
  have hmem : s.renamed = Layout.putPath s.fs cwd s.activePanel s.mem := by
    rw [State.renamed, hentered]
  rw [← hmem] at hrenamed
  have hsmall := hrenamed.listSmall hq
  obtain ⟨m', hm', hlisted, hinside⟩ := hrenamed.listFiles h.nulFree hq
  have hstep : step height s (.key .enter)
      = some { s with cwd := cwd, mem := home s.activePanel m' } := by
    simp only [step, if_neg hlt, if_pos hdir, hm', Option.map_some, hentered]
  have hlisting : Small s (.key .enter) := by
    intro i m hi
    rw [State.listing, if_pos ⟨hlt, hdir⟩, Option.some_inj] at hi
    cases hi
    exact hsmall
  have hkept : Inside s.activePanel s.mem (home s.activePanel m') := by
    have hpath := (putPath_spec s.fs cwd s.activePanel s.mem).2.other
    rw [← hmem] at hpath
    exact (hpath.trans hinside).trans (home_spec m' s.activePanel).2.2.2
  exact ⟨_, hstep, h.write hlisting hstep hkept hlisted.home⟩

/-- A key other than Tab. -/
theorem Refines.key (h : Refines s t) {k : Key} (hk : k ≠ .tab) {cwd : D}
    (hp : handleNavigation t.fs height t.cwd (t.panels t.activePanel) k = some (cwd, p')) :
    ∃ s', step height s (.key k) = some s' ∧
      Refines s' { t with cwd := cwd, panels := Function.update t.panels t.activePanel p' } := by
  have hlt := h.looping
  have hgood := h.inv.good s.activePanel
  have hpanel := h.panels s.activePanel
  have hrange := hpanel.range hgood
  obtain ⟨hisDir, hname⟩ := hpanel.entry hrange.2.2.1 (show _ < (1024 : ℤ) from hrange.2.2.2)
  rw [← h.activePanel, ← h.fs, ← h.cwd] at hp
  have hidle : ∀ {k}, step height s (.key k) = some s → cwd = s.cwd →
      p' = t.panels s.activePanel → ∃ s', step height s (.key k) = some s' ∧
        Refines s' { t with cwd := cwd, panels := Function.update t.panels t.activePanel p' } := by
    rintro k hs rfl rfl
    refine ⟨s, hs, ?_⟩
    rw [h.activePanel, Function.update_eq_self, h.cwd]
    exact h
  cases k with
  | up =>
    obtain ⟨q, hq, hrep⟩ := hpanel.up hgood s.fs height s.cwd
    cases hq.symm.trans hp
    have hstep : step height s (.key .up)
        = some { s with cwd := s.cwd, mem := Layout.up s.activePanel s.mem } := if_neg hlt
    exact ⟨_, hstep, h.write (fun i m hi => by cases hi) hstep hgood.up.2 hrep⟩
  | down =>
    obtain ⟨q, hq, hrep⟩ := hpanel.down hgood s.fs height s.cwd
    cases hq.symm.trans hp
    have hstep : step height s (.key .down)
        = some { s with cwd := s.cwd, mem := Layout.down height s.activePanel s.mem } := if_neg hlt
    exact ⟨_, hstep, h.write (fun i m hi => by cases hi) hstep (hgood.down height).2 hrep⟩
  | enter =>
    by_cases hdir : onDir s.mem s.activePanel = true
    · obtain ⟨rfl, q, hq, rfl⟩ := handleNavigation_enter hp (hisDir ▸ hdir)
      exact h.enter hdir (by rw [State.entered, hname]) hq
    · have hfile : (t.panels s.activePanel).entry.isDir ≠ true := hisDir ▸ hdir
      rw [handleNavigation, if_neg hfile] at hp
      cases hp
      refine hidle ?_ rfl rfl
      simp only [step, if_neg hlt, if_neg hdir]
  | tab => exact absurd rfl hk
  | other =>
    cases hp
    exact hidle (if_neg hlt) rfl rfl

/-- What the program over the panels does, the program over the bytes does too. -/
theorem Refines.step (h : Refines s t) {a : FileManager.Action D} (ha : NamesOk a)
    (ht : FileManager.step height t a = some t') :
    ∃ s', step height s (lift a) = some s' ∧ Refines s' t' := by
  rcases FileManager.step_cases ht with ⟨fs, rfl, rfl⟩ | ⟨rfl, rfl⟩ | ⟨k, cwd, p, rfl, hk, hp, rfl⟩
  · refine ⟨{ s with fs := fs }, rfl, ?_⟩
    exact ⟨⟨h.inv.listed, h.inv.good, h.inv.fresh⟩, h.listed, ha, rfl, h.cwd, h.activePanel,
      h.panels⟩
  · refine ⟨{ s with activePanel := second - s.activePanel }, if_neg h.looping, ?_⟩
    refine ⟨⟨h.inv.listed, h.inv.good, h.inv.fresh⟩, h.listed, h.nulFree, h.fs, h.cwd, ?_,
      h.panels⟩
    show second - s.activePanel = 1 - t.activePanel
    rw [h.activePanel]
    rfl
  · exact h.key hk hp

/-- One of the two listings before the loop. -/
theorem list_step (height : ℤ) (hinv : Inv s) (hlt : s.listed < 2) (hfs : s.fs.NulFree)
    (hp : Represents s.mem s.next p)
    (hp' : FileManager.listFiles s.fs p p.currentPath = some p') :
    ∃ m', step height s .list = some { s with mem := m', listed := s.listed + 1 } ∧
      Inv { s with mem := m', listed := s.listed + 1 } ∧ Represents m' s.next p' ∧
      Inside s.next s.mem m' := by
  have hsmall := hp.listSmall hp'
  obtain ⟨m', hm', hrep, hinside⟩ := hp.listFiles hfs hp'
  have hstep : step height s .list = some { s with mem := m', listed := s.listed + 1 } := by
    simp only [Layout.step, if_pos hlt, hm', Option.map_some]
  have hlisting : Small s .list := by
    intro i m hi
    rw [State.listing, if_pos hlt, Option.some_inj] at hi
    cases hi
    exact hsmall
  obtain ⟨s', hs', hinv'⟩ := inv_step hinv hlisting (show s.listed < 2 from hlt)
  obtain rfl := Option.some.inj (hstep.symm.trans hs')
  exact ⟨m', hstep, hinv', hrep, hinside⟩

/-- Before the listings both panels have the path of the working directory. -/
theorem represents_start (hfs : fs.NulFree) (cwd : D) (i : Fin 2) :
    Represents (start fs cwd).mem i { (Panel.zero : Panel D) with
      currentPath := getcwd fs cwd [] } := by
  have hne : first ≠ second := by decide
  have hfirst := (represents_zero (D := D) first).putPath hfs cwd
  have hsecond := (represents_zero (D := D) second).frame
    (putPath_spec fs cwd first fun _ => 0).2.other hne.symm
  have hinside := (putPath_spec fs cwd second (putPath fs cwd first fun _ => 0)).2.other
  fin_cases i
  · exact hfirst.frame hinside hne
  · exact hsecond.putPath hfs cwd

theorem refines_start (height : ℤ) (hfs : fs.NulFree) {cwd : D}
    (h : FileManager.start fs cwd = some t) :
    ∃ s, run (step height) (start fs cwd) [.list, .list] = some s ∧ Refines s t := by
  have hne : first ≠ second := by decide
  obtain ⟨p, hp, -, -, rfl⟩ := start_cases h
  have hstart := represents_start hfs cwd
  obtain ⟨m₁, h₁, hinv₁, hfirst, hin₁⟩ := list_step height (inv_start fs cwd)
    Nat.zero_lt_two hfs (hstart first) hp
  have hsecond := (hstart second).frame hin₁ hne.symm
  obtain ⟨m₂, h₂, hinv₂, hsecond, hin₂⟩ := list_step height hinv₁
    Nat.one_lt_two hfs hsecond hp
  refine ⟨_, run_cons_eq_some.2 ⟨_, h₁, run_cons_eq_some.2 ⟨_, h₂, rfl⟩⟩, hinv₂, rfl, hfs, rfl, rfl,
    rfl, fun i => ?_⟩
  fin_cases i
  · exact hfirst.frame hin₂ hne
  · exact hsecond

/-- **The bytes of the panels.** Where the program over the panels runs, every listing fits, the
program over the bytes makes the same steps, and its memory represents the panels. -/
theorem represents_of_run {cwd : D} {t₀ : FileManager.State D} {as : List (FileManager.Action D)}
    (hfs : fs.NulFree) (has : ∀ a ∈ as, NamesOk a) (h₀ : FileManager.start fs cwd = some t₀)
    (h : run (FileManager.step height) t₀ as = some t) :
    ∃ s, run (step height) (start fs cwd) (.list :: .list :: as.map lift) = some s ∧
      Refines s t := by
  obtain ⟨s₀, hs₀, hstart⟩ := refines_start height hfs h₀
  obtain ⟨s, hs, href⟩ := run_simulation_along lift (R := fun t s => Refines s t)
    (fun _ _ _ _ href ha ht => href.step ha ht) hstart (Along.of_forall has) h
  exact ⟨s, run_append_eq_some.2 ⟨s₀, hs₀, hs⟩, href⟩

end Layout
end FileManager
end PosixHw
