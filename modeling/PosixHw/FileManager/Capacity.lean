import PosixHw.FileManager.Layout
import PosixHw.FileManager.Listing

/-!
# The file manager: large directories

`list_files` stores an entry at the index `file_count`.  Below `MAX_FILES` the entry stays inside
its record, so it changes no other field (`storeEntry_inside`), and the counter goes up by one.  The
entry after that is stored over the counters of the panel.  So a listing is right exactly if the
directory has at most `MAX_FILES` entries, and if all listings are, every later access is inside the
array too, since the cursor and the rows that are displayed stay below `file_count`.
-/

namespace PosixHw
namespace FileManager
namespace Layout

open Run Flat

variable {D : Type*} {fs : FileSystem D} {m m' : Memory} {i : Fin 2} {k : ℤ} {n : Path}

/-! ### What must hold -/

/-- The counters and the path of the panel `i`, and the whole other panel, are as they were. -/
structure SameRest (i : Fin 2) (m m' : Memory) : Prop where
  fileCount : fileCount m' i = fileCount m i
  currentFile : currentFile m' i = currentFile m i
  scrollOffset : scrollOffset m' i = scrollOffset m i
  currentPath : load m' (currentPathAt i) 1024 = load m (currentPathAt i) 1024
  other : load m' (panelAt (1 - i)) panelSize.toNat = load m (panelAt (1 - i)) panelSize.toNat

/-- The entry is stored inside the array, and changes nothing else. -/
structure Stored (fs : FileSystem D) (i : Fin 2) (m : Memory) (n : Path) : Prop where
  inside : ∀ k ∈ indices fs i m n, 0 ≤ k ∧ k < maxFiles
  rest : ∃ m', storeEntry fs i m n = some m' ∧ SameRest i m m'

/-- The call of `list_files` stores at most `MAX_FILES` records, and each of them is `Stored`. -/
def ListSafe (fs : FileSystem D) (i : Fin 2) (m : Memory) : Prop :=
  ∀ names, fs.opendir (currentPath m i) = some names →
    Along (readEntry fs i) (Stored fs i) (reset i m) names ∧
    ∀ ns t, ns <+: names → run (readEntry fs i) (reset i m) ns = some t →
      (ns.length : ℤ) ≤ maxFiles

/-- The directory that is listed has at most `MAX_FILES` entries. -/
def ListSmall (fs : FileSystem D) (i : Fin 2) (m : Memory) : Prop :=
  ∀ names, fs.opendir (currentPath m i) = some names → (names.length : ℤ) ≤ maxFiles

/-- The entries that `display_panel` reads. -/
def displayed (height : ℤ) (m : Memory) (i : Fin 2) : List ℤ :=
  ((List.range height.toNat).map fun r : ℕ => r + scrollOffset m i).filter (· < fileCount m i)

/-- The call of `list_files` in a step. -/
def State.listing (s : State D) : Action D → Option (Fin 2 × Memory)
  | .list => if s.listed < 2 then some (s.next, s.mem) else none
  | .key .enter =>
    if ¬ s.listed < 2 ∧ onDir s.mem s.activePanel then some (s.activePanel, s.renamed) else none
  | .key _ | .change _ => none

/-- What is displayed before a key, what Enter reads, and what is listed is inside the array. -/
structure Safe (height : ℤ) (s : State D) (a : Action D) : Prop where
  displayed : s.listed = 2 → ∀ i, ∀ k ∈ displayed height s.mem i, 0 ≤ k ∧ k < maxFiles
  entered : a = .key .enter → s.listed = 2 →
    0 ≤ currentFile s.mem s.activePanel ∧ currentFile s.mem s.activePanel < maxFiles
  listed : ∀ i m, s.listing a = some (i, m) → ListSafe s.fs i m

/-- If the step lists a directory, then this has at most `MAX_FILES` entries. -/
def Small (s : State D) (a : Action D) : Prop :=
  ∀ i m, s.listing a = some (i, m) → ListSmall s.fs i m

/-! ### Addresses -/

theorem panelAt_eq (i : Fin 2) : panelAt i = 0 ∨ panelAt i = 279568 := by
  fin_cases i
  · exact .inl rfl
  · exact .inr rfl

theorem panelAt_other (i : Fin 2) : panelAt (1 - i) = 279568 - panelAt i := by
  fin_cases i <;> rfl

theorem fileAddr_eq (i : Fin 2) (k : ℤ) : fileAddr i k = panelAt i + 272 * k := rfl
theorem fileCountAt_eq (i : Fin 2) : fileCountAt i = panelAt i + 278528 := rfl
theorem currentFileAt_eq (i : Fin 2) : currentFileAt i = panelAt i + 278532 := rfl
theorem scrollOffsetAt_eq (i : Fin 2) : scrollOffsetAt i = panelAt i + 278536 := rfl
theorem currentPathAt_eq (i : Fin 2) : currentPathAt i = panelAt i + 278540 := rfl

theorem put_defined {p : ℤ} {bs : List UInt8} (hp : 0 ≤ p) (hsize : p + bs.length ≤ 559136) :
    put m p bs = some (store m p bs) :=
  if_pos ⟨hp, hsize⟩

/-- The memories agree outside of the record `k`. -/
def SameOutside (i : Fin 2) (k : ℤ) (m m' : Memory) : Prop :=
  ∀ q, q < panelAt i + 272 * k ∨ panelAt i + 272 * k + 272 ≤ q → m' q = m q

theorem SameOutside.fileCount (h : SameOutside i k m m') (hk : k < maxFiles) :
    fileCount m' i = fileCount m i := by
  have hk : k < 1024 := hk
  refine int_congr fun q hq _ => h q ?_
  rw [fileCountAt_eq] at hq
  omega

theorem SameOutside.trans {m'' : Memory} (h : SameOutside i k m m') (h' : SameOutside i k m' m'') :
    SameOutside i k m m'' := fun q hq => (h' q hq).trans (h q hq)

theorem sameOutside_store (m : Memory) (i : Fin 2) (k offset : ℤ) (bs : List UInt8)
    (hoffset : 0 ≤ offset) (hlen : offset + bs.length ≤ 272) :
    SameOutside i k m (store m (fileAddr i k + offset) bs) := by
  have haddr := fileAddr_eq i k
  exact fun q hq => store_of_outside (by omega)

/-- A store into the record `k`. -/
theorem put_record (m : Memory) (i : Fin 2) (h0 : 0 ≤ k) (hk : k < maxFiles) (offset : ℤ)
    (bs : List UInt8) (hoffset : 0 ≤ offset) (hlen : offset + bs.length ≤ 272) :
    ∃ m', put m (fileAddr i k + offset) bs = some m' ∧ SameOutside i k m m' := by
  have hk : k < 1024 := hk
  have hi := panelAt_eq i
  have haddr := fileAddr_eq i k
  exact ⟨_, put_defined (by omega) (by omega), sameOutside_store m i k offset bs hoffset hlen⟩

/-! ### Storing an entry -/

/-- What is known of the entry is stored in the record that the counter names. -/
theorem storeStat_inside (st : Stat) (hcount : fileCount m i = k) (h0 : 0 ≤ k) (hk : k < maxFiles) :
    ∃ m₁ m', storeSize i m st = some m₁ ∧ fileCount m₁ i = k ∧ storeIsDir i m₁ st = some m' ∧
      SameOutside i k m m' := by
  obtain ⟨m₁, h₁, hm₁⟩ := put_record m i h0 hk sizeOffset (encode 8 (st.size % 2 ^ 64).toNat)
    (by decide) (by rw [length_encode]; decide)
  have hcount₁ := (hm₁.fileCount hk).trans hcount
  obtain ⟨m', h', hm'⟩ := put_record m₁ i h0 hk isDirOffset (encode 4 (if st.isDir then 1 else 0))
    (by decide) (by rw [length_encode]; decide)
  exact ⟨m₁, m', by rw [storeSize, hcount, h₁], hcount₁, by rw [storeIsDir, hcount₁, h'],
    hm₁.trans hm'⟩

/-- The three stores of an entry. -/
theorem storeEntry_eq {m₁ m₂ m₃ : Memory} (h₁ : storeName i m n = some m₁)
    (h₂ : storeSize i m₁ (statOf fs i m₁ n) = some m₂)
    (h₃ : storeIsDir i m₂ (statOf fs i m₁ n) = some m₃) :
    storeEntry fs i m n = some m₃ ∧
      indices fs i m n = [fileCount m i, fileCount m₁ i, fileCount m₂ i] := by
  constructor
  · rw [storeEntry, h₁, Option.bind_some, h₂, Option.bind_some, h₃]
  · simp only [indices, h₁, h₂]

/-- Below `MAX_FILES` an entry is stored inside its record. -/
theorem storeEntry_inside (fs : FileSystem D) (n : Path) (hcount : fileCount m i = k) (h0 : 0 ≤ k)
    (hk : k < maxFiles) :
    ∃ m', storeEntry fs i m n = some m' ∧ indices fs i m n = [k, k, k] ∧ SameOutside i k m m' := by
  have hname : (0 : ℤ) + (n.take 255 ++ [0]).length ≤ 272 := by
    have hle := List.length_take_le 255 n
    rw [List.length_append, List.length_singleton]
    omega
  obtain ⟨m₁, h₁, hm₁⟩ := put_record m i h0 hk 0 _ le_rfl hname
  rw [add_zero] at h₁
  have h₁ : storeName i m n = some m₁ := by rw [storeName, hcount, h₁]
  have hcount₁ := (hm₁.fileCount hk).trans hcount
  obtain ⟨m₂, m₃, h₂, hcount₂, h₃, hm₃⟩ := storeStat_inside (statOf fs i m₁ n) hcount₁ h0 hk
  obtain ⟨hstore, hindices⟩ := storeEntry_eq h₁ h₂ h₃
  rw [hcount, hcount₁, hcount₂] at hindices
  exact ⟨m₃, hstore, hindices, hm₁.trans hm₃⟩

theorem SameOutside.sameRest (h : SameOutside i k m m') (h0 : 0 ≤ k) (hk : k < maxFiles) :
    SameRest i m m' := by
  have hk' : k < 1024 := hk
  have hi := panelAt_eq i
  refine ⟨h.fileCount hk, int_congr fun q hq _ => h q ?_, int_congr fun q hq _ => h q ?_,
    load_congr fun q hq _ => h q ?_, load_congr fun q hq hq' => h q ?_⟩
  · rw [currentFileAt_eq] at hq
    omega
  · rw [scrollOffsetAt_eq] at hq
    omega
  · rw [currentPathAt_eq] at hq
    omega
  · have hsize : (panelSize.toNat : ℤ) = 279568 := rfl
    rw [panelAt_other] at hq hq'
    omega

/-- Which entries are stored right. -/
theorem stored_iff (fs : FileSystem D) (n : Path) (hcount : fileCount m i = k) (h0 : 0 ≤ k) :
    Stored fs i m n ↔ k < maxFiles := by
  constructor
  · intro h
    have hfirst := h.inside (fileCount m i) (List.mem_cons_self)
    rw [hcount] at hfirst
    exact hfirst.2
  · intro hk
    obtain ⟨m', hm', hindices, hsame⟩ := storeEntry_inside fs n hcount h0 hk
    refine ⟨?_, m', hm', hsame.sameRest h0 hk⟩
    rw [hindices]
    simp [h0, hk]

/-! ### The loop -/

/-- Nothing outside of the panel `i` is changed. -/
def Inside (i : Fin 2) (m m' : Memory) : Prop :=
  ∀ q, q < panelAt i ∨ panelAt i + 279568 ≤ q → m' q = m q

theorem Inside.refl (i : Fin 2) (m : Memory) : Inside i m m := fun _ _ => rfl

theorem Inside.trans {m'' : Memory} (h : Inside i m m') (h' : Inside i m' m'') : Inside i m m'' :=
  fun q hq => (h' q hq).trans (h q hq)

/-- The memories differ in the files and the counter of the panel `i` only. -/
structure SameCursor (i : Fin 2) (m m' : Memory) : Prop where
  currentFile : currentFile m' i = currentFile m i
  scrollOffset : scrollOffset m' i = scrollOffset m i
  other : Inside i m m'

theorem SameCursor.refl (i : Fin 2) (m : Memory) : SameCursor i m m := ⟨rfl, rfl, .refl i m⟩

theorem SameCursor.trans {m'' : Memory} (h : SameCursor i m m') (h' : SameCursor i m' m'') :
    SameCursor i m m'' :=
  ⟨h'.currentFile.trans h.currentFile, h'.scrollOffset.trans h.scrollOffset,
    h.other.trans h'.other⟩

/-- The counter of a panel is written. -/
theorem setFileCount {v : ℤ} (h0 : 0 ≤ v) (hv : v ≤ maxFiles) :
    fileCount (setInt m (fileCountAt i) v) i = v ∧
      SameCursor i m (setInt m (fileCountAt i) v) := by
  have hv' : v ≤ 1024 := hv
  have hcount := fileCountAt_eq i
  have hcurrent := currentFileAt_eq i
  have hscroll := scrollOffsetAt_eq i
  exact ⟨int_setInt (by omega), int_setInt_of_ne (by omega), int_setInt_of_ne (by omega),
    fun q hq => setInt_of_outside (by omega)⟩

theorem SameOutside.sameCursor (h : SameOutside i k m m') (h0 : 0 ≤ k) (hk : k < maxFiles) :
    SameCursor i m m' := by
  have hk' : k < 1024 := hk
  have hrest := h.sameRest h0 hk
  exact ⟨hrest.currentFile, hrest.scrollOffset, fun q hq => h q (by omega)⟩

/-- A turn of the loop below `MAX_FILES`. -/
theorem readEntry_inside (fs : FileSystem D) (n : Path) (hcount : fileCount m i = k) (h0 : 0 ≤ k)
    (hk : k < maxFiles) :
    ∃ m', readEntry fs i m n = some m' ∧ fileCount m' i = k + 1 ∧ SameCursor i m m' := by
  have hk' : k < 1024 := hk
  obtain ⟨m₁, h₁, -, hsame⟩ := storeEntry_inside fs n hcount h0 hk
  have hcount₁ := (hsame.fileCount hk).trans hcount
  obtain ⟨hcount₂, hcursor⟩ := setFileCount (m := m₁) (i := i) (show 0 ≤ k + 1 by omega)
    (show k + 1 ≤ 1024 by omega)
  refine ⟨_, ?_, hcount₂, (hsame.sameCursor h0 hk).trans hcursor⟩
  rw [readEntry, h₁, Option.bind_some, increment, if_pos (by omega), hcount₁]

/-- **Which listings are right.** -/
theorem along_stored_iff (fs : FileSystem D) {names : List Path} (hcount : fileCount m i = k)
    (h0 : 0 ≤ k) (hk : k ≤ maxFiles) :
    Along (readEntry fs i) (Stored fs i) m names ↔ k + names.length ≤ maxFiles := by
  induction names generalizing m k with
  | nil => exact iff_of_true trivial (by simpa using hk)
  | cons n ns ih =>
    rw [Along, stored_iff fs n hcount h0, List.length_cons]
    constructor
    · rintro ⟨hlt, hall⟩
      obtain ⟨m', hm', hcount', -⟩ := readEntry_inside fs n hcount h0 hlt
      have hle := (ih hcount' (by omega) (by omega)).1 (hall m' hm')
      push_cast
      omega
    · intro hle
      push_cast at hle
      have hlt : k < maxFiles := by omega
      refine ⟨hlt, fun t ht => ?_⟩
      obtain ⟨m', hm', hcount', -⟩ := readEntry_inside fs n hcount h0 hlt
      obtain rfl : m' = t := Option.some.inj (hm'.symm.trans ht)
      exact (ih hcount' (by omega) (by omega)).2 (by omega)

/-- What a listing that is small enough does. -/
theorem run_readEntry (fs : FileSystem D) {names : List Path} (hcount : fileCount m i = k)
    (h0 : 0 ≤ k) (hle : k + names.length ≤ maxFiles) :
    ∃ m', run (readEntry fs i) m names = some m' ∧ fileCount m' i = k + names.length ∧
      SameCursor i m m' := by
  induction names generalizing m k with
  | nil => exact ⟨m, rfl, by simpa using hcount, .refl i m⟩
  | cons n ns ih =>
    rw [List.length_cons] at hle ⊢
    push_cast at hle ⊢
    obtain ⟨m₁, h₁, hcount₁, hcursor⟩ := readEntry_inside fs n hcount h0 (by omega)
    obtain ⟨m', hm', hcount', hcursor'⟩ := ih hcount₁ (by omega) (by omega)
    exact ⟨m', run_cons_eq_some.2 ⟨m₁, h₁, hm'⟩, by omega, hcursor.trans hcursor'⟩

theorem reset_spec (i : Fin 2) (m : Memory) :
    fileCount (reset i m) i = 0 ∧ SameCursor i m (reset i m) :=
  setFileCount le_rfl (by decide)

/-- **A call of `list_files` is right exactly if the directory is small enough.** -/
theorem listSafe_iff (fs : FileSystem D) (i : Fin 2) (m : Memory) :
    ListSafe fs i m ↔ ListSmall fs i m := by
  refine forall₂_congr fun names hn => ?_
  have hiff : Along (readEntry fs i) (Stored fs i) (reset i m) names ↔ _ :=
    along_stored_iff fs (reset_spec i m).1 le_rfl (by decide)
  rw [zero_add] at hiff
  rw [hiff]
  refine ⟨And.left, fun hle => ⟨hle, fun ns t hns _ => ?_⟩⟩
  have hlen := hns.length_le
  omega

/-- A listing that is small enough is defined, and leaves the cursor and the other panel alone. -/
theorem listFiles_small (h : ListSmall fs i m) :
    ∃ m', listFiles fs i m = some m' ∧ SameCursor i m m' ∧
      (m' = m ∨ 0 ≤ fileCount m' i ∧ fileCount m' i ≤ maxFiles) := by
  rw [listFiles]
  cases hn : fs.opendir (currentPath m i) with
  | none => exact ⟨m, rfl, .refl i m, .inl rfl⟩
  | some names =>
    have hle := h names hn
    obtain ⟨hcount, hcursor⟩ := reset_spec i m
    obtain ⟨m', hm', hcount', hcursor'⟩ :=
      run_readEntry fs hcount le_rfl (show 0 + (names.length : ℤ) ≤ maxFiles by omega)
    exact ⟨m', hm', hcursor.trans hcursor', .inr ⟨by omega, by omega⟩⟩

/-! ### The cursor -/

/-- The counters of a panel are in order, whatever the height of the window is. -/
structure InOrder (scroll current count : ℤ) : Prop where
  nonneg : 0 ≤ scroll
  below : scroll ≤ current
  inside : current < count ∨ current = 0
  count_nonneg : 0 ≤ count
  count_le : count ≤ maxFiles

section Counters

variable {scroll current count : ℤ}

theorem InOrder.current_lt (h : InOrder scroll current count) : current < maxFiles := by
  have hmax : (0 : ℤ) < maxFiles := by decide
  rcases h.inside with hlt | hzero
  · exact hlt.trans_le h.count_le
  · rwa [hzero]

theorem InOrder.up (h : InOrder scroll current count) (hpos : 0 < current)
    (hscroll : ¬ current - 1 < scroll) : InOrder scroll (current - 1) count :=
  ⟨h.nonneg, by omega, .inl (by have hinside := h.inside; omega), h.count_nonneg, h.count_le⟩

theorem InOrder.upScroll (h : InOrder scroll current count) (hpos : 0 < current)
    (hscroll : current - 1 < scroll) : InOrder (scroll - 1) (current - 1) count := by
  obtain ⟨h0, hbelow, hinside, hcount, hmax⟩ := h
  exact ⟨by omega, by omega, .inl (by omega), hcount, hmax⟩

theorem InOrder.down (h : InOrder scroll current count) (hlast : current < count - 1) :
    InOrder scroll (current + 1) count ∧ InOrder (scroll + 1) (current + 1) count := by
  obtain ⟨h0, hbelow, hinside, hcount, hmax⟩ := h
  exact ⟨⟨h0, by omega, .inl (by omega), hcount, hmax⟩,
    ⟨by omega, by omega, .inl (by omega), hcount, hmax⟩⟩

theorem InOrder.zero (h0 : 0 ≤ count) (hmax : count ≤ maxFiles) : InOrder 0 0 count :=
  ⟨le_rfl, le_rfl, .inr rfl, h0, hmax⟩

end Counters

/-- The counters of the panel `i` are. -/
def Good (m : Memory) (i : Fin 2) : Prop :=
  InOrder (scrollOffset m i) (currentFile m i) (fileCount m i)

/-- They fit into an `int`. -/
theorem Good.range (h : Good m i) :
    0 ≤ scrollOffset m i ∧ scrollOffset m i < 1024 ∧ 0 ≤ currentFile m i ∧
      currentFile m i < 1024 := by
  have hlt : currentFile m i < 1024 := h.current_lt
  exact ⟨h.nonneg, h.below.trans_lt hlt, h.nonneg.trans h.below, hlt⟩

/-- The counters of the other panel are what they were. -/
theorem Inside.frame {j : Fin 2} (hm : Inside i m m') (hij : j ≠ i) :
    fileCount m' j = fileCount m j ∧ currentFile m' j = currentFile m j ∧
      scrollOffset m' j = scrollOffset m j := by
  have hi := panelAt_eq i
  have hj : panelAt j = 279568 - panelAt i := by
    rw [← panelAt_other]
    exact congrArg _ (by omega)
  have hsame : ∀ p, panelAt j ≤ p → p + 4 ≤ panelAt j + 279568 → int m' p = int m p :=
    fun p hp hp' => int_congr fun q hq hq' => hm q (by omega)
  have hcount := fileCountAt_eq j
  have hcurrent := currentFileAt_eq j
  have hscroll := scrollOffsetAt_eq j
  exact ⟨hsame _ (by omega) (by omega), hsame _ (by omega) (by omega),
    hsame _ (by omega) (by omega)⟩

/-- If the panel `i` is in order and nothing else is changed, then both panels are. -/
theorem Good.all (h : ∀ j, Good m j) (hi : Good m' i) (hm : Inside i m m') (j : Fin 2) :
    Good m' j := by
  by_cases hij : j = i
  · rwa [hij]
  · obtain ⟨hcount, hcurrent, hscroll⟩ := hm.frame hij
    rw [Good, hcount, hcurrent, hscroll]
    exact h j

theorem setCurrentFile {v : ℤ} (hv : -2 ^ 31 ≤ v ∧ v < 2 ^ 31) :
    currentFile (setInt m (currentFileAt i) v) i = v ∧
      scrollOffset (setInt m (currentFileAt i) v) i = scrollOffset m i ∧
      fileCount (setInt m (currentFileAt i) v) i = fileCount m i ∧
      Inside i m (setInt m (currentFileAt i) v) := by
  have hcount := fileCountAt_eq i
  have hcurrent := currentFileAt_eq i
  have hscroll := scrollOffsetAt_eq i
  exact ⟨int_setInt hv, int_setInt_of_ne (by omega), int_setInt_of_ne (by omega),
    fun q hq => setInt_of_outside (by omega)⟩

theorem setScrollOffset {v : ℤ} (hv : -2 ^ 31 ≤ v ∧ v < 2 ^ 31) :
    scrollOffset (setInt m (scrollOffsetAt i) v) i = v ∧
      currentFile (setInt m (scrollOffsetAt i) v) i = currentFile m i ∧
      fileCount (setInt m (scrollOffsetAt i) v) i = fileCount m i ∧
      Inside i m (setInt m (scrollOffsetAt i) v) := by
  have hcount := fileCountAt_eq i
  have hcurrent := currentFileAt_eq i
  have hscroll := scrollOffsetAt_eq i
  exact ⟨int_setInt hv, int_setInt_of_ne (by omega), int_setInt_of_ne (by omega),
    fun q hq => setInt_of_outside (by omega)⟩

theorem Good.up (h : Good m i) : Good (up i m) i ∧ Inside i m (up i m) := by
  obtain ⟨hs0, hs1, hc0, hc1⟩ := h.range
  rw [Layout.up]
  split_ifs with hpos
  · obtain ⟨hc, hs, hn, hm⟩ := setCurrentFile (m := m) (i := i) (v := currentFile m i - 1)
      ⟨by omega, by omega⟩
    generalize setInt m (currentFileAt i) (currentFile m i - 1) = m₁ at hc hs hn hm
    dsimp only
    split_ifs with hscroll
    · obtain ⟨hs', hc', hn', hm'⟩ := setScrollOffset (m := m₁) (i := i)
        (v := scrollOffset m₁ i - 1) ⟨by omega, by omega⟩
      rw [hc, hs] at hscroll
      refine ⟨?_, hm.trans hm'⟩
      rw [Good, hs', hc', hn', hs, hc, hn]
      exact InOrder.upScroll h hpos hscroll
    · rw [hc, hs] at hscroll
      refine ⟨?_, hm⟩
      rw [Good, hs, hc, hn]
      exact InOrder.up h hpos hscroll
  · exact ⟨h, .refl i m⟩

theorem Good.down (h : Good m i) (height : ℤ) :
    Good (down height i m) i ∧ Inside i m (down height i m) := by
  obtain ⟨hs0, hs1, hc0, hc1⟩ := h.range
  rw [Layout.down]
  split_ifs with hlast
  · obtain ⟨hc, hs, hn, hm⟩ := setCurrentFile (m := m) (i := i) (v := currentFile m i + 1)
      ⟨by omega, by omega⟩
    generalize setInt m (currentFileAt i) (currentFile m i + 1) = m₁ at hc hs hn hm
    dsimp only
    split_ifs with hscroll
    · obtain ⟨hs', hc', hn', hm'⟩ := setScrollOffset (m := m₁) (i := i)
        (v := scrollOffset m₁ i + 1) ⟨by omega, by omega⟩
      refine ⟨?_, hm.trans hm'⟩
      rw [Good, hs', hc', hn', hs, hc, hn]
      exact (InOrder.down h hlast).2
    · refine ⟨?_, hm⟩
      rw [Good, hs, hc, hn]
      exact (InOrder.down h hlast).1
  · exact ⟨h, .refl i m⟩

/-! ### Listings and runs -/

theorem home_spec (m : Memory) (i : Fin 2) :
    scrollOffset (home i m) i = 0 ∧ currentFile (home i m) i = 0 ∧
      fileCount (home i m) i = fileCount m i ∧ Inside i m (home i m) := by
  obtain ⟨hc, -, hn, hm⟩ := setCurrentFile (m := m) (i := i) (v := 0) (by decide)
  obtain ⟨hs', hc', hn', hm'⟩ := setScrollOffset (m := setInt m (currentFileAt i) 0) (i := i)
    (v := 0) (by decide)
  exact ⟨hs', hc'.trans hc, hn'.trans hn, hm.trans hm'⟩

/-- The path is stored behind the counters. -/
theorem store_path_spec (i : Fin 2) (m : Memory) {bs : List UInt8} (hlen : bs.length ≤ 1024) :
    fileCount (store m (currentPathAt i) bs) i = fileCount m i ∧
      SameCursor i m (store m (currentPathAt i) bs) := by
  have hcount := fileCountAt_eq i
  have hcurrent := currentFileAt_eq i
  have hscroll := scrollOffsetAt_eq i
  have hpath := currentPathAt_eq i
  exact ⟨int_congr fun q _ _ => store_of_outside (by omega),
    int_congr fun q _ _ => store_of_outside (by omega),
    int_congr fun q _ _ => store_of_outside (by omega),
    fun q hq => store_of_outside (by omega)⟩

theorem leavePath_spec (fs : FileSystem D) (cwd : D) (i : Fin 2) (m : Memory) :
    fileCount (leavePath fs cwd i m) i = fileCount m i ∧ SameCursor i m (leavePath fs cwd i m) := by
  rw [leavePath]
  cases fs.leaves cwd with
  | none => exact ⟨rfl, .refl i m⟩
  | some bs =>
    refine store_path_spec i m ?_
    have hle := List.length_take_le 1023 bs
    rw [List.length_append, List.length_singleton]
    omega

theorem putPath_spec (fs : FileSystem D) (cwd : D) (i : Fin 2) (m : Memory) :
    fileCount (putPath fs cwd i m) i = fileCount m i ∧ SameCursor i m (putPath fs cwd i m) := by
  rw [putPath]
  cases fs.getcwd cwd with
  | none => exact leavePath_spec fs cwd i m
  | some p =>
    dsimp only
    split_ifs with hlen
    · refine store_path_spec i m ?_
      rw [List.length_append, List.length_singleton]
      omega
    · exact leavePath_spec fs cwd i m

theorem Good.putPath (h : Good m i) (fs : FileSystem D) (cwd : D) :
    Good (putPath fs cwd i m) i := by
  obtain ⟨hcount, hcursor⟩ := putPath_spec fs cwd i m
  rwa [Good, hcursor.scrollOffset, hcursor.currentFile, hcount]

theorem Good.putPath_all (h : ∀ j, Good m j) (fs : FileSystem D) (cwd : D) (i j : Fin 2) :
    Good (Layout.putPath fs cwd i m) j :=
  Good.all h ((h i).putPath fs cwd) (putPath_spec fs cwd i m).2.other j

/-- A listing that is small enough keeps the counters in order where the cursor is on the first
entry, or is moved there. -/
theorem Good.listFiles (h : ∀ j, Good m j) (hsmall : ListSmall fs i m) :
    ∃ m', listFiles fs i m = some m' ∧ SameCursor i m m' ∧ (∀ j, Good (home i m') j) ∧
      (currentFile m i = 0 → ∀ j, Good m' j) := by
  obtain ⟨m', hm', hcursor, hcount⟩ := listFiles_small hsmall
  have hrange : 0 ≤ fileCount m' i ∧ fileCount m' i ≤ maxFiles := by
    rcases hcount with rfl | hcount
    · exact ⟨(h i).count_nonneg, (h i).count_le⟩
    · exact hcount
  have hhome : Good (home i m') i := by
    obtain ⟨hs, hc, hn, -⟩ := home_spec m' i
    rw [Good, hs, hc, hn]
    exact .zero hrange.1 hrange.2
  have hfirst : currentFile m i = 0 → Good m' i := by
    intro hzero
    have hscroll : scrollOffset m i = 0 := by
      have hscroll := (h i).range
      have hbelow := (h i).below
      omega
    rw [Good, hcursor.scrollOffset, hcursor.currentFile, hscroll, hzero]
    exact .zero hrange.1 hrange.2
  exact ⟨m', hm', hcursor, Good.all h hhome (hcursor.other.trans (home_spec m' i).2.2.2),
    fun hzero => Good.all h (hfirst hzero) hcursor.other⟩

/-- The counters of both panels are in order; before the loop of `main` the cursors are on the first
entry. -/
structure Inv (s : State D) : Prop where
  listed : s.listed ≤ 2
  good : ∀ i, Good s.mem i
  fresh : s.listed < 2 → ∀ i, currentFile s.mem i = 0

theorem inv_start (fs : FileSystem D) (cwd : D) : Inv (start fs cwd) := by
  have hzero : ∀ i, Good (fun _ => 0) i := by
    intro i
    rw [Good, scrollOffset, currentFile, fileCount, int_zero, int_zero, int_zero]
    exact .zero le_rfl (by decide)
  have hfresh : ∀ {m : Memory} (i : Fin 2), (∀ j, currentFile m j = 0) →
      ∀ j, currentFile (putPath fs cwd i m) j = 0 := by
    intro m i h j
    obtain ⟨-, hcursor⟩ := putPath_spec fs cwd i m
    by_cases hij : j = i
    · rw [hij, hcursor.currentFile, h]
    · rw [(hcursor.other.frame hij).2.1, h]
  exact ⟨Nat.zero_le _, Good.putPath_all (Good.putPath_all hzero fs cwd 0) fs cwd 1,
    fun _ => hfresh 1 (hfresh 0 fun _ => int_zero _)⟩

/-- A step is enabled where `main` can make it. -/
def Ready (s : State D) : Action D → Prop
  | .list => s.listed < 2
  | .key _ => s.listed = 2
  | .change _ => True

/-- Steps that list small directories are defined, and keep the counters in order. -/
theorem inv_step {height : ℤ} {s : State D} {a : Action D} (h : Inv s) (hsmall : Small s a)
    (ha : Ready s a) : ∃ t, step height s a = some t ∧ Inv t := by
  obtain ⟨hlisted, hgood, hfresh⟩ := h
  cases a with
  | change fs => exact ⟨_, rfl, hlisted, hgood, hfresh⟩
  | list =>
    have hlt : s.listed < 2 := ha
    obtain ⟨m', hm', hcursor, -, hgood'⟩ :=
      Good.listFiles hgood (hsmall s.next s.mem (if_pos hlt))
    have hfresh' : ∀ j, currentFile m' j = 0 := by
      intro j
      by_cases hj : j = s.next
      · rw [hj, hcursor.currentFile, hfresh hlt]
      · rw [(hcursor.other.frame hj).2.1, hfresh hlt]
    refine ⟨{ s with mem := m', listed := s.listed + 1 }, ?_, Nat.succ_le_of_lt hlt,
      hgood' (hfresh hlt _), fun _ => hfresh'⟩
    simp only [step, if_pos hlt, hm', Option.map_some]
  | key k =>
    have htwo : s.listed = 2 := ha
    have hlt : ¬ s.listed < 2 := by omega
    have hkey : ∀ {m}, (∀ j, Good m j) → Inv { s with mem := m } := fun hm =>
      ⟨hlisted, hm, fun hlt' => absurd hlt' hlt⟩
    cases k with
    | up =>
      obtain ⟨hup, hm⟩ := (hgood s.activePanel).up
      exact ⟨{ s with mem := up s.activePanel s.mem }, if_neg hlt, hkey (Good.all hgood hup hm)⟩
    | down =>
      obtain ⟨hdown, hm⟩ := (hgood s.activePanel).down height
      exact ⟨{ s with mem := down height s.activePanel s.mem }, if_neg hlt,
        hkey (Good.all hgood hdown hm)⟩
    | enter =>
      by_cases hdir : onDir s.mem s.activePanel = true
      · obtain ⟨m', hm', -, hhome, -⟩ :=
          Good.listFiles (Good.putPath_all hgood s.fs s.entered s.activePanel)
            (hsmall s.activePanel s.renamed (if_pos ⟨hlt, hdir⟩))
        refine ⟨{ s with cwd := s.entered, mem := home s.activePanel m' }, ?_, hlisted, hhome,
          fun hlt' => absurd hlt' hlt⟩
        have hrenamed : Layout.listFiles s.fs s.activePanel s.renamed = some m' := hm'
        simp only [step, if_neg hlt, if_pos hdir, hrenamed, Option.map_some]
      · refine ⟨s, ?_, hlisted, hgood, hfresh⟩
        simp only [step, if_neg hlt, if_neg hdir]
    | tab =>
      exact ⟨{ s with activePanel := 1 - s.activePanel }, if_neg hlt, hlisted, hgood, hfresh⟩
    | other => exact ⟨s, if_neg hlt, hlisted, hgood, hfresh⟩

theorem ready_of_step {height : ℤ} {s t : State D} {a : Action D} (h : Inv s)
    (ht : step height s a = some t) : Ready s a := by
  cases a with
  | change fs => exact trivial
  | list =>
    show s.listed < 2
    by_contra hlt
    rw [step, if_neg hlt] at ht
    cases ht
  | key k =>
    have hlt : ¬ s.listed < 2 := by
      intro hlt
      simp only [step, if_pos hlt] at ht
      cases ht
    have hle := h.listed
    show s.listed = 2
    omega

/-- Where the counters are in order, only a listing can go wrong. -/
theorem safe_iff {height : ℤ} {s : State D} {a : Action D} (h : Inv s) :
    Safe height s a ↔ Small s a := by
  constructor
  · exact fun hsafe i m hm => (listSafe_iff s.fs i m).1 (hsafe.listed i m hm)
  · intro hsmall
    refine ⟨fun _ i k hk => ?_, fun _ _ => ?_,
      fun i m hm => (listSafe_iff s.fs i m).2 (hsmall i m hm)⟩
    · obtain ⟨hk, hlt⟩ := List.mem_filter.1 hk
      obtain ⟨r, -, rfl⟩ := List.mem_map.1 hk
      have hlt : (r : ℤ) + scrollOffset s.mem i < fileCount s.mem i := of_decide_eq_true hlt
      have hscroll := (h.good i).nonneg
      exact ⟨by omega, hlt.trans_le (h.good i).count_le⟩
    · have hrange := (h.good s.activePanel).range
      exact ⟨hrange.2.2.1, (h.good s.activePanel).current_lt⟩

/-- **Large directories.** A call of `list_files` stores at most `MAX_FILES` records, inside the
array and without a change of another field, exactly if the directory has no more entries than that;
and in every run of the program, all listings do so and all later accesses to `files` are inside the
array, exactly if every directory that is listed is so small. -/
theorem capacity_iff (fs : FileSystem D) (cwd : D) (height : ℤ) (as : List (Action D)) :
    (∀ i m, ListSafe fs i m ↔ ListSmall fs i m) ∧
    (Along (step height) (Safe height) (start fs cwd) as ↔
      Along (step height) Small (start fs cwd) as) := by
  refine ⟨listSafe_iff fs, along_iff (fun s a => safe_iff) (fun s a t hI hsmall ht => ?_)
    (inv_start fs cwd)⟩
  obtain ⟨t', ht', hI'⟩ := inv_step hI hsmall (ready_of_step hI ht)
  obtain rfl : t' = t := Option.some.inj (ht'.symm.trans ht)
  exact hI'

/-- A name of two characters. -/
def numbered (k : ℕ) : Path := [UInt8.ofNat (97 + k / 64), UInt8.ofNat (48 + k % 64)]

/-- The names of 1024 files. -/
def names : List Path := (List.range 1024).map numbered

/-- Every directory has these entries, and one more with the name `a`. -/
def crowded : FileSystem Unit where
  find _ := some ()
  chdir d _ := some d
  getcwd _ := some [slash]
  leaves _ := none
  readable _ := true
  entries _ := names ++ [nameA]
  stat _ := none

theorem length_names : names.length = 1024 := by rw [names, List.length_map, List.length_range]

theorem numbered_inj {k l : ℕ} (hk : k < 1024) (hl : l < 1024) (h : numbered k = numbered l) :
    k = l := by
  simp only [numbered, List.cons.injEq, and_true] at h
  obtain ⟨h₁, h₂⟩ := h
  have h₁ := congrArg UInt8.toNat h₁
  have h₂ := congrArg UInt8.toNat h₂
  simp only [UInt8.toNat_ofNat'] at h₁ h₂
  omega

theorem crowded_nodup : (crowded.entries ()).Nodup := by
  refine List.nodup_append.2 ⟨?_, List.nodup_singleton _, ?_⟩
  · refine List.Nodup.map_on (fun k hk l hl => ?_) List.nodup_range
    exact numbered_inj (List.mem_range.1 hk) (List.mem_range.1 hl)
  · -- the other names are longer
    rintro n hn m hm rfl
    obtain ⟨k, -, hk⟩ := List.mem_map.1 hn
    have hlen := congrArg List.length (hk.trans (List.mem_singleton.1 hm))
    exact absurd hlen (by simp [numbered, nameA])

/-- The last entry is stored over `file_count`, which is then 97, and the size of the entry 97 is
stored next. -/
theorem count_overwritten :
    (crowded.entries ()).Nodup ∧ ¬ ListSafe crowded 0 (start crowded ()).mem ∧
    ∃ m m', run (readEntry crowded 0) (reset 0 (start crowded ()).mem) names = some m ∧
      fileCount m 0 = 1024 ∧ storeEntry crowded 0 m nameA = some m' ∧
      indices crowded 0 m nameA = [1024, 97, 97] ∧ fileCount m' 0 = 97 := by
  refine ⟨crowded_nodup, ?_, ?_⟩
  · intro h
    have hle := (listSafe_iff crowded 0 _).1 h (names ++ [nameA]) rfl
    rw [List.length_append, length_names, List.length_singleton] at hle
    exact absurd hle (by decide)
  · have hlen : 0 + (names.length : ℤ) ≤ maxFiles := by
      rw [length_names]
      decide
    obtain ⟨m, hm, hcount, -⟩ :=
      run_readEntry crowded (reset_spec 0 (start crowded ()).mem).1 le_rfl hlen
    rw [length_names] at hcount
    have hcount : fileCount m 0 = 1024 := hcount
    -- the name goes over the counter, and the next two stores follow the new value
    obtain ⟨m₁, h₁, hcount₁⟩ : ∃ m₁, storeName 0 m nameA = some m₁ ∧ fileCount m₁ 0 = 97 := by
      refine ⟨store m (fileCountAt 0) [97, 0], ?_, ?_⟩
      · rw [storeName, hcount]
        exact put_defined (by decide) (by decide)
      · exact int_store_two hcount (by decide) (by decide) 97 0
    have h97 : (97 : ℤ) < maxFiles := by decide
    obtain ⟨m₂, m₃, h₂, hcount₂, h₃, hsame⟩ :=
      storeStat_inside (statOf crowded 0 m₁ nameA) hcount₁ (by decide) h97
    obtain ⟨hstore, hindices⟩ := storeEntry_eq h₁ h₂ h₃
    rw [hcount, hcount₁, hcount₂] at hindices
    exact ⟨m, m₃, hm, hcount, hstore, hindices, (hsame.fileCount h97).trans hcount₁⟩

end Layout
end FileManager
end PosixHw
