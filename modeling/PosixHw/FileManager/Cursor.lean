import PosixHw.FileManager.Listing

/-!
# The file manager: the cursor and the window

A panel shows `height` entries from `scroll_offset` on.  The cursor and the offset are moved by
separate steps, the offset only where the cursor would leave the window, so the cursor stays on an
entry and inside the window (`Visible`), as long as every listing has an entry.

`displayPanel` is what `display_panel` prints.  With a `Visible` panel it prints one highlighted row
for the active panel and none for the other one (`filter_reverse`), and reads no entry behind the
last one (`mem_displayPanel`).
-/

namespace PosixHw
namespace FileManager

open Run

variable {D : Type*} {fs : FileSystem D} {height : ℤ} {cwd : D} {p p' : Panel D}

/-! ### display_panel -/

/-- What `mvprintw` prints: a title, the line of the entry `index`, or a blank. -/
inductive Text
  | title (s : String)
  | dir (index : ℤ) (name : Path)
  | file (index : ℤ) (name : Path) (size : ℤ)
  | blank
  deriving DecidableEq

/-- The entry that is read for a text. -/
def Text.index : Text → Option ℤ
  | .dir j _ | .file j _ _ => some j
  | .title _ | .blank => none

/-- A call of `mvprintw`, and the attributes that are on. -/
structure Print where
  y : ℤ
  x : ℤ
  text : Text
  bold : Bool
  reverse : Bool
  deriving DecidableEq

/-- Lines 79–84: the line of the entry `j`. -/
def Panel.text (p : Panel D) (j : ℤ) : Text :=
  if (p.files j).isDir then .dir j (p.files j).name else .file j (p.files j).name (p.files j).size

/-- Lines 74–90: the row `k` of the panel `i`. -/
def printRow (s : State D) (i : Fin 2) (startX startY k : ℤ) : Print :=
  let p := s.panels i
  let j := k + p.scrollOffset
  if j < p.fileCount then
    ⟨startY + k, startX, p.text j, false, decide (j = p.currentFile ∧ i = s.activePanel)⟩
  else ⟨startY + k, startX, .blank, false, false⟩

/-- `display_panel`. -/
def displayPanel (s : State D) (i : Fin 2) (startX startY width height : ℤ) : List Print :=
  ⟨startY - 1, startX, .title "Name", decide (i = s.activePanel), false⟩ ::
    ⟨startY - 1, startX + width - 10, .title "Size", decide (i = s.activePanel), false⟩ ::
    (List.range height.toNat).map fun k : ℕ => printRow s i startX startY k

/-! ### The invariant -/

/-- The cursor is on an entry, and inside the window. -/
structure Visible (height : ℤ) (p : Panel D) : Prop where
  nonneg : 0 ≤ p.scrollOffset
  below : p.scrollOffset ≤ p.currentFile
  inside : p.currentFile < p.fileCount
  above : p.currentFile < p.scrollOffset + height

/-- Every listing has an entry, and not more than the array. -/
def Sized (fs : FileSystem D) : Prop :=
  ∀ path names, fs.opendir path = some names → 1 ≤ names.length ∧ (names.length : ℤ) ≤ maxFiles

section Display

variable {s : State D} {i : Fin 2} (startX startY width : ℤ)

/-- The row of the cursor is the only one with its entry. -/
theorem filter_range (h : Visible height p) :
    (List.range height.toNat).filter (fun k : ℕ => (k : ℤ) + p.scrollOffset = p.currentFile)
      = [(p.currentFile - p.scrollOffset).toNat] := by
  obtain ⟨h0, hbelow, -, habove⟩ := h
  have hrow : ∀ k ∈ List.range height.toNat, decide ((k : ℤ) + p.scrollOffset = p.currentFile)
      = decide (k = (p.currentFile - p.scrollOffset).toNat) := fun k _ =>
    decide_eq_decide.2 (by omega)
  rw [List.filter_congr hrow, List.filter_eq, List.count_range, if_pos (by omega)]
  rfl

theorem reverse_printRow (h : Visible height (s.panels i)) (k : ℕ) :
    (printRow s i startX startY k).reverse
      = (decide ((k : ℤ) + (s.panels i).scrollOffset = (s.panels i).currentFile)
          && decide (i = s.activePanel)) := by
  rw [printRow]
  split_ifs with hlt
  · exact Bool.decide_and _ _
  · have hne : (k : ℤ) + (s.panels i).scrollOffset ≠ (s.panels i).currentFile := by
      have hinside := h.inside
      omega
    simp [hne]

theorem printRow_cursor (h : Visible height (s.panels i)) (hi : i = s.activePanel) :
    printRow s i startX startY ((s.panels i).currentFile - (s.panels i).scrollOffset).toNat
      = ⟨startY + ((s.panels i).currentFile - (s.panels i).scrollOffset), startX,
          (s.panels i).text (s.panels i).currentFile, false, true⟩ := by
  subst hi
  obtain ⟨-, hbelow, hinside, -⟩ := h
  rw [printRow, Int.toNat_of_nonneg (by omega), sub_add_cancel]
  simp [hinside]

/-- **What is highlighted**: the row of the cursor in the active panel, and nothing in the other. -/
theorem filter_reverse (h : Visible height (s.panels i)) :
    (displayPanel s i startX startY width height).filter Print.reverse
      = if i = s.activePanel then
          [⟨startY + ((s.panels i).currentFile - (s.panels i).scrollOffset), startX,
            (s.panels i).text (s.panels i).currentFile, false, true⟩]
        else [] := by
  rw [displayPanel, List.filter_cons_of_neg (by simp), List.filter_cons_of_neg (by simp),
    List.filter_map]
  have hreverse : (Print.reverse ∘ fun k : ℕ => printRow s i startX startY k)
      = fun k : ℕ => decide ((k : ℤ) + (s.panels i).scrollOffset = (s.panels i).currentFile)
          && decide (i = s.activePanel) :=
    funext fun k => reverse_printRow startX startY h k
  rw [hreverse]
  split_ifs with hi
  · simp only [hi, decide_true, Bool.and_true]
    rw [← hi, filter_range h, List.map_singleton, printRow_cursor startX startY h hi]
  · simp [hi]

/-- **What is read**: entries of the list only. -/
theorem mem_displayPanel (h : Visible height (s.panels i)) {r : Print}
    (hr : r ∈ displayPanel s i startX startY width height) {j : ℤ} (hj : r.text.index = some j) :
    0 ≤ j ∧ j < (s.panels i).fileCount := by
  rw [displayPanel, List.mem_cons, List.mem_cons] at hr
  rcases hr with rfl | rfl | hr
  · cases hj
  · cases hj
  · obtain ⟨k, -, rfl⟩ := List.mem_map.1 hr
    rw [printRow] at hj
    split_ifs at hj with hlt
    · have hindex : ((s.panels i).text (k + (s.panels i).scrollOffset)).index
          = some (k + (s.panels i).scrollOffset) := by
        rw [Panel.text]
        split_ifs <;> rfl
      obtain rfl := Option.some.inj (hindex.symm.trans hj)
      have hnonneg := h.nonneg
      exact ⟨by omega, hlt⟩
    · cases hj

end Display

/-! ### The keys -/

theorem storeAll_defined (fs : FileSystem D) (path : Path) {names : List Path}
    (h : p.fileCount + names.length ≤ maxFiles) : ∃ q, storeAll fs path names p = some q := by
  induction names generalizing p with
  | nil => exact ⟨p, rfl⟩
  | cons n ns ih =>
    rw [List.length_cons] at h
    push_cast at h
    have hstore : p.store (fileAt fs path n) = some { p with
        files := Function.update p.files p.fileCount (fileAt fs path n)
        fileCount := p.fileCount + 1 } := if_pos (by omega)
    rw [storeAll, hstore, Option.bind_some]
    exact ih (by dsimp only; omega)

/-- A listing leaves the cursor alone, and a list with an entry, or the one that was there. -/
theorem listFiles_sized (hfs : Sized fs) (p : Panel D) (path : Path) :
    ∃ q, listFiles fs p path = some q ∧ q.currentFile = p.currentFile ∧
      q.scrollOffset = p.scrollOffset ∧ (1 ≤ q.fileCount ∨ fs.opendir path = none ∧ q = p) := by
  cases hn : fs.opendir path with
  | none => exact ⟨p, by rw [listFiles, hn], rfl, rfl, .inr ⟨rfl, rfl⟩⟩
  | some names =>
    obtain ⟨hpos, hmax⟩ := hfs path names hn
    obtain ⟨q, hq⟩ := storeAll_defined fs path (p := { p with fileCount := 0, seen := some fs })
      (show 0 + (names.length : ℤ) ≤ _ by omega)
    obtain ⟨-, hcount, hcurrent, hscroll, -, -⟩ := storeAll_cases hq le_rfl
    refine ⟨q, by rw [listFiles, hn]; exact hq, hcurrent, hscroll, .inl ?_⟩
    rw [hcount]
    show 1 ≤ 0 + (names.length : ℤ)
    omega

/-- The first entry is visible in a window of any height. -/
theorem visible_zero (hh : 0 < height) {q : Panel D} (hq : 1 ≤ q.fileCount) :
    Visible height { q with currentFile := 0, scrollOffset := 0 } :=
  ⟨le_rfl, le_rfl, Int.lt_of_lt_of_le Int.one_pos hq, by simpa using hh⟩

/-- Every key is handled, and keeps the cursor visible. -/
theorem Visible.navigate (h : Visible height p) (hh : 0 < height) (hfs : Sized fs) (cwd : D)
    (k : Key) : ∃ r, handleNavigation fs height cwd p k = some r ∧ Visible height r.2 := by
  obtain ⟨h0, hbelow, hinside, habove⟩ := h
  cases k with
  | up =>
    simp only [handleNavigation]
    split_ifs with hpos hscroll
    · exact ⟨_, rfl, by dsimp only at hscroll ⊢; omega, by dsimp only at hscroll ⊢; omega,
        by dsimp only; omega, by dsimp only; omega⟩
    · exact ⟨_, rfl, h0, by dsimp only at hscroll ⊢; omega, by dsimp only; omega,
        by dsimp only; omega⟩
    · exact ⟨_, rfl, h0, hbelow, hinside, habove⟩
  | down =>
    simp only [handleNavigation]
    split_ifs with hlast hscroll
    · exact ⟨_, rfl, by dsimp only; omega, by dsimp only at hscroll ⊢; omega,
        by dsimp only; omega, by dsimp only; omega⟩
    · exact ⟨_, rfl, h0, by dsimp only; omega, by dsimp only; omega,
        by dsimp only at hscroll ⊢; omega⟩
    · exact ⟨_, rfl, h0, hbelow, hinside, habove⟩
  | enter =>
    simp only [handleNavigation]
    split_ifs with hdir
    · -- the list is a new one, or still the old one
      obtain ⟨q, hq, -, -, hcount⟩ := listFiles_sized hfs
        { p with currentPath := getcwd fs (changeDir fs cwd p.entry.name) p.currentPath }
        (getcwd fs (changeDir fs cwd p.entry.name) p.currentPath)
      refine ⟨_, Option.map_eq_some_iff.2 ⟨q, hq, rfl⟩, visible_zero hh ?_⟩
      rcases hcount with hcount | ⟨-, rfl⟩
      · exact hcount
      · show 1 ≤ p.fileCount
        omega
    · exact ⟨_, rfl, h0, hbelow, hinside, habove⟩
  | tab | other => exact ⟨_, rfl, h0, hbelow, hinside, habove⟩

/-! ### Runs -/

/-- The cursors of both panels are visible, and listings are `Sized`. -/
def AllVisible (height : ℤ) (s : State D) : Prop :=
  Sized s.fs ∧ ∀ i, Visible height (s.panels i)

/-- A change of the file system leaves listings `Sized`. -/
def Action.sized : Action D → Prop
  | .key _ => True
  | .change fs => Sized fs

theorem allVisible_start (hh : 0 < height) (hfs : Sized fs)
    (hopen : (fs.opendir (getcwd fs cwd [])).isSome) :
    ∃ s, start fs cwd = some s ∧ AllVisible height s := by
  obtain ⟨q, hq, hcurrent, hscroll, hcount⟩ := listFiles_sized hfs
    { (Panel.zero : Panel D) with currentPath := getcwd fs cwd [] } (getcwd fs cwd [])
  refine ⟨_, Option.map_eq_some_iff.2 ⟨q, hq, rfl⟩, hfs, fun i => ?_⟩
  have hpos : 1 ≤ q.fileCount := by
    refine hcount.resolve_right fun hnone => ?_
    rw [hnone.1] at hopen
    cases hopen
  have hcurrent : q.currentFile = 0 := hcurrent
  have hscroll : q.scrollOffset = 0 := hscroll
  have hvisible : Visible height q :=
    ⟨hscroll.ge, by rw [hscroll, hcurrent], by omega, by rw [hcurrent, hscroll, zero_add]; exact hh⟩
  exact hvisible

theorem allVisible_step (hh : 0 < height) (s : State D) (a : Action D) (h : AllVisible height s)
    (ha : a.sized) : ∃ t, step height s a = some t ∧ AllVisible height t := by
  obtain ⟨hfs, hpanels⟩ := h
  have hkey : ∀ k, ∃ t, (handleNavigation s.fs height s.cwd (s.panels s.activePanel) k).map
      (fun r => { s with cwd := r.1, panels := Function.update s.panels s.activePanel r.2 })
        = some t ∧ AllVisible height t := by
    intro k
    obtain ⟨r, hr, hvisible⟩ := (hpanels s.activePanel).navigate hh hfs s.cwd k
    refine ⟨_, Option.map_eq_some_iff.2 ⟨r, hr, rfl⟩, hfs, fun i => ?_⟩
    show Visible height (Function.update s.panels s.activePanel r.2 i)
    by_cases hi : i = s.activePanel
    · rw [hi, Function.update_self]
      exact hvisible
    · rw [Function.update_of_ne hi]
      exact hpanels i
  cases a with
  | change fs => exact ⟨_, rfl, ha, hpanels⟩
  | key k =>
    cases k with
    | tab => exact ⟨_, rfl, hfs, hpanels⟩
    | up => exact hkey .up
    | down => exact hkey .down
    | enter => exact hkey .enter
    | other => exact hkey .other

/-- **The cursor is always valid and visible.**  If the directory in which the program starts can be
listed, and every listing has an entry and fits into the array, then any keys, with any changes of
the file system in between, are handled, and lead to a state in which the cursor of each panel is on
an entry and inside the window; what is then displayed is one highlighted row, that of the cursor
of the active panel, and entries of the lists. -/
theorem cursor_visible (hh : 0 < height) (hfs : Sized fs)
    (hopen : (fs.opendir (getcwd fs cwd [])).isSome) {as : List (Action D)}
    (has : ∀ a ∈ as, a.sized) :
    ∃ s₀ s, start fs cwd = some s₀ ∧ run (step height) s₀ as = some s ∧
      ∀ i, Visible height (s.panels i) ∧ ∀ startX startY width,
        (displayPanel s i startX startY width height).filter Print.reverse
          = (if i = s.activePanel then
              [⟨startY + ((s.panels i).currentFile - (s.panels i).scrollOffset), startX,
                (s.panels i).text (s.panels i).currentFile, false, true⟩]
            else []) ∧
        ∀ r ∈ displayPanel s i startX startY width height, ∀ j, r.text.index = some j →
          0 ≤ j ∧ j < (s.panels i).fileCount := by
  obtain ⟨s₀, h₀, hI₀⟩ := allVisible_start hh hfs hopen
  obtain ⟨s, hs, -, hvisible⟩ := run_defined (allVisible_step hh) hI₀ has
  refine ⟨s₀, s, h₀, hs, fun i => ⟨hvisible i, fun x y w => ⟨?_, fun r hr j hj => ?_⟩⟩⟩
  · exact filter_reverse x y w (hvisible i)
  · exact mem_displayPanel x y w (hvisible i) hr hj

theorem sample_sized : Sized sample.toFileSystem := by
  intro path names hn
  obtain ⟨d, -, rfl⟩ := FileSystem.mem_opendir hn
  cases d <;> decide

/-- Into `a` and down, with a window of one row: the second entry is highlighted. -/
theorem cursor_visible_enterA :
    ∃ s₀ s, start sample.toFileSystem .root = some s₀ ∧
      run (step 1) s₀ (enterA ++ [.key .down]) = some s ∧
      Visible 1 (s.panels 0) ∧ (s.panels 0).scrollOffset = 1 ∧
      (displayPanel s 0 1 2 50 1).filter Print.reverse = [⟨2, 1, .dir 1 dotdot, false, true⟩] := by
  obtain ⟨s₀, s, h₀, h, hvisible⟩ := cursor_visible (show (0 : ℤ) < 1 by decide) sample_sized
    (show (sample.toFileSystem.opendir (getcwd sample.toFileSystem .root [])).isSome by decide)
    (show ∀ a ∈ enterA ++ [.key .down], Action.sized a by simp [enterA, Action.sized])
  refine ⟨s₀, s, h₀, h, (hvisible 0).1, ?_, ?_⟩
  · cases h₀
    cases h
    decide
  · cases h₀
    cases h
    decide

end FileManager
end PosixHw
