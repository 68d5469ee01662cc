import PosixHw.FileManager.Cursor

/-!
# The file manager: the columns of a row

`main` divides the width of the terminal into two panels with a separator between them, and accepts
107 columns or more.  A row pads the name to 40 characters and the size to 10; both widths are
minimums, and nothing is cut off that is longer.

`Print.cells` are the places of the screen that a row takes, where every character of a name takes
one column, and `columns_iff` says when they stay in the panel.
-/

namespace PosixHw
namespace FileManager

open Run

/-! ### The layout of main -/

/-- `MIN_WIDTH` -/
def minWidth : ℤ := 107

/-- `MIN_HEIGHT` -/
def minHeight : ℤ := 24

/-- `check_terminal_size` goes on. -/
def checkTerminalSize (cols lines : ℤ) : Prop := ¬(cols < minWidth ∨ lines < minHeight)

instance (cols lines : ℤ) : Decidable (checkTerminalSize cols lines) :=
  inferInstanceAs (Decidable (¬(_ ∨ _)))

/-- A terminal with `COLS` and `LINES` that are accepted. -/
structure Terminal where
  cols : ℤ
  lines : ℤ
  accepted : checkTerminalSize cols lines

namespace Terminal

def width (t : Terminal) : ℤ := t.cols / 2 - 2

def height (t : Terminal) : ℤ := t.lines - 3

/-- The column of the separator. -/
def separator (t : Terminal) : ℤ := t.cols / 2

/-- `start_x` in the two calls of `display_panel`. -/
def startX (t : Terminal) (i : Fin 2) : ℤ := if i.val = 0 then 1 else t.cols / 2 + 2

/-- `start_y` -/
def startY : ℤ := 2

/-- A column of the panel `i`. -/
def Column (t : Terminal) (i : Fin 2) (x : ℤ) : Prop :=
  t.startX i ≤ x ∧ x ≤ t.startX i + t.width - 1

@[simp] theorem startX_left (t : Terminal) : t.startX 0 = 1 := rfl

@[simp] theorem startX_right (t : Terminal) : t.startX 1 = t.cols / 2 + 2 := rfl

theorem cols_ge (t : Terminal) : 107 ≤ t.cols := by
  obtain ⟨cols, lines, accepted⟩ := t
  unfold checkTerminalSize minWidth at accepted
  show 107 ≤ cols
  omega

end Terminal

/-! ### What a row takes -/

/-- What `mvprintw` makes of a text. -/
def Text.chars : Text → List Char
  | .title s => s.toList
  | .dir _ name => (name.map Char.ofUInt8).rightpad 40 ' ' ++ "      <DIR>".toList
  | .file _ name size =>
    (name.map Char.ofUInt8).rightpad 40 ' ' ++ ' ' :: (toString size).toList.leftpad 10 ' '
  | .blank => [' ']

/-- The places that the characters are put to, from left to right: after the last column comes the
first one of the next row, and below the last row nothing is put. -/
def Print.cells (t : Terminal) (r : Print) : List (ℤ × ℤ) :=
  ((List.range r.text.chars.length).map fun k : ℕ =>
    (r.y + (r.x + k) / t.cols, (r.x + k) % t.cols)).filter fun c => c.1 < t.lines

/-- The row stays on its line and in the columns of the panel `i`, and covers neither the separator
nor the border nor the other panel. -/
def StaysIn (t : Terminal) (i : Fin 2) (r : Print) : Prop :=
  ∀ c ∈ r.cells t, c.1 = r.y ∧ t.Column i c.2 ∧ c.2 ≠ t.separator ∧ c.2 ≠ 0 ∧
    c.2 ≠ t.cols - 1 ∧ ∀ j ≠ i, ¬ t.Column j c.2

/-- The characters of the line of an entry. -/
def File.lineLength (f : File) : ℕ :=
  if f.isDir then max 40 f.name.length + 11
  else max 40 f.name.length + 1 + max 10 (toString f.size).toList.length

/-- The columns that a panel has beside the border: if the width of the terminal is even, the last
column of the right panel is the border. -/
def Terminal.room (t : Terminal) (i : Fin 2) : ℤ :=
  if i.val = 0 then t.cols / 2 - 2 else t.cols - t.cols / 2 - 3

variable {D : Type*}

theorem length_chars (p : Panel D) (j : ℤ) : (p.text j).chars.length = (p.files j).lineLength := by
  unfold Panel.text File.lineLength
  split_ifs with hdir
  · rw [Text.chars, List.length_append, List.length_rightpad, List.length_map]
    rfl
  · rw [Text.chars, List.length_append, List.length_rightpad, List.length_map, List.length_cons,
      List.length_leftpad]
    omega

/-- The places of a row that does not reach the last column but one. -/
theorem mem_cells {t : Terminal} {r : Print} {c : ℤ × ℤ} :
    c ∈ r.cells t ↔ (∃ k : ℕ, k < r.text.chars.length ∧
      c = (r.y + (r.x + k) / t.cols, (r.x + k) % t.cols)) ∧ c.1 < t.lines := by
  unfold Print.cells
  simp only [List.mem_filter, List.mem_map, List.mem_range, decide_eq_true_eq]
  refine and_congr_left fun _ => exists_congr fun k => and_congr_right fun _ => eq_comm

theorem Terminal.room_left (t : Terminal) : t.room 0 = t.cols / 2 - 2 := rfl

theorem Terminal.room_right (t : Terminal) : t.room 1 = t.cols - t.cols / 2 - 3 := rfl

/-- The columns from the beginning of a panel on as far as there is room. -/
theorem Terminal.column_of_lt (t : Terminal) {i : Fin 2} {k : ℤ} (h0 : 0 ≤ k) (h : k < t.room i) :
    t.Column i (t.startX i + k) ∧ t.startX i + k ≠ t.separator ∧ t.startX i + k ≠ 0 ∧
      t.startX i + k ≠ t.cols - 1 ∧ ∀ j ≠ i, ¬ t.Column j (t.startX i + k) := by
  have hcols := t.cols_ge
  obtain rfl | rfl : i = 0 ∨ i = 1 := by omega
  · have hother : (∀ j ≠ (0 : Fin 2), ¬ t.Column j (t.startX 0 + k)) ↔
        ¬ t.Column 1 (t.startX 0 + k) := by
      simp [Fin.forall_fin_two]
    rw [t.room_left] at h
    rw [hother]
    unfold Column separator width
    rw [startX_left, startX_right]
    omega
  · have hother : (∀ j ≠ (1 : Fin 2), ¬ t.Column j (t.startX 1 + k)) ↔
        ¬ t.Column 0 (t.startX 1 + k) := by
      simp [Fin.forall_fin_two]
    rw [t.room_right] at h
    rw [hother]
    unfold Column separator width
    rw [startX_left, startX_right]
    omega

/-- The column behind them is not one of the panel, or it is the border. -/
theorem Terminal.column_room (t : Terminal) {i : Fin 2} (h : t.Column i (t.startX i + t.room i)) :
    t.startX i + t.room i = t.cols - 1 := by
  have hcols := t.cols_ge
  obtain ⟨-, hright⟩ := h
  obtain rfl | rfl : i = 0 ∨ i = 1 := by omega
  · rw [t.room_left, startX_left, width] at *
    omega
  · rw [t.room_right, startX_right, width] at *
    omega

theorem Terminal.room_lt (t : Terminal) (i : Fin 2) :
    0 ≤ t.room i ∧ 0 ≤ t.startX i ∧ t.startX i + t.room i < t.cols := by
  have hcols := t.cols_ge
  unfold Terminal.room Terminal.startX
  split_ifs <;> omega

/-- **A row at the beginning of a panel** stays in it exactly if the panel has room for it. -/
theorem staysIn_iff {t : Terminal} {i : Fin 2} {r : Print} (hx : r.x = t.startX i)
    (hy : r.y < t.lines) : StaysIn t i r ↔ (r.text.chars.length : ℤ) ≤ t.room i := by
  obtain ⟨hroom, hx0, hlast⟩ := t.room_lt i
  -- a place that is reached without a new line
  have hcell : ∀ k : ℕ, (k : ℤ) ≤ t.room i →
      (r.y + (r.x + k) / t.cols, (r.x + k) % t.cols) = (r.y, t.startX i + k) := by
    intro k hk
    rw [hx, Int.ediv_eq_zero_of_lt (by omega) (by omega), Int.emod_eq_of_lt (by omega) (by omega),
      add_zero]
  constructor
  · intro h
    by_contra hlong
    obtain ⟨k, hk⟩ : ∃ k : ℕ, (k : ℤ) = t.room i := ⟨(t.room i).toNat, Int.toNat_of_nonneg hroom⟩
    have hmem : (r.y, t.startX i + t.room i) ∈ r.cells t :=
      mem_cells.2 ⟨⟨k, by omega, by rw [hcell k hk.le, hk]⟩, hy⟩
    obtain ⟨-, hcolumn, -, -, hborder, -⟩ := h _ hmem
    exact hborder (t.column_room hcolumn)
  · rintro hshort c hc
    obtain ⟨⟨k, hk, rfl⟩, -⟩ := mem_cells.1 hc
    rw [hcell k (by omega)]
    exact ⟨rfl, t.column_of_lt (by omega) (by omega)⟩

/-- **When the row of an entry stays in its panel**: exactly if the panel has room for the padded
name and the padded size. -/
theorem columns_iff (t : Terminal) (s : State D) (i : Fin 2) {r : Print} {j : ℤ}
    (hr : r ∈ displayPanel s i (t.startX i) Terminal.startY t.width t.height)
    (hj : r.text.index = some j) :
    StaysIn t i r ↔ (((s.panels i).files j).lineLength : ℤ) ≤ t.room i := by
  rw [displayPanel, List.mem_cons, List.mem_cons] at hr
  rcases hr with rfl | rfl | hr
  · cases hj
  · cases hj
  obtain ⟨k, hk, rfl⟩ := List.mem_map.1 hr
  have hk : k < (t.lines - 3).toNat := List.mem_range.1 hk
  have hrow : 2 + (k : ℤ) < t.lines := by omega
  by_cases hentry : (k : ℤ) + (s.panels i).scrollOffset < (s.panels i).fileCount
  · have hprint : printRow s i (t.startX i) Terminal.startY k = ⟨2 + k, t.startX i,
        (s.panels i).text (k + (s.panels i).scrollOffset), false,
        decide (k + (s.panels i).scrollOffset = (s.panels i).currentFile ∧ i = s.activePanel)⟩ :=
      if_pos hentry
    rw [hprint] at hj ⊢
    have hindex : ((s.panels i).text (k + (s.panels i).scrollOffset)).index
        = some (k + (s.panels i).scrollOffset) := by
      unfold Panel.text
      split_ifs <;> rfl
    obtain rfl := Option.some.inj (hindex.symm.trans hj)
    rw [staysIn_iff rfl hrow, length_chars]
  · have hprint : printRow s i (t.startX i) Terminal.startY k
        = ⟨2 + k, t.startX i, .blank, false, false⟩ := if_neg hentry
    rw [hprint] at hj
    cases hj

/-! ### The smallest terminal -/

def smallest : Terminal := ⟨107, 24, by decide⟩

/-- A directory with a subdirectory whose name has 42 letters. -/
def wide : Tree Bool where
  root := false
  child d n := if n = List.replicate 42 97 ∧ d = false then some true else none
  path d := if d then slash :: List.replicate 42 97 else [slash]
  entries d := if d then [] else [List.replicate 42 97]

theorem columns_sample : ∃ s, start sample.toFileSystem .root = some s ∧
    StaysIn smallest 1 (printRow s 1 (smallest.startX 1) Terminal.startY 3) := by
  obtain ⟨s, hs⟩ : ∃ s, start sample.toFileSystem .root = some s := ⟨_, rfl⟩
  refine ⟨s, hs, ?_⟩
  cases hs
  exact (columns_iff smallest _ 1 (j := 3)
    (List.mem_cons_of_mem _ (List.mem_cons_of_mem _ (List.mem_map.2 ⟨3, by decide, rfl⟩)))
    (by decide)).2 (by decide)

/-- The row of that name covers the separator. -/
theorem wide_not_staysIn : ∃ s r, start wide.toFileSystem false = some s ∧
    r ∈ displayPanel s 0 (smallest.startX 0) Terminal.startY smallest.width smallest.height ∧
    r.text.index = some 0 ∧ (r.y, smallest.separator) ∈ r.cells smallest ∧
    ¬ StaysIn smallest 0 r := by
  obtain ⟨s, hs⟩ : ∃ s, start wide.toFileSystem false = some s := ⟨_, rfl⟩
  have hcovers : (2, 53) ∈ (printRow s 0 (smallest.startX 0) Terminal.startY 0).cells smallest := by
    cases hs
    decide +kernel
  refine ⟨s, printRow s 0 (smallest.startX 0) Terminal.startY 0, hs, ?_, ?_, ?_, ?_⟩
  · exact List.mem_cons_of_mem _ (List.mem_cons_of_mem _ (List.mem_map.2 ⟨0, by decide, rfl⟩))
  · cases hs
    decide +kernel
  · cases hs
    exact hcovers
  · intro h
    exact (h _ hcovers).2.2.1 rfl

end FileManager
end PosixHw
