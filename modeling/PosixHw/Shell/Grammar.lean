import PosixHw.Shell.Defined

/-!
# The shell with pipes: the lines that it understands

A line of one or two stages, each of at most nine words, is parsed as it reads, for every spacing
and with one or more bars between the stages.
-/

namespace PosixHw
namespace Shell

open CString

/-- A text without NUL, newline and bar. -/
def Plain (s : List UInt8) : Prop := 0 ∉ s ∧ newline ∉ s ∧ bar ∉ s

instance (s : List UInt8) : Decidable (Plain s) := inferInstanceAs (Decidable (_ ∧ _))

/-- A word of the shell: not empty, without space, bar, NUL and newline. -/
def ShellWord (w : List UInt8) : Prop := w ≠ [] ∧ space ∉ w ∧ Plain w

instance (w : List UInt8) : Decidable (ShellWord w) := inferInstanceAs (Decidable (_ ∧ _))

theorem ShellWord.isWord {w : List UInt8} (h : ShellWord w) : IsWord space w :=
  ⟨h.1, h.2.1, h.2.2.1⟩

/-- A text of words and spaces has none of the special bytes. -/
theorem plain_of_written {ws : List (List UInt8)} {s : List UInt8} (h : Written space ws s)
    (hw : ∀ w ∈ ws, ShellWord w) : Plain s := by
  have hrep : ∀ n, Plain (List.replicate n space) := fun n => by
    refine ⟨fun h => ?_, fun h => ?_, fun h => ?_⟩ <;>
      exact absurd (List.eq_of_mem_replicate h) (by decide)
  have happ : ∀ {a b}, Plain a → Plain b → Plain (a ++ b) := by
    rintro a b ⟨h₁, h₂, h₃⟩ ⟨k₁, k₂, k₃⟩
    simp only [Plain, List.mem_append, not_or]
    exact ⟨⟨h₁, k₁⟩, ⟨h₂, k₂⟩, ⟨h₃, k₃⟩⟩
  induction h with
  | blank n => exact hrep n
  | last n w => exact happ (hrep n) (hw w List.mem_cons_self).2.2
  | cons n w h ih =>
    refine happ (happ (hrep n) (hw w List.mem_cons_self).2.2) ?_
    exact happ (hrep 1) (ih fun v hv => hw v (List.mem_cons_of_mem _ hv))

/-- A text with a word in it is not empty. -/
theorem ne_nil_of_written {w : List UInt8} {ws : List (List UInt8)} {s : List UInt8}
    (h : Written space (w :: ws) s) (hw : w ≠ []) : s ≠ [] := by
  cases h with
  | last n => simp [hw]
  | cons n _ h => simp

theorem parse_single (post : Mem) {w s : List UInt8} {ws : List (List UInt8)}
    (h : Written space (w :: ws) s) (hw : ∀ v ∈ w :: ws, ShellWord v)
    (hlen : (w :: ws).length < maxArgs) (hexit : w ≠ commandExit) (a1 a2 : Args)
    (saved : Option ℕ) :
    ∃ a1' t, parse a1 a2 (s ++ 0 :: post) saved = some (.single ⟨some w, w :: ws⟩, a1', a2, t) ∧
      none ∈ a1'.slots := by
  obtain ⟨h0, -, hbar⟩ := plain_of_written h hw
  have hne := ne_nil_of_written h (hw w List.mem_cons_self).1
  have hbars : (words bar s).length < 2 := by
    rw [words_of_notMem hne hbar]
    exact Nat.one_lt_two
  have hstem : stem s = s := by
    have hstage := stem_stage 0 hne hbar (r := []) (by simp)
    rwa [List.replicate_zero, List.nil_append, List.append_nil] at hstage
  have hwords : words space (stem s) = w :: ws := by
    rw [hstem]
    exact h.words_eq fun v hv => ⟨(hw v hv).1, (hw v hv).2.1⟩
  obtain ⟨a1', t, hparse, hnone⟩ := parse_stem post a1 a2 saved h0 hbars hwords hlen
  rw [if_neg hexit] at hparse
  exact ⟨a1', t, hparse, hnone⟩

/-- The tokens of two stages. -/
theorem words_stages (k : ℕ) {s₁ s₂ : List UInt8} (h₁ : Plain s₁) (h₂ : Plain s₂)
    (hne₁ : s₁ ≠ []) (hne₂ : s₂ ≠ []) :
    words bar (s₁ ++ List.replicate (k + 1) bar ++ s₂) = [s₁, s₂] := by
  have hsplit : s₁ ++ List.replicate (k + 1) bar ++ s₂
      = s₁ ++ bar :: (List.replicate k bar ++ s₂) := by
    rw [List.replicate_succ, List.append_assoc, List.cons_append]
  rw [hsplit, words_append_sep, words_gap, words_of_notMem hne₁ h₁.2.2,
    words_of_notMem hne₂ h₂.2.2]
  rfl

/-- A stage of at most nine words goes to `execvp` as it reads. -/
theorem stage_written {w s : List UInt8} {ws : List (List UInt8)} (h : Written space (w :: ws) s)
    (hw : ∀ v ∈ w :: ws, ShellWord v) (hlen : (w :: ws).length < maxArgs) :
    stage s = ⟨some w, w :: ws⟩ := by
  have hwords : words space s = w :: ws := h.words_eq fun v hv => ⟨(hw v hv).1, (hw v hv).2.1⟩
  rw [stage, hwords, List.head?_cons, List.take_of_length_le (Nat.le_sub_one_of_lt hlen)]

theorem parse_piped (post : Mem) (k : ℕ) {w₁ w₂ s₁ s₂ : List UInt8} {ws₁ ws₂ : List (List UInt8)}
    (h₁ : Written space (w₁ :: ws₁) s₁) (h₂ : Written space (w₂ :: ws₂) s₂)
    (hw₁ : ∀ v ∈ w₁ :: ws₁, ShellWord v) (hw₂ : ∀ v ∈ w₂ :: ws₂, ShellWord v)
    (hlen₁ : (w₁ :: ws₁).length < maxArgs) (hlen₂ : (w₂ :: ws₂).length < maxArgs) (a1 a2 : Args)
    (saved : Option ℕ) :
    ∃ a1' a2' t, parse a1 a2 (s₁ ++ List.replicate (k + 1) bar ++ s₂ ++ 0 :: post) saved
        = some (.piped ⟨some w₁, w₁ :: ws₁⟩ ⟨some w₂, w₂ :: ws₂⟩, a1', a2', t) ∧
      none ∈ a1'.slots ∧ none ∈ a2'.slots := by
  have hplain₁ := plain_of_written h₁ hw₁
  have hplain₂ := plain_of_written h₂ hw₂
  have h0 : 0 ∉ s₁ ++ List.replicate (k + 1) bar ++ s₂ := by
    simp only [List.mem_append, not_or]
    exact ⟨⟨hplain₁.1, fun h => absurd (List.eq_of_mem_replicate h) (by decide)⟩, hplain₂.1⟩
  have hne₁ := ne_nil_of_written h₁ (hw₁ w₁ List.mem_cons_self).1
  have hne₂ := ne_nil_of_written h₂ (hw₂ w₂ List.mem_cons_self).1
  have htokens := words_stages k hplain₁ hplain₂ hne₁ hne₂
  obtain ⟨a1', a2', t, hparse, hnone⟩ := parse_tokens post a1 a2 saved h0 htokens
  rw [stage_written h₁ hw₁ hlen₁, stage_written h₂ hw₂ hlen₂] at hparse
  exact ⟨a1', a2', t, hparse, hnone⟩

/-- **The shell runs what the line says.**  A line of two stages, with any spacing and any positive
number of bars between them, or of one stage whose first word is not `exit`, is parsed into exactly
its words, and each vector ends with a NULL inside its array. -/
theorem readCommand_written (l : Locals) (rest : List UInt8) :
    (∀ ws₁ ws₂ s₁ s₂ k, ws₁ ≠ [] → ws₂ ≠ [] → Written space ws₁ s₁ → Written space ws₂ s₂ →
      (∀ w ∈ ws₁, ShellWord w) → (∀ w ∈ ws₂, ShellWord w) → ws₁.length ≤ 9 → ws₂.length ≤ 9 →
      1 ≤ k → (s₁ ++ List.replicate k bar ++ s₂).length ≤ maxLine - 2 →
      ∃ l', readCommand l (s₁ ++ List.replicate k bar ++ s₂ ++ newline :: rest)
          = some (.piped ⟨ws₁.head?, ws₁⟩ ⟨ws₂.head?, ws₂⟩, l', rest) ∧
        none ∈ l'.args1.slots ∧ none ∈ l'.args2.slots) ∧
    (∀ ws s, ws ≠ [] → Written space ws s → (∀ w ∈ ws, ShellWord w) → ws.length ≤ 9 →
      ws.head? ≠ some commandExit → s.length ≤ maxLine - 2 →
      ∃ l', readCommand l (s ++ newline :: rest) = some (.single ⟨ws.head?, ws⟩, l', rest) ∧
        none ∈ l'.args1.slots) := by
  constructor
  · intro ws₁ ws₂ s₁ s₂ k hne₁ hne₂ h₁ h₂ hw₁ hw₂ hlen₁ hlen₂ hk hline
    obtain ⟨w₁, ws₁, rfl⟩ := List.exists_cons_of_ne_nil hne₁
    obtain ⟨w₂, ws₂, rfl⟩ := List.exists_cons_of_ne_nil hne₂
    obtain ⟨k, rfl⟩ : ∃ j, k = j + 1 := ⟨k - 1, by omega⟩
    obtain ⟨h0₁, hnl₁, -⟩ := plain_of_written h₁ hw₁
    obtain ⟨h0₂, hnl₂, -⟩ := plain_of_written h₂ hw₂
    have h0 : 0 ∉ s₁ ++ List.replicate (k + 1) bar ++ s₂ := by
      simp only [List.mem_append, not_or]
      exact ⟨⟨h0₁, fun h => absurd (List.eq_of_mem_replicate h) (by decide)⟩, h0₂⟩
    have hnl : newline ∉ s₁ ++ List.replicate (k + 1) bar ++ s₂ := by
      simp only [List.mem_append, not_or]
      exact ⟨⟨hnl₁, fun h => absurd (List.eq_of_mem_replicate h) (by decide)⟩, hnl₂⟩
    obtain ⟨m, post, hf, hc⟩ := chop_line hnl rest l.line h0 hline
    obtain ⟨a1', a2', t, hp, hnone₁, hnone₂⟩ := parse_piped post k h₁ h₂ hw₁ hw₂
      (Nat.lt_succ_of_le hlen₁) (Nat.lt_succ_of_le hlen₂) l.args1 l.args2 l.saved
    obtain ⟨l', hl', rfl, rfl, -⟩ := readCommand_eq hf hc hp
    exact ⟨l', hl', hnone₁, hnone₂⟩
  · intro ws s hne h hw hlen hexit hline
    obtain ⟨w, ws, rfl⟩ := List.exists_cons_of_ne_nil hne
    obtain ⟨h0, hnl, -⟩ := plain_of_written h hw
    obtain ⟨m, post, hf, hc⟩ := chop_line hnl rest l.line h0 hline
    obtain ⟨a1', t, hp, hnone⟩ := parse_single post h hw (Nat.lt_succ_of_le hlen)
      (fun he => hexit (congrArg some he)) l.args1 l.args2 l.saved
    obtain ⟨l', hl', rfl, -⟩ := readCommand_eq hf hc hp
    exact ⟨l', hl', hnone⟩

/-- The line `ls -l || wc`, and the line `ls`. -/
theorem readCommand_written_ls :
    (∃ l', readCommand default ([108, 115, 32, 45, 108, 32, 124, 124, 32, 119, 99] ++ [newline])
      = some (.piped ⟨some [108, 115], [[108, 115], [45, 108]]⟩ ⟨some [119, 99], [[119, 99]]⟩,
          l', [])) ∧
    ∃ l', readCommand default ([108, 115] ++ [newline])
      = some (.single ⟨some [108, 115], [[108, 115]]⟩, l', []) := by
  have hls : ShellWord [108, 115] := by decide
  have hl : ShellWord [45, 108] := by decide
  have hwc : ShellWord [119, 99] := by decide
  constructor
  · obtain ⟨l', hl', -, -⟩ := (readCommand_written default []).1 [[108, 115], [45, 108]] [[119, 99]]
      _ _ 2 (by simp) (by simp) (.cons 0 [108, 115] (.cons 0 [45, 108] (.blank 0)))
      (.last 1 [119, 99]) (by simp [hls, hl]) (by simp [hwc]) (by decide) (by decide) (by decide)
      (by decide)
    exact ⟨l', hl'⟩
  · obtain ⟨l', hl', -⟩ := (readCommand_written default []).2 [[108, 115]] _ (by simp)
      (.last 0 [108, 115]) (by simp [hls]) (by decide) (by decide) (by decide)
    exact ⟨l', hl'⟩

end Shell
end PosixHw
