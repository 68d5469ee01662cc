import PosixHw.Shell.Blank
import PosixHw.SimpleShell.Traced

/-!
# Lines without a word in the two shells

For the shell without pipes a bar is a word like any other, so a blank line is handled if there is a
bar in it, and not more words than the vector can take.

`robust_iff` says for each of the shells which lines are safe.
-/

namespace PosixHw
namespace SimpleShell

open CString Shell

/-- The shell handles the line and prompts again. -/
def Prompts (l : Locals) (input : List UInt8) : Prop :=
  ∃ s l' rest, turn l input = some (.next s l' rest)

/-- Nothing is stored outside of the line, no command is NULL, and after a blank line the shell
prompts again. -/
def Robust (l : Locals) (input : List UInt8) : Prop :=
  (Traced.readCommand l input).All Access.NullSafe ∧
    (Blank (firstLine input) → Prompts l input)

namespace Traced

variable {s : List UInt8}

theorem nullSafe_splitLine {a : Args} {t : Strtok} : (splitLine a t).All Access.NullSafe := by
  rw [splitLine, Trace.all_lift_bind]
  rintro ⟨cmd, t₁⟩ -
  rw [Trace.all_lift_bind]
  rintro ⟨p, t₂⟩ -
  rw [Trace.all_bind, Shell.Traced.all_set]
  refine ⟨trivial, fun a₁ _ => ?_⟩
  rw [Trace.all_bind]
  exact ⟨Shell.Traced.nullSafe_tokenLoop, fun _ _ => Trace.all_pure⟩

/-- **Which texts lead to a NULL.** -/
theorem nullSafe_parse (post : Mem) (a : Args) (saved : Option ℕ) (h0 : 0 ∉ s) :
    (parse a (s ++ 0 :: post) saved).All Access.NullSafe ↔ words space s ≠ [] := by
  rw [all_parse, and_iff_right nullSafe_splitLine]
  obtain ⟨hnil, a', t, h⟩ | ⟨hne, -, p, a', t, h⟩ | ⟨hlt, h⟩ := splitLine_cases post h0 a saved
  · exact iff_of_false (fun hall => (hall none a' t h).1 rfl) fun hne => hne hnil
  · rw [h]
    refine iff_of_true ?_ hne
    rintro cmd a₁ t₁ ⟨⟩
    exact ⟨Option.some_ne_none p, fun q _ _ => Option.some_ne_none q⟩
  · rw [h]
    refine iff_of_true (fun cmd a' t hr => by cases hr) fun hnil => ?_
    rw [hnil] at hlt
    exact absurd hlt (by decide)

end Traced

section Prompts

variable {input : List UInt8}

/-- **After a blank line** with a word in it, the shell prompts again exactly if the vector can take
the words. -/
theorem prompts_iff_of_blank (l : Locals) (hbytes : lineBytes input ≠ []) (hne : input ≠ [])
    (hblank : Blank (lineText input)) (hwords : words space (lineText input) ≠ []) :
    Prompts l input ↔ (words space (lineText input)).length ≤ maxArgs := by
  obtain ⟨hnil, -⟩ | ⟨-, post, hcommand⟩ := readCommand_lineText l hne
  · exact absurd hnil hbytes
  have h0 := nul_notMem_lineText input
  rcases le_or_gt (words space (lineText input)).length maxArgs with hle | hlt
  · refine iff_of_true ?_ hle
    have hpos := List.length_pos_iff.2 hwords
    obtain ⟨c, a', t, hparse, hexit⟩ := parse_readable post l.args l.saved h0 ⟨hpos, hle⟩
    have hnot : ¬ Exits (lineText input) := fun h => by
      have hmem := List.mem_of_mem_head? h
      rcases hblank 101 ((written_words space _).subset hmem (by decide)) with h | h
      · exact absurd h (by decide)
      · exact absurd h (by decide)
    rw [hparse, Option.map_some] at hcommand
    obtain ⟨⟨c', l', rest⟩, hr, rfl⟩ := Option.map_eq_some_iff.1 hcommand
    unfold Prompts turn
    rw [hr, Option.map_some]
    cases c' with
    | exit => exact absurd (hexit.1 rfl) hnot
    | run e => exact ⟨_, _, _, rfl⟩
  · refine iff_of_false ?_ (Nat.not_le.2 hlt)
    have hunread : ¬ Readable (lineText input) := fun h => absurd h.2 (Nat.not_le.2 hlt)
    rw [parse_unreadable post l.args l.saved h0 hunread, Option.map_none,
      Option.map_eq_none_iff] at hcommand
    rintro ⟨s, l', rest, h⟩
    rw [turn, hcommand] at h
    cases h

end Prompts

/-- **Which lines are safe for the shells**: none that begins with a NUL.  With pipes, those with a
word where one is expected; without pipes, those with a word and, if the line is blank, with at most
ten of them. -/
theorem robust_iff (l : Shell.Locals) (k : Locals) (b : UInt8) (input : List UInt8) :
    (Shell.Robust l (b :: input) ↔ b ≠ 0 ∧ HasWords (lineText (b :: input))) ∧
    (Robust k (b :: input) ↔ b ≠ 0 ∧ words space (lineText (b :: input)) ≠ [] ∧
      (Blank (firstLine (b :: input)) →
        (words space (lineText (b :: input))).length ≤ maxArgs)) := by
  have hne : b :: input ≠ [] := List.cons_ne_nil b input
  refine ⟨Shell.robust_iff_hasWords l b input, ?_⟩
  unfold Robust
  obtain ⟨hnil, hread⟩ | ⟨hbytes, post, hread⟩ := Traced.all_readCommand k hne
  · rw [hread]
    exact iff_of_false (fun h => absurd h.1.1 (by decide)) fun h => h.1 (lineBytes_eq_nil.1 hnil)
  · have hb : b ≠ 0 := fun h => hbytes (lineBytes_eq_nil.2 h)
    rw [hread, and_iff_right (nullSafe_line hbytes), and_iff_right hb,
      Traced.nullSafe_parse post k.args k.saved (nul_notMem_lineText _)]
    refine and_congr_right fun hwords => imp_congr_right fun hblank => ?_
    exact prompts_iff_of_blank k hbytes hne (blank_lineText hblank) hwords

/-- On an empty line both shells call `strcmp` with NULL. -/
theorem empty_not_robust :
    ¬ Shell.Robust default [newline] ∧ ¬ Robust default [newline] := by
  constructor
  · intro h
    exact absurd h.1 (by decide +kernel)
  · intro h
    exact absurd h.1 (by decide +kernel)

end SimpleShell
end PosixHw
