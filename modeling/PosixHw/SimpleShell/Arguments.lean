import PosixHw.Shell.Arguments
import PosixHw.SimpleShell.Traced

/-!
# The argument arrays of the two shells

The shell without pipes stores the words after the first one, so its array takes one word more.
`arguments_iff` says for which lines each of the shells stores into its arrays only, and hands over
arrays that end with NULL.
-/

namespace PosixHw
namespace SimpleShell

open CString Shell

namespace Traced

variable {s input : List UInt8}

theorem none_mem_of_splitLine {a a' : Args} {cmd : Option ℕ} {t t' : Strtok}
    (h : SimpleShell.splitLine a t = some (cmd, a', t')) : none ∈ a'.slots := by
  obtain ⟨⟨p, t₁⟩, -, h⟩ := Option.bind_eq_some_iff.1 h
  obtain ⟨⟨r, t₂⟩, -, h⟩ := Option.bind_eq_some_iff.1 h
  obtain ⟨a₁, -, h⟩ := Option.bind_eq_some_iff.1 h
  obtain ⟨⟨a₂, i, t₃⟩, hloop, he⟩ := Option.map_eq_some_iff.1 h
  cases he
  exact Shell.Traced.none_mem_of_tokenLoop hloop

/-- A text is split exactly if the stores are into the array. -/
theorem argsSafe_splitLine_iff (s : List UInt8) (post : Mem) (a : Args) (saved : Option ℕ) :
    (splitLine a ⟨s ++ 0 :: post, saved⟩).All Access.ArgsSafe ↔
      ∃ r, SimpleShell.splitLine a ⟨s ++ 0 :: post, saved⟩ = some r := by
  obtain ⟨cmd, t, hcmd, ht⟩ := Shell.Traced.strtok_first s post saved
  obtain ⟨p, t', hp, ht'⟩ := Shell.Traced.strtok_before ht
  obtain ⟨a₁, hset⟩ := Shell.Traced.exists_set_zero a p
  rw [splitLine, hcmd, Trace.all_bind_of_some (Trace.value_lift _), and_iff_right Trace.all_lift]
  dsimp only
  rw [hp, Trace.all_bind_of_some (Trace.value_lift _), and_iff_right Trace.all_lift,
    Trace.all_bind_of_some ((Shell.Traced.value_set a 0 p).trans hset), Shell.Traced.all_set,
    Trace.all_bind, and_iff_right Shell.Traced.argsSafe_zero,
    Shell.Traced.argsSafe_tokenLoop rfl ht', and_iff_left fun _ _ => Trace.all_pure]
  simp only [SimpleShell.splitLine, hcmd, Option.bind_some, hp, hset, ← Option.isSome_iff_exists,
    Option.isSome_map]

/-- **What is handed over ends with NULL**, so only the stores matter. -/
theorem argsSafe_parse (post : Mem) (h0 : 0 ∉ s) (a : Args) (saved : Option ℕ) :
    (parse a (s ++ 0 :: post) saved).All Access.ArgsSafe ↔ (words space s).length ≤ maxArgs := by
  have hsplit : (parse a (s ++ 0 :: post) saved).All Access.ArgsSafe ↔
      (splitLine a ⟨s ++ 0 :: post, saved⟩).All Access.ArgsSafe := by
    rw [all_parse]
    refine and_iff_left fun cmd a' t h => ⟨trivial, fun p _ _ => ?_⟩
    exact none_mem_of_splitLine h
  rw [hsplit, argsSafe_splitLine_iff]
  obtain ⟨hnil, a', t, h⟩ | ⟨-, hle, p, a', t, h⟩ | ⟨hlt, h⟩ := splitLine_cases post h0 a saved
  · rw [hnil]
    exact iff_of_true ⟨_, h⟩ (Nat.zero_le maxArgs)
  · exact iff_of_true ⟨_, h⟩ hle
  · rw [h]
    exact iff_of_false (by simp) (Nat.not_le.2 hlt)

theorem argsSafe_readCommand (l : Locals) (hne : input ≠ []) :
    (readCommand l input).All Access.ArgsSafe ↔
      (words space (lineText input)).length ≤ maxArgs := by
  obtain ⟨hnil, hread⟩ | ⟨-, post, hread⟩ := all_readCommand l hne
  · rw [hread, lineText, hnil]
    exact iff_of_true trivial (by decide)
  · rw [hread, argsSafe_parse post (nul_notMem_lineText input)]
    exact and_iff_right trivial

end Traced

/-- **When the argument arrays are safe**: for the shell with pipes, if there are two stages or
fewer than ten words; for the shell without pipes, if there are at most ten words. -/
theorem arguments_iff (l : Shell.Locals) (k : Locals) (b : UInt8) (input : List UInt8) :
    ((Shell.Traced.readCommand l (b :: input)).All Access.ArgsSafe ↔
      2 ≤ (words bar (lineText (b :: input))).length ∨
        (words space (stem (lineText (b :: input)))).length < maxArgs) ∧
    ((Traced.readCommand k (b :: input)).All Access.ArgsSafe ↔
      (words space (lineText (b :: input))).length ≤ maxArgs) :=
  ⟨Shell.Traced.argsSafe_readCommand l (List.cons_ne_nil b input),
    Traced.argsSafe_readCommand k (List.cons_ne_nil b input)⟩

/-- The command `a` with ten arguments. -/
def elevenWords : List UInt8 := "a b c d e f g h i j k\n".toUTF8.data.toList

/-- Both shells store behind the last slot. -/
theorem elevenWords_not_safe :
    ¬ (Shell.Traced.readCommand default elevenWords).All Access.ArgsSafe ∧
    ¬ (Traced.readCommand default elevenWords).All Access.ArgsSafe := by
  constructor
  · decide +kernel
  · decide +kernel

end SimpleShell
end PosixHw
