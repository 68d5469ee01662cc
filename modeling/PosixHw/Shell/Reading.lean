import PosixHw.Shell.Parse

/-!
# Reading a line

Both shells read with `fgets` into an array of 1024 bytes and overwrite the last byte that was read.
What they handle is `readText` of the input: a line that fits, without its newline; the first 1022
bytes of a longer one; and the last text without its last byte if no newline follows.
-/

namespace PosixHw
namespace Shell

open CString

/-- The text that is handled: what `fgets` reads without its last byte. -/
def readText (input : List UInt8) : List UInt8 := (takeLine (maxLine - 1) input).1.dropLast

/-- The bytes that remain. -/
def readRest (input : List UInt8) : List UInt8 := (takeLine (maxLine - 1) input).2

/-- The string that `fgets` leaves: what it reads, up to the first NUL. -/
def lineBytes (input : List UInt8) : List UInt8 :=
  (takeLine (maxLine - 1) input).1.takeWhile (· ≠ 0)

/-- The text that is handled, whatever the bytes are. -/
def lineText (input : List UInt8) : List UInt8 := (lineBytes input).dropLast

theorem nul_notMem_lineBytes (input : List UInt8) : 0 ∉ lineBytes input := by
  intro h
  have hne := List.mem_takeWhile_imp h
  simp at hne

theorem nul_notMem_lineText (input : List UInt8) : 0 ∉ lineText input := fun h =>
  nul_notMem_lineBytes input (List.dropLast_subset _ h)

theorem length_lineBytes_lt (input : List UInt8) : (lineBytes input).length < maxLine :=
  Nat.lt_of_le_pred (by decide)
    ((List.takeWhile_prefix _).length_le.trans (length_takeLine_le (maxLine - 1) input))

/-- There is a byte to remove unless the line begins with a NUL. -/
theorem lineBytes_eq_nil {b : UInt8} {input : List UInt8} :
    lineBytes (b :: input) = [] ↔ b = 0 := by
  have hhead : ∃ t, (takeLine (maxLine - 1) (b :: input)).1 = b :: t := by
    show ∃ t, (takeLine (1022 + 1) (b :: input)).1 = b :: t
    rw [takeLine]
    split_ifs
    · exact ⟨[], rfl⟩
    · exact ⟨_, rfl⟩
  obtain ⟨t, ht⟩ := hhead
  rw [lineBytes, ht, List.takeWhile_cons]
  split_ifs with hb <;> simpa using hb

/-- What stands in memory after `fgets`. -/
theorem fgets_lineBytes (m : Mem) {input : List UInt8} (hne : input ≠ []) :
    ∃ post, fgets m maxLine input = some (lineBytes input ++ 0 :: post, readRest input) := by
  set t := (takeLine (maxLine - 1) input).1 with ht
  have hsplit : lineBytes input ++ t.dropWhile (· ≠ 0) = t := List.takeWhile_append_dropWhile
  have hfgets : fgets m maxLine input
      = some (t ++ 0 :: m.drop (t.length + 1), readRest input) := if_neg hne
  cases hdrop : t.dropWhile (· ≠ 0) with
  | nil =>
    rw [hdrop, List.append_nil] at hsplit
    exact ⟨_, by rw [hfgets, hsplit]⟩
  | cons b v =>
    have hb : b = 0 := by
      have hnot := List.head?_dropWhile_not (fun b : UInt8 => decide (b ≠ 0)) t
      rw [hdrop] at hnot
      simpa using hnot
    rw [hdrop, hb] at hsplit
    refine ⟨v ++ 0 :: m.drop (t.length + 1), ?_⟩
    rw [hfgets, ← hsplit, List.append_assoc, List.cons_append]

theorem chop_nil (post : Mem) : chop (0 :: post) = none := by
  have hlen : strlen ([] ++ 0 :: post) 0 = some ([] : Mem).length :=
    strlen_append List.not_mem_nil
  rw [List.nil_append, List.length_nil] at hlen
  rw [chop, hlen, Option.bind_some, if_pos rfl]

theorem chop_append {u : List UInt8} (post : Mem) (hne : u ≠ []) (h0 : 0 ∉ u) :
    chop (u ++ 0 :: post) = some (u.dropLast ++ 0 :: 0 :: post) := by
  obtain ⟨v, b, rfl⟩ : ∃ v b, u = v ++ [b] := ⟨_, _, (List.dropLast_append_getLast hne).symm⟩
  rw [chop, strlen_append h0, Option.bind_some, if_neg (by simp), List.length_append,
    List.length_singleton, Nat.add_sub_cancel, List.append_assoc, List.singleton_append,
    List.dropLast_concat]
  exact store_append

/-- What is made of a line is what is made of its text, unless the line begins with a NUL. -/
theorem readCommand_lineText (l : Locals) {input : List UInt8} (hne : input ≠ []) :
    lineBytes input = [] ∧ readCommand l input = none ∨
      lineBytes input ≠ [] ∧ ∃ post, (readCommand l input).map Prod.fst
        = (parse l.args1 l.args2 (lineText input ++ 0 :: post) l.saved).map Prod.fst := by
  obtain ⟨post, hf⟩ := fgets_lineBytes l.line hne
  by_cases hbytes : lineBytes input = []
  · rw [hbytes] at hf
    exact .inl ⟨hbytes, readCommand_chop_none hf (chop_nil post)⟩
  · refine .inr ⟨hbytes, 0 :: post, ?_⟩
    have hc := chop_append post hbytes (nul_notMem_lineBytes input)
    cases hp : parse l.args1 l.args2 (lineText input ++ 0 :: 0 :: post) l.saved with
    | none => rw [readCommand_eq_none hf hc hp, Option.map_none, Option.map_none]
    | some r =>
      obtain ⟨c, a1, a2, t⟩ := r
      obtain ⟨l', hl', -, -⟩ := readCommand_eq hf hc hp
      rw [hl', Option.map_some, Option.map_some]

/-- What `fgets` and the removal of the last byte leave in memory. -/
theorem chop_fgets (m : Mem) {input : List UInt8} (hne : input ≠ [])
    (h0 : 0 ∉ (takeLine (maxLine - 1) input).1) :
    ∃ m' post, fgets m maxLine input = some (m', readRest input) ∧
      chop m' = some (readText input ++ 0 :: post) := by
  have hbytes : lineBytes input = (takeLine (maxLine - 1) input).1 :=
    List.takeWhile_eq_self_iff.2 fun b hb => decide_eq_true fun h => h0 (h ▸ hb)
  have htext : lineBytes input ≠ [] := hbytes ▸ takeLine_ne_nil hne
  obtain ⟨post, hf⟩ := fgets_lineBytes m hne
  refine ⟨_, 0 :: post, hf, ?_⟩
  rw [chop_append post htext (nul_notMem_lineBytes input), readText, hbytes]

section Line

variable {s : List UInt8} (hs : newline ∉ s) (rest : List UInt8)

include hs

theorem readText_line : readText (s ++ newline :: rest) = s.take (maxLine - 2) := by
  rcases lt_or_ge s.length (maxLine - 1) with hlt | hge
  · rw [readText, takeLine_line hs hlt, List.dropLast_concat, List.take_of_length_le]
    omega
  · rw [readText, takeLine_long hs hge, List.dropLast_eq_take, List.length_take_of_le hge,
      List.take_take]
    rfl

theorem readRest_line (hlen : s.length ≤ maxLine - 2) : readRest (s ++ newline :: rest) = rest := by
  rw [readRest, takeLine_line hs]
  simp only [maxLine] at hlen ⊢
  omega

theorem nul_notMem_line (h0 : 0 ∉ s) :
    0 ∉ (takeLine (maxLine - 1) (s ++ newline :: rest)).1 := by
  rcases lt_or_ge s.length (maxLine - 1) with hlt | hge
  · rw [takeLine_line hs hlt]
    simpa [h0] using (by decide : (0 : UInt8) ≠ newline)
  · rw [takeLine_long hs hge]
    exact fun h => h0 (List.mem_of_mem_take h)

/-- What stands in memory when a line that fits is split. -/
theorem chop_line (m : Mem) (h0 : 0 ∉ s) (hlen : s.length ≤ maxLine - 2) :
    ∃ m' post, fgets m maxLine (s ++ newline :: rest) = some (m', rest) ∧
      chop m' = some (s ++ 0 :: post) := by
  obtain ⟨m', post, hf, hc⟩ := chop_fgets m (List.append_ne_nil_of_right_ne_nil s
    (List.cons_ne_nil _ _)) (nul_notMem_line hs rest h0)
  rw [readRest_line hs rest hlen] at hf
  rw [readText_line hs, List.take_of_length_le hlen] at hc
  exact ⟨m', post, hf, hc⟩

/-- Without a newline after it, a text loses its last byte, or more. -/
theorem length_readText_lt (hne : s ≠ []) : (readText s).length < s.length := by
  have hpos := List.length_pos_iff.2 hne
  rw [readText, takeLine_of_notMem hs, List.length_dropLast, List.length_take]
  omega

end Line

end Shell
end PosixHw
