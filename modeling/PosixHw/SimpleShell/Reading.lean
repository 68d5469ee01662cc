import PosixHw.Shell.Defined
import PosixHw.SimpleShell.Parse

/-!
# The lines that the shells handle

A turn of a shell takes a line from the input and overwrites its last byte, whatever this is, so
both handle a line in full only if it fits into the array with its newline.  A text after the last
newline loses its last byte.  At the end of the input the shell with pipes stops, and the shell
without pipes does not: it splits what is left in the array once more.

A child has the standard input too, with a copy of what its shell has in the buffer.  If its
`execvp` fails, then in the shell with pipes the child calls `exit`, and that sets the offset of a
file back to where the copy is; in the shell without pipes the child goes on with the loop, and
reads.  A command that is executed may read too.  In all these cases the shell may meet lines twice,
or not at all, unless it has them in its buffer.

`reads_iff` says for which inputs each of them handles all lines and stops, where the children do
not do this.
-/

namespace PosixHw
namespace SimpleShell

open CString Shell

/-- There are one to ten words. -/
def Readable (s : List UInt8) : Prop :=
  1 ≤ (words space s).length ∧ (words space s).length ≤ maxArgs

/-- The first word is `exit`. -/
def Exits (s : List UInt8) : Prop := (words space s).head? = some commandExit

instance : DecidablePred Readable := fun _ => inferInstanceAs (Decidable (_ ∧ _))

instance : DecidablePred Exits := fun _ => inferInstanceAs (Decidable (_ = _))

/-! ### What is made of a text -/

section Text

variable {s : Mem} (post : Mem) (a : Args) (saved : Option ℕ)

theorem parse_readable (h0 : 0 ∉ s) (hs : Readable s) :
    ∃ c a' t, parse a (s ++ 0 :: post) saved = some (c, a', t) ∧ (c = .exit ↔ Exits s) := by
  obtain ⟨hpos, hlen⟩ := hs
  obtain ⟨w, ws, hws⟩ := List.exists_cons_of_length_pos hpos
  have hwritten := written_words space s
  rw [hws] at hwritten
  rw [hws, List.length_cons] at hlen
  obtain ⟨a', t, hp⟩ := parse_written post hwritten
    (fun v hv => isWord_of_mem_words h0 (hws ▸ hv)) (show ws.length < maxArgs by omega) a saved
  refine ⟨_, a', t, hp, ?_⟩
  rw [Exits, hws, List.head?_cons, Option.some_inj]
  split_ifs with hw <;> simp [hw]

theorem parse_unreadable (h0 : 0 ∉ s) (hs : ¬ Readable s) :
    parse a (s ++ 0 :: post) saved = none := by
  have hwritten := written_words space s
  cases hws : words space s with
  | nil =>
    rw [hws] at hwritten
    exact parse_blank post hwritten a saved
  | cons w ws =>
    rw [hws] at hwritten
    refine parse_full post hwritten (fun v hv => isWord_of_mem_words h0 (hws ▸ hv)) ?_ a saved
    by_contra hlt
    exact hs ⟨by simp [hws], by rw [hws, List.length_cons]; omega⟩

end Text

/-! ### Turns -/

/-- What stands in the array when it is split. -/
def text (m : Mem) (input : List UInt8) : List UInt8 :=
  ((chop (fgetsLine m input).1).map fun m => str m 0).getD []

/-- A turn of the loop, from the prompt to the next one: what the shell itself does.  What it has
not handled is what it has in its buffer and what is behind the file offset. -/
def turn (l : Locals) (input : List UInt8) : Option (Lines.Turn Locals) :=
  (readCommand l input).map fun (c, l', rest) =>
    match c with
    | .exit => .last (text l.line input)
    | .run _ => .next (text l.line input) l' rest

/-- Where there is something to read, the two shells have the same in the array. -/
theorem text_eq (m : Mem) {input m' : List UInt8} {rest : List UInt8}
    (hf : fgets m maxLine input = some (m', rest)) : text m input = Shell.text m input := by
  rw [text, fgetsLine, Shell.text, hf]
  rfl

theorem turn_text {l : Locals} {input s m rest : List UInt8} {r : Lines.Turn Locals}
    (hf : fgets l.line maxLine input = some (m, rest)) (h : turn l input = some r)
    (hr : r.text = some s) : Shell.text l.line input = s := by
  obtain ⟨⟨c, l', rest⟩, -, rfl⟩ := Option.map_eq_some_iff.1 h
  rw [← text_eq l.line hf]
  cases c with
  | exit => exact Option.some.inj hr
  | run e => exact Option.some.inj hr

section Line

variable {s : List UInt8} (hs : newline ∉ s) (h0 : 0 ∉ s) (rest : List UInt8)
  (hlen : s.length ≤ maxLine - 2)

include hs h0 hlen

theorem turn_readable (l : Locals) (hr : Readable s) :
    ∃ l', turn l (s ++ newline :: rest)
      = some (if Exits s then .last s else .next s l' rest) := by
  obtain ⟨m, post, hf, hc⟩ := chop_line hs rest l.line h0 hlen
  obtain ⟨c, a', t, hp, hexit⟩ := parse_readable post l.args l.saved h0 hr
  have hline : fgetsLine l.line (s ++ newline :: rest) = (m, rest) := by
    rw [fgetsLine, hf, Option.getD_some]
  have hchop : chop (fgetsLine l.line (s ++ newline :: rest)).1 = some (s ++ 0 :: post) := by
    rw [hline, hc]
  obtain ⟨l', hl', -⟩ := readCommand_eq hchop hp
  have htext : text l.line (s ++ newline :: rest) = s := by
    rw [text_eq l.line hf, text_line l.line hs h0 rest, List.take_of_length_le hlen]
  refine ⟨l', ?_⟩
  rw [turn, hl', Option.map_some, htext, hline]
  cases c with
  | exit => rw [if_pos (hexit.1 rfl)]
  | run e => rw [if_neg fun h => by cases hexit.2 h]

theorem turn_unreadable (l : Locals) (hr : ¬ Readable s) :
    turn l (s ++ newline :: rest) = none := by
  obtain ⟨m, post, hf, hc⟩ := chop_line hs rest l.line h0 hlen
  have hchop : chop (fgetsLine l.line (s ++ newline :: rest)).1 = some (s ++ 0 :: post) := by
    rw [fgetsLine, hf, Option.getD_some, hc]
  rw [turn, readCommand_eq_none hchop (parse_unreadable post l.args l.saved h0 hr),
    Option.map_none]

end Line

theorem fgets_ne_nil (m : Mem) {input : List UInt8} (hne : input ≠ []) :
    ∃ m' rest, fgets m maxLine input = some (m', rest) :=
  ⟨_, _, if_neg hne⟩

/-- A line that is handled in full: it fits into the array with its newline, and is `Readable`. -/
def Fits (s : List UInt8) : Prop := s.length ≤ maxLine - 2 ∧ Readable s

instance : DecidablePred Fits := fun _ => inferInstanceAs (Decidable (_ ∧ _))

/-- The end of the input does not stop this shell. -/
theorem reader : Lines.Reader turn Fits Exits False where
  exit l s rest hs h0 hok hex := by
    obtain ⟨l', hl'⟩ := turn_readable hs h0 rest hok.1 l hok.2
    rw [hl', if_pos hex]
  next l s rest hs h0 hok hex := by
    obtain ⟨l', hl'⟩ := turn_readable hs h0 rest hok.1 l hok.2
    exact ⟨l', by rw [hl', if_neg hex]⟩
  bad l s rest r hs h0 hok hr htext := by
    rcases le_or_gt s.length (maxLine - 2) with hlen | hlen
    · rw [turn_unreadable hs h0 rest hlen l fun h => hok ⟨hlen, h⟩] at hr
      cases hr
    · obtain ⟨m, r', hf⟩ := fgets_ne_nil l.line (show s ++ newline :: rest ≠ [] by simp)
      exact text_line_ne l.line hs h0 rest hlen (turn_text hf hr htext)
  final l s r hs h0 hne hr htext := by
    obtain ⟨m, r', hf⟩ := fgets_ne_nil l.line hne
    exact text_final_ne l.line hs h0 hne (turn_text hf hr htext)
  stop l := by
    refine iff_of_false (fun h => ?_) id
    obtain ⟨⟨c, l', rest⟩, -, h⟩ := Option.map_eq_some_iff.1 h
    cases c <;> cases h

/-! ### The children -/

/-- What the shell without pipes meets in each turn: how many bytes it has in its buffer, whether
the `execvp` of its child fails, and what is behind the file offset when the child has ended, which
is a command or, if `execvp` fails, goes on with the loop. -/
structure Simple where
  buffered : ℕ → ℕ
  fails : ℕ → Bool
  left : ℕ → Lines.Input → List UInt8

/-- For the shell with pipes, where `fails` and `left` are about the child that has the standard
input: also whether that can be positioned, and whether `pipe` fails, which ends the shell. -/
structure Piped extends Simple where
  seekable : Bool
  pipeFails : ℕ → Bool

def Simple.sharing (w : Simple) : Lines.Sharing where
  buffered := w.buffered
  left := w.left
  ends _ := false

/-- A child that calls `exit` sets the offset back by what its copy of the buffer holds. -/
def Piped.sharing (w : Piped) : Lines.Sharing where
  buffered := w.buffered
  left k f := if w.fails k then (if w.seekable then f.bytes else f.rest) else w.left k f
  ends := w.pipeFails

/-- When the offset stays where it is: a child that calls `exit` must have nothing to set back, and
a command must not read. -/
theorem Piped.leaves_iff {w : Piped} {k : ℕ} :
    w.sharing.Leaves k ↔ (w.fails k = true → w.seekable = false ∨ w.buffered k = 0) ∧
      (w.fails k = false → w.toSimple.sharing.Leaves k) := by
  cases hfails : w.fails k with
  | false =>
    have hleft : w.sharing.left k = w.left k := by
      funext f
      exact if_neg fun ht => Bool.false_ne_true (hfails.symm.trans ht)
    rw [Lines.Sharing.Leaves, hleft]
    exact ⟨fun h => ⟨fun ht => absurd ht Bool.false_ne_true, fun _ => h⟩, fun h => h.2 rfl⟩
  | true =>
    have hleft : ∀ f, w.sharing.left k f = if w.seekable then f.bytes else f.rest := fun _ =>
      if_pos hfails
    constructor
    · refine fun h => ⟨fun _ => ?_, fun ht => absurd ht.symm Bool.false_ne_true⟩
      -- One byte in the buffer is read again.
      by_contra hnot
      obtain ⟨hseek, hpos⟩ := not_or.1 hnot
      have hbyte := h ⟨[newline], []⟩ (Nat.one_le_iff_ne_zero.2 hpos)
      rw [hleft, if_pos (Bool.not_eq_false _ ▸ hseek)] at hbyte
      cases hbyte
    · rintro ⟨h, -⟩ f hf
      rw [hleft]
      rcases h rfl with h | h
      · exact if_neg fun hs => Bool.false_ne_true (h.symm.trans hs)
      · have hnil : f.buffer = [] := List.length_eq_zero_iff.1 (Nat.le_zero.1 (h ▸ hf))
        rw [Lines.Input.bytes, hnil, List.nil_append, ite_self]

/-- The lines that each shell is to handle. -/
def pipedLines (input : List UInt8) : List (List UInt8) :=
  Lines.upTo (fun s => Shell.Exits s) (Lines.terminated input)

def simpleLines (input : List UInt8) : List (List UInt8) :=
  Lines.upTo (fun s => Exits s) (Lines.terminated input)

/-- No child of the shell without pipes takes part in the loop, and none that executes a command
disturbs the shell. -/
structure Simple.Alone (w : Simple) (input : List UInt8) : Prop where
  executes : ∀ k, w.fails k = false
  undisturbed : w.sharing.Undisturbed Exits 0 (simpleLines input)

/-! ### All lines, once and in full -/

/-- **When the shells handle every line**: if no child makes it read bytes twice or miss some, the
shell with pipes handles the lines of the input up to the first `exit`, once, in order and in full,
and then stops, exactly if every one of these with a newline fits into the array and has words for
the vector, and there is an `exit` among them or the input ends with a newline; and so does the
shell without pipes that is alone, for which there has to be an `exit`. -/
theorem reads_iff {v : Piped} {w : Simple} (l : Shell.Locals) (k : Locals) {input : List UInt8}
    (h0 : 0 ∉ input) (hv : v.sharing.Undisturbed Shell.Exits 0 (pipedLines input))
    (hw : w.Alone input) :
    (Lines.Handles Shell.turn v.sharing l input
        (Lines.upTo (fun s => Shell.Exits s) (Lines.lines input)) ↔
      (∀ s ∈ pipedLines input, Shell.Fits s) ∧
        (Lines.final input = [] ∨ ∃ s ∈ Lines.terminated input, Shell.Exits s)) ∧
    (Lines.Handles turn w.sharing k input
        (Lines.upTo (fun s => Exits s) (Lines.lines input)) ↔
      (∀ s ∈ simpleLines input, Fits s) ∧ ∃ s ∈ Lines.terminated input, Exits s) := by
  constructor
  · rw [Shell.reader.handles_iff l h0 hv, true_and]
    rfl
  · rw [reader.handles_iff k h0 hw.undisturbed, false_and, false_or]
    rfl

/-- A file that is in the buffer after the first turn, with five bytes to come; the `execvp` of that
turn fails. -/
def file : Piped where
  buffered _ := 5
  fails k := k = 0
  left _ f := f.rest
  seekable := true
  pipeFails _ := false

/-- A child that executes its command, which does not read. -/
def plain : Simple := ⟨fun _ => 5, fun _ => false, fun _ f => f.rest⟩

/-- The session `ls`, `exit` is handled by both; in the shell with pipes, although its child sets
the offset back. -/
theorem reads_ls :
    Lines.Handles Shell.turn file.sharing default "ls\nexit\n".toUTF8.data.toList
      ["ls".toUTF8.data.toList, "exit".toUTF8.data.toList] ∧
    Lines.Handles turn plain.sharing default "ls\nexit\n".toUTF8.data.toList
      ["ls".toUTF8.data.toList, "exit".toUTF8.data.toList] := by
  have hfile : file.sharing.Undisturbed Shell.Exits 0
      (pipedLines "ls\nexit\n".toUTF8.data.toList) := by
    refine ⟨fun _ => rfl, fun j => ?_⟩
    cases j with
    | zero => exact .inr ⟨by decide +kernel, by decide +kernel⟩
    | succ j =>
      have hfails : file.fails (0 + (j + 1)) = false := by
        rw [Nat.zero_add]
        rfl
      exact .inl (Piped.leaves_iff.2 ⟨fun ht => absurd (hfails.symm.trans ht) Bool.false_ne_true,
        fun _ _ _ => rfl⟩)
  have hplain : plain.Alone "ls\nexit\n".toUTF8.data.toList :=
    ⟨fun _ => rfl, fun _ => rfl, fun _ => .inl fun _ _ => rfl⟩
  obtain ⟨h₁, h₂⟩ := reads_iff default default
    (show 0 ∉ "ls\nexit\n".toUTF8.data.toList by decide) hfile hplain
  exact ⟨h₁.2 (by decide +kernel), h₂.2 (by decide +kernel)⟩

/-- If there is no `exit` in the buffer, `ls` is read from the file again. -/
example : Lines.turns Shell.turn file.sharing 4 0 default ⟨[], "x\nls\n".toUTF8.data.toList⟩
    = some ["x".toUTF8.data.toList, "ls".toUTF8.data.toList, "ls".toUTF8.data.toList] := by
  decide +kernel

/-- The text `ls` without a newline: what both shells handle is `l`. -/
theorem final_cut :
    (¬ Lines.Handles Shell.turn file.sharing default "ls".toUTF8.data.toList
        (Lines.upTo (fun s => Shell.Exits s) (Lines.lines "ls".toUTF8.data.toList)) ∧
      (Shell.turn default "ls".toUTF8.data.toList).bind Lines.Turn.text
        = some "l".toUTF8.data.toList) ∧
    (¬ Lines.Handles turn plain.sharing default "ls".toUTF8.data.toList
        (Lines.upTo (fun s => Exits s) (Lines.lines "ls".toUTF8.data.toList)) ∧
      (turn default "ls".toUTF8.data.toList).bind Lines.Turn.text
        = some "l".toUTF8.data.toList) := by
  have hlines : Lines.upTo (fun s => Shell.Exits s) (Lines.lines "ls".toUTF8.data.toList)
      = ["ls".toUTF8.data.toList] := by decide +kernel
  have hlines' : Lines.upTo (fun s => Exits s) (Lines.lines "ls".toUTF8.data.toList)
      = ["ls".toUTF8.data.toList] := by decide +kernel
  rw [hlines, hlines']
  refine ⟨⟨fun h => ?_, by decide +kernel⟩, fun h => ?_, by decide +kernel⟩
  · obtain ⟨r, hr, htext⟩ := h.head
    exact Shell.reader.final default _ r (by decide) (by decide) (by decide) hr htext
  · obtain ⟨r, hr, htext⟩ := h.head
    exact reader.final default _ r (by decide) (by decide) (by decide) hr htext

end SimpleShell
end PosixHw
