import PosixHw.Base.Lines
import PosixHw.Shell.Stages

/-!
# The shell with pipes: which texts it can handle

For any text without NUL, `parse` is defined or not, and finds the command `exit` or not, as
`Readable` and `Exits` say.  A turn of the loop (`turn`) is therefore right for the lines that fit
into the array and are `Readable` (`reader`).

* With two stages the loops are guarded and nothing can go wrong (`parse_tokens`).
* With at most one, the text is split at spaces up to the bar after it (`stem`).  Without a word
  there `strcmp` is called with NULL, and with ten or more the loop stores outside of `args1`.
-/

namespace PosixHw
namespace Shell

open CString

/-- The leading bars and the first stage. -/
def stem (s : List UInt8) : List UInt8 :=
  s.takeWhile (· = bar) ++ (s.dropWhile (· = bar)).takeWhile (· ≠ bar)

/-- There are two stages, or one to nine words. -/
def Readable (s : List UInt8) : Prop :=
  2 ≤ (words bar s).length ∨
    1 ≤ (words space (stem s)).length ∧ (words space (stem s)).length < maxArgs

/-- There are no two stages, and the first word is `exit`. -/
def Exits (s : List UInt8) : Prop :=
  (words bar s).length < 2 ∧ (words space (stem s)).head? = some commandExit

instance : DecidablePred Readable := fun _ => inferInstanceAs (Decidable (_ ∨ _))

instance : DecidablePred Exits := fun _ => inferInstanceAs (Decidable (_ ∧ _))

/-! ### One stage -/

theorem stem_bars (n : ℕ) : stem (List.replicate n bar) = List.replicate n bar := by
  have hall : ∀ b ∈ List.replicate n bar, decide (b = bar) = true := fun b hb =>
    decide_eq_true (List.eq_of_mem_replicate hb)
  have hdrop : (List.replicate n bar).dropWhile (· = bar) = [] :=
    List.dropWhile_eq_nil_iff.2 hall
  rw [stem, hdrop, List.takeWhile_nil, List.append_nil]
  exact List.takeWhile_eq_self_iff.2 hall

theorem stem_stage (n : ℕ) {w r : List UInt8} (hne : w ≠ []) (hw : bar ∉ w)
    (hr : ∀ b, r.head? = some b → b = bar) :
    stem (List.replicate n bar ++ w ++ r) = List.replicate n bar ++ w := by
  obtain ⟨b, v, rfl⟩ := List.exists_cons_of_ne_nil hne
  have hb : decide (b = bar) = false := decide_eq_false fun h => hw (h ▸ List.mem_cons_self)
  have hall : ∀ b ∈ List.replicate n bar, decide (b = bar) = true := fun b hb =>
    decide_eq_true (List.eq_of_mem_replicate hb)
  have hstage : (b :: v ++ r).takeWhile (· ≠ bar) = b :: v := by
    have hpos : ∀ a ∈ b :: v, decide (a ≠ bar) = true := fun a ha =>
      decide_eq_true fun h => hw (h ▸ ha)
    cases r with
    | nil =>
      rw [List.append_nil]
      exact List.takeWhile_eq_self_iff.2 hpos
    | cons c r => exact takeWhile_append_stop hpos (by simp [hr c rfl])
  rw [stem, List.append_assoc, List.takeWhile_append_of_pos hall, List.dropWhile_append_of_pos hall,
    List.cons_append, List.takeWhile_cons_of_neg (by simp [hb]),
    List.dropWhile_cons_of_neg (by simp [hb]), List.append_nil]
  exact congrArg _ hstage

theorem nul_notMem_stem {s : List UInt8} (h0 : 0 ∉ s) : 0 ∉ stem s := by
  rw [stem, List.mem_append, not_or]
  constructor
  · exact fun h => h0 ((List.takeWhile_subset _) h)
  · exact fun h => h0 ((List.dropWhile_subset _) ((List.takeWhile_subset _) h))

section Text

variable {s : Mem} (post : Mem) (a1 a2 : Args) (saved : Option ℕ)

theorem parse_stages (h0 : 0 ∉ s) (hs : 2 ≤ (words bar s).length) :
    ∃ l r a1' a2' t, parse a1 a2 (s ++ 0 :: post) saved = some (.piped l r, a1', a2', t) := by
  obtain ⟨w₁, w₂, ws, htokens⟩ := Lists.exists_cons_cons hs
  obtain ⟨a1', a2', t, hp, -⟩ := parse_tokens post a1 a2 saved h0 htokens
  exact ⟨_, _, a1', a2', t, hp⟩

/-- The calls for the bar leave the first stage in memory, with a NUL after it. -/
theorem bars_single (h0 : 0 ∉ s) (hs : (words bar s).length < 2) :
    ∃ cmd1 t post' saved', strtok ⟨s ++ 0 :: post, saved⟩ (some 0) [bar] = some (cmd1, t) ∧
      strtok t none [bar] = some (none, ⟨stem s ++ 0 :: post', saved'⟩) := by
  have hword : ∀ w ∈ words bar s, IsWord bar w := fun w hw => isWord_of_mem_words h0 hw
  have hwritten := written_words bar s
  generalize words bar s = ws at hs hword hwritten
  have hnul : ∀ (pre r : Mem) (k : ℕ),
      scan (pre ++ List.replicate k bar ++ 0 :: r) pre.length [bar] = _ :=
    fun pre r k => scan_nul pre r mem_gap (by decide)
  cases hwritten with
  | blank n =>
    rw [stem_bars]
    have hfirst := hnul [] post n
    have hsecond := hnul (List.replicate n bar) post 0
    rw [List.replicate_zero, List.append_nil] at hsecond
    exact ⟨_, _, _, _, hfirst, hsecond⟩
  | last n w =>
    obtain ⟨hne, hbar, h0w⟩ := hword w List.mem_cons_self
    have hstem := stem_stage n hne hbar (r := []) (by simp)
    rw [List.append_nil] at hstem
    rw [hstem]
    have hfirst := scan_tok [] post (b := 0) (mem_gap : ∀ a ∈ List.replicate n bar, a ∈ [bar])
      hne (hword w List.mem_cons_self).bytes (.inl rfl)
    have hsecond := hnul (List.replicate n bar ++ w) post 0
    rw [List.replicate_zero, List.append_nil] at hsecond
    exact ⟨_, _, _, _, hfirst, hsecond⟩
  | @cons n w vs s' h =>
    obtain ⟨hne, hbar, h0w⟩ := hword w List.mem_cons_self
    obtain rfl : vs = [] := List.eq_nil_of_length_eq_zero (by rw [List.length_cons] at hs; omega)
    cases h with
    | blank k =>
      rw [stem_stage n hne hbar (by simp)]
      have hfirst := scan_tok [] (List.replicate k bar ++ 0 :: post) (b := bar)
        (mem_gap : ∀ a ∈ List.replicate n bar, a ∈ [bar]) hne
        (hword w List.mem_cons_self).bytes (.inr List.mem_cons_self)
      rw [if_neg (by decide : ¬ bar = 0)] at hfirst
      have hsecond := hnul (List.replicate n bar ++ w ++ [0]) post k
      have hmem : List.replicate n bar ++ w ++ [0] ++ List.replicate k bar ++ 0 :: post
          = List.replicate n bar ++ w ++ 0 :: (List.replicate k bar ++ 0 :: post) := by simp
      rw [hmem, List.length_append, List.length_singleton] at hsecond
      rw [List.append_assoc (List.replicate n bar ++ w)]
      exact ⟨_, ⟨_, some _⟩, _, _, hfirst, hsecond⟩

theorem parse_of_single {cmd1 : Option ℕ} {t t' : Strtok} {m : Mem}
    (h₁ : strtok ⟨m, saved⟩ (some 0) [bar] = some (cmd1, t))
    (h₂ : strtok t none [bar] = some (none, t')) :
    parse a1 a2 m saved = (splitLine a1 t').bind fun (cmd, a1, t) =>
      cmd.bind fun cmd =>
        if str t.mem cmd = commandExit then some (.exit, a1, a2, t)
        else (exec t.mem (some cmd) a1).map fun e => (.single e, a1, a2, t) := by
  simp only [parse, h₁, Option.bind_some, h₂, if_true]

/-- One to nine words. -/
theorem parse_stem {w : List UInt8} {ws : List (List UInt8)} (h0 : 0 ∉ s)
    (hs : (words bar s).length < 2) (hws : words space (stem s) = w :: ws)
    (hlen : (w :: ws).length < maxArgs) :
    ∃ a1' t, parse a1 a2 (s ++ 0 :: post) saved
        = some (if w = commandExit then .exit else .single ⟨some w, w :: ws⟩, a1', a2, t) ∧
      none ∈ a1'.slots := by
  obtain ⟨cmd1, t, post', saved', h₁, h₂⟩ := bars_single post saved h0 hs
  have hwritten := written_words space (stem s)
  rw [hws] at hwritten
  have hword : ∀ v ∈ w :: ws, IsWord space v := fun v hv =>
    isWord_of_mem_words (nul_notMem_stem h0) (hws ▸ hv)
  obtain ⟨s', p, ps, rest, saved'', a1', hsplit, ha, hps⟩ :=
    splitLine_written post' hwritten hword hlen a1 saved'
  have hstr : str (s' ++ 0 :: post') p = w := by
    cases hps with
    | cons hp _ => exact hp.2
  refine ⟨a1', ⟨s' ++ 0 :: post', saved''⟩, ?_, by rw [ha]; simp⟩
  rw [parse_of_single a1 a2 saved h₁ h₂, hsplit]
  simp only [Option.bind_some, hstr, exec_points ha hps, Option.map_some]
  split_ifs <;> rfl

/-- No word, or ten and more. -/
theorem parse_unreadable (h0 : 0 ∉ s) (hs : ¬ Readable s) :
    parse a1 a2 (s ++ 0 :: post) saved = none := by
  rw [Readable, not_or, not_and_or] at hs
  obtain ⟨hbars, hwords⟩ := hs
  obtain ⟨cmd1, t, post', saved', h₁, h₂⟩ := bars_single post saved h0 (by omega)
  rw [parse_of_single a1 a2 saved h₁ h₂]
  obtain ⟨-, a', t', hsplit⟩ | ⟨hne, hlen, -⟩ | ⟨-, hsplit⟩ :=
    splitLine_cases post' (nul_notMem_stem h0) a1 saved'
  · rw [hsplit]
    rfl
  · have hpos := List.length_pos_iff.2 hne
    omega
  · rw [hsplit]
    rfl

/-- **What is made of a text that can be handled.** -/
theorem parse_readable (h0 : 0 ∉ s) (hs : Readable s) :
    ∃ c a1' a2' t, parse a1 a2 (s ++ 0 :: post) saved = some (c, a1', a2', t) ∧ c ≠ .eof ∧
      (c = .exit ↔ Exits s) := by
  rcases lt_or_ge (words bar s).length 2 with hbars | hbars
  · obtain ⟨hpos, hlen⟩ := hs.resolve_left (by omega)
    obtain ⟨w, ws, hws⟩ := List.exists_cons_of_length_pos hpos
    rw [hws] at hlen
    obtain ⟨a1', t, hp, -⟩ := parse_stem post a1 a2 saved h0 hbars hws hlen
    refine ⟨_, a1', a2, t, hp, ?_, ?_⟩
    · split_ifs <;> simp
    · rw [Exits, hws, List.head?_cons, Option.some_inj]
      split_ifs with hw <;> simp [hw, hbars]
  · obtain ⟨l, r, a1', a2', t, hp⟩ := parse_stages post a1 a2 saved h0 hbars
    refine ⟨_, a1', a2', t, hp, by simp, iff_of_false (by simp) fun h => ?_⟩
    exact absurd h.1 (by omega)

end Text

/-! ### Turns -/

/-- What stands in the array when it is split. -/
def text (m : Mem) (input : List UInt8) : List UInt8 :=
  ((fgets m maxLine input).bind fun (m, _) => (chop m).map fun m => str m 0).getD []

/-- A turn of the loop, from the prompt to the next one: what the shell itself does.  What it has
not handled is what it has in its buffer and what is behind the file offset. -/
def turn (l : Locals) (input : List UInt8) : Option (Lines.Turn Locals) :=
  (readCommand l input).map fun (c, l', rest) =>
    match c with
    | .eof => .stop
    | .exit => .last (text l.line input)
    | .single _ | .piped _ _ => .next (text l.line input) l' rest

theorem text_eq (m : Mem) {input : List UInt8} (hne : input ≠ [])
    (h0 : 0 ∉ (takeLine (maxLine - 1) input).1) : text m input = readText input := by
  obtain ⟨m', post, hf, hc⟩ := chop_fgets m hne h0
  have h0' : 0 ∉ readText input := fun h => h0 (List.dropLast_subset _ h)
  simp only [text, hf, Option.bind_some, hc, Option.map_some, Option.getD_some, str_zero h0']

theorem text_line (m : Mem) {s : List UInt8} (hs : newline ∉ s) (h0 : 0 ∉ s) (rest : List UInt8) :
    text m (s ++ newline :: rest) = s.take (maxLine - 2) := by
  rw [text_eq m (by simp) (nul_notMem_line hs rest h0), readText_line hs]

/-- A line that does not fit is cut. -/
theorem text_line_ne (m : Mem) {s : List UInt8} (hs : newline ∉ s) (h0 : 0 ∉ s)
    (rest : List UInt8) (hlen : maxLine - 2 < s.length) : text m (s ++ newline :: rest) ≠ s := by
  rw [text_line m hs h0]
  intro h
  have hle := List.length_take_le (maxLine - 2) s
  rw [h] at hle
  omega

/-- So is a text without a newline. -/
theorem text_final_ne (m : Mem) {s : List UInt8} (hs : newline ∉ s) (h0 : 0 ∉ s) (hne : s ≠ []) :
    text m s ≠ s := by
  rw [text_eq m hne fun h => h0 (takeLine_subset h)]
  intro h
  have hlt := length_readText_lt hs hne
  rw [h] at hlt
  exact lt_irrefl _ hlt

theorem turn_text {l : Locals} {input s : List UInt8} {r : Lines.Turn Locals}
    (h : turn l input = some r) (hr : r.text = some s) : text l.line input = s := by
  obtain ⟨⟨c, l', rest⟩, -, rfl⟩ := Option.map_eq_some_iff.1 h
  cases c with
  | eof => cases hr
  | exit => exact Option.some.inj hr
  | single e => exact Option.some.inj hr
  | piped e e' => exact Option.some.inj hr

section Line

variable {s : List UInt8} (hs : newline ∉ s) (h0 : 0 ∉ s) (rest : List UInt8)
  (hlen : s.length ≤ maxLine - 2)

include hs h0 hlen

theorem turn_readable (l : Locals) (hr : Readable s) :
    ∃ l', turn l (s ++ newline :: rest)
      = some (if Exits s then .last s else .next s l' rest) := by
  obtain ⟨m, post, hf, hc⟩ := chop_line hs rest l.line h0 hlen
  obtain ⟨c, a1, a2, t, hp, heof, hexit⟩ := parse_readable post l.args1 l.args2 l.saved h0 hr
  obtain ⟨l', hl', -, -⟩ := readCommand_eq hf hc hp
  have htext : text l.line (s ++ newline :: rest) = s :=
    (text_line l.line hs h0 rest).trans (List.take_of_length_le hlen)
  refine ⟨l', ?_⟩
  rw [turn, hl', Option.map_some, htext]
  cases c with
  | eof => exact absurd rfl heof
  | exit => rw [if_pos (hexit.1 rfl)]
  | single e => rw [if_neg fun h => by cases hexit.2 h]
  | piped e e' => rw [if_neg fun h => by cases hexit.2 h]

theorem turn_unreadable (l : Locals) (hr : ¬ Readable s) :
    turn l (s ++ newline :: rest) = none := by
  obtain ⟨m, post, hf, hc⟩ := chop_line hs rest l.line h0 hlen
  rw [turn, readCommand_eq_none hf hc (parse_unreadable post l.args1 l.args2 l.saved h0 hr),
    Option.map_none]

end Line

/-- A line that is handled in full: it fits into the array with its newline, and is `Readable`. -/
def Fits (s : List UInt8) : Prop := s.length ≤ maxLine - 2 ∧ Readable s

instance : DecidablePred Fits := fun _ => inferInstanceAs (Decidable (_ ∧ _))

theorem reader : Lines.Reader turn Fits Exits True where
  exit l s rest hs h0 hok hex := by
    obtain ⟨l', hl'⟩ := turn_readable hs h0 rest hok.1 l hok.2
    rw [hl', if_pos hex]
  next l s rest hs h0 hok hex := by
    obtain ⟨l', hl'⟩ := turn_readable hs h0 rest hok.1 l hok.2
    exact ⟨l', by rw [hl', if_neg hex]⟩
  bad l s rest r hs h0 hok hr htext := by
    rcases le_or_gt s.length (maxLine - 2) with hlen | hlen
    · rw [turn_unreadable hs h0 rest hlen l fun h => hok ⟨hlen, h⟩] at hr
      cases hr
    · exact text_line_ne l.line hs h0 rest hlen (turn_text hr htext)
  final l s r hs h0 hne hr htext := text_final_ne l.line hs h0 hne (turn_text hr htext)
  stop l := iff_of_true rfl trivial

end Shell
end PosixHw
