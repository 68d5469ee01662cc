import PosixHw.Shell.Traced
import PosixHw.Shell.Whole

/-!
# The shell with pipes: lines without a word

A blank stage leaves NULL in the first slot of its array, which goes to `execvp`; without a second
stage the first word goes to `strcmp`, also if there is none.

`robust_iff_hasWords` says which lines lead to neither.  A line of spaces and bars is among them
only if the bars stand at its beginning: they are then taken for a command.
-/

namespace PosixHw
namespace Shell

open CString

/-- The shell handles the line and prompts again. -/
def Prompts (l : Locals) (input : List UInt8) : Prop :=
  ∃ s l' rest, turn l input = some (.next s l' rest)

/-- Nothing is stored outside of the line, no command is NULL, and after a blank line the shell
prompts again. -/
def Robust (l : Locals) (input : List UInt8) : Prop :=
  (Traced.readCommand l input).All Access.NullSafe ∧
    (Blank (firstLine input) → Prompts l input)

/-- With two stages or more, the first two have a word each; else there is a word. -/
def HasWords (s : List UInt8) : Prop :=
  if 2 ≤ (words bar s).length then ∀ w ∈ (words bar s).take 2, words space w ≠ []
  else words space (stem s) ≠ []

instance : DecidablePred HasWords := fun s =>
  inferInstanceAs (Decidable (if 2 ≤ (words bar s).length then _ else _))

namespace Traced

section Split

variable {guarded : Bool} {room i : ℕ} {a : Args} {t : Strtok} {cmd : Option ℕ}

/-- The loops store into the arrays of pointers only. -/
theorem nullSafe_tokenLoop : (tokenLoop guarded room a i t).All Access.NullSafe := by
  induction room generalizing a i t with
  | zero =>
    rw [tokenLoop]
    split_ifs
    · exact Trace.all_pure
    · rw [Trace.all_lift_bind]
      rintro ⟨p, t₁⟩ -
      rw [Trace.all_bind, all_set]
      exact ⟨trivial, fun _ _ => Trace.all_lift⟩
  | succ room ih =>
    rw [tokenLoop]
    split_ifs
    · exact Trace.all_pure
    · rw [Trace.all_lift_bind]
      rintro ⟨p, t₁⟩ -
      rw [Trace.all_bind, all_set]
      exact ⟨trivial, fun _ _ => ih⟩

theorem nullSafe_splitStage : (splitStage a cmd t).All Access.NullSafe := by
  rw [splitStage, Trace.all_lift_bind]
  rintro ⟨p, t₁⟩ -
  rw [Trace.all_bind, all_set]
  refine ⟨trivial, fun a₁ _ => ?_⟩
  rw [Trace.all_bind]
  refine ⟨nullSafe_tokenLoop, ?_⟩
  rintro ⟨a₂, i, t₂⟩ -
  rw [Trace.all_bind, all_set]
  exact ⟨trivial, fun _ _ => Trace.all_pure⟩

theorem nullSafe_splitLine : (splitLine a t).All Access.NullSafe := by
  rw [splitLine, Trace.all_lift_bind]
  rintro ⟨cmd, t₁⟩ -
  rw [Trace.all_bind, all_set]
  refine ⟨trivial, fun a₁ _ => ?_⟩
  rw [Trace.all_bind]
  exact ⟨nullSafe_tokenLoop, fun _ _ => Trace.all_pure⟩

end Split

section Line

variable {s w₁ w₂ : List UInt8} {ws : List (List UInt8)} {a1 a2 : Args} {m : Mem}
  {saved cmd1 : Option ℕ} {t t' : Strtok}

/-- The file that `execvp` gets is NULL or not whatever it points to. -/
theorem file_ne_none {file : Option ℕ} {a : Args} {e : Exec} (h : Shell.exec m file a = some e) :
    e.file ≠ none ↔ file ≠ none := by
  obtain ⟨l, -, rfl⟩ := Option.map_eq_some_iff.1 h
  exact not_congr Option.map_eq_none_iff

/-- **Two stages**: the files of both. -/
theorem nullSafe_piped {left right : Exec} {p : ℕ} {r : Args × Args × Strtok}
    (h₁ : strtok ⟨m, saved⟩ (some 0) [bar] = some (cmd1, t))
    (h₂ : strtok t none [bar] = some (some p, t'))
    (hp : Shell.parse a1 a2 m saved = some (.piped left right, r)) :
    (parse a1 a2 m saved).All Access.NullSafe ↔ left.file ≠ none ∧ right.file ≠ none := by
  obtain ⟨b₁, t₁, b₂, t₂, left, right, -, -, hleft, hright, ⟨⟩, hall⟩ := all_parse_piped h₁ h₂ hp
  rw [hall, and_iff_right nullSafe_splitStage, and_iff_right nullSafe_splitStage,
    file_ne_none hleft, file_ne_none hright]
  rfl

/-- **One stage**: the first word, if the loop over the others ends. -/
theorem nullSafe_single (h₁ : strtok ⟨m, saved⟩ (some 0) [bar] = some (cmd1, t))
    (h₂ : strtok t none [bar] = some (none, t')) :
    (parse a1 a2 m saved).All Access.NullSafe ↔
      ∀ cmd a t₁, Shell.splitLine a1 t' = some (cmd, a, t₁) → cmd ≠ none := by
  rw [all_parse_single h₁ h₂, and_iff_right nullSafe_splitLine]
  refine forall₃_congr fun cmd a t₁ => imp_congr_right fun _ => ?_
  exact and_iff_left fun p _ _ => Option.some_ne_none p

/-- **Which texts lead to a NULL.** -/
theorem nullSafe_parse (post : Mem) (a1 a2 : Args) (saved : Option ℕ) (h0 : 0 ∉ s) :
    (parse a1 a2 (s ++ 0 :: post) saved).All Access.NullSafe ↔ HasWords s := by
  rcases lt_or_ge (words bar s).length 2 with hs | hs
  · obtain ⟨cmd1, t, post', saved', h₁, h₂⟩ := bars_single post saved h0 hs
    rw [nullSafe_single h₁ h₂, HasWords, if_neg (by omega)]
    obtain ⟨hnil, a', t', h⟩ | ⟨hne, -, p, a', t', h⟩ | ⟨hle, h⟩ :=
      splitLine_cases post' (nul_notMem_stem h0) a1 saved'
    · exact iff_of_false (fun hall => hall none a' t' h rfl) fun hne => hne hnil
    · rw [h]
      refine iff_of_true ?_ hne
      rintro cmd a t₁ ⟨⟩
      exact Option.some_ne_none p
    · rw [h]
      refine iff_of_true (fun cmd a t₁ hr => by cases hr) fun hnil => ?_
      rw [hnil] at hle
      exact absurd hle (by decide)
  · obtain ⟨w₁, w₂, ws, htokens⟩ := Lists.exists_cons_cons hs
    obtain ⟨pre, k, post', saved', t, h₁, h₂⟩ := bars_tokens post saved h0 htokens
    obtain ⟨a1', a2', t', hparse, -⟩ := parse_tokens post a1 a2 saved h0 htokens
    rw [nullSafe_piped h₁ h₂ hparse, HasWords, if_pos hs, htokens]
    simp [stage]

end Line
end Traced

/-! ### Blank lines -/

section Prompts

variable {s x input : List UInt8} {c : Command}

theorem prompts_of_command {l : Locals} (h : (readCommand l input).map Prod.fst = some c)
    (hexit : c ≠ .exit) (heof : c ≠ .eof) : Prompts l input := by
  obtain ⟨⟨c', l', rest⟩, hr, rfl⟩ := Option.map_eq_some_iff.1 h
  unfold Prompts turn
  rw [hr, Option.map_some]
  cases c' with
  | exit => exact absurd rfl hexit
  | eof => exact absurd rfl heof
  | single e => exact ⟨_, _, _, rfl⟩
  | piped left right => exact ⟨_, _, _, rfl⟩

/-- Of a blank line with a command, the command is the bars at its beginning. -/
theorem words_stem_blank (hs : Blank s) (hwords : HasWords s) :
    (words bar s).length < 2 ∧ ∃ n, words space (stem s) = [List.replicate n bar] := by
  have hlen : (words bar s).length < 2 := by
    by_contra hge
    obtain ⟨w, ws, hw⟩ := List.exists_cons_of_length_pos (show 0 < (words bar s).length by omega)
    have hmem : w ∈ words bar s := hw ▸ List.mem_cons_self
    rw [HasWords, if_pos (by omega), hw] at hwords
    refine hwords w List.mem_cons_self (words_blank ?_ (sep_notMem_of_mem_words hmem).2)
    exact fun b hb => hs b ((written_words bar s).subset hmem hb)
  rw [HasWords, if_neg (by omega)] at hwords
  obtain ⟨n, x, k, rfl, hx, hstem, -⟩ := exists_of_single hlen
  have hxs : ∀ b ∈ x, b = space := fun b hb =>
    (hs b (by simp [hb])).resolve_right fun h => hx (h ▸ hb)
  have hblank : words space x = [] := words_blank (fun b hb => .inl (hxs b hb)) hx
  have hsplit := words_bars (n := n) (x := x) (.inr fun b hb => hxs b (List.mem_of_mem_head? hb))
  rw [hblank, List.append_nil] at hsplit
  refine ⟨hlen, n, ?_⟩
  rw [hstem, hsplit] at hwords ⊢
  refine words_of_notMem (fun hnil => hwords (by rw [hnil, words_nil])) fun h => ?_
  exact absurd (List.eq_of_mem_replicate h) (by decide)

/-- **After a blank line** that is no command NULL, the shell prompts again. -/
theorem prompts_of_blank (l : Locals) (hbytes : lineBytes input ≠ []) (hne : input ≠ [])
    (hblank : Blank (lineText input)) (hwords : HasWords (lineText input)) :
    Prompts l input := by
  obtain ⟨hnil, -⟩ | ⟨-, post, hcommand⟩ := readCommand_lineText l hne
  · exact absurd hnil hbytes
  obtain ⟨hlen, n, hstem⟩ := words_stem_blank hblank hwords
  have hexit : List.replicate n bar ≠ commandExit := fun h => by
    have hmem : (101 : UInt8) ∈ List.replicate n bar := h ▸ List.mem_cons_self
    exact absurd (List.eq_of_mem_replicate hmem) (by decide)
  obtain ⟨a1', t, hparse, -⟩ := parse_stem post l.args1 l.args2 l.saved (nul_notMem_lineText input)
    hlen hstem (by decide : 1 < maxArgs)
  rw [hparse, if_neg hexit, Option.map_some] at hcommand
  exact prompts_of_command hcommand (by simp) (by simp)

end Prompts

/-- A blank line has a blank beginning. -/
theorem blank_lineText {input : List UInt8} (h : Blank (firstLine input)) :
    Blank (lineText input) := fun b hb =>
  h b (lineText_append_dropped input ▸ List.mem_append_left _ hb)

theorem nullSafe_line {input : List UInt8} (hbytes : lineBytes input ≠ []) :
    Access.NullSafe (.line (((lineBytes input).length : ℤ) - 1)) := by
  have hpos := List.length_pos_iff.2 hbytes
  have hlt := length_lineBytes_lt input
  constructor <;> omega

/-- **Which lines are safe for the shell with pipes**: those with a word where one is expected, that
do not begin with a NUL. -/
theorem robust_iff_hasWords (l : Locals) (b : UInt8) (input : List UInt8) :
    Robust l (b :: input) ↔ b ≠ 0 ∧ HasWords (lineText (b :: input)) := by
  have hne : b :: input ≠ [] := List.cons_ne_nil b input
  unfold Robust
  obtain ⟨hnil, hread⟩ | ⟨hbytes, post, hread⟩ := Traced.all_readCommand l hne
  · rw [hread]
    exact iff_of_false (fun h => absurd h.1.1 (by decide)) fun h => h.1 (lineBytes_eq_nil.1 hnil)
  · have hb : b ≠ 0 := fun h => hbytes (lineBytes_eq_nil.2 h)
    rw [hread, and_iff_right (nullSafe_line hbytes), and_iff_right hb,
      Traced.nullSafe_parse post l.args1 l.args2 l.saved (nul_notMem_lineText _)]
    exact and_iff_left_of_imp fun hwords hblank =>
      prompts_of_blank l hbytes hne (blank_lineText hblank) hwords

end Shell
end PosixHw
