import PosixHw.Shell.Defined

/-!
# The shell with pipes: does it run the whole line?

Words of a line are left out in several places: of a stage with more than nine words, of a third
stage and those after it, and of what does not get into the array.  The bars before a single stage
are not left out but taken for a word, or for a part of the first one.

`runsWhole_iff` says for which lines the vectors have every word of the line, stage by stage.  If
they have, then they have as many bytes, counted without spaces and bars (`visible`), and this is so
only if nothing was dropped on the way.
-/

namespace PosixHw
namespace Shell

open CString

/-- The words of the stages, without the stages that are blank. -/
def stages (s : List UInt8) : List (List (List UInt8)) :=
  ((words bar s).map (words space)).filter (· ≠ [])

/-- The vectors of the processes that are started. -/
def Command.started : Command → List (List (List UInt8))
  | .piped left right => [left.argv, right.argv]
  | .single e => [e.argv]
  | .exit | .eof => []

/-- The first line of the input, without its newline. -/
def firstLine (input : List UInt8) : List UInt8 := input.takeWhile (· ≠ newline)

/-- The shell starts nothing, or processes whose vectors have every word of the line in order, stage
by stage. -/
def RunsWhole (l : Locals) (input : List UInt8) : Prop :=
  ∃ c l' rest, readCommand l input = some (c, l', rest) ∧
    (c.started = [] ∨
      List.SublistForall₂ List.Sublist (stages (firstLine input)) c.started)

/-- Spaces and bars only. -/
def Blank (s : List UInt8) : Prop := ∀ b ∈ s, b = space ∨ b = bar

/-- A bar stands directly before the first word. -/
def Glued (s : List UInt8) : Prop :=
  s.head? = some bar ∧ ∃ b, (s.dropWhile (· = bar)).head? = some b ∧ b ≠ space

/-- The part of the line that is not handled. -/
def dropped (input : List UInt8) : List UInt8 := (firstLine input).drop (lineText input).length

/-- All that is handled is two stages of at most nine words, and nothing else is there. -/
def TwoWhole (input : List UInt8) : Prop :=
  2 ≤ (words bar (lineText input)).length ∧
    (∀ w ∈ (words bar (lineText input)).take 2, (words space w).length < maxArgs) ∧
    (∀ w ∈ (words bar (lineText input)).drop 2, Blank w) ∧ Blank (dropped input)

/-- A single stage of one to nine words, which is `exit` or all that is there, and not run together
with a bar. -/
def OneWhole (input : List UInt8) : Prop :=
  (words bar (lineText input)).length < 2 ∧ 1 ≤ (words space (stem (lineText input))).length ∧
    (words space (stem (lineText input))).length < maxArgs ∧
    ((words space (stem (lineText input))).head? = some commandExit ∨
      ¬ Glued (lineText input) ∧ Blank (dropped input))

/-! ### Counting -/

/-- The bytes that are neither spaces nor bars. -/
def visible (s : List UInt8) : ℕ := s.countP fun b => b ≠ space ∧ b ≠ bar

/-- The bytes of the words without a bar. -/
def weight (argv : List (List UInt8)) : ℕ :=
  (argv.map fun w => if bar ∈ w then 0 else w.length).sum

section Counting

variable {s t w : List UInt8} {ws vs : List (List UInt8)}

theorem visible_append (s t : List UInt8) : visible (s ++ t) = visible s + visible t :=
  List.countP_append

theorem visible_eq_zero : visible s = 0 ↔ Blank s := by
  unfold visible Blank
  rw [List.countP_eq_zero]
  refine forall₂_congr fun b _ => ?_
  rw [decide_eq_true_iff, not_and_or, not_not, not_not]

theorem visible_bars (n : ℕ) : visible (List.replicate n bar) = 0 :=
  visible_eq_zero.2 fun _ hb => .inr (List.eq_of_mem_replicate hb)

theorem weight_append (ws vs : List (List UInt8)) : weight (ws ++ vs) = weight ws + weight vs := by
  rw [weight, List.map_append, List.sum_append]
  rfl

theorem weight_cons_of_notMem (h : bar ∉ w) : weight (w :: ws) = w.length + weight ws := by
  rw [weight, List.map_cons, List.sum_cons, if_neg h]
  rfl

theorem weight_cons_of_mem (h : bar ∈ w) : weight (w :: ws) = weight ws := by
  rw [weight, List.map_cons, List.sum_cons, if_pos h, Nat.zero_add]
  rfl

theorem weight_le_of_sublist (h : ws.Sublist vs) : weight ws ≤ weight vs :=
  (h.map _).sum_le_sum fun _ _ => Nat.zero_le _

theorem weight_le {A B : List (List (List UInt8))}
    (h : List.SublistForall₂ List.Sublist A B) :
    (A.map weight).sum ≤ (B.map weight).sum := by
  induction h with
  | nil => exact Nat.zero_le _
  | cons h _ ih =>
    rw [List.map_cons, List.map_cons, List.sum_cons, List.sum_cons]
    exact Nat.add_le_add (weight_le_of_sublist h) ih
  | cons_right _ ih =>
    rw [List.map_cons, List.sum_cons]
    exact Nat.le_add_left_of_le ih

/-- The words of a text without bars have its visible bytes. -/
theorem weight_words (hs : bar ∉ s) : weight (words space s) = visible s := by
  have hwritten := written_words space s
  rw [visible, hwritten.countP_eq (by decide), weight]
  congr 1
  refine List.map_congr_left fun w hw => ?_
  have hbar : bar ∉ w := fun h => hs (hwritten.subset hw h)
  have hspace := (sep_notMem_of_mem_words hw).2
  have hall : w.countP (fun b => decide (b ≠ space ∧ b ≠ bar)) = w.length := by
    rw [List.countP_eq_length]
    intro b hb
    exact decide_eq_true ⟨fun h => hspace (h ▸ hb), fun h => hbar (h ▸ hb)⟩
  rw [if_neg hbar, hall]

theorem weight_filter (A : List (List (List UInt8))) :
    ((A.filter (· ≠ [])).map weight).sum = (A.map weight).sum := by
  induction A with
  | nil => rfl
  | cons ws A ih =>
    rw [List.filter_cons, List.map_cons, List.sum_cons, ← ih]
    by_cases hnil : ws = []
    · subst hnil
      simp [weight]
    · simp [hnil]

/-- So have the words of the stages. -/
theorem weight_stages (s : List UInt8) : ((stages s).map weight).sum = visible s := by
  rw [stages, weight_filter, List.map_map, visible, (written_words bar s).countP_eq (by decide)]
  congr 1
  refine List.map_congr_left fun w hw => ?_
  exact weight_words (sep_notMem_of_mem_words hw).2

/-- Words that weigh nothing are not there. -/
theorem eq_nil_of_weight (hws : ∀ w ∈ ws, w ≠ [] ∧ bar ∉ w) (h : weight ws = 0) : ws = [] := by
  cases ws with
  | nil => rfl
  | cons w ws =>
    obtain ⟨hne, hbar⟩ := hws w List.mem_cons_self
    rw [weight_cons_of_notMem hbar] at h
    have hpos := List.length_pos_iff.2 hne
    omega

end Counting

/-! ### Blanks at the end -/

section Blank

variable {s t w : List UInt8}

theorem words_append_space (s : List UInt8) : words space (s ++ [space]) = words space s := by
  rw [words_append_sep, words_nil, List.append_nil]

theorem words_blank (hs : Blank s) (hbar : bar ∉ s) : words space s = [] := by
  have hall : s = List.replicate s.length space := List.eq_replicate_of_mem fun b hb =>
    (hs b hb).resolve_right fun h => hbar (h ▸ hb)
  rw [hall, words_replicate]

theorem stages_bar (s t : List UInt8) : stages (s ++ bar :: t) = stages s ++ stages t := by
  rw [stages, words_append_sep, List.map_append, List.filter_append]
  rfl

theorem stages_of_notMem (hs : bar ∉ s) : stages s = [words space s].filter (· ≠ []) := by
  by_cases hnil : s = []
  · subst hnil
    rfl
  · rw [stages, words_of_notMem hnil hs, List.map_singleton]

theorem stages_append_space (s : List UInt8) : stages (s ++ [space]) = stages s := by
  induction hn : s.length using Nat.strong_induction_on generalizing s with
  | _ n ih =>
    by_cases hbar : bar ∈ s
    · obtain ⟨a, b, rfl, -⟩ := List.eq_append_cons_of_mem hbar
      rw [List.length_append, List.length_cons] at hn
      rw [List.append_assoc, List.cons_append, stages_bar, stages_bar, ih b.length (by omega) b rfl]
    · have hspace : bar ∉ s ++ [space] := by
        rw [List.mem_append, not_or]
        exact ⟨hbar, by decide⟩
      rw [stages_of_notMem hspace, stages_of_notMem hbar, words_append_space]

/-- Spaces and bars at the end make no stage. -/
theorem stages_append_blank (s : List UInt8) (ht : Blank t) : stages (s ++ t) = stages s := by
  induction t generalizing s with
  | nil => rw [List.append_nil]
  | cons b t ih =>
    have htail : Blank t := fun c hc => ht c (List.mem_cons_of_mem _ hc)
    have hassoc : s ++ b :: t = (s ++ [b]) ++ t := by simp
    rw [hassoc, ih (s ++ [b]) htail]
    rcases ht b List.mem_cons_self with rfl | rfl
    · exact stages_append_space s
    · rw [stages_bar]
      exact List.append_nil _

end Blank

/-! ### The part of the line that is handled -/

section Line

variable {s input : List UInt8}

/-- What `fgets` reads is a part of the line, or the line with its newline. -/
theorem takeLine_cases (n : ℕ) (input : List UInt8) :
    (takeLine n input).1 <+: firstLine input ∨
      (takeLine n input).1 = firstLine input ++ [newline] := by
  induction input generalizing n with
  | nil => cases n <;> exact .inl (List.prefix_refl _)
  | cons b input ih =>
    cases n with
    | zero => exact .inl List.nil_prefix
    | succ n =>
      rw [takeLine, firstLine, List.takeWhile_cons]
      by_cases hb : b = newline
      · rw [if_pos hb, if_neg (by simp [hb]), hb]
        exact .inr rfl
      · rw [if_neg hb, if_pos (by simp [hb])]
        rcases ih n with h | h
        · exact .inl (List.cons_prefix_cons.2 ⟨rfl, h⟩)
        · exact .inr (congrArg (List.cons b) h)

theorem dropLast_prefix_dropLast {u t : List UInt8} (h : u <+: t) : u.dropLast <+: t.dropLast := by
  obtain ⟨v, rfl⟩ := h
  cases v with
  | nil => rw [List.append_nil]
  | cons b v =>
    rw [List.dropLast_append_of_ne_nil (List.cons_ne_nil b v)]
    exact (List.dropLast_prefix u).trans (List.prefix_append _ _)

/-- What is handled is the beginning of the line. -/
theorem lineText_append_dropped (input : List UInt8) :
    lineText input ++ dropped input = firstLine input := by
  have hbytes : lineBytes input <+: (takeLine (maxLine - 1) input).1 := List.takeWhile_prefix _
  have hprefix : lineText input <+: firstLine input := by
    rcases takeLine_cases (maxLine - 1) input with h | h
    · exact (List.dropLast_prefix _).trans (hbytes.trans h)
    · rw [h] at hbytes
      have hlast := dropLast_prefix_dropLast hbytes
      rwa [List.dropLast_concat] at hlast
  exact (List.prefix_iff_eq_append.1 hprefix)

end Line

/-! ### The two branches -/

section Branches

variable {l : Locals} {input w w₁ w₂ x : List UInt8} {ws : List (List UInt8)} {c : Command}

/-- What the command of a line has to do with its words. -/
theorem runsWhole_of_command (h : (readCommand l input).map Prod.fst = some c) :
    RunsWhole l input ↔ c.started = [] ∨ List.SublistForall₂ List.Sublist
      (stages (firstLine input)) c.started := by
  obtain ⟨⟨c', l', rest⟩, hr, rfl⟩ := Option.map_eq_some_iff.1 h
  constructor
  · rintro ⟨c, l'', rest', hc, hstarted⟩
    rw [hr, Option.some_inj] at hc
    cases hc
    exact hstarted
  · intro hstarted
    exact ⟨c', l', rest, hr, hstarted⟩

theorem not_runsWhole (h : (readCommand l input).map Prod.fst = none) : ¬ RunsWhole l input := by
  rintro ⟨c, l', rest, hc, -⟩
  rw [hc] at h
  cases h

theorem visible_take_drop (hw : bar ∉ w) (n : ℕ) :
    visible w = weight ((words space w).take n) + weight ((words space w).drop n) := by
  rw [← weight_append, List.take_append_drop, weight_words hw]

/-- No more words than a vector can take, if no byte is missing. -/
theorem length_lt_of_weight (hw : bar ∉ w)
    (h : visible w ≤ weight ((words space w).take (maxArgs - 1))) :
    (words space w).length < maxArgs := by
  have hrest : weight ((words space w).drop (maxArgs - 1)) = 0 := by
    have hsplit := visible_take_drop hw (maxArgs - 1)
    omega
  have hnil := eq_nil_of_weight (fun v hv => ⟨(sep_notMem_of_mem_words (List.mem_of_mem_drop hv)).1,
    fun hbar => hw ((written_words space w).subset (List.mem_of_mem_drop hv) hbar)⟩) hrest
  rw [List.drop_eq_nil_iff] at hnil
  exact Nat.lt_of_le_pred (by decide) hnil

/-- The bytes of the line are those of the tokens and of what is dropped. -/
theorem visible_line (htokens : words bar (lineText input) = w₁ :: w₂ :: ws) :
    visible (firstLine input)
      = visible w₁ + (visible w₂ + (ws.map visible).sum) + visible (dropped input) := by
  have hwritten := written_words bar (lineText input)
  rw [htokens] at hwritten
  have htext : visible (lineText input) = ((w₁ :: w₂ :: ws).map visible).sum :=
    hwritten.countP_eq (by decide)
  rw [← lineText_append_dropped, visible_append, htext, List.map_cons, List.map_cons,
    List.sum_cons, List.sum_cons]

/-- If all else is blank, the stages of the line are those of the first two tokens. -/
theorem stages_line (htokens : words bar (lineText input) = w₁ :: w₂ :: ws)
    (hblank : ∀ w ∈ ws, Blank w) (hdropped : Blank (dropped input)) :
    stages (firstLine input) = [words space w₁, words space w₂].filter (· ≠ []) := by
  have hrest : (ws.map (words space)).filter (· ≠ []) = [] := by
    rw [List.filter_eq_nil_iff]
    intro v hv
    obtain ⟨w, hw, rfl⟩ := List.mem_map.1 hv
    have hbar : bar ∉ w := (sep_notMem_of_mem_words (htokens ▸ by simp [hw] :
      w ∈ words bar (lineText input))).2
    rw [words_blank (hblank w hw) hbar]
    simp
  rw [← lineText_append_dropped, stages_append_blank _ hdropped, stages, htokens]
  show ([words space w₁, words space w₂] ++ ws.map (words space)).filter (· ≠ []) = _
  rw [List.filter_append, hrest, List.append_nil]

/-- **Two tokens or more.** -/
theorem runsWhole_iff_two (l : Locals) (hne : input ≠ [])
    (htokens : words bar (lineText input) = w₁ :: w₂ :: ws) :
    RunsWhole l input ↔ TwoWhole input := by
  have hbar : ∀ w ∈ w₁ :: w₂ :: ws, bar ∉ w := fun w hw =>
    (sep_notMem_of_mem_words (htokens ▸ hw)).2
  have hbar₁ := hbar w₁ List.mem_cons_self
  have hbar₂ := hbar w₂ (List.mem_cons_of_mem _ List.mem_cons_self)
  have hbytes : lineBytes input ≠ [] := by
    intro hnil
    rw [lineText, hnil] at htokens
    cases htokens
  obtain ⟨hnil, -⟩ | ⟨-, post, hcommand⟩ := readCommand_lineText l hne
  · exact absurd hnil hbytes
  obtain ⟨a1', a2', t, hparse, -⟩ := parse_tokens post l.args1 l.args2 l.saved
    (nul_notMem_lineText input) htokens
  rw [hparse, Option.map_some] at hcommand
  have hstarted : (Command.piped (stage w₁) (stage w₂)).started
      = [(words space w₁).take (maxArgs - 1), (words space w₂).take (maxArgs - 1)] := rfl
  rw [runsWhole_of_command hcommand, hstarted, or_iff_right (List.cons_ne_nil _ _), TwoWhole,
    htokens]
  constructor
  · intro h
    have hweight := weight_le h
    have hsplit₁ := visible_take_drop hbar₁ (maxArgs - 1)
    have hsplit₂ := visible_take_drop hbar₂ (maxArgs - 1)
    rw [weight_stages, visible_line htokens] at hweight
    simp only [List.map_cons, List.map_nil, List.sum_cons, List.sum_nil] at hweight
    refine ⟨by simp, ?_, ?_, visible_eq_zero.1 (by omega)⟩
    · intro w hw
      have hmem : w = w₁ ∨ w = w₂ := by simpa using hw
      rcases hmem with rfl | rfl
      · exact length_lt_of_weight hbar₁ (by omega)
      · exact length_lt_of_weight hbar₂ (by omega)
    · intro w hw
      have hsum : (ws.map visible).sum = 0 := by omega
      exact visible_eq_zero.1 (List.sum_eq_zero_iff.1 hsum _ (List.mem_map_of_mem hw))
  · rintro ⟨-, hfirst, hblank, hdropped⟩
    have htake : ∀ w ∈ [w₁, w₂], (words space w).take (maxArgs - 1) = words space w :=
      fun w hw => List.take_of_length_le (Nat.le_sub_one_of_lt (hfirst w hw))
    rw [stages_line htokens hblank hdropped, htake w₁ (by simp), htake w₂ (by simp)]
    exact List.sublistForall₂_iff.2
      ⟨_, List.forall₂_same.2 fun ws _ => List.Sublist.refl ws, List.filter_sublist⟩

/-- A text with at most one token. -/
theorem exists_of_single {s : List UInt8} (hs : (words bar s).length < 2) :
    ∃ n x k, s = List.replicate n bar ++ x ++ List.replicate k bar ∧ bar ∉ x ∧
      stem s = List.replicate n bar ++ x ∧ (x = [] → k = 0) := by
  have hword : ∀ w ∈ words bar s, w ≠ [] ∧ bar ∉ w := fun w hw => sep_notMem_of_mem_words hw
  have hwritten := written_words bar s
  generalize words bar s = ws at hs hword hwritten
  cases hwritten with
  | blank n => exact ⟨n, [], 0, by simp, List.not_mem_nil, by rw [stem_bars, List.append_nil],
      fun _ => rfl⟩
  | last n w =>
    obtain ⟨hne, hbar⟩ := hword w List.mem_cons_self
    have hstem := stem_stage n hne hbar (r := []) (by simp)
    rw [List.append_nil] at hstem
    exact ⟨n, w, 0, by simp, hbar, hstem, fun h => absurd h hne⟩
  | @cons n w vs s' h =>
    obtain ⟨hne, hbar⟩ := hword w List.mem_cons_self
    obtain rfl : vs = [] := List.eq_nil_of_length_eq_zero (by rw [List.length_cons] at hs; omega)
    cases h with
    | blank k => exact ⟨n, w, k + 1, rfl, hbar, stem_stage n hne hbar (by simp),
        fun h => absurd h hne⟩

theorem glued_iff {n k : ℕ} (hx : bar ∉ x) (hk : x = [] → k = 0) :
    Glued (List.replicate n bar ++ x ++ List.replicate k bar) ↔
      n ≠ 0 ∧ ∃ b, x.head? = some b ∧ b ≠ space := by
  have hall : ∀ b ∈ List.replicate n bar, decide (b = bar) = true := fun b hb =>
    decide_eq_true (List.eq_of_mem_replicate hb)
  rw [Glued, List.append_assoc, List.dropWhile_append_of_pos hall]
  cases x with
  | nil =>
    rw [hk rfl]
    simp
  | cons b x =>
    have hb : b ≠ bar := fun h => hx (h ▸ List.mem_cons_self)
    rw [List.cons_append, List.dropWhile_cons_of_neg (by simp [hb])]
    refine and_congr_left fun _ => ?_
    cases n with
    | zero => simp [hb]
    | succ n => simp [List.replicate_succ]

/-- Bars that do not touch a word are words of their own. -/
theorem words_bars {n : ℕ} (h : n = 0 ∨ ∀ b, x.head? = some b → b = space) :
    words space (List.replicate n bar ++ x)
      = words space (List.replicate n bar) ++ words space x := by
  rcases h with rfl | h
  · rw [List.replicate_zero, List.nil_append, words_nil, List.nil_append]
  · cases x with
    | nil => rw [List.append_nil, words_nil, List.append_nil]
    | cons b x =>
      obtain rfl := h b rfl
      rw [words_append_sep, words_cons_sep]

/-- The word that the bars touch is lost. -/
theorem weight_glued {n : ℕ} {b : UInt8} (hn : n ≠ 0) (hx : bar ∉ b :: x) (hb : b ≠ space) :
    weight (words space (List.replicate n bar ++ b :: x)) < visible (b :: x) := by
  have hsplit : (b :: x).takeWhile (· ≠ space) ++ (b :: x).dropWhile (· ≠ space) = b :: x :=
    List.takeWhile_append_dropWhile
  have hfirst : (b :: x).takeWhile (· ≠ space) = b :: x.takeWhile (· ≠ space) :=
    List.takeWhile_cons_of_pos (by simp [hb])
  set v := x.takeWhile (· ≠ space) with hv
  have hspace : space ∉ b :: v := by
    rw [List.mem_cons, not_or]
    refine ⟨Ne.symm hb, fun h => ?_⟩
    have hne := List.mem_takeWhile_imp h
    simp at hne
  have hmem : bar ∈ List.replicate n bar ++ b :: v :=
    List.mem_append_left _ (List.mem_replicate.2 ⟨hn, rfl⟩)
  have hspace' : space ∉ List.replicate n bar ++ b :: v := by
    rw [List.mem_append, not_or]
    exact ⟨fun h => absurd (List.eq_of_mem_replicate h) (by decide), hspace⟩
  have hne : List.replicate n bar ++ b :: v ≠ [] := List.append_ne_nil_of_right_ne_nil _ (by simp)
  rw [hfirst] at hsplit
  rw [← weight_words hx, ← hsplit]
  cases hrest : (b :: x).dropWhile (· ≠ space) with
  | nil =>
    have hbar : bar ∉ b :: v := by
      rw [hrest, List.append_nil] at hsplit
      rwa [hsplit]
    rw [List.append_nil, words_of_notMem hne hspace', words_of_notMem (by simp) hspace,
      weight_cons_of_mem hmem, weight_cons_of_notMem hbar, List.length_cons]
    omega
  | cons a r =>
    have ha : a = space := by
      have hnot := List.head?_dropWhile_not (fun b : UInt8 => decide (b ≠ space)) (b :: x)
      rw [hrest] at hnot
      simpa using hnot
    have hbar : bar ∉ b :: v := fun h => hx (hsplit ▸ List.mem_append_left _ h)
    rw [ha, ← List.append_assoc, words_append_sep, words_append_sep, words_of_notMem hne hspace',
      words_of_notMem (by simp) hspace, List.singleton_append, List.singleton_append,
      weight_cons_of_mem hmem, weight_cons_of_notMem hbar, List.length_cons]
    omega

/-- **A vector for a single stage** has all words of the line exactly if nothing is dropped, and no
bar touches a word. -/
theorem sublist_iff_single {n k : ℕ} {t d : List UInt8} (hx : bar ∉ x)
    (hk : x = [] → k = 0) (ht : t = List.replicate n bar ++ x ++ List.replicate k bar) :
    List.SublistForall₂ List.Sublist (stages (t ++ d)) [words space (List.replicate n bar ++ x)] ↔
      ¬ Glued t ∧ Blank d := by
  have hvisible : visible (t ++ d) = visible x + visible d := by
    rw [ht, visible_append, visible_append, visible_append, visible_bars, visible_bars,
      Nat.zero_add, Nat.add_zero]
  have hbars : weight (words space (List.replicate n bar)) = 0 := by
    by_cases hn : n = 0
    · rw [hn]
      rfl
    · have hspace : space ∉ List.replicate n bar := fun h =>
        absurd (List.eq_of_mem_replicate h) (by decide)
      rw [words_of_notMem (by simp [hn]) hspace,
        weight_cons_of_mem (List.mem_replicate.2 ⟨hn, rfl⟩)]
      rfl
  have hglued := glued_iff (n := n) hx hk
  rw [← ht] at hglued
  have hfree : ¬ Glued t → n = 0 ∨ ∀ b, x.head? = some b → b = space := by
    rw [hglued, not_and_or, not_not]
    exact Or.imp_right fun h b hb => by_contra fun hne => h ⟨b, hb, hne⟩
  constructor
  · intro h
    have hweight := weight_le h
    rw [weight_stages, hvisible, List.map_singleton, List.sum_singleton] at hweight
    have hnot : ¬ Glued t := by
      rw [hglued]
      rintro ⟨hn, b, hb, hspace⟩
      obtain ⟨x, rfl⟩ : ∃ y, x = b :: y := ⟨x.tail, List.eq_cons_of_mem_head? hb⟩
      have hlt := weight_glued hn hx hspace
      omega
    rw [words_bars (hfree hnot), weight_append, hbars, weight_words hx] at hweight
    exact ⟨hnot, visible_eq_zero.1 (by omega)⟩
  · rintro ⟨hnot, hblank⟩
    have hend : Blank (List.replicate k bar) := fun b hb => .inr (List.eq_of_mem_replicate hb)
    have hstages : stages (t ++ d) = [words space x].filter (· ≠ []) := by
      rw [stages_append_blank _ hblank, ht, stages_append_blank _ hend, stages, words_gap,
        ← stages, stages_of_notMem hx]
    rw [hstages, words_bars (hfree hnot)]
    by_cases hwords : words space x = []
    · rw [hwords]
      exact List.SublistForall₂.nil
    · rw [List.filter_cons_of_pos (by simpa using hwords)]
      exact List.SublistForall₂.cons (List.sublist_append_right _ _) List.SublistForall₂.nil

/-- **At most one token.** -/
theorem runsWhole_iff_one (l : Locals) (hne : input ≠ [])
    (hs : (words bar (lineText input)).length < 2) : RunsWhole l input ↔ OneWhole input := by
  rw [OneWhole, and_iff_right hs]
  obtain ⟨hnil, hread⟩ | ⟨-, post, hcommand⟩ := readCommand_lineText l hne
  · have htext : lineText input = [] := by
      rw [lineText, hnil]
      rfl
    rw [htext]
    refine iff_of_false (not_runsWhole (by rw [hread, Option.map_none])) ?_
    rintro ⟨hpos, -⟩
    exact absurd hpos (by decide)
  have h0 := nul_notMem_lineText input
  by_cases hreadable : Readable (lineText input)
  · obtain ⟨hpos, hlen⟩ := hreadable.resolve_left (by omega)
    rw [and_iff_right hpos, and_iff_right hlen]
    obtain ⟨w, ws, hws⟩ := List.exists_cons_of_length_pos hpos
    rw [hws] at hlen
    obtain ⟨a1', t, hparse, -⟩ := parse_stem post l.args1 l.args2 l.saved h0 hs hws hlen
    rw [hparse, Option.map_some] at hcommand
    rw [runsWhole_of_command hcommand, hws, List.head?_cons, Option.some_inj]
    by_cases hexit : w = commandExit
    · rw [if_pos hexit]
      exact iff_of_true (.inl rfl) (.inl hexit)
    · obtain ⟨n, x, k, htext, hx, hstem, hk⟩ := exists_of_single hs
      have hstarted : (Command.single ⟨some w, w :: ws⟩).started
          = [words space (List.replicate n bar ++ x)] := by
        rw [← hstem, hws]
        rfl
      rw [if_neg hexit, or_iff_right hexit, hstarted, or_iff_right (List.cons_ne_nil _ _),
        ← lineText_append_dropped]
      exact sublist_iff_single hx hk htext
  · rw [parse_unreadable post l.args1 l.args2 l.saved h0 hreadable] at hcommand
    refine iff_of_false (not_runsWhole hcommand) ?_
    rintro ⟨hpos, hlen, -⟩
    exact hreadable (.inr ⟨hpos, hlen⟩)

end Branches

/-- **Which lines are run whole**: two stages, or a single one, of at most nine words each, with
nothing but spaces and bars besides; and `exit`. -/
theorem runsWhole_iff (l : Locals) (b : UInt8) (input : List UInt8) :
    RunsWhole l (b :: input) ↔ TwoWhole (b :: input) ∨ OneWhole (b :: input) := by
  rcases lt_or_ge (words bar (lineText (b :: input))).length 2 with hs | hs
  · rw [runsWhole_iff_one l (List.cons_ne_nil _ _) hs, or_iff_right]
    exact fun h => absurd h.1 (by omega)
  · obtain ⟨w₁, w₂, ws, htokens⟩ := Lists.exists_cons_cons hs
    rw [runsWhole_iff_two l (List.cons_ne_nil _ _) htokens, or_iff_left]
    exact fun h => absurd h.1 (by omega)

/-- `a | b | c` and a newline. -/
def threeStages : List UInt8 := [97, 32, 124, 32, 98, 32, 124, 32, 99, 10]

/-- Of three stages the last one is left out. -/
theorem threeStages_not_runsWhole : ¬ RunsWhole default threeStages := by
  have hcommand : (readCommand default threeStages).map Prod.fst
      = some (.piped ⟨some [97], [[97]]⟩ ⟨some [98], [[98]]⟩) := by decide +kernel
  have hstages : stages (firstLine threeStages) = [[[97]], [[98]], [[99]]] := by decide
  rw [runsWhole_of_command hcommand, hstages]
  rintro (h | h)
  · cases h
  · obtain ⟨l, hl, hsub⟩ := List.sublistForall₂_iff.1 h
    have hle : [[[97]], [[98]], [[(99 : UInt8)]]].length ≤ 2 :=
      hl.length_eq.trans_le hsub.length_le
    exact absurd hle (by decide)

end Shell
end PosixHw
