import PosixHw.Base.CString

/-!
# strtok and texts made of words

`strtok` splits a string in place.  The facts below say what one call does on memory of the form
`pre ++ s ++ 0 :: post` when it starts at the beginning of `s`: the bytes before `s` and after the
NUL are not touched, and `s` keeps its length.

* `Written c ws s`: the text `s` consists of the words `ws`, separated by one or more bytes `c`,
  with any number of them before and after;
* `scan_written`: on such a text a call returns a pointer to the first word and leaves a text made
  of the other words;
* `scan_blank`: when no word is left it returns NULL;
* `words c s` are the words of any text, `written_words` says that it is made of them;
* `scan_defined`: a call that begins before a NUL is defined, whatever the text is.
-/

namespace PosixHw
namespace CString

/-- The memory that `strtok` works on and the pointer that it keeps. -/
structure Strtok where
  mem : Mem
  saved : Option ℕ

/-- A call of `strtok` that begins at `s`: it skips delimiters, and ends the token at the next
one. -/
def scan (m : Mem) (s : ℕ) (delim : List UInt8) : Option (Option ℕ × Strtok) :=
  let token := s + ((m.drop s).takeWhile (· ∈ delim)).length
  match m[token]? with
  | none => none
  | some b =>
    if b = 0 then some (none, ⟨m, some token⟩)
    else
      let stop := token + ((m.drop token).takeWhile fun b => b ≠ 0 ∧ b ∉ delim).length
      match m[stop]? with
      | none => none
      | some b =>
        if b = 0 then some (some token, ⟨m, some stop⟩)
        else some (some token, ⟨m.set stop 0, some (stop + 1)⟩)

/-- `strtok(s, delim)`; for NULL it begins at the pointer that it kept. -/
def strtok (t : Strtok) (s : Option ℕ) (delim : List UInt8) : Option (Option ℕ × Strtok) :=
  (s.or t.saved).bind fun p => scan t.mem p delim

theorem strtok_some (t : Strtok) (s : ℕ) (delim : List UInt8) :
    strtok t (some s) delim = scan t.mem s delim := rfl

theorem strtok_saved (m : Mem) (s : ℕ) (delim : List UInt8) :
    strtok ⟨m, some s⟩ none delim = scan m s delim := rfl

/-- The memory keeps its length. -/
theorem length_strtok {t t' : Strtok} {s r : Option ℕ} {delim : List UInt8}
    (h : strtok t s delim = some (r, t')) : t'.mem.length = t.mem.length := by
  obtain ⟨p, -, h⟩ := Option.bind_eq_some_iff.1 h
  simp only [scan] at h
  split at h
  · cases h
  · split_ifs at h
    · cases h; rfl
    · split at h
      · cases h
      · split_ifs at h <;> cases h
        · rfl
        · exact List.length_set

/-! ### One call -/

section Scan

variable {delim gap tok : List UInt8} {b : UInt8}

section Span

variable {pre post : List UInt8}

theorem takeWhile_gap (hgap : ∀ a ∈ gap, a ∈ delim) (hb : b ∉ delim) :
    ((pre ++ gap ++ b :: post).drop pre.length).takeWhile (· ∈ delim) = gap := by
  rw [List.append_assoc, List.drop_left]
  exact takeWhile_append_stop (fun a ha => decide_eq_true (hgap a ha)) (decide_eq_false hb)

theorem takeWhile_token (htok : ∀ a ∈ tok, a ≠ 0 ∧ a ∉ delim) (hb : b = 0 ∨ b ∈ delim) :
    ((pre ++ tok ++ b :: post).drop pre.length).takeWhile (fun a => a ≠ 0 ∧ a ∉ delim) = tok := by
  rw [List.append_assoc, List.drop_left]
  refine takeWhile_append_stop (fun a ha => decide_eq_true (htok a ha)) (decide_eq_false ?_)
  rintro ⟨h0, hd⟩
  exact hb.elim h0 hd

end Span

variable (pre post : List UInt8)

/-- Nothing but delimiters before the NUL. -/
theorem scan_nul (hgap : ∀ a ∈ gap, a ∈ delim) (h0 : 0 ∉ delim) :
    scan (pre ++ gap ++ 0 :: post) pre.length delim
      = some (none, ⟨pre ++ gap ++ 0 :: post, some (pre ++ gap).length⟩) := by
  have hget : (pre ++ gap ++ 0 :: post)[(pre ++ gap).length]? = some 0 := getElem?_append_length
  simp only [scan, takeWhile_gap hgap h0, ← List.length_append, hget, if_true]

/-- A token after some delimiters, and the byte after it. -/
theorem scan_tok (hgap : ∀ a ∈ gap, a ∈ delim) (hne : tok ≠ [])
    (htok : ∀ a ∈ tok, a ≠ 0 ∧ a ∉ delim) (hb : b = 0 ∨ b ∈ delim) :
    scan (pre ++ gap ++ tok ++ b :: post) pre.length delim
      = if b = 0 then some (some (pre ++ gap).length,
          ⟨pre ++ gap ++ tok ++ b :: post, some (pre ++ gap ++ tok).length⟩)
        else some (some (pre ++ gap).length,
          ⟨pre ++ gap ++ tok ++ 0 :: post, some ((pre ++ gap ++ tok).length + 1)⟩) := by
  obtain ⟨t, ts, rfl⟩ := List.exists_cons_of_ne_nil hne
  obtain ⟨ht0, htd⟩ := htok t List.mem_cons_self
  have hassoc : pre ++ gap ++ t :: ts ++ b :: post = pre ++ gap ++ t :: (ts ++ b :: post) := by
    rw [List.append_assoc, List.cons_append]
  have hstart : ((pre ++ gap ++ t :: ts ++ b :: post).drop pre.length).takeWhile (· ∈ delim)
      = gap := by
    rw [hassoc]
    exact takeWhile_gap hgap htd
  have hget : (pre ++ gap ++ t :: ts ++ b :: post)[(pre ++ gap).length]? = some t := by
    rw [hassoc]
    exact getElem?_append_length
  have hget' : (pre ++ gap ++ t :: ts ++ b :: post)[(pre ++ gap ++ t :: ts).length]? = some b :=
    getElem?_append_length
  simp only [scan, hstart, ← List.length_append, hget, if_neg ht0, takeWhile_token htok hb, hget',
    set_append_length]

end Scan

/-! ### Words -/

/-- The text `s` is made of the words `ws`, separated by the byte `c`. -/
inductive Written (c : UInt8) : List (List UInt8) → List UInt8 → Prop
  | blank (n : ℕ) : Written c [] (List.replicate n c)
  | last (n : ℕ) (w : List UInt8) : Written c [w] (List.replicate n c ++ w)
  | cons (n : ℕ) (w : List UInt8) {ws : List (List UInt8)} {s : List UInt8} (h : Written c ws s) :
      Written c (w :: ws) (List.replicate n c ++ w ++ c :: s)

/-- A word: not empty, without the separator and without NUL. -/
structure IsWord (c : UInt8) (w : List UInt8) : Prop where
  ne_nil : w ≠ []
  sep : c ∉ w
  nul : 0 ∉ w

theorem IsWord.bytes {c : UInt8} {w : List UInt8} (h : IsWord c w) :
    ∀ a ∈ w, a ≠ 0 ∧ a ∉ [c] := by
  intro a ha
  rw [List.mem_singleton]
  exact ⟨fun h0 => h.nul (h0 ▸ ha), fun hc => h.sep (hc ▸ ha)⟩

section Written

variable {c : UInt8} {w s : List UInt8} {ws : List (List UInt8)} (pre post : List UInt8)

theorem mem_gap {c : UInt8} {n : ℕ} : ∀ a ∈ List.replicate n c, a ∈ [c] := fun _ ha =>
  List.mem_singleton.2 (List.eq_of_mem_replicate ha)

theorem scan_blank (hc : c ≠ 0) (h : Written c [] s) :
    scan (pre ++ s ++ 0 :: post) pre.length [c]
      = some (none, ⟨pre ++ s ++ 0 :: post, some (pre ++ s).length⟩) := by
  cases h with
  | blank n => exact scan_nul _ _ mem_gap (by simpa using hc.symm)

/-- The first word is returned; whatever is written over the rest of the text, it stays there. -/
theorem scan_written (hc : c ≠ 0) (h : Written c (w :: ws) s) (hw : IsWord c w) :
    ∃ u s' p, scan (pre ++ s ++ 0 :: post) pre.length [c]
        = some (some p, ⟨pre ++ u ++ s' ++ 0 :: post, some (pre ++ u).length⟩) ∧
      Written c ws s' ∧ (u ++ s').length = s.length ∧
      ∀ s'' : List UInt8, s''.length = s'.length →
        p ≤ (pre ++ u ++ s'').length ∧ str (pre ++ u ++ s'' ++ 0 :: post) p = w := by
  cases h with
  | last n =>
    refine ⟨List.replicate n c ++ w, [], (pre ++ List.replicate n c).length, ?_,
      .blank 0, by simp, fun s'' hs => ?_⟩
    · rw [← List.append_assoc, scan_tok _ _ mem_gap hw.ne_nil hw.bytes (Or.inl rfl), if_pos rfl,
        List.append_nil]
    · obtain rfl := List.eq_nil_of_length_eq_zero hs
      rw [List.append_nil, ← List.append_assoc]
      exact ⟨by simp, str_append hw.nul⟩
  | @cons n _ _ s' h =>
    refine ⟨List.replicate n c ++ w ++ [0], s', (pre ++ List.replicate n c).length, ?_,
      h, by simp only [List.length_append, List.length_cons, List.length_nil]; omega,
      fun s'' _ => ?_⟩
    · have hassoc : pre ++ (List.replicate n c ++ w ++ c :: s') ++ 0 :: post
          = pre ++ List.replicate n c ++ w ++ c :: (s' ++ 0 :: post) := by simp
      rw [hassoc, scan_tok _ _ mem_gap hw.ne_nil hw.bytes (Or.inr (List.mem_singleton_self c)),
        if_neg hc]
      simp [Nat.add_assoc]
    · have hassoc : pre ++ (List.replicate n c ++ w ++ [0]) ++ s'' ++ 0 :: post
          = pre ++ List.replicate n c ++ w ++ 0 :: (s'' ++ 0 :: post) := by simp
      rw [hassoc]
      exact ⟨by simp only [List.length_append, List.length_cons, List.length_nil]; omega,
        str_append hw.nul⟩

end Written

/-! ### Splitting a text -/

/-- The longest pieces of `s` without the separator `c`. -/
def words (c : UInt8) (s : List UInt8) : List (List UInt8) := (s.splitOn c).filter (· ≠ [])

section Words

variable {c : UInt8} {w s t : List UInt8} {ws : List (List UInt8)}

/-- **Words are split at a separator.** -/
theorem words_append_sep (s t : List UInt8) : words c (s ++ c :: t) = words c s ++ words c t := by
  rw [words, List.splitOn_append_cons_self, List.filter_append]
  rfl

theorem words_nil : words c [] = [] := rfl

theorem words_cons_sep (t : List UInt8) : words c (c :: t) = words c t :=
  words_append_sep [] t

theorem words_replicate (n : ℕ) : words c (List.replicate n c) = [] := by
  induction n with
  | zero => rfl
  | succ n ih => rw [List.replicate_succ, words_cons_sep, ih]

theorem words_gap (n : ℕ) (t : List UInt8) : words c (List.replicate n c ++ t) = words c t := by
  induction n with
  | zero => rfl
  | succ n ih => rw [List.replicate_succ, List.cons_append, words_cons_sep, ih]

theorem words_of_notMem (hne : w ≠ []) (hc : c ∉ w) : words c w = [w] := by
  rw [words, List.splitOn_eq_singleton hc, List.filter_cons_of_pos (by simpa using hne)]
  rfl

/-- A text of words is split into these. -/
theorem Written.words_eq (h : Written c ws s) (hws : ∀ w ∈ ws, w ≠ [] ∧ c ∉ w) :
    words c s = ws := by
  induction h with
  | blank n => exact words_replicate n
  | last n w =>
    obtain ⟨hne, hc⟩ := hws w List.mem_cons_self
    rw [words_gap, words_of_notMem hne hc]
  | cons n w h ih =>
    obtain ⟨hne, hc⟩ := hws w List.mem_cons_self
    rw [words_append_sep, words_gap, words_of_notMem hne hc,
      ih fun v hv => hws v (List.mem_cons_of_mem _ hv)]
    rfl

theorem Written.sep_cons (h : Written c ws s) : Written c ws (c :: s) := by
  cases h with
  | blank n => exact .blank (n + 1)
  | last n w => exact .last (n + 1) w
  | cons n w h => exact .cons (n + 1) w h

/-- Every text is made of its words. -/
theorem written_words (c : UInt8) (s : List UInt8) : Written c (words c s) s := by
  induction hn : s.length using Nat.strong_induction_on generalizing s with
  | _ n ih =>
    by_cases hc : c ∈ s
    · obtain ⟨a, b, rfl, ha⟩ := List.eq_append_cons_of_mem hc
      rw [List.length_append, List.length_cons] at hn
      have hb : Written c (words c b) b := ih b.length (by omega) b rfl
      rw [words_append_sep]
      by_cases hnil : a = []
      · subst hnil
        exact hb.sep_cons
      · rw [words_of_notMem hnil ha]
        exact .cons 0 a hb
    · by_cases hnil : s = []
      · subst hnil
        exact .blank 0
      · rw [words_of_notMem hnil hc]
        exact .last 0 s

theorem Written.subset (h : Written c ws s) (hw : w ∈ ws) : w ⊆ s := by
  induction h with
  | blank n => cases hw
  | last n v =>
    rw [List.mem_singleton] at hw
    subst hw
    exact List.subset_append_right _ _
  | cons n v h ih =>
    rcases List.mem_cons.1 hw with rfl | hw
    · intro b hb
      exact List.mem_append_left _ (List.mem_append_right _ hb)
    · intro b hb
      exact List.mem_append_right _ (List.mem_cons_of_mem _ (ih hw hb))

/-- Bytes other than the separator are counted word by word. -/
theorem Written.countP_eq {q : UInt8 → Bool} (hc : q c = false) (h : Written c ws s) :
    s.countP q = (ws.map (List.countP q)).sum := by
  have hgap : ∀ n, (List.replicate n c).countP q = 0 := fun n => by
    rw [List.countP_replicate, if_neg (by simp [hc])]
  induction h with
  | blank n => exact hgap n
  | last n w =>
    rw [List.countP_append, hgap, Nat.zero_add, List.map_singleton, List.sum_singleton]
  | cons n w h ih =>
    rw [List.countP_append, List.countP_append, hgap, Nat.zero_add,
      List.countP_cons_of_neg (by simp [hc]), ih, List.map_cons, List.sum_cons]

theorem words_ne_nil {b : UInt8} (hb : b ∈ s) (hc : b ≠ c) : words c s ≠ [] := by
  intro hnil
  have h := written_words c s
  rw [hnil] at h
  cases h with
  | blank n => exact hc (List.eq_of_mem_replicate hb)

/-- A text has at least the words of its beginning, the last of which may be cut. -/
theorem length_words_le (s t : List UInt8) : (words c s).length ≤ (words c (s ++ t)).length := by
  induction hn : s.length using Nat.strong_induction_on generalizing s with
  | _ n ih =>
    by_cases hc : c ∈ s
    · obtain ⟨a, b, rfl, ha⟩ := List.eq_append_cons_of_mem hc
      rw [List.length_append, List.length_cons] at hn
      have hb := ih b.length (by omega) b rfl
      rw [List.append_assoc, List.cons_append, words_append_sep, words_append_sep,
        List.length_append, List.length_append]
      exact Nat.add_le_add_left hb _
    · cases s with
      | nil => exact Nat.zero_le _
      | cons b s =>
        have hb : b ≠ c := fun h => hc (h ▸ List.mem_cons_self)
        rw [words_of_notMem (List.cons_ne_nil _ _) hc]
        exact List.length_pos_iff.2 (words_ne_nil (List.mem_append_left _ List.mem_cons_self) hb)

theorem sep_notMem_of_mem_words (hw : w ∈ words c s) : w ≠ [] ∧ c ∉ w := by
  induction hn : s.length using Nat.strong_induction_on generalizing s with
  | _ n ih =>
    by_cases hc : c ∈ s
    · obtain ⟨a, b, rfl, ha⟩ := List.eq_append_cons_of_mem hc
      rw [List.length_append, List.length_cons] at hn
      rw [words_append_sep, List.mem_append] at hw
      rcases hw with hw | hw
      · by_cases hnil : a = []
        · subst hnil
          simp [words_nil] at hw
        · rw [words_of_notMem hnil ha, List.mem_singleton] at hw
          subst hw
          exact ⟨hnil, ha⟩
      · exact ih b.length (by omega) hw rfl
    · by_cases hnil : s = []
      · subst hnil
        simp [words_nil] at hw
      · rw [words_of_notMem hnil hc, List.mem_singleton] at hw
        subst hw
        exact ⟨hnil, hc⟩

theorem isWord_of_mem_words (h0 : 0 ∉ s) (hw : w ∈ words c s) : IsWord c w := by
  obtain ⟨hne, hc⟩ := sep_notMem_of_mem_words hw
  exact ⟨hne, hc, fun h => h0 ((written_words c s).subset hw h)⟩

end Words

/-! ### Calls on any text -/

section Total

variable {m : Mem} {n p : ℕ} {delim : List UInt8}

theorem length_takeWhile_le {q : UInt8 → Bool} {l : List UInt8} {i : ℕ} {b : UInt8}
    (hl : l[i]? = some b) (hb : q b = false) : (l.takeWhile q).length ≤ i := by
  induction l generalizing i with
  | nil => exact Nat.zero_le i
  | cons a l ih =>
    rw [List.takeWhile_cons]
    split_ifs with ha
    · cases i with
      | zero =>
        rw [List.getElem?_cons_zero, Option.some_inj] at hl
        rw [hl, hb] at ha
        cases ha
      | succ i => exact Nat.succ_le_succ (ih hl)
    · exact Nat.zero_le i

/-- A call that begins before a NUL is defined; it returns a pointer before the NUL or NULL, keeps
one before it, and leaves the NUL. -/
theorem scan_defined (hn : m[n]? = some 0) (hp : p ≤ n) (h0 : 0 ∉ delim) :
    ∃ r q m', scan m p delim = some (r, ⟨m', some q⟩) ∧ q ≤ n ∧ m'[n]? = some 0 ∧
      ∀ p', r = some p' → p' ≤ n := by
  obtain ⟨hlt, -⟩ := List.getElem?_eq_some_iff.1 hn
  have hdrop : ∀ q ≤ n, (m.drop q)[n - q]? = some 0 := by
    intro q hq
    rw [List.getElem?_drop, Nat.add_sub_cancel' hq, hn]
  have htoken : p + ((m.drop p).takeWhile (· ∈ delim)).length ≤ n := by
    have := length_takeWhile_le (q := fun b => decide (b ∈ delim)) (hdrop p hp)
      (decide_eq_false h0)
    omega
  simp only [scan]
  set token := p + ((m.drop p).takeWhile (· ∈ delim)).length with htok
  rw [List.getElem?_eq_getElem (show token < m.length by omega)]
  dsimp only
  split_ifs with hb
  · exact ⟨none, token, m, rfl, htoken, hn, by simp⟩
  · have hstop : token + ((m.drop token).takeWhile fun b => b ≠ 0 ∧ b ∉ delim).length ≤ n := by
      have := length_takeWhile_le (q := fun b => decide (b ≠ 0 ∧ b ∉ delim))
        (hdrop token htoken) (decide_eq_false fun h => h.1 rfl)
      omega
    set stop := token + ((m.drop token).takeWhile fun b => b ≠ 0 ∧ b ∉ delim).length with hst
    rw [List.getElem?_eq_getElem (show stop < m.length by omega)]
    dsimp only
    split_ifs with hb'
    · exact ⟨some token, stop, m, rfl, hstop, hn, by simpa using htoken⟩
    · have hne : stop ≠ n := by
        intro he
        rw [← he, List.getElem?_eq_getElem (show stop < m.length by omega)] at hn
        exact hb' (Option.some.inj hn)
      refine ⟨some token, stop + 1, m.set stop 0, rfl, by omega, ?_, by simpa using htoken⟩
      rw [List.getElem?_set_ne hne, hn]

end Total

end CString
end PosixHw
