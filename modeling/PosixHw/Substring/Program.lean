import PosixHw.Substring.Search

/-!
# The substring program

`main` of `pointers/task4.c`: it reads a string and a substring, each with one call of `fgets`, and
prints the string from the first occurrence on.

A call reads at most 99 bytes.  What remains of a longer first line is read as the second line, so
that the program then looks for something that was not asked for; `main_eq` says which two strings
it compares, and `answers_iff` for which lines the answer is right.
-/

namespace PosixHw
namespace Substring

open CString Occurrence

/-- The length of both arrays. -/
def N : ℕ := 100

/-- What is printed: a fixed text, or `Подстрока найдена: %s` with what has been found. -/
inductive Out
  | text (s : String)
  | found (result : List UInt8)
  deriving DecidableEq

/-- The texts of `printf`. -/
def askString : Out := .text "Введите строку: "
def askSubstring : Out := .text "Введите подстроку: "
def notFound : Out := .text "Подстрока не найдена.\n"

/-- The arrays, with any bytes in them. -/
structure Locals where
  str : Mem
  substr : Mem
  length_str : str.length = N
  length_substr : substr.length = N

/-- The pattern of the search, and the output. -/
structure Result where
  searched : List UInt8
  out : List Out
  deriving DecidableEq

/-- Lines 31–32 and 35–36: the result of `fgets` is not looked at. -/
def readLine (m : Mem) (input : List UInt8) : Option (Mem × List UInt8) := do
  let (m, rest) := (fgets m N input).getD (m, input)
  let n ← strcspn m 0 [newline]
  let m ← store m n 0
  pure (m, rest)

/-- Lines 38–44. -/
def report (str substr : Mem) : Option Out :=
  (findSubstring str substr 0 0).value.bind fun
    | some result => (cstr str result).map .found
    | none => some notFound

/-- `main` -/
def main (l : Locals) (input : List UInt8) : Option Result := do
  let (str, input) ← readLine l.str input
  let (substr, _) ← readLine l.substr input
  let answer ← report str substr
  let searched ← cstr substr 0
  pure ⟨searched, [askString, askSubstring, answer]⟩

/-- A line of the input, without its newline. -/
structure Line where
  text : List UInt8
  newline_notMem : newline ∉ text
  nul_notMem : 0 ∉ text

/-- The right answer: it is about the second line, it is that this line has been found exactly if it
occurs in the first one, and it shows the first line from the first occurrence on.  There is no
message for a line that is too long. -/
def Answers (x y : List UInt8) (r : Result) : Prop :=
  r.searched = y ∧ ((∃ t, .found t ∈ r.out) ↔ y <:+: x) ∧ (notFound ∈ r.out ↔ ¬ y <:+: x) ∧
    ∀ t, .found t ∈ r.out → ∃ i, IsFirst y x i ∧ t = x.drop i

/-- The answer for two strings. -/
def answer (a b : List UInt8) : Out :=
  match if a = [] then none else first b a with
  | some i => .found (a.drop i)
  | none => notFound

/-! ### Reading a line -/

/-- The newline, or the NUL in its place, is overwritten by a NUL. -/
theorem readLine_of_fgets {m w post input rest : Mem} {c : UInt8} (hw : newline ∉ w) (h0 : 0 ∉ w)
    (hc : c = newline ∧ 0 ∈ post ∨ c = 0) (hf : fgets m N input = some (w ++ c :: post, rest)) :
    readLine m input = some (w ++ 0 :: post, rest) := by
  have hspan : strcspn (w ++ c :: post) 0 [newline] = some w.length := by
    have hw' : ∀ b ∈ w, b ∉ [newline] := fun b hb h => by
      rw [List.mem_singleton.1 h] at hb
      exact hw hb
    apply strcspn_append h0 hw'
    · rcases hc with ⟨-, hpost⟩ | rfl
      · exact List.mem_cons_of_mem c hpost
      · exact List.mem_cons_self
    · exact hc.imp (fun h => List.mem_singleton.2 h.1) id
  simp [readLine, hf, hspan, store_append]

/-- **What a call reads**: 99 bytes of a line at most, and then the rest of it remains. -/
theorem readLine_line (m : Mem) {x : List UInt8} (hx : newline ∉ x) (h0 : 0 ∉ x)
    (rest : List UInt8) :
    ∃ post, readLine m (x ++ newline :: rest) = some (x.take 99 ++ 0 :: post,
      if x.length < 99 then rest else x.drop 99 ++ newline :: rest) := by
  have hne : x ++ newline :: rest ≠ [] := List.append_ne_nil_of_right_ne_nil x
    (List.cons_ne_nil _ _)
  split_ifs with hlt
  · rw [List.take_of_length_le (by omega)]
    refine ⟨0 :: m.drop (x.length + 2), readLine_of_fgets hx h0 (.inl ⟨rfl, List.mem_cons_self⟩) ?_⟩
    rw [fgets, if_neg hne, N, takeLine_line hx hlt]
    simp
  · have hlen : (x.take 99).length = 99 := List.length_take_of_le (by omega)
    refine ⟨m.drop 100, readLine_of_fgets (fun h => hx (List.mem_of_mem_take h))
      (fun h => h0 (List.mem_of_mem_take h)) (.inr rfl) ?_⟩
    rw [fgets, if_neg hne, N, takeLine_long hx (by omega)]
    simp [hlen]

/-! ### The answer -/

theorem report_eq {a b post post' : Mem} (ha : 0 ∉ a) (hb : 0 ∉ b) :
    report (a ++ 0 :: post) (b ++ 0 :: post') = some (answer a b) := by
  obtain ⟨-, r, hr, hval⟩ := findSubstring_spec ⟨a ++ 0 :: post, 0, by simp⟩
    ⟨b ++ 0 :: post', 0, by simp⟩
  rw [Str.text, Str.text, str_zero ha, str_zero hb] at hval
  change (findSubstring (a ++ 0 :: post) (b ++ 0 :: post') 0 0).value = some r at hr
  rw [report, hr, Option.bind_some, answer, hval]
  split_ifs with hnil
  · rfl
  · cases hfirst : first b a with
    | none => rfl
    | some i =>
      have hi : i ≤ a.length := (first_eq_some_iff.1 hfirst).le_length
      have hcstr : cstr (a ++ 0 :: post) (0 + i) = some (a.drop i) := by
        have hsplit : a ++ 0 :: post = a.take i ++ a.drop i ++ 0 :: post := by
          rw [List.take_append_drop]
        have hlen : 0 + i = (a.take i).length := by rw [List.length_take_of_le hi, Nat.zero_add]
        rw [hsplit, hlen]
        exact cstr_append fun h => ha (List.mem_of_mem_drop h)
      rw [Option.map_some]
      change (cstr _ _).map _ = _
      rw [hcstr]
      rfl

/-- The pattern of the search: the second line, or what remains of the first one. -/
def pattern (x y : List UInt8) : List UInt8 :=
  if x.length < 99 then y.take 99 else (x.drop 99).take 99

/-- **What the program compares**, for two lines of any length. -/
theorem main_eq (l : Locals) (x y : Line) (rest : List UInt8) :
    main l (x.text ++ newline :: (y.text ++ newline :: rest)) =
      some ⟨pattern x.text y.text,
        [askString, askSubstring, answer (x.text.take 99) (pattern x.text y.text)]⟩ := by
  obtain ⟨post, hx⟩ := readLine_line l.str x.newline_notMem x.nul_notMem
    (y.text ++ newline :: rest)
  have hsecond : ∃ post' rest', readLine l.substr (if x.text.length < 99 then
      y.text ++ newline :: rest else x.text.drop 99 ++ newline :: (y.text ++ newline :: rest))
        = some (pattern x.text y.text ++ 0 :: post', rest') ∧ 0 ∉ pattern x.text y.text := by
    unfold pattern
    split_ifs
    · obtain ⟨post', hy⟩ := readLine_line l.substr y.newline_notMem y.nul_notMem rest
      exact ⟨post', _, hy, fun h => y.nul_notMem (List.mem_of_mem_take h)⟩
    · obtain ⟨post', hy⟩ := readLine_line l.substr
        (fun h => x.newline_notMem (List.mem_of_mem_drop h))
        (fun h => x.nul_notMem (List.mem_of_mem_drop h)) (y.text ++ newline :: rest)
      exact ⟨post', _, hy, fun h =>
        x.nul_notMem (List.mem_of_mem_drop (List.mem_of_mem_take h))⟩
  obtain ⟨post', rest', hy, hnul⟩ := hsecond
  have htake : 0 ∉ x.text.take 99 := fun h => x.nul_notMem (List.mem_of_mem_take h)
  simp [main, hx, hy, report_eq htake hnul, cstr_zero hnul]

/-! ### When the answer is right -/

section Answers

variable {a b x y z t : List UInt8} {o : Out}

theorem found_mem : .found t ∈ [askString, askSubstring, o] ↔ o = .found t := by
  simp [askString, askSubstring, eq_comm]

theorem notFound_mem : notFound ∈ [askString, askSubstring, o] ↔ o = notFound := by
  have hstring : notFound ≠ askString := by decide
  have hsubstring : notFound ≠ askSubstring := by decide
  simp [hstring, hsubstring, eq_comm]

theorem answers_output : Answers x y ⟨z, [askString, askSubstring, o]⟩ ↔
    z = y ∧ ((∃ t, o = .found t) ↔ y <:+: x) ∧ (o = notFound ↔ ¬ y <:+: x) ∧
      ∀ t, o = .found t → ∃ i, IsFirst y x i ∧ t = x.drop i := by
  simp only [Answers, found_mem, notFound_mem]

/-- Only for two empty strings the search is not asked. -/
theorem answer_eq (h : a ≠ [] ∨ b ≠ []) :
    answer a b = match first b a with
      | some i => .found (a.drop i)
      | none => notFound := by
  unfold answer
  split_ifs with ha
  · subst ha
    rw [first_nil_of_ne_nil (h.resolve_left fun hne => hne rfl)]
  · rfl

theorem answer_of_isFirst (h : a ≠ [] ∨ b ≠ []) {i : ℕ} (hi : IsFirst b a i) :
    answer a b = .found (a.drop i) := by
  rw [answer_eq h, first_eq_some_iff.2 hi]

theorem answer_of_not_isInfix (h : ¬ b <:+: a) : answer a b = notFound := by
  have hne : b ≠ [] := by
    rintro rfl
    exact h List.nil_infix
  rw [answer_eq (.inr hne), first_eq_none_iff.2 h]

/-- The answer is right for the strings that are compared. -/
theorem answers_answer (h : a ≠ [] ∨ b ≠ []) :
    Answers a b ⟨b, [askString, askSubstring, answer a b]⟩ := by
  rw [answers_output]
  refine ⟨rfl, ?_⟩
  by_cases hab : b <:+: a
  · obtain ⟨i, hi⟩ := exists_isFirst hab
    rw [answer_of_isFirst h hi]
    refine ⟨iff_of_true ⟨_, rfl⟩ hab, iff_of_false (fun he => by cases he) (not_not.2 hab), ?_⟩
    intro t ht
    cases ht
    exact ⟨i, hi, rfl⟩
  · rw [answer_of_not_isInfix hab]
    refine ⟨iff_of_false ?_ hab, iff_of_true rfl hab, ?_⟩
    · rintro ⟨t, ht⟩
      cases ht
    · intro t ht
      cases ht

/-- The empty line is not found in the empty line. -/
theorem not_answers_nil : ¬ Answers [] [] ⟨z, [askString, askSubstring, answer [] []]⟩ := by
  rw [answers_output]
  rintro ⟨-, -, hnot, -⟩
  exact hnot.1 rfl List.nil_infix

/-- What is printed of a longer line ends too soon. -/
theorem not_answers_cut (hlen : 99 < x.length) :
    ¬ Answers x y ⟨pattern x y, [askString, askSubstring, answer (x.take 99) (pattern x y)]⟩ := by
  rw [answers_output]
  rintro ⟨hz, hfound, -, htext⟩
  have hy : y <:+: x := by
    rw [← hz, pattern, if_neg (by omega)]
    exact (List.take_prefix _ _).isInfix.trans (List.drop_suffix _ _).isInfix
  obtain ⟨t, ht⟩ := hfound.2 hy
  obtain ⟨i, hi, hti⟩ := htext t ht
  obtain ⟨j, hj, htj⟩ : ∃ j, IsFirst (pattern x y) (x.take 99) j ∧ t = (x.take 99).drop j := by
    have hab := answers_answer (a := x.take 99) (b := pattern x y) (.inl ?_)
    · exact (answers_output.1 hab).2.2.2 t ht
    · exact List.ne_nil_of_length_pos (by rw [List.length_take_of_le hlen.le]; decide)
  have hji : i ≤ j := by
    refine hi.le ?_
    rw [← hz]
    exact hj.1.extend (List.take_prefix 99 x)
  have hcount := congrArg List.length (hti.symm.trans htj)
  have hj' := hj.le_length
  rw [List.length_drop, List.length_drop, List.length_take_of_le hlen.le] at hcount
  rw [List.length_take_of_le hlen.le] at hj'
  omega

end Answers

/-- The lines for which the program does what it is asked: the first one leaves room for its
newline, the second one fits, and they are not both empty; or the first one just fits, and the
newline that is then left is the second one. -/
def Fit (x y : List UInt8) : Prop :=
  x.length ≤ 98 ∧ y.length ≤ 99 ∧ (x ≠ [] ∨ y ≠ []) ∨ x.length = 99 ∧ y = []

/-- **For which lines the answer is right.** -/
theorem answers_iff (l : Locals) (x y : Line) (rest : List UInt8) :
    (∃ r, main l (x.text ++ newline :: (y.text ++ newline :: rest)) = some r ∧
      Answers x.text y.text r) ↔ Fit x.text y.text := by
  simp only [main_eq, Option.some_inj, exists_eq_left']
  rcases lt_trichotomy x.text.length 99 with hlt | heq | hgt
  · have hx : x.text.take 99 = x.text := List.take_of_length_le hlt.le
    have hp : pattern x.text y.text = y.text.take 99 := if_pos hlt
    rw [hx, hp, Fit, or_iff_left (fun h => hlt.ne h.1), and_iff_right (Nat.le_of_lt_succ hlt)]
    by_cases hy : y.text.length ≤ 99
    · rw [List.take_of_length_le hy, and_iff_right hy]
      by_cases hne : x.text ≠ [] ∨ y.text ≠ []
      · exact iff_of_true (answers_answer hne) hne
      · refine iff_of_false ?_ hne
        rw [not_or, not_not, not_not] at hne
        rw [hne.1, hne.2]
        exact not_answers_nil
    · refine iff_of_false (fun h => hy ?_) fun h => hy h.1
      rw [← h.1]
      exact List.length_take_le 99 y.text
  · have hx : x.text.take 99 = x.text := List.take_of_length_le heq.le
    have hp : pattern x.text y.text = [] := by
      rw [pattern, if_neg (by omega), List.drop_of_length_le heq.le, List.take_nil]
    have hne : x.text ≠ [] := List.ne_nil_of_length_pos (by omega)
    rw [hx, hp, Fit, or_iff_right (fun h => by omega), and_iff_right heq]
    constructor
    · exact fun h => h.1.symm
    · intro hy
      rw [hy]
      exact answers_answer (.inl hne)
  · refine iff_of_false (not_answers_cut hgt) ?_
    rintro (⟨h, -⟩ | ⟨h, -⟩) <;> omega

/-- Arrays of zeros. -/
def blank : Locals := ⟨List.replicate N 0, List.replicate N 0, rfl, rfl⟩

/-- The lines `abc` and `bc`, and an empty one. -/
def abc : Line := ⟨[97, 98, 99], by decide, by decide⟩
def bc : Line := ⟨[98, 99], by decide, by decide⟩
def emptyLine : Line := ⟨[], by decide, by decide⟩

theorem answers_lines :
    (∃ r, main blank (abc.text ++ newline :: (bc.text ++ newline :: [])) = some r ∧
      Answers abc.text bc.text r) ∧
    ¬ ∃ r, main blank (emptyLine.text ++ newline :: (emptyLine.text ++ newline :: [])) = some r ∧
      Answers emptyLine.text emptyLine.text r := by
  constructor
  · exact (answers_iff blank abc bc []).2 (.inl ⟨by decide, by decide, .inl (by decide)⟩)
  · intro h
    rcases (answers_iff blank emptyLine emptyLine []).1 h with ⟨-, -, hne⟩ | ⟨hlength, -⟩
    · exact absurd hne (by decide)
    · exact absurd hlength (by decide)

/-- Two empty lines: the program says that the second one does not occur in the first one. -/
theorem empty_not_found :
    main blank [newline, newline] = some ⟨[], [askString, askSubstring, notFound]⟩ ∧
      ¬ Answers [] [] ⟨[], [askString, askSubstring, notFound]⟩ ∧ ([] : List UInt8) <:+: [] :=
  ⟨by decide +kernel, not_answers_nil, List.nil_infix⟩

/-- A line of 100 bytes: its last byte is what is looked for, whatever the second line is. -/
example : main blank (List.replicate 99 97 ++ [98, newline, 97, newline])
    = some ⟨[98], [askString, askSubstring, notFound]⟩ := by decide +kernel

end Substring
end PosixHw
