import PosixHw.Base.CString

/-!
# A password

The program `functions/task.c`: reads a line with `gets` into an array of 12 bytes and compares it
with a word.

`gets` knows nothing of the length of the array; a store outside of it is undefined, and so is then
the whole program.  At the end of the input `gets` stores nothing, and the program does not look at
its result: it compares what the array happens to hold.  `main_decides` says when these two things
happen, and what the program answers otherwise.
-/

namespace PosixHw
namespace Password

open CString

/-- The length of `Pass`. -/
def passSize : ℕ := 12

/-- `Pass`, with any bytes in it. -/
abbrev Pass : Type := { m : Mem // m.length = passSize }

/-- `test`, without its NUL. -/
def word : List UInt8 := "test".toUTF8.data.toList

/-- What `gets` stores from the place `i` on: the bytes up to a newline or to the end of the input,
and a NUL. -/
def getsLoop : Mem → ℕ → List UInt8 → Option Mem
  | m, i, [] => store m i 0
  | m, i, b :: input =>
    if b = newline then store m i 0 else (store m i b).bind fun m => getsLoop m (i + 1) input

/-- `gets(m)`; at the end of the input the array is left as it is. -/
def gets (m : Mem) (input : List UInt8) : Option Mem :=
  if input = [] then some m else getsLoop m 0 input

/-- `strcmp`: how the first bytes that differ compare, or `eq` at a common NUL; undefined if it runs
over the end of an array. -/
def strcmp : Mem → Mem → Option Ordering
  | x :: a, y :: b =>
    if x = y then if x = 0 then some .eq else strcmp a b else some (compare x.toNat y.toNat)
  | _, _ => none

/-- `IsPassOk` -/
def isPassOk (pass : Pass) (input : List UInt8) : Option Bool := do
  let m ← gets pass.1 input
  let r ← strcmp m (word ++ [0])
  pure (r == .eq)

/-- What has been printed, and the exit status. -/
structure Result where
  out : List String
  status : ℕ
  deriving DecidableEq

def granted : Result := ⟨["Enter password:\n", "Access granted!\n"], 0⟩
def bad : Result := ⟨["Enter password:\n", "Bad password!\n"], 1⟩

/-- `main` -/
def main (pass : Pass) (input : List UInt8) : Option Result :=
  (isPassOk pass input).map fun ok => if ok then granted else bad

/-- The first line of the input. -/
def line (input : List UInt8) : List UInt8 := input.takeWhile (· ≠ newline)

/-- The word has been typed, perhaps with a NUL and more behind it; or nothing has been typed, and
the word is what the array happens to hold. -/
def Accepted (pass : Pass) (input : List UInt8) : Prop :=
  if input = [] then word ++ [0] <+: pass.1 else (line input).takeWhile (· ≠ 0) = word

instance (pass : Pass) (input : List UInt8) : Decidable (Accepted pass input) :=
  inferInstanceAs (Decidable
    (if input = [] then word ++ [0] <+: pass.1 else (line input).takeWhile (· ≠ 0) = word))

/-! ### gets and strcmp -/

/-- The line and a NUL are stored, if there is room for them. -/
theorem getsLoop_eq (pre old input : Mem) :
    getsLoop (pre ++ old) pre.length input
      = if (line input).length < old.length then
          some (pre ++ line input ++ 0 :: old.drop ((line input).length + 1)) else none := by
  -- over the input, with any part of the line stored already
  induction input generalizing pre old with
  | nil =>
    cases old with
    | nil => simp [getsLoop, line, store]
    | cons c old => simp [getsLoop, line, store_append]
  | cons b input ih =>
    cases old with
    | nil =>
      rw [List.length_nil, if_neg (Nat.not_lt_zero _), getsLoop]
      simp [store]
    | cons c old =>
      by_cases hb : b = newline
      · simp [getsLoop, line, hb, store_append]
      · -- one byte is stored, and the rest of the line behind it
        have hline : line (b :: input) = b :: line input := by simp [line, hb]
        have hrest := ih (pre ++ [b]) old
        rw [List.append_assoc, List.singleton_append, List.length_append,
          List.length_singleton] at hrest
        rw [getsLoop, if_neg hb, store_append, Option.bind_some, hrest, hline]
        simp

theorem gets_eq (m : Mem) {input : List UInt8} (hne : input ≠ []) :
    gets m input = if (line input).length < m.length then
      some (line input ++ 0 :: m.drop ((line input).length + 1)) else none := by
  have hloop := getsLoop_eq [] m input
  rw [List.nil_append, List.length_nil, List.nil_append] at hloop
  rw [gets, if_neg hne, hloop]

/-- The comparison with a string ends within an array that is long enough for the string. -/
theorem strcmp_eq (w : List UInt8) (hw : 0 ∉ w) {m : Mem} (hm : w.length < m.length) :
    ∃ r, strcmp m (w ++ [0]) = some r ∧ (r = .eq ↔ w ++ [0] <+: m) := by
  induction w generalizing m with
  | nil =>
    obtain ⟨x, m, rfl⟩ := List.exists_cons_of_length_pos hm
    -- the string has ended: does the array have a NUL there?
    by_cases hx : x = 0
    · subst hx
      exact ⟨.eq, rfl, iff_of_true rfl (by simp)⟩
    · refine ⟨compare x.toNat 0, by simp [strcmp, hx], ?_⟩
      rw [Nat.compare_eq_eq]
      simpa [List.cons_prefix_cons, eq_comm] using UInt8.toNat_inj (b := 0)
  | cons y w ih =>
    obtain ⟨x, m, rfl⟩ := List.exists_cons_of_length_pos (Nat.zero_lt_of_lt hm)
    rw [List.mem_cons, not_or] at hw
    rw [List.cons_append, List.cons_prefix_cons]
    by_cases hxy : x = y
    · subst hxy
      obtain ⟨r, hr, hiff⟩ := ih hw.2 (Nat.lt_of_succ_lt_succ hm)
      refine ⟨r, by simp [strcmp, Ne.symm hw.1, hr], ?_⟩
      rw [hiff, eq_self_iff_true, true_and]
    · refine ⟨compare x.toNat y.toNat, by simp [strcmp, hxy], ?_⟩
      rw [Nat.compare_eq_eq]
      refine iff_of_false (fun h => hxy (UInt8.toNat_inj.1 h)) fun h => hxy h.1.symm

/-- A string in the array is the word if its bytes up to the first NUL are. -/
theorem prefix_iff {l w post : List UInt8} (hw : 0 ∉ w) :
    w ++ [0] <+: l ++ 0 :: post ↔ l.takeWhile (· ≠ 0) = w := by
  have hstr : str (l ++ 0 :: post) 0 = l.takeWhile (· ≠ 0) := by
    rw [str, List.drop_zero, takeWhile_nul]
  constructor
  · rintro ⟨r, hr⟩
    rw [List.append_assoc, List.singleton_append] at hr
    rw [← hstr, ← hr, str_zero hw]
  · rintro rfl
    obtain ⟨r, hr⟩ := drop_eq_str_append (m := l ++ 0 :: post) (p := 0) (by simp)
    rw [List.drop_zero, hstr] at hr
    exact ⟨r, by rw [hr, List.append_assoc, List.singleton_append]⟩

/-! ### The program -/

theorem nul_notMem_word : 0 ∉ word := by decide

theorem gets_eq_none_iff (pass : Pass) (input : List UInt8) :
    gets pass.1 input = none ↔ passSize ≤ (line input).length := by
  by_cases hne : input = []
  · subst hne
    exact iff_of_false (by simp [gets]) (by decide)
  · rw [gets_eq _ hne, pass.2, ← not_lt]
    by_cases hlt : (line input).length < passSize
    · simp [hlt]
    · simp [hlt]

/-- The comparison is defined, and is about what has been typed or what was in the array. -/
theorem strcmp_gets {pass : Pass} {input : List UInt8} {m : Mem} (h : gets pass.1 input = some m) :
    ∃ r, strcmp m (word ++ [0]) = some r ∧ (r = .eq ↔ Accepted pass input) := by
  unfold Accepted
  by_cases hne : input = []
  · subst hne
    cases h
    rw [if_pos rfl]
    exact strcmp_eq word nul_notMem_word (by rw [pass.2]; decide)
  · rw [gets_eq _ hne] at h
    split_ifs at h with hlt
    cases h
    rw [if_neg hne, ← prefix_iff nul_notMem_word]
    -- the NUL of `gets` ends the comparison at the latest
    refine strcmp_eq word nul_notMem_word ?_
    rw [pass.2] at hlt
    have hword : word.length < passSize := by decide
    rw [List.length_append, List.length_cons, List.length_drop, pass.2]
    omega

/-- **What the program does** with any input and any bytes in the array: a line of 12 bytes or more
is stored outside of the array; otherwise access is granted exactly if the word is accepted.  The
array does not matter, unless there is no input at all. -/
theorem main_decides (pass : Pass) (input : List UInt8) :
    main pass input = (if passSize ≤ (line input).length then none
      else some (if Accepted pass input then granted else bad)) ∧
      ((∀ p p' : Pass, main p input = main p' input) ↔ input ≠ []) := by
  have heq : ∀ p : Pass, main p input = if passSize ≤ (line input).length then none
      else some (if Accepted p input then granted else bad) := by
    intro p
    split_ifs with hlong hacc
    · rw [main, isPassOk, (gets_eq_none_iff p input).2 hlong]
      rfl
    all_goals
      obtain ⟨m, hm⟩ := Option.ne_none_iff_exists'.1 (mt (gets_eq_none_iff p input).1 hlong)
      obtain ⟨r, hr, hiff⟩ := strcmp_gets hm
      simp [main, isPassOk, hm, hr, hiff, hacc]
  refine ⟨heq pass, fun hsame hnil => ?_, fun hne p p' => ?_⟩
  · -- two arrays, one with the word in it
    subst hnil
    have hword := hsame ⟨word ++ List.replicate 8 0, rfl⟩ ⟨List.replicate 12 1, rfl⟩
    revert hword
    decide
  · have hsame : Accepted p input ↔ Accepted p' input := by
      rw [Accepted, Accepted, if_neg hne, if_neg hne]
    simp only [heq, hsame]

end Password
end PosixHw
