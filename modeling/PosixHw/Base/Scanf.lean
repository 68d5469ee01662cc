import Mathlib.Data.List.TakeWhile
import Mathlib.Tactic

/-!
# Conversions of scanf

`scanf` reads the bytes of a stream from the left.  Both conversions skip white space first; `%s`
takes the bytes up to the next white space, `%d` an optional sign and the digits after it.

* `scanStr` returns no byte at the end of the input; `scanf` then stores nothing.
* `scanInt` returns `none` if no digit follows; `scanf` then stores nothing, and a sign is gone.
  The number goes through a 64-bit `long`, where it is clamped, into a 32-bit `int`.
* `scanStr` consumes something unless the input is at its end, `scanInt` if it `Takes` the first
  byte; where it does not, the input stays as it is.
-/

namespace PosixHw
namespace Scanf

/-- White space: space, and the bytes from tab to carriage return. -/
def isSpace (b : UInt8) : Bool := b = 32 ∨ 9 ≤ b ∧ b ≤ 13

/-- A decimal digit. -/
def isDigit (b : UInt8) : Bool := 48 ≤ b ∧ b ≤ 57

/-- `%s`: the token and the input after it. -/
def scanStr (input : List UInt8) : List UInt8 × List UInt8 :=
  let rest := input.dropWhile isSpace
  (rest.takeWhile (! isSpace ·), rest.dropWhile (! isSpace ·))

/-- The number that the digits denote. -/
def ofDigits (ds : List UInt8) : ℤ := ds.foldl (fun n b => 10 * n + (b.toNat - 48 : ℤ)) 0

/-- From a number to the `int` that is stored. -/
def toInt (n : ℤ) : ℤ := (max (-2 ^ 63) (min n (2 ^ 63 - 1))).bmod (2 ^ 32)

/-- `%d`: the number, if there is one, and the input after it. -/
def scanInt (input : List UInt8) : Option ℤ × List UInt8 :=
  let rest := input.dropWhile isSpace
  let negative := rest.head? = some 45
  let rest := if negative ∨ rest.head? = some 43 then rest.tail else rest
  let ds := rest.takeWhile isDigit
  if ds = [] then (none, rest)
  else (some (toInt (if negative then -ofDigits ds else ofDigits ds)), rest.dropWhile isDigit)

/-! ### What is consumed -/

/-- `%d` takes the first byte: it is white space, a sign or a digit. -/
def Takes (input : List UInt8) : Prop :=
  ∃ b ∈ input.head?, isSpace b = true ∨ b = 45 ∨ b = 43 ∨ isDigit b = true

instance (input : List UInt8) : Decidable (Takes input) :=
  inferInstanceAs (Decidable (∃ b ∈ input.head?, _))

variable {input : List UInt8}

theorem length_dropWhile_lt {p : UInt8 → Bool} {b : UInt8} (h : input.head? = some b)
    (hb : p b = true) : (input.dropWhile p).length < input.length := by
  cases input with
  | nil => cases h
  | cons c l =>
    obtain rfl : c = b := Option.some.inj h
    rw [List.dropWhile_cons_of_pos hb, List.length_cons]
    exact Nat.lt_succ_of_le (List.length_dropWhile_le p l)

theorem dropWhile_eq_self {p : UInt8 → Bool} {b : UInt8} (h : input.head? = some b)
    (hb : p b = false) : input.dropWhile p = input := by
  cases input with
  | nil => cases h
  | cons c l =>
    obtain rfl : c = b := Option.some.inj h
    exact List.dropWhile_cons_of_neg (by simp [hb])

theorem length_scanStr_le (input : List UInt8) : (scanStr input).2.length ≤ input.length :=
  (List.length_dropWhile_le _ _).trans (List.length_dropWhile_le _ _)

/-- `%s` consumes something unless the input is at its end. -/
theorem length_scanStr_lt_iff : (scanStr input).2.length < input.length ↔ input ≠ [] := by
  constructor
  · rintro h rfl
    exact Nat.not_lt_zero _ h
  · intro hne
    obtain ⟨b, l, rfl⟩ := List.exists_cons_of_ne_nil hne
    cases hb : isSpace b with
    | true => exact (List.length_dropWhile_le _ _).trans_lt (length_dropWhile_lt rfl hb)
    | false =>
      rw [scanStr, dropWhile_eq_self rfl hb]
      exact length_dropWhile_lt rfl (by simp [hb])

theorem scanStr_nil : scanStr [] = ([], []) := rfl

/-- The input after an optional sign. -/
def unsigned (rest : List UInt8) : List UInt8 :=
  if rest.head? = some 45 ∨ rest.head? = some 43 then rest.tail else rest

theorem length_unsigned_le (rest : List UInt8) : (unsigned rest).length ≤ rest.length := by
  rw [unsigned]
  split_ifs
  · rw [List.length_tail]
    exact Nat.sub_le _ _
  · exact le_rfl

/-- In any case the digits after the sign are consumed. -/
theorem scanInt_snd (input : List UInt8) :
    (scanInt input).2 = (unsigned (input.dropWhile isSpace)).dropWhile isDigit := by
  simp only [scanInt]
  rw [← unsigned]
  by_cases hds : (unsigned (input.dropWhile isSpace)).takeWhile isDigit = []
  · have happend := List.takeWhile_append_dropWhile (p := isDigit)
      (l := unsigned (input.dropWhile isSpace))
    rw [hds, List.nil_append] at happend
    rw [if_pos hds]
    exact happend.symm
  · rw [if_neg hds]

theorem length_scanInt_le (input : List UInt8) : (scanInt input).2.length ≤ input.length := by
  rw [scanInt_snd]
  exact (List.length_dropWhile_le _ _).trans ((length_unsigned_le _).trans
    (List.length_dropWhile_le _ _))

theorem length_scanInt_lt (h : Takes input) : (scanInt input).2.length < input.length := by
  obtain ⟨b, hb, hcases⟩ := h
  have hhead : input.head? = some b := hb
  rw [scanInt_snd]
  cases hspace : isSpace b with
  | true =>
    exact ((List.length_dropWhile_le _ _).trans (length_unsigned_le _)).trans_lt
      (length_dropWhile_lt hhead hspace)
  | false =>
    rw [dropWhile_eq_self hhead hspace]
    have hpos : 0 < input.length := by
      cases input with
      | nil => cases hb
      | cons c l => exact Nat.succ_pos _
    by_cases hsign : b = 45 ∨ b = 43
    · refine (List.length_dropWhile_le _ _).trans_lt ?_
      rw [unsigned, if_pos (by simpa [hhead] using hsign), List.length_tail]
      omega
    · rw [unsigned, if_neg (by simpa [hhead] using hsign)]
      refine length_dropWhile_lt hhead ?_
      rw [hspace] at hcases
      simp only [not_or] at hsign
      tauto

/-- Where `%d` does not take the first byte, it finds no number. -/
theorem scanInt_eq (h : ¬ Takes input) : scanInt input = (none, input) := by
  cases input with
  | nil => rfl
  | cons b l =>
    have hb : ¬ (isSpace b = true ∨ b = 45 ∨ b = 43 ∨ isDigit b = true) := fun hb =>
      h ⟨b, rfl, hb⟩
    simp only [not_or] at hb
    obtain ⟨hspace, hminus, hplus, hdigit⟩ := hb
    simp only [scanInt, List.dropWhile_cons_of_neg hspace, List.head?_cons, Option.some.injEq,
      hminus, hplus, or_self, if_false, List.takeWhile_cons_of_neg hdigit, if_true]

end Scanf
end PosixHw
