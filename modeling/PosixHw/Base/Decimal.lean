import PosixHw.Base.Numeral
import PosixHw.Base.Scanf

/-!
# Numbers as they are typed

A `Decimal` is a way to type a number: white space, a sign or none, and digits, with any zeros
before them.  `scanInt_text` says that `%d` stores its number and leaves what is behind it, unless
a digit follows directly; `scanInt_texts` that several of them are read one after the other.

`Decimal.ofInt` is the way in which `printf` writes a number with `%d`, `Decimal.onLine` the same
on a line of its own.
-/

namespace PosixHw
namespace Scanf

/-- White space, a sign (`true` for minus) and digits. -/
structure Decimal where
  space : List UInt8
  sign : Option Bool
  digits : List UInt8
  isSpace_space : ∀ b ∈ space, isSpace b = true
  isDigit_digits : ∀ b ∈ digits, isDigit b = true
  digits_ne : digits ≠ []

/-- The byte of a sign. -/
def signText : Option Bool → List UInt8
  | none => []
  | some false => [43]
  | some true => [45]

/-- What is typed. -/
def Decimal.text (d : Decimal) : List UInt8 := d.space ++ signText d.sign ++ d.digits

/-- The number. -/
def Decimal.value (d : Decimal) : ℤ := if d.sign = some true then -ofDigits d.digits
  else ofDigits d.digits

/-- The number that `%d` stores. -/
def Decimal.int (d : Decimal) : ℤ := toInt d.value

/-- There is something between the number and one before it. -/
def Decimal.Apart (d : Decimal) : Prop := d.space ≠ [] ∨ d.sign ≠ none

/-- A number ends here. -/
def Stops (rest : List UInt8) : Prop := ∀ b ∈ rest.head?, isDigit b = false

/-- Several numbers, one after the other. -/
def texts (ds : List Decimal) : List UInt8 := ds.flatMap Decimal.text

variable {d : Decimal} {ds : List Decimal} {rest : List UInt8}

instance (d : Decimal) : Decidable d.Apart := inferInstanceAs (Decidable (_ ∨ _))

/-! ### Digits, signs and white space -/

theorem isSpace_of_isDigit {b : UInt8} (h : isDigit b = true) : isSpace b = false := by
  simp only [isDigit, isSpace, decide_eq_true_eq, decide_eq_false_iff_not] at h ⊢
  rintro (rfl | ⟨-, hle⟩)
  · exact absurd h.1 (by decide)
  · have hlow : 48 ≤ b.toNat := UInt8.le_iff_toNat_le.1 h.1
    have hhigh : b.toNat ≤ 13 := UInt8.le_iff_toNat_le.1 hle
    omega

theorem isDigit_of_isSpace {b : UInt8} (h : isSpace b = true) : isDigit b = false := by
  cases hdigit : isDigit b with
  | false => rfl
  | true =>
    rw [isSpace_of_isDigit hdigit] at h
    cases h

theorem isDigit_ne_sign {b : UInt8} (h : isDigit b = true) : b ≠ 45 ∧ b ≠ 43 := by
  constructor <;> rintro rfl <;> exact absurd h (by decide)

/-- Behind the white space the number begins with its sign or its first digit. -/
theorem dropWhile_text (d : Decimal) (rest : List UInt8) :
    (d.text ++ rest).dropWhile isSpace = signText d.sign ++ (d.digits ++ rest) := by
  obtain ⟨b, digits, hdigits⟩ := List.exists_cons_of_ne_nil d.digits_ne
  have hb : isDigit b = true := d.isDigit_digits b (by rw [hdigits]; exact List.mem_cons_self)
  rw [Decimal.text, List.append_assoc, List.append_assoc,
    List.dropWhile_append_of_pos d.isSpace_space]
  cases d.sign with
  | none =>
    rw [signText, List.nil_append, hdigits]
    apply List.dropWhile_cons_of_neg
    rw [isSpace_of_isDigit hb]
    exact Bool.false_ne_true
  | some negative => cases negative <;> rfl

theorem takeWhile_digits (d : Decimal) (hrest : Stops rest) :
    (d.digits ++ rest).takeWhile isDigit = d.digits := by
  rw [List.takeWhile_append_of_pos d.isDigit_digits]
  cases rest with
  | nil => exact List.append_nil _
  | cons b rest => rw [List.takeWhile_cons, hrest b rfl, if_neg Bool.false_ne_true, List.append_nil]

theorem dropWhile_digits (d : Decimal) (hrest : Stops rest) :
    (d.digits ++ rest).dropWhile isDigit = rest := by
  rw [List.dropWhile_append_of_pos d.isDigit_digits]
  cases rest with
  | nil => rfl
  | cons b rest => rw [List.dropWhile_cons, hrest b rfl, if_neg Bool.false_ne_true]

/-! ### What is read -/

/-- **`%d` reads a number** as it has been typed, and nothing else. -/
theorem scanInt_text (d : Decimal) (hrest : Stops rest) :
    scanInt (d.text ++ rest) = (some d.int, rest) := by
  obtain ⟨b, digits, hdigits⟩ := List.exists_cons_of_ne_nil d.digits_ne
  have hb : isDigit b = true := d.isDigit_digits b (by rw [hdigits]; exact List.mem_cons_self)
  obtain ⟨hminus, hplus⟩ := isDigit_ne_sign hb
  have htake := takeWhile_digits d hrest
  have hdrop := dropWhile_digits d hrest
  have hhead : (d.digits ++ rest).head? = some b := by rw [hdigits]; rfl
  simp only [scanInt]
  rw [dropWhile_text]
  cases hsign : d.sign with
  | none =>
    simp only [signText, List.nil_append, hhead, Option.some.injEq, hminus, hplus, or_self,
      if_false, htake, hdrop, d.digits_ne, Decimal.int, Decimal.value, hsign, reduceCtorEq]
  | some negative =>
    cases negative <;>
      simp [signText, htake, hdrop, d.digits_ne, Decimal.int, Decimal.value, hsign]

/-- A number ends before one that is apart from it. -/
theorem stops_text (hd : d.Apart) : Stops (d.text ++ rest) := by
  intro b hb
  rw [Decimal.text] at hb
  cases hspace : d.space with
  | cons c space =>
    rw [hspace] at hb
    obtain rfl : c = b := Option.some.inj hb
    exact isDigit_of_isSpace (d.isSpace_space c (by rw [hspace]; exact List.mem_cons_self))
  | nil =>
    have hne : d.sign ≠ none := hd.resolve_left fun h => h hspace
    cases hsign : d.sign with
    | none => exact absurd hsign hne
    | some negative =>
      rw [hspace, hsign] at hb
      cases negative <;> obtain rfl := Option.some.inj hb <;> decide

theorem stops_texts (hds : ∀ d ∈ ds, d.Apart) (hrest : Stops rest) : Stops (texts ds ++ rest) := by
  cases ds with
  | nil => exact hrest
  | cons d ds =>
    rw [texts, List.flatMap_cons, List.append_assoc]
    exact stops_text (hds d List.mem_cons_self)

/-- **Numbers are read one after the other.** -/
theorem scanInt_texts (hds : ∀ e ∈ ds, e.Apart) (hrest : Stops rest) :
    scanInt (texts (d :: ds) ++ rest) = (some d.int, texts ds ++ rest) := by
  rw [texts, List.flatMap_cons, List.append_assoc]
  exact scanInt_text d (stops_texts hds hrest)

/-! ### What is written is read back -/

/-- A number that fits into an `int` is stored as it is. -/
theorem toInt_of_fits {n : ℤ} (hlow : -2 ^ 31 ≤ n) (hhigh : n < 2 ^ 31) : toInt n = n := by
  have hclamp : max (-2 ^ 63) (min n (2 ^ 63 - 1)) = n := by omega
  rw [toInt, hclamp]
  exact Int.bmod_eq_of_le (by omega) (by omega)

/-- The byte of a digit. -/
def digitByte (n : ℕ) : UInt8 := UInt8.ofNat (48 + n)

theorem toNat_digitByte {n : ℕ} (h : n < 10) : (digitByte n).toNat = 48 + n := by
  rw [digitByte, UInt8.toNat_ofNat']
  omega

theorem isDigit_digitByte {n : ℕ} (h : n < 10) : isDigit (digitByte n) = true := by
  have hn := toNat_digitByte h
  simp only [isDigit, decide_eq_true_eq, UInt8.le_iff_toNat_le, hn]
  exact ⟨Nat.le_add_right 48 n, by show 48 + n ≤ 57; omega⟩

/-- Digits from the left denote what the digits from the right do. -/
theorem ofDigits_map (ds : List ℕ) (h : ∀ d ∈ ds, d < 10) :
    ofDigits (ds.map digitByte) = (Nat.ofDigits 10 ds.reverse : ℕ) := by
  induction ds using List.reverseRecOn with
  | nil => rfl
  | append_singleton ds d ih =>
    have hd := toNat_digitByte (h d (by simp))
    rw [List.map_append, ofDigits, List.foldl_append, ← ofDigits, ih fun e he => h e (by simp [he]),
      List.reverse_append]
    show 10 * _ + ((digitByte d).toNat - 48 : ℤ) = (Nat.ofDigits 10 (d :: ds.reverse) : ℕ)
    rw [hd, Nat.ofDigits_cons]
    push_cast
    ring

/-- How `printf` writes a number with `%d`. -/
def Decimal.ofInt (n : ℤ) : Decimal where
  space := []
  sign := if n < 0 then some true else none
  digits := (Numeral.numeral 10 n.natAbs).map digitByte
  isSpace_space b hb := absurd hb List.not_mem_nil
  isDigit_digits b hb := by
    obtain ⟨k, hk, rfl⟩ := List.mem_map.1 hb
    exact isDigit_digitByte ((Numeral.isNumeral_numeral (by decide) _).lt k hk)
  digits_ne h := by
    have hnil := List.map_eq_nil_iff.1 h
    by_cases hn : n.natAbs = 0
    · rw [hn, Numeral.numeral_zero] at hnil
      cases hnil
    · rw [Numeral.numeral_of_ne_zero hn, List.reverse_eq_nil_iff,
        Nat.digits_eq_nil_iff_eq_zero] at hnil
      exact hn hnil

theorem value_ofInt (n : ℤ) : (Decimal.ofInt n).value = n := by
  have hnumeral := Numeral.isNumeral_numeral (b := 10) (by decide) n.natAbs
  have hdigits : ofDigits (Decimal.ofInt n).digits = n.natAbs := by
    rw [Decimal.ofInt, ofDigits_map _ hnumeral.lt]
    exact congrArg Nat.cast hnumeral.value
  rw [Decimal.value, hdigits]
  by_cases hn : n < 0
  · have hsign : (Decimal.ofInt n).sign = some true := if_pos hn
    rw [if_pos hsign]
    omega
  · have hsign : (Decimal.ofInt n).sign = none := if_neg hn
    rw [if_neg (by rw [hsign]; exact Option.some_ne_none true ∘ Eq.symm)]
    omega

/-- The number at the beginning of a line. -/
def Decimal.onLine (n : ℤ) : Decimal :=
  { Decimal.ofInt n with
    space := [10]
    isSpace_space := fun b hb => by rw [List.mem_singleton.1 hb]; decide }

theorem apart_onLine (n : ℤ) : (Decimal.onLine n).Apart := .inl (List.cons_ne_nil 10 [])

/-- `scanf` reads back what `printf` has written. -/
theorem int_onLine {n : ℤ} (hlow : -2 ^ 31 ≤ n) (hhigh : n < 2 ^ 31) :
    (Decimal.onLine n).int = n := by
  have hvalue : (Decimal.onLine n).value = (Decimal.ofInt n).value := rfl
  rw [Decimal.int, hvalue, value_ofInt, toInt_of_fits hlow hhigh]

end Scanf
end PosixHw
