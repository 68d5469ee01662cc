import PosixHw.Base.CString

/-!
# Packets in memory

A program builds a packet in a buffer, one field after the other.  The host is little-endian.

* `bytes w` are the bytes of a 16-bit word in memory, `htons` puts them into network order and
  `word m p` is the word at `p`;
* `assign` is an assignment to a bit-field of a byte;
* `inetPton` and `etherAton` convert addresses from text;
* `fill ws m` makes the writes `ws` one after the other, `stored ws q` is the byte that they leave
  at `q`, and `covered ws q` says that there is one.
-/

namespace PosixHw
namespace Packet

open CString

/-! ### Words -/

/-- The bytes of a word. -/
def bytes (w : UInt16) : List UInt8 := [w.toUInt8, (w >>> 8).toUInt8]

def htons (w : UInt16) : UInt16 := (w <<< 8) ||| (w >>> 8)

/-- The word at `p`. -/
def word (m : Mem) (p : ℕ) : Option ℕ :=
  m[p]?.bind fun lo => m[p + 1]?.map fun hi => lo.toNat + 256 * hi.toNat

/-- The byte at `p` is replaced by a function of it. -/
def assign (m : Mem) (p : ℕ) (f : UInt8 → UInt8) : Option Mem :=
  m[p]?.bind fun b => store m p (f b)

theorem toNat_bytes (w : UInt16) :
    w.toUInt8.toNat + 256 * (w >>> 8).toUInt8.toNat = w.toNat := by
  have hlt := w.toNat_lt
  have hshift : (w >>> 8).toNat = w.toNat / 256 := by
    rw [UInt16.toNat_shiftRight, Nat.shiftRight_eq_div_pow]
    rfl
  rw [UInt16.toNat_toUInt8, UInt16.toNat_toUInt8, hshift]
  omega

/-- A word is known from its bytes. -/
theorem bytes_injective : Function.Injective bytes := by
  intro w w' h
  rw [bytes, bytes, List.cons.injEq, List.cons.injEq] at h
  rw [← UInt16.toNat_inj, ← toNat_bytes w, ← toNat_bytes w', h.1, h.2.1]

theorem word_congr {m m' : Mem} {p : ℕ} (h : m[p]? = m'[p]?) (h' : m[p + 1]? = m'[p + 1]?) :
    word m p = word m' p := by
  rw [word, word, h, h']

theorem word_defined {m : Mem} {p : ℕ} (h : p + 1 < m.length) : ∃ w, word m p = some w := by
  refine ⟨m[p].toNat + 256 * m[p + 1].toNat, ?_⟩
  rw [word, List.getElem?_eq_getElem (by omega), List.getElem?_eq_getElem h]
  rfl

theorem word_lt {m : Mem} {p w : ℕ} (h : word m p = some w) : w < 65536 := by
  obtain ⟨lo, -, h⟩ := Option.bind_eq_some_iff.1 h
  obtain ⟨hi, -, rfl⟩ := Option.map_eq_some_iff.1 h
  have hlo := lo.toNat_lt
  have hhi := hi.toNat_lt
  omega

/-- Equal words have equal bytes. -/
theorem bytes_eq_of_word_eq {m m' : Mem} {p : ℕ} (hp : p + 1 < m.length) (hp' : p + 1 < m'.length)
    (h : word m p = word m' p) : m[p]? = m'[p]? ∧ m[p + 1]? = m'[p + 1]? := by
  have hlo := List.getElem?_eq_getElem (Nat.lt_of_succ_lt hp)
  have hlo' := List.getElem?_eq_getElem (Nat.lt_of_succ_lt hp')
  have hhi := List.getElem?_eq_getElem hp
  have hhi' := List.getElem?_eq_getElem hp'
  rw [word, word, hlo, hlo', hhi, hhi'] at h
  have hw : m[p].toNat + 256 * m[p + 1].toNat = m'[p].toNat + 256 * m'[p + 1].toNat :=
    Option.some_inj.1 h
  have hlt := m[p].toNat_lt
  have hlt' := m'[p].toNat_lt
  rw [hlo, hlo', hhi, hhi', Option.some_inj, Option.some_inj, ← UInt8.toNat_inj, ← UInt8.toNat_inj]
  omega

/-- Two bit-fields that make up a byte. -/
theorem assign_assign {m : Mem} {p : ℕ} {f g : UInt8 → UInt8} {c : UInt8} (h : ∀ b, g (f b) = c) :
    ((assign m p f).bind fun m' => assign m' p g) = write m p [c] := by
  unfold assign write store
  rcases lt_or_ge p m.length with hp | hp
  · have hp' : p < (m.set p (f m[p])).length := by rwa [List.length_set]
    rw [List.getElem?_eq_getElem hp, Option.bind_some, if_pos hp, Option.bind_some,
      List.getElem?_eq_getElem hp', Option.bind_some, if_pos hp', List.getElem_set_self, h,
      List.set_set, List.length_singleton, if_pos (Nat.succ_le_of_lt hp),
      List.set_eq_take_append_cons_drop, if_pos hp, List.append_assoc, List.singleton_append]
  · rw [List.getElem?_eq_none hp, if_neg (by rw [List.length_singleton]; omega)]
    rfl

/-! ### Addresses -/

/-- The number that decimal digits stand for, if it is at most 255 and has no leading zero. -/
def octet (cs : List Char) : Option UInt8 :=
  let n := cs.foldl (fun n c => 10 * n + (c.toNat - '0'.toNat)) 0
  if cs ≠ [] ∧ cs.all Char.isDigit ∧ (cs.head? = some '0' → cs = ['0']) ∧ n < 256 then
    some (UInt8.ofNat n)
  else none

/-- `inet_pton(AF_INET, s, ..)`: the four bytes that it stores. -/
def inetPton (s : String) : Option (List UInt8) :=
  let fields := s.toList.splitOn '.'
  if fields.length = 4 then fields.mapM octet else none

/-- A hexadecimal digit. -/
def hexDigit (c : Char) : Option ℕ :=
  if c.isDigit then some (c.toNat - '0'.toNat)
  else if 'a' ≤ c.toLower ∧ c.toLower ≤ 'f' then some (c.toLower.toNat - 'a'.toNat + 10)
  else none

/-- One or two hexadecimal digits. -/
def hexOctet : List Char → Option UInt8
  | [c] => (hexDigit c).map UInt8.ofNat
  | [c, d] => (hexDigit c).bind fun n => (hexDigit d).map fun k => UInt8.ofNat (16 * n + k)
  | _ => none

/-- `ether_aton_r(s, ..)`: the six bytes that it stores. -/
def etherAton (s : String) : Option (List UInt8) :=
  let fields := s.toList.splitOn ':'
  if fields.length = 6 then fields.mapM hexOctet else none

/-! ### Sequences of writes -/

/-- Makes the writes one after the other. -/
def fill : List (ℕ × List UInt8) → Mem → Option Mem
  | [], m => some m
  | w :: ws, m => (write m w.1 w.2).bind (fill ws)

/-- The byte that the writes leave at `q`: the last one that is written there. -/
def stored : List (ℕ × List UInt8) → ℕ → Option UInt8
  | [], _ => none
  | w :: ws, q => (stored ws q).or (if w.1 ≤ q then w.2[q - w.1]? else none)

/-- One of the writes is at `q`. -/
def covered : List (ℕ × List UInt8) → ℕ → Bool
  | [], _ => false
  | w :: ws, q => covered ws q || decide (w.1 ≤ q ∧ q < w.1 + w.2.length)

variable {m m' a a' : Mem} {ws vs : List (ℕ × List UInt8)} {p q n : ℕ} {bs : List UInt8}

theorem fill_append : fill (ws ++ vs) m = (fill ws m).bind (fill vs) := by
  induction ws generalizing m with
  | nil => rfl
  | cons w ws ih =>
    rw [List.cons_append, fill, fill, Option.bind_assoc]
    exact congrArg _ (funext fun _ => ih)

theorem isSome_stored : (stored ws q).isSome = covered ws q := by
  induction ws with
  | nil => rfl
  | cons w ws ih =>
    rw [stored, covered, Option.isSome_or, ih]
    congr 1
    split_ifs with hle
    · rw [Bool.eq_iff_iff, isSome_getElem?, decide_eq_true_iff]
      omega
    · simp [hle]

theorem length_fill (h : fill ws m = some a) : a.length = m.length := by
  induction ws generalizing m with
  | nil =>
    cases h
    rfl
  | cons w ws ih =>
    obtain ⟨b, hb, h⟩ := Option.bind_eq_some_iff.1 h
    rw [ih h, length_write hb]

/-- Writes inside of the memory are defined. -/
theorem fill_defined (h : ∀ w ∈ ws, w.1 + w.2.length ≤ m.length) : ∃ a, fill ws m = some a := by
  induction ws generalizing m with
  | nil => exact ⟨m, rfl⟩
  | cons w ws ih =>
    have hw : w.1 + w.2.length ≤ m.length := h w List.mem_cons_self
    have hwrite : write m w.1 w.2 = some _ := if_pos hw
    obtain ⟨a, ha⟩ := ih fun v hv => by
      rw [length_write hwrite]
      exact h v (List.mem_cons_of_mem _ hv)
    exact ⟨a, by rw [fill, hwrite, Option.bind_some, ha]⟩

theorem getElem?_write (h : write m p bs = some a) :
    a[q]? = (if p ≤ q then bs[q - p]? else none).or m[q]? := by
  rcases lt_or_ge q p with hq | hq
  · rw [write_frame h (.inl hq), if_neg (by omega), Option.none_or]
  rw [if_pos hq]
  rcases lt_or_ge (q - p) bs.length with hin | hout
  · unfold write at h
    split_ifs at h with hle
    cases h
    have htake : (m.take p).length = p := List.length_take_of_le (by omega)
    rw [List.append_assoc, List.getElem?_append_right (by omega), htake,
      List.getElem?_append_left hin, List.getElem?_eq_getElem hin, Option.some_or]
  · rw [write_frame h (.inr (by omega)), List.getElem?_eq_none hout, Option.none_or]

/-- **What the writes leave at a place**: the byte stored there last, or the byte from before. -/
theorem getElem?_fill (h : fill ws m = some a) : a[q]? = (stored ws q).or m[q]? := by
  induction ws generalizing m with
  | nil =>
    cases h
    rfl
  | cons w ws ih =>
    obtain ⟨b, hb, h⟩ := Option.bind_eq_some_iff.1 h
    rw [ih h, getElem?_write hb, stored, Option.or_assoc]

theorem getElem?_fill_of_not_covered (h : fill ws m = some a) (hq : covered ws q = false) :
    a[q]? = m[q]? := by
  rw [← isSome_stored, Option.isSome_eq_false_iff, Option.isNone_iff_eq_none] at hq
  rw [getElem?_fill h, hq, Option.none_or]

/-- Writes before a string leave it as it is. -/
theorem strlen_fill (h : fill ws m = some a) (hws : ∀ w ∈ ws, w.1 + w.2.length ≤ p) :
    strlen a p = strlen m p := by
  have hfree : ∀ {vs : List (ℕ × List UInt8)} {q : ℕ}, (∀ w ∈ vs, w.1 + w.2.length ≤ p) → p ≤ q →
      covered vs q = false := by
    intro vs q hvs hq
    induction vs with
    | nil => rfl
    | cons w vs ih =>
      have hw : w.1 + w.2.length ≤ p := hvs w List.mem_cons_self
      rw [covered, ih fun v hv => hvs v (List.mem_cons_of_mem _ hv), Bool.false_or,
        decide_eq_false_iff_not]
      omega
  refine strlen_congr (List.ext_getElem? fun i => ?_)
  rw [List.getElem?_drop, List.getElem?_drop]
  exact getElem?_fill_of_not_covered h (hfree hws (Nat.le_add_right p i))

/-- **Two memories agree after the same writes** wherever they are covered or agreed before. -/
theorem fill_congr (h : fill ws m = some a) (h' : fill ws m' = some a')
    (hq : covered ws q = true ∨ m[q]? = m'[q]?) : a[q]? = a'[q]? := by
  rw [getElem?_fill h, getElem?_fill h']
  rcases hq with hq | hq
  · rw [← isSome_stored, Option.isSome_iff_exists] at hq
    obtain ⟨b, hb⟩ := hq
    rw [hb, Option.some_or, Option.some_or]
  · rw [hq]

end Packet
end PosixHw
