import Mathlib.Tactic

/-!
# Flat memory

A memory gives every address its byte; addresses are integers, as in an expression that adds to a
pointer.

* `load` and `store` move sequences of bytes.  What is stored is loaded again (`load_store`), and
  everything outside stays as it is (`store_of_outside`, `load_congr`).
* `StringAt` says that a string stands at an address with its NUL; such a string is read whole
  (`StringAt.string_eq`).
* `encode` and `value` are the little-endian bytes of a number; `int` and `setInt` read and write an
  `int` of four bytes.
-/

namespace PosixHw
namespace Flat

/-- Every address has a byte. -/
abbrev Memory := ℤ → UInt8

/-- The `n` bytes at `p`. -/
def load (m : Memory) (p : ℤ) (n : ℕ) : List UInt8 := (List.range n).map fun k : ℕ => m (p + k)

/-- The memory with the bytes `bs` at `p`. -/
def store (m : Memory) (p : ℤ) (bs : List UInt8) : Memory := fun q =>
  if p ≤ q ∧ q < p + bs.length then bs.getD (q - p).toNat 0 else m q

/-- The string at `p`, in an area of `n` bytes. -/
def string (m : Memory) (p : ℤ) (n : ℕ) : List UInt8 := (load m p n).takeWhile (· ≠ 0)

variable {m m' : Memory} {p q : ℤ} {n : ℕ} {bs : List UInt8}

theorem length_load (m : Memory) (p : ℤ) (n : ℕ) : (load m p n).length = n := by
  rw [load, List.length_map, List.length_range]

/-- Equal bytes are loaded alike. -/
theorem load_congr (h : ∀ q, p ≤ q → q < p + n → m' q = m q) : load m' p n = load m p n := by
  refine List.map_congr_left fun k hk => h _ (by omega) ?_
  have hlt := List.mem_range.1 hk
  omega

theorem store_of_outside (h : q < p ∨ p + bs.length ≤ q) : store m p bs q = m q :=
  if_neg (by omega)

theorem load_store (m : Memory) (p : ℤ) (bs : List UInt8) :
    load (store m p bs) p bs.length = bs := by
  refine List.ext_getElem (length_load _ _ _) fun k hk hk' => ?_
  have hstore : store m p bs (p + k) = bs.getD (p + k - p).toNat 0 := if_pos (by omega)
  have hindex : (p + k - p).toNat = k := by omega
  simp only [load, List.getElem_map, List.getElem_range]
  rw [hstore, hindex, List.getD_eq_getElem?_getD, List.getElem?_eq_getElem hk', Option.getD_some]

/-! ### Strings -/

/-- The string `s` stands at `p`, with its NUL. -/
def StringAt (m : Memory) (p : ℤ) (s : List UInt8) : Prop :=
  0 ∉ s ∧ load m p (s.length + 1) = s ++ [0]

section Strings

variable {s : List UInt8}

theorem load_add (m : Memory) (p : ℤ) (a b : ℕ) :
    load m p (a + b) = load m p a ++ load m (p + a) b := by
  rw [load, List.range_add, List.map_append, List.map_map, load, load]
  refine congrArg _ (List.map_congr_left fun k _ => ?_)
  rw [Function.comp_apply, Nat.cast_add, add_assoc]

theorem StringAt.string_eq (h : StringAt m p s) (hn : s.length < n) : string m p n = s := by
  obtain ⟨h0, hload⟩ := h
  obtain ⟨k, hk⟩ := Nat.exists_eq_add_of_le (Nat.succ_le_of_lt hn)
  have hs : ∀ b ∈ s, decide (b ≠ 0) = true := fun b hb => decide_eq_true fun h => h0 (h ▸ hb)
  rw [string, hk, load_add, hload, List.append_assoc, List.takeWhile_append_of_pos hs,
    List.singleton_append, List.takeWhile_cons_of_neg (by simp), List.append_nil]

/-- A string is stored with its NUL, and anything behind it. -/
theorem stringAt_store_append (m : Memory) (p : ℤ) (h0 : 0 ∉ s) (rest : List UInt8) :
    StringAt (store m p (s ++ 0 :: rest)) p s := by
  refine ⟨h0, ?_⟩
  have hlen : (s ++ 0 :: rest).length = s.length + 1 + rest.length := by
    rw [List.length_append, List.length_cons]
    omega
  have hload := load_store m p (s ++ 0 :: rest)
  have hsplit : s ++ 0 :: rest = s ++ [0] ++ rest := by
    rw [List.append_assoc, List.singleton_append]
  rw [hlen, load_add] at hload
  refine (List.append_inj (hload.trans hsplit) ?_).1
  rw [length_load, List.length_append, List.length_singleton]

theorem stringAt_store (m : Memory) (p : ℤ) (h0 : 0 ∉ s) : StringAt (store m p (s ++ [0])) p s :=
  stringAt_store_append m p h0 []

/-- Bytes with a NUL: the string ends at the first one. -/
theorem eq_string_append {bs : List UInt8} (h : 0 ∈ bs) :
    0 ∉ bs.takeWhile (· ≠ 0) ∧ ∃ rest, bs = bs.takeWhile (· ≠ 0) ++ 0 :: rest := by
  obtain ⟨l, rest, rfl, hl⟩ := List.eq_append_cons_of_mem h
  have hpos : ∀ b ∈ l, decide (b ≠ 0) = true := fun b hb => decide_eq_true fun he => hl (he ▸ hb)
  have hstring : (l ++ 0 :: rest).takeWhile (· ≠ 0) = l := by
    rw [List.takeWhile_append_of_pos hpos, List.takeWhile_cons_of_neg (by simp), List.append_nil]
  rw [hstring]
  exact ⟨hl, rest, rfl⟩

theorem StringAt.congr (h : StringAt m p s)
    (hm : ∀ q, p ≤ q → q < p + (s.length + 1) → m' q = m q) : StringAt m' p s :=
  ⟨h.1, (load_congr (by push_cast; exact hm)).trans h.2⟩

theorem stringAt_zero (p : ℤ) : StringAt (fun _ => 0) p [] := ⟨List.not_mem_nil, rfl⟩

end Strings

/-! ### Numbers -/

/-- The first `n` little-endian bytes of `v`. -/
def encode (n v : ℕ) : List UInt8 := (List.range n).map fun k => UInt8.ofNat (v / 256 ^ k)

/-- The number with these bytes. -/
def value (bs : List UInt8) : ℕ := bs.foldr (fun b v => b.toNat + 256 * v) 0

theorem length_encode (n v : ℕ) : (encode n v).length = n := by
  rw [encode, List.length_map, List.length_range]

theorem encode_succ (n v : ℕ) : encode (n + 1) v = UInt8.ofNat v :: encode n (v / 256) := by
  rw [encode, List.range_succ_eq_map, List.map_cons, List.map_map, pow_zero, Nat.div_one]
  refine congrArg _ (List.map_congr_left fun k _ => ?_)
  rw [Function.comp_apply, Nat.succ_eq_add_one, pow_succ', Nat.div_div_eq_div_mul]

theorem value_encode (n v : ℕ) : value (encode n v) = v % 256 ^ n := by
  induction n generalizing v with
  | zero => rw [pow_zero, Nat.mod_one, encode, List.range_zero, List.map_nil, value, List.foldr_nil]
  | succ n ih =>
    have hbyte : (UInt8.ofNat v).toNat = v % 256 := UInt8.toNat_ofNat'
    rw [encode_succ, value, List.foldr_cons, ← value, ih, hbyte, pow_succ', Nat.mod_mul]

/-- The `int` at `p`. -/
def int (m : Memory) (p : ℤ) : ℤ := (value (load m p 4) : ℤ).bmod (2 ^ 32)

/-- The memory with the `int` `v` at `p`. -/
def setInt (m : Memory) (p v : ℤ) : Memory := store m p (encode 4 (v % 2 ^ 32).toNat)

theorem load_setInt (m : Memory) (p v : ℤ) :
    load (setInt m p v) p 4 = encode 4 (v % 2 ^ 32).toNat := by
  have hload := load_store m p (encode 4 (v % 2 ^ 32).toNat)
  rwa [length_encode] at hload

theorem int_setInt {v : ℤ} (h : -2 ^ 31 ≤ v ∧ v < 2 ^ 31) : int (setInt m p v) p = v := by
  have hnonneg : 0 ≤ v % 2 ^ 32 := Int.emod_nonneg _ (by norm_num)
  have hlt : v % 2 ^ 32 < 2 ^ 32 := Int.emod_lt_of_pos _ (by norm_num)
  have hvalue : (value (encode 4 (v % 2 ^ 32).toNat) : ℤ) = v % 2 ^ 32 := by
    rw [value_encode, Nat.mod_eq_of_lt (by norm_num; omega), Int.toNat_of_nonneg hnonneg]
  unfold int
  rw [load_setInt, hvalue]
  have hmod : (v % 2 ^ 32).bmod (2 ^ 32) = v.bmod (2 ^ 32) := by exact_mod_cast Int.emod_bmod v _
  rw [hmod]
  exact Int.bmod_eq_of_le (by norm_num; omega) (by norm_num; omega)

/-- An `int` is changed by no store outside of it. -/
theorem int_congr (h : ∀ q, p ≤ q → q < p + 4 → m' q = m q) : int m' p = int m p := by
  have hload : load m' p 4 = load m p 4 := load_congr (n := 4) (by simpa using h)
  unfold int
  rw [hload]

theorem setInt_of_outside {v : ℤ} (h : q < p ∨ p + 4 ≤ q) : setInt m p v q = m q :=
  store_of_outside (by rw [length_encode]; exact h)

theorem int_setInt_of_ne {v : ℤ} (h : q + 4 ≤ p ∨ p + 4 ≤ q) :
    int (setInt m p v) q = int m q :=
  int_congr fun _ _ _ => setInt_of_outside (by omega)

/-- Memory of zeros holds zeros. -/
theorem int_zero (p : ℤ) : int (fun _ => 0) p = 0 := by
  have hvalue : value (load (fun _ => 0) p 4) = 0 := rfl
  unfold int
  rw [hvalue, Nat.cast_zero, Int.zero_bmod]

theorem load_four (m : Memory) (p : ℤ) :
    load m p 4 = [m p, m (p + 1), m (p + 2), m (p + 3)] := by
  simp [load, List.range_succ]

theorem value_four (a b c d : UInt8) :
    value [a, b, c, d] = a.toNat + 256 * (b.toNat + 256 * (c.toNat + 256 * d.toNat)) := rfl

/-- The upper half of a small number is zero. -/
theorem int_small {v : ℤ} (h : int m p = v) (h0 : 0 ≤ v) (hv : v < 65536) :
    (m (p + 2)).toNat = 0 ∧ (m (p + 3)).toNat = 0 := by
  have h₀ := (m p).toNat_lt
  have h₁ := (m (p + 1)).toNat_lt
  have h₂ := (m (p + 2)).toNat_lt
  have h₃ := (m (p + 3)).toNat_lt
  unfold int at h
  rw [load_four, value_four, Int.bmod_def] at h
  split_ifs at h <;> omega

/-- Two bytes over a small number. -/
theorem int_store_two {v : ℤ} (h : int m p = v) (h0 : 0 ≤ v) (hv : v < 65536) (a b : UInt8) :
    int (store m p [a, b]) p = a.toNat + 256 * b.toNat := by
  obtain ⟨h₂, h₃⟩ := int_small h h0 hv
  have hload : load (store m p [a, b]) p 4 = [a, b, m (p + 2), m (p + 3)] := by
    rw [load_four]
    simp [store]
  have ha := a.toNat_lt
  have hb := b.toNat_lt
  unfold int
  rw [hload, value_four, h₂, h₃, Int.bmod_def]
  split_ifs <;> omega

end Flat
end PosixHw
