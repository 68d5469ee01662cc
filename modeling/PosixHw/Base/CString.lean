import Mathlib.Tactic
import Mathlib.Data.List.TakeWhile

/-!
# Strings in memory

A piece of memory is the list of its bytes; a pointer into it is an index, and `none` is NULL.  A
string begins at a pointer and ends before the first NUL byte.  A read or a write outside the memory
is undefined: the operation is then `none`.

* `str m p` is the string at `p`, `strlen m p` its length, `strcspn m p reject` the length of its
  part before the first byte of `reject`;
* `read` and `write` copy blocks of bytes;
* `fgets m n input` reads a line, or a part of one, into `m`;
* `strtok` keeps a pointer between its calls and ends each token by a NUL that it writes over the
  delimiter.
-/

namespace PosixHw

/-- The bytes of an object in memory. -/
abbrev Mem := List UInt8

namespace CString

/-- The string at `p`. -/
def str (m : Mem) (p : ℕ) : List UInt8 := (m.drop p).takeWhile (· ≠ 0)

/-- `strlen(p)`; undefined if no NUL follows. -/
def strlen (m : Mem) (p : ℕ) : Option ℕ := if 0 ∈ m.drop p then some (str m p).length else none

/-- What `%s` prints for `p`; undefined if no NUL follows. -/
def cstr (m : Mem) (p : ℕ) : Option (List UInt8) := if 0 ∈ m.drop p then some (str m p) else none

/-- `strcspn(p, reject)`; undefined if no NUL follows. -/
def strcspn (m : Mem) (p : ℕ) (reject : List UInt8) : Option ℕ :=
  (cstr m p).map fun s => (s.takeWhile (· ∉ reject)).length

/-- `m[i] = b`. -/
def store (m : Mem) (i : ℕ) (b : UInt8) : Option Mem :=
  if i < m.length then some (m.set i b) else none

section Lists

variable {α : Type*} {q : α → Bool} {l r : List α} {x y : α}

/-- `takeWhile` stops at the boundary. -/
theorem takeWhile_append_stop (hl : ∀ a ∈ l, q a = true) (hx : q x = false) :
    (l ++ x :: r).takeWhile q = l := by
  rw [List.takeWhile_append_of_pos hl, List.takeWhile_cons_of_neg (by simp [hx]), List.append_nil]

theorem set_append_length : (l ++ x :: r).set l.length y = l ++ y :: r := by
  rw [List.set_append_right _ _ le_rfl, Nat.sub_self, List.set_cons_zero]

theorem getElem?_append_length : (l ++ x :: r)[l.length]? = some x := by
  rw [List.getElem?_append_right le_rfl, Nat.sub_self, List.getElem?_cons_zero]

end Lists

variable {pre w post : Mem}

/-- The string between a pointer and the next NUL. -/
theorem str_append (hw : 0 ∉ w) : str (pre ++ w ++ 0 :: post) pre.length = w := by
  unfold str
  rw [List.append_assoc, List.drop_left]
  refine takeWhile_append_stop (fun a ha => ?_) (by decide)
  exact decide_eq_true fun h => hw (h ▸ ha)

theorem nul_notMem_str (m : Mem) (p : ℕ) : 0 ∉ str m p := fun h => by
  simpa using List.mem_takeWhile_imp h

/-- A string that ends, and what comes after it. -/
theorem drop_eq_str_append {m : Mem} {p : ℕ} (h : 0 ∈ m.drop p) :
    ∃ post, m.drop p = str m p ++ 0 :: post := by
  obtain ⟨l, r, hlr, hl⟩ := List.eq_append_cons_of_mem h
  have hstr : str m p = l := by
    rw [str, hlr]
    exact takeWhile_append_stop (fun a ha => decide_eq_true fun h => hl (h ▸ ha)) (by decide)
  exact ⟨r, by rw [hstr, hlr]⟩

/-- The string at the start. -/
theorem str_zero (hw : 0 ∉ w) : str (w ++ 0 :: post) 0 = w := by
  have hstr : str ([] ++ w ++ 0 :: post) ([] : Mem).length = w := str_append hw
  rwa [List.nil_append, List.length_nil] at hstr

theorem strlen_append (hw : 0 ∉ w) : strlen (w ++ 0 :: post) 0 = some w.length := by
  rw [strlen, str_zero hw, if_pos (by simp)]

theorem cstr_zero (hw : 0 ∉ w) : cstr (w ++ 0 :: post) 0 = some w := by
  rw [cstr, str_zero hw, if_pos (by simp)]

theorem cstr_append (hw : 0 ∉ w) : cstr (pre ++ w ++ 0 :: post) pre.length = some w := by
  rw [cstr, str_append hw, if_pos]
  rw [List.append_assoc, List.drop_left]
  simp

/-- The part of a string before a byte of `reject`, or before its end. -/
theorem strcspn_append {reject : List UInt8} {c : UInt8} (hw : 0 ∉ w) (hr : ∀ b ∈ w, b ∉ reject)
    (hend : 0 ∈ c :: post) (hc : c ∈ reject ∨ c = 0) :
    strcspn (w ++ c :: post) 0 reject = some w.length := by
  have hbytes : ∀ b ∈ w, decide (b ≠ 0) = true := fun b hb => decide_eq_true fun h => hw (h ▸ hb)
  have hreject : ∀ b ∈ w, decide (b ∉ reject) = true := fun b hb => decide_eq_true (hr b hb)
  rw [strcspn, cstr, str, List.drop_zero, if_pos (List.mem_append_right w hend),
    List.takeWhile_append_of_pos hbytes, Option.map_some, List.takeWhile_append_of_pos hreject]
  by_cases h0 : c = 0
  · rw [List.takeWhile_cons_of_neg (by simp [h0]), List.takeWhile_nil, List.append_nil]
  · rw [List.takeWhile_cons_of_pos (by simp [h0]),
      List.takeWhile_cons_of_neg (by simp [hc.resolve_right h0]), List.append_nil]

theorem store_append {b b' : UInt8} :
    store (pre ++ b :: post) pre.length b' = some (pre ++ b' :: post) := by
  unfold store
  rw [if_pos (by simp), set_append_length]

theorem store_lt {m m' : Mem} {i : ℕ} {b : UInt8} (h : store m i b = some m') : i < m.length := by
  unfold store at h
  split_ifs at h with hi
  exact hi

theorem length_store {m m' : Mem} {i : ℕ} {b : UInt8} (h : store m i b = some m') :
    m'.length = m.length := by
  unfold store at h
  split_ifs at h
  cases h
  exact List.length_set

/-- A string ends at the first NUL, whatever comes after it. -/
theorem takeWhile_nul (l r : Mem) : (l ++ 0 :: r).takeWhile (· ≠ 0) = l.takeWhile (· ≠ 0) := by
  induction l with
  | nil => rfl
  | cons b l ih => rw [List.cons_append, List.takeWhile_cons, List.takeWhile_cons, ih]

theorem str_congr {p : ℕ} {post' : Mem} (hp : p ≤ pre.length) :
    str (pre ++ 0 :: post) p = str (pre ++ 0 :: post') p := by
  unfold str
  rw [List.drop_append_of_le_length hp, List.drop_append_of_le_length hp, takeWhile_nul,
    takeWhile_nul]

/-- **When a string ends with the bytes stored last**: if one of them is NUL, or the next byte
is. -/
theorem cstr_append_eq_iff (l r : Mem) :
    cstr (l ++ r) 0 = some (l.takeWhile (· ≠ 0)) ↔ 0 ∈ l ∨ r.head? = some 0 := by
  rw [cstr, str, List.drop_zero]
  by_cases hl : 0 ∈ l
  · obtain ⟨l₁, l₂, rfl⟩ := List.append_of_mem hl
    rw [if_pos (List.mem_append_left _ hl), List.append_assoc, List.cons_append, takeWhile_nul,
      takeWhile_nul]
    simp
  · have hall : ∀ b ∈ l, decide (b ≠ 0) = true := fun b hb => decide_eq_true fun h => hl (h ▸ hb)
    rw [List.takeWhile_append_of_pos hall, List.takeWhile_eq_self_iff.2 hall, or_iff_right hl]
    cases r with
    | nil => simp [hl]
    | cons b r =>
      by_cases hb : b = 0
      · simp [hb]
      · have hne : ¬ b :: r.takeWhile (· ≠ 0) = [] := List.cons_ne_nil _ _
        rw [List.takeWhile_cons, if_pos (decide_eq_true hb), List.head?_cons, Option.some_inj]
        simp [hb]

/-! ### Blocks of bytes -/

/-- The `n` bytes at `p`. -/
def read (m : Mem) (p n : ℕ) : Option (List UInt8) :=
  if p + n ≤ m.length then some ((m.drop p).take n) else none

/-- Stores `bs` at `p`. -/
def write (m : Mem) (p : ℕ) (bs : List UInt8) : Option Mem :=
  if p + bs.length ≤ m.length then some (m.take p ++ bs ++ m.drop (p + bs.length)) else none

/-- `strcpy(m + p, s)` -/
def strcpy (m : Mem) (p : ℕ) (s : List UInt8) : Option Mem := write m p (s ++ [0])

/-- `strncpy(m + p, s, n)`, which fills up with NUL bytes. -/
def strncpy (m : Mem) (p : ℕ) (s : List UInt8) (n : ℕ) : Option Mem :=
  write m p ((s ++ List.replicate n 0).take n)

/-- `strcat(m, s)` -/
def strcat (m : Mem) (s : List UInt8) : Option Mem :=
  (strlen m 0).bind fun n => write m n (s ++ [0])

variable {old bs : Mem}

theorem read_append : read (pre ++ bs ++ post) pre.length bs.length = some bs := by
  unfold read
  rw [if_pos (by simp), List.append_assoc, List.drop_left, List.take_left]

theorem read_all (m : Mem) : read m 0 m.length = some m := by
  rw [read, if_pos (Nat.zero_add _).le, List.drop_zero, List.take_length]

theorem write_zero {m : Mem} (h : bs.length ≤ m.length) :
    write m 0 bs = some (bs ++ m.drop bs.length) := by
  rw [write, if_pos (by rwa [Nat.zero_add]), List.take_zero, List.nil_append, Nat.zero_add]

theorem write_append (h : bs.length = old.length) :
    write (pre ++ old ++ post) pre.length bs = some (pre ++ bs ++ post) := by
  unfold write
  have hlen : pre.length + bs.length = (pre ++ old).length := by rw [List.length_append, h]
  rw [if_pos (by simp [h])]
  rw [hlen, List.drop_left, List.append_assoc pre old post, List.take_left]

/-- A write changes no byte outside of its block. -/
theorem write_frame {m m' : Mem} {p q : ℕ} (h : write m p bs = some m')
    (hq : q < p ∨ p + bs.length ≤ q) : m'[q]? = m[q]? := by
  unfold write at h
  split_ifs at h with hle
  cases h
  have htake : (m.take p).length = p := List.length_take_of_le (by omega)
  rcases hq with hq | hq
  · rw [List.append_assoc, List.getElem?_append_left (by rw [htake]; exact hq), List.getElem?_take,
      if_pos hq]
  · have hlen : (m.take p ++ bs).length = p + bs.length := by rw [List.length_append, htake]
    rw [List.getElem?_append_right (by rw [hlen]; exact hq), hlen, List.getElem?_drop,
      Nat.add_sub_cancel' hq]

theorem length_write {m m' : Mem} {p : ℕ} (h : write m p bs = some m') : m'.length = m.length := by
  unfold write at h
  split_ifs at h with hle
  cases h
  simp only [List.length_append, List.length_take, List.length_drop]
  omega

/-- Two blocks are equal if their bytes are. -/
theorem read_write {m m' : Mem} {p : ℕ} (h : write m p bs = some m') :
    read m' p bs.length = some bs := by
  unfold write at h
  split_ifs at h with hle
  cases h
  have htake : (m.take p).length = p := List.length_take_of_le (by omega)
  have hread : read (m.take p ++ bs ++ m.drop (p + bs.length)) (m.take p).length bs.length
      = some bs := read_append
  rwa [htake] at hread

theorem read_eq_iff {m m' : Mem} {n : ℕ} (h : n ≤ m.length) (h' : n ≤ m'.length) :
    read m 0 n = read m' 0 n ↔ ∀ q < n, m[q]? = m'[q]? := by
  unfold read
  rw [Nat.zero_add, if_pos h, if_pos h', Option.some_inj, List.drop_zero, List.drop_zero,
    List.ext_getElem?_iff]
  refine forall_congr' fun q => ?_
  rw [List.getElem?_take, List.getElem?_take]
  split_ifs with hq
  · exact ⟨fun he _ => he, fun he => he hq⟩
  · exact ⟨fun _ hlt => absurd hlt hq, fun _ => rfl⟩

/-- The length depends on what is there from the pointer on. -/
theorem strlen_congr {m m' : Mem} {p p' : ℕ} (h : m.drop p = m'.drop p') :
    strlen m p = strlen m' p' := by
  unfold strlen str
  rw [h]

theorem strlen_strcpy {m m' : Mem} {p : ℕ} {s : List UInt8} (h : strcpy m p s = some m')
    (hs : 0 ∉ s) : strlen m' p = some s.length := by
  unfold strcpy write at h
  split_ifs at h with hle
  cases h
  have htake : (m.take p).length = p := List.length_take_of_le (by omega)
  have hdrop : ∀ post : Mem, (m.take p ++ (s ++ [0]) ++ post).drop p = (s ++ 0 :: post).drop 0 := by
    intro post
    rw [List.append_assoc, List.drop_left' htake, List.append_assoc, List.singleton_append,
      List.drop_zero]
  rw [strlen_congr (hdrop _), strlen_append hs]

/-- **What is appended**: the second string and its NUL, over the NUL of the first one. -/
theorem strcat_append {s : List UInt8} (hw : 0 ∉ w) :
    strcat (w ++ 0 :: post) s
      = if s.length ≤ post.length then some (w ++ s ++ 0 :: post.drop s.length) else none := by
  rw [strcat, strlen_append hw, Option.bind_some]
  split_ifs with h
  · have hsplit : w ++ 0 :: post = w ++ (0 :: post.take s.length) ++ post.drop s.length := by
      rw [List.append_assoc, List.cons_append, List.take_append_drop]
    rw [hsplit, write_append, List.append_assoc, List.append_assoc, List.append_assoc,
      List.singleton_append]
    simp [h]
  · refine if_neg ?_
    simp only [List.length_append, List.length_cons, List.length_nil]
    omega

/-! ### fgets -/

/-- The newline. -/
def newline : UInt8 := 10

/-- At most `n` bytes of the input, up to the first newline; and the bytes that remain. -/
def takeLine : ℕ → List UInt8 → List UInt8 × List UInt8
  | 0, input => ([], input)
  | _, [] => ([], [])
  | n + 1, b :: input =>
    if b = newline then ([b], input)
    else
      let r := takeLine n input
      (b :: r.1, r.2)

/-- `fgets(m, n, stdin)`, with the memory after it and the bytes that remain; `none` for NULL, which
it returns at the end of the input. -/
def fgets (m : Mem) (n : ℕ) (input : List UInt8) : Option (Mem × List UInt8) :=
  if input = [] then none
  else
    let r := takeLine (n - 1) input
    some (r.1 ++ 0 :: m.drop (r.1.length + 1), r.2)

theorem takeLine_line {n : ℕ} {s rest : List UInt8} (hs : newline ∉ s) (hn : s.length < n) :
    takeLine n (s ++ newline :: rest) = (s ++ [newline], rest) := by
  induction s generalizing n with
  | nil =>
    obtain ⟨n, rfl⟩ : ∃ k, n = k + 1 := ⟨n - 1, by simp at hn; omega⟩
    rfl
  | cons b s ih =>
    rw [List.length_cons] at hn
    obtain ⟨n, rfl⟩ : ∃ k, n = k + 1 := ⟨n - 1, by omega⟩
    rw [List.mem_cons, not_or] at hs
    rw [List.cons_append, takeLine, if_neg (Ne.symm hs.1), ih hs.2 (by omega)]
    rfl

/-- Without a newline in reach, as many bytes as there is room for. -/
theorem takeLine_of_notMem {n : ℕ} {s : List UInt8} (hs : newline ∉ s) :
    takeLine n s = (s.take n, s.drop n) := by
  induction s generalizing n with
  | nil => cases n <;> rfl
  | cons b s ih =>
    rw [List.mem_cons, not_or] at hs
    cases n with
    | zero => rfl
    | succ n =>
      rw [takeLine, if_neg (Ne.symm hs.1), ih hs.2, List.take_succ_cons, List.drop_succ_cons]

theorem takeLine_long {n : ℕ} {s rest : List UInt8} (hs : newline ∉ s) (hn : n ≤ s.length) :
    takeLine n (s ++ rest) = (s.take n, s.drop n ++ rest) := by
  induction s generalizing n with
  | nil =>
    obtain rfl := Nat.le_zero.1 hn
    rfl
  | cons b s ih =>
    rw [List.mem_cons, not_or] at hs
    cases n with
    | zero => rfl
    | succ n =>
      rw [List.cons_append, takeLine, if_neg (Ne.symm hs.1), ih hs.2 (Nat.le_of_succ_le_succ hn)]
      rfl

theorem takeLine_ne_nil {n : ℕ} {s : List UInt8} (hs : s ≠ []) : (takeLine (n + 1) s).1 ≠ [] := by
  obtain ⟨b, s, rfl⟩ := List.exists_cons_of_ne_nil hs
  rw [takeLine]
  split_ifs <;> exact List.cons_ne_nil _ _

theorem takeLine_subset {n : ℕ} {s : List UInt8} : (takeLine n s).1 ⊆ s := by
  induction s generalizing n with
  | nil => cases n <;> exact List.Subset.refl _
  | cons b s ih =>
    cases n with
    | zero => exact List.nil_subset _
    | succ n =>
      rw [takeLine]
      split_ifs
      · simp
      · exact List.cons_subset_cons b ih

theorem length_takeLine_le (n : ℕ) (s : List UInt8) : (takeLine n s).1.length ≤ n := by
  induction s generalizing n with
  | nil => cases n <;> exact Nat.zero_le _
  | cons b s ih =>
    cases n with
    | zero => exact le_rfl
    | succ n =>
      rw [takeLine]
      split_ifs
      · exact Nat.succ_pos n
      · exact Nat.succ_le_succ (ih n)

/-- The memory keeps its length if the buffer is at least as long as `fgets` is told. -/
theorem length_fgets {m m' : Mem} {n : ℕ} {input rest : List UInt8}
    (h : fgets m n input = some (m', rest)) (hn : 0 < n) (hm : n ≤ m.length) :
    m'.length = m.length := by
  unfold fgets at h
  split_ifs at h
  cases h
  have hlen := length_takeLine_le (n - 1) input
  simp only [List.length_append, List.length_cons, List.length_drop]
  omega

end CString
end PosixHw
