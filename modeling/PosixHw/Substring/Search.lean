import PosixHw.Base.CString
import PosixHw.Base.Occurrence
import PosixHw.Base.Trace

/-!
# The search for a substring

`find_substring` of `pointers/task4.c`, with the bytes that it reads as events.  A pointer is an
index into the object `a` of the text, or into the object `b` of the pattern; a read outside of the
object is undefined.

The inner loop goes on while the two strings agree, and `compare_spec` says where it stops; the
outer loop starts it again one byte behind the start of the last attempt, and `search_spec` says
that the attempts are those of `Occurrence.first`.
-/

namespace PosixHw
namespace Substring

open CString Occurrence

/-- A byte that is read, of the text or of the pattern. -/
inductive Read
  | str (p : ℕ)
  | pattern (p : ℕ)
  deriving DecidableEq

/-- The byte at `p`, which is read as one of the text or of the pattern. -/
def load (read : ℕ → Read) (m : Mem) (p : ℕ) : Trace Read UInt8 := do
  Trace.tell (read p)
  Trace.lift m[p]?

/-- `*str` -/
def loadStr (a : Mem) (p : ℕ) : Trace Read UInt8 := load .str a p

/-- `*pattern` -/
def loadPattern (b : Mem) (p : ℕ) : Trace Read UInt8 := load .pattern b p

/-- Lines 9–12, from `str` and `pattern` on; `room` is what is left of the object of `str`. -/
def compare (a b : Mem) : ℕ → ℕ → ℕ → Trace Read (ℕ × ℕ)
  | 0, str, _ => do
    let _ ← loadStr a str
    Trace.lift none
  | room + 1, str, pattern => do
    let c ← loadStr a str
    if c = 0 then pure (str, pattern)
    else
      let d ← loadPattern b pattern
      if d = 0 then pure (str, pattern)
      else
        let c ← loadStr a str
        let d ← loadPattern b pattern
        if c = d then compare a b room (str + 1) (pattern + 1) else pure (str, pattern)

/-- Lines 5–20, from `str` on; `none` is NULL. -/
def search (a b : Mem) (substr : ℕ) : ℕ → ℕ → Trace Read (Option ℕ)
  | 0, str => do
    let _ ← loadStr a str
    Trace.lift none
  | room + 1, str => do
    let c ← loadStr a str
    if c = 0 then pure none
    else
      let (_, pattern) ← compare a b (room + 1) str substr
      let d ← loadPattern b pattern
      if d = 0 then pure (some str) else search a b substr room (str + 1)

/-- `find_substring(str, substr)`, with `str` in the object `a` and `substr` in `b`. -/
def findSubstring (a b : Mem) (str substr : ℕ) : Trace Read (Option ℕ) :=
  search a b substr (a.length - str) str

/-- A pointer to a string: a NUL follows in the object. -/
structure Str where
  mem : Mem
  ptr : ℕ
  terminated : 0 ∈ mem.drop ptr

/-- The bytes before the NUL. -/
def Str.text (s : Str) : List UInt8 := str s.mem s.ptr

/-- The place of the NUL. -/
def Str.terminator (s : Str) : ℕ := s.ptr + s.text.length

/-- The byte is one of the string, or its NUL. -/
def Read.Within (s w : Str) : Read → Prop
  | .str p => s.ptr ≤ p ∧ p ≤ s.terminator
  | .pattern p => w.ptr ≤ p ∧ p ≤ w.terminator

/-! ### Single reads -/

section Loads

variable {β : Type} {read : ℕ → Read} {p : Read → Prop} {r : β → Prop} {f : UInt8 → Trace Read β}
  {a : Mem} {i : ℕ} {c : UInt8} {l : List UInt8}

theorem getElem?_of_drop (h : a.drop i = c :: l) : a[i]? = some c := by
  have hzero : (a.drop i)[0]? = some c := by rw [h, List.getElem?_cons_zero]
  rwa [List.getElem?_drop, Nat.add_zero] at hzero

theorem drop_succ_of_drop (h : a.drop i = c :: l) : a.drop (i + 1) = l := by
  rw [← List.tail_drop, h, List.tail_cons]

/-- A pointer reads the first byte of what follows it. -/
theorem load_bind (ha : a.drop i = c :: l) (hp : p (read i)) (hf : (f c).Ensures p r) :
    (load read a i >>= f).Ensures p r := by
  have hload : (load read a i).Ensures p (· = c) :=
    Trace.ensures_tell_bind.2 ⟨hp, by simp, c, getElem?_of_drop ha, rfl⟩
  refine hload.bind fun d hd => ?_
  rw [hd]
  exact hf

end Loads

/-! ### The loops -/

section Loops

variable {a b : Mem} {room i j : ℕ} {s w post post' : List UInt8} {p : Read → Prop}

/-- **The inner loop** stops behind the longest common prefix, and reads no byte behind a NUL. -/
theorem compare_spec (ha : a.drop i = s ++ 0 :: post) (hb : b.drop j = w ++ 0 :: post')
    (hs : 0 ∉ s) (hw : 0 ∉ w) (hroom : s.length < room)
    (hi : ∀ k ≤ s.length, p (.str (i + k))) (hj : ∀ k ≤ w.length, p (.pattern (j + k))) :
    (compare a b room i j).Ensures p (· = (i + agree s w, j + agree s w)) := by
  induction s generalizing room i j w with
  | nil =>
    obtain ⟨room, rfl⟩ : ∃ k, room = k + 1 := ⟨room - 1, by omega⟩
    refine load_bind ha (hi 0 le_rfl) ?_
    rw [if_pos rfl, Trace.ensures_pure, agree_nil_left]
    rfl
  | cons c s ih =>
    obtain ⟨room, rfl⟩ : ∃ k, room = k + 1 := ⟨room - 1, by omega⟩
    rw [List.mem_cons, not_or] at hs
    refine load_bind ha (hi 0 (Nat.zero_le _)) ?_
    rw [if_neg (Ne.symm hs.1)]
    cases w with
    | nil =>
      refine load_bind hb (hj 0 le_rfl) ?_
      rw [if_pos rfl, Trace.ensures_pure, agree_nil_right]
      rfl
    | cons d w =>
      rw [List.mem_cons, not_or] at hw
      refine load_bind hb (hj 0 (Nat.zero_le _)) ?_
      rw [if_neg (Ne.symm hw.1)]
      refine load_bind ha (hi 0 (Nat.zero_le _)) ?_
      refine load_bind hb (hj 0 (Nat.zero_le _)) ?_
      by_cases hcd : c = d
      · subst hcd
        rw [if_pos rfl, agree_cons_self, ← Nat.add_assoc, ← Nat.add_assoc,
          Nat.add_right_comm i, Nat.add_right_comm j]
        refine ih (drop_succ_of_drop ha) (drop_succ_of_drop hb) hs.2 hw.2
          (Nat.lt_of_succ_lt_succ hroom) (fun k hk => ?_) fun k hk => ?_
        · rw [Nat.add_right_comm]
          exact hi (k + 1) (Nat.succ_le_succ hk)
        · rw [Nat.add_right_comm]
          exact hj (k + 1) (Nat.succ_le_succ hk)
      · rw [if_neg hcd, Trace.ensures_pure, agree_cons_of_ne hcd]
        rfl

/-- **The outer loop** finds the first occurrence; an empty text contains nothing for it. -/
theorem search_spec (ha : a.drop i = s ++ 0 :: post) (hb : b.drop j = w ++ 0 :: post')
    (hs : 0 ∉ s) (hw : 0 ∉ w) (hroom : s.length < room)
    (hi : ∀ k ≤ s.length, p (.str (i + k))) (hj : ∀ k ≤ w.length, p (.pattern (j + k))) :
    (search a b j room i).Ensures p
      (· = if s = [] then none else (first w s).map (i + ·)) := by
  induction s generalizing room i with
  | nil =>
    obtain ⟨room, rfl⟩ : ∃ k, room = k + 1 := ⟨room - 1, by omega⟩
    refine load_bind ha (hi 0 le_rfl) ?_
    rw [if_pos rfl, Trace.ensures_pure, if_pos rfl]
  | cons c s ih =>
    obtain ⟨room, rfl⟩ : ∃ k, room = k + 1 := ⟨room - 1, by omega⟩
    refine load_bind ha (hi 0 (Nat.zero_le _)) ?_
    have hc : c ≠ 0 := fun h => hs (h ▸ List.mem_cons_self)
    rw [if_neg hc]
    refine (compare_spec ha hb hs hw hroom hi hj).bind fun r hr => ?_
    subst hr
    -- the byte at which the comparison has stopped is the NUL exactly after a whole pattern
    have hdrop : b.drop (j + agree (c :: s) w) = w.drop (agree (c :: s) w) ++ 0 :: post' := by
      rw [← List.drop_drop, hb, List.drop_append_of_le_length (agree_le_right _ _)]
    have hstop := hj _ (agree_le_right (c :: s) w)
    rw [if_neg (List.cons_ne_nil c s)]
    by_cases hpre : w <+: c :: s
    · rw [agree_eq_length_iff.2 hpre] at hdrop hstop ⊢
      rw [List.drop_length, List.nil_append] at hdrop
      refine load_bind hdrop hstop ?_
      rw [if_pos rfl, Trace.ensures_pure, first_of_isPrefix hpre]
      rfl
    · have hlt : agree (c :: s) w < w.length :=
        lt_of_le_of_ne (agree_le_right _ _) fun h => hpre (agree_eq_length_iff.1 h)
      rw [List.drop_eq_getElem_cons hlt, List.cons_append] at hdrop
      have hd : w[agree (c :: s) w] ≠ 0 := fun h => hw (h ▸ List.getElem_mem hlt)
      refine load_bind hdrop hstop ?_
      rw [if_neg hd, first_cons_of_not_isPrefix hpre]
      have hrest := ih (drop_succ_of_drop ha) (fun h => hs (List.mem_cons_of_mem c h))
        (Nat.lt_of_succ_lt_succ hroom) fun k hk => by
          rw [Nat.add_right_comm]
          exact hi (k + 1) (Nat.succ_le_succ hk)
      have hw' : w ≠ [] := by
        rintro rfl
        exact hpre List.nil_prefix
      have hshift : (if s = [] then none else (first w s).map (i + 1 + ·))
          = ((first w s).map (· + 1)).map (i + ·) := by
        split_ifs with hnil
        · rw [hnil, first_nil_of_ne_nil hw']
          rfl
        · rw [Option.map_map]
          refine congrArg (Option.map · _) (funext fun k => ?_)
          exact Nat.add_right_comm i 1 k
      rwa [← hshift]

end Loops

/-! ### The function -/

/-- **What the search computes**: the first occurrence, if the text is not empty. -/
theorem findSubstring_spec (s w : Str) :
    (findSubstring s.mem w.mem s.ptr w.ptr).Ensures (Read.Within s w)
      (· = if s.text = [] then none else (first w.text s.text).map (s.ptr + ·)) := by
  obtain ⟨post, ha⟩ := drop_eq_str_append s.terminated
  obtain ⟨post', hb⟩ := drop_eq_str_append w.terminated
  have hlen := congrArg List.length ha
  rw [List.length_drop, List.length_append, List.length_cons] at hlen
  change s.mem.length - s.ptr = s.text.length + (post.length + 1) at hlen
  refine search_spec ha hb (nul_notMem_str _ _) (nul_notMem_str _ _) (by omega)
    (fun k hk => ?_) fun k hk => ?_
  · exact ⟨Nat.le_add_right _ _, Nat.add_le_add_left hk _⟩
  · exact ⟨Nat.le_add_right _ _, Nat.add_le_add_left hk _⟩

/-- **The first occurrence of a pattern that is not empty.** Every string is read up to its NUL at
most, the pointer returned is that of the first occurrence, and it is NULL exactly if there is
none. -/
theorem findSubstring_first (s w : Str) (hw : w.text ≠ []) :
    (findSubstring s.mem w.mem s.ptr w.ptr).Ensures (Read.Within s w) fun r =>
      (∀ p, r = some p ↔ ∃ i, p = s.ptr + i ∧ IsFirst w.text s.text i) ∧
        (r = none ↔ ¬ w.text <:+: s.text) := by
  obtain ⟨hreads, r, hr, hval⟩ := findSubstring_spec s w
  refine ⟨hreads, r, hr, ?_⟩
  have hfirst : r = (first w.text s.text).map (s.ptr + ·) := by
    rw [hval]
    split_ifs with hs
    · rw [hs, first_nil_of_ne_nil hw]
      rfl
    · rfl
  subst hfirst
  constructor
  · intro p
    rw [Option.map_eq_some_iff]
    refine exists_congr fun i => ?_
    rw [first_eq_some_iff, and_comm, eq_comm]
  · rw [Option.map_eq_none_iff, first_eq_none_iff]

/-- The text `aabaaab`, behind another byte. -/
def sampleText : Str := ⟨[120, 97, 97, 98, 97, 97, 97, 98, 0, 98], 1, by decide⟩

/-- The pattern `aaab`, which fails twice after a partial match. -/
def samplePattern : Str := ⟨[97, 97, 97, 98, 0], 0, by decide⟩

theorem findSubstring_first_sample :
    (findSubstring sampleText.mem samplePattern.mem 1 0).Ensures
      (Read.Within sampleText samplePattern) fun r =>
        (∀ p, r = some p ↔ ∃ i, p = 1 + i ∧ IsFirst samplePattern.text sampleText.text i) ∧
          (r = none ↔ ¬ samplePattern.text <:+: sampleText.text) :=
  findSubstring_first sampleText samplePattern (by decide)

example : (findSubstring sampleText.mem samplePattern.mem 1 0).value = some (some 4) := by
  decide +kernel

end Substring
end PosixHw
