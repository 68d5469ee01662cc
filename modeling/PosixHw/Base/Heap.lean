import Mathlib.Tactic
import PosixHw.Base.Ownership

/-!
# A heap of cells

`malloc` returns the address of a cell that is not in use, `free` gives it back, and an address is
given out again after that.  Each allocation has a number of its own, so that it can be said of it
that it was freed once.

* `Heap` carries, as fields, that each allocation is either live, at one address, or freed;
* `Heap.sound` is lost with the first access to an address where no cell is live.
-/

namespace PosixHw

/-- The cells: how many have been allocated, the one that is live at each address, what is stored
there, those freed (in this order) and whether every access was to a live cell. -/
structure Heap (V : Type*) where
  next : ℕ
  live : ℕ → Option ℕ
  content : ℕ → V
  freed : List ℕ
  sound : Bool
  freed_nodup : freed.Nodup
  live_inj : ∀ {p p' n}, live p = some n → live p' = some n → p = p'
  live_freed : ∀ {p n}, live p = some n → n ∉ freed
  lt_next : ∀ n, n < next ↔ n ∈ freed ∨ ∃ p, live p = some n

namespace Heap

variable {V : Type*} {H : Heap V} {p n : ℕ}

/-- Nothing is allocated; the memory holds `junk`. -/
def init (junk : ℕ → V) : Heap V where
  next := 0
  live := Function.const ℕ none
  content := junk
  freed := []
  sound := true
  freed_nodup := List.nodup_nil
  live_inj h := by cases h
  live_freed h := by cases h
  lt_next := by simp

theorem next_notMem_freed (H : Heap V) : H.next ∉ H.freed := fun h =>
  lt_irrefl _ ((H.lt_next _).2 (.inl h))

theorem live_ne_next (H : Heap V) (p : ℕ) : H.live p ≠ some H.next := fun h =>
  lt_irrefl _ ((H.lt_next _).2 (.inr ⟨p, h⟩))

/-- A cell at `p`, where none is live. -/
def allocate (H : Heap V) (p : ℕ) (hp : H.live p = none) : Heap V where
  next := H.next + 1
  live := Function.update H.live p (some H.next)
  content := H.content
  freed := H.freed
  sound := H.sound
  freed_nodup := H.freed_nodup
  live_inj := by
    intro q q' n h h'
    rw [Function.update_apply] at h h'
    split_ifs at h h' with e e' e'
    · rw [e, e']
    · cases h
      exact absurd h' (H.live_ne_next q')
    · cases h'
      exact absurd h (H.live_ne_next q)
    · exact H.live_inj h h'
  live_freed := by
    intro q n h
    rw [Function.update_apply] at h
    split_ifs at h
    · cases h
      exact H.next_notMem_freed
    · exact H.live_freed h
  lt_next n := by
    rw [Nat.lt_succ_iff_lt_or_eq, H.lt_next]
    constructor
    · rintro ((h | ⟨q, h⟩) | rfl)
      · exact .inl h
      · refine .inr ⟨q, ?_⟩
        rwa [Function.update_of_ne]
        rintro rfl
        rw [hp] at h
        cases h
      · exact .inr ⟨p, Function.update_self ..⟩
    · rintro (h | ⟨q, h⟩)
      · exact .inl (.inl h)
      · rw [Function.update_apply] at h
        split_ifs at h
        · cases h
          exact .inr rfl
        · exact .inl (.inr ⟨q, h⟩)

/-- The cell at `p` is not live any more. -/
def dispose (H : Heap V) (p n : ℕ) (hp : H.live p = some n) : Heap V where
  next := H.next
  live := Function.update H.live p none
  content := H.content
  freed := H.freed ++ [n]
  sound := H.sound
  freed_nodup := List.nodup_append.2 ⟨H.freed_nodup, List.nodup_singleton _, by
    rintro k hk m hm rfl
    exact H.live_freed hp (List.mem_singleton.1 hm ▸ hk)⟩
  live_inj := by
    intro q q' k h h'
    rw [Function.update_apply] at h h'
    split_ifs at h h'
    exact H.live_inj h h'
  live_freed := by
    intro q k h
    rw [Function.update_apply] at h
    split_ifs at h with e
    rw [List.mem_append, List.mem_singleton]
    rintro (h' | rfl)
    · exact H.live_freed h h'
    · exact e (H.live_inj h hp)
  lt_next k := by
    rw [H.lt_next, List.mem_append, List.mem_singleton]
    constructor
    · rintro (h | ⟨q, h⟩)
      · exact .inl (.inl h)
      · by_cases e : q = p
        · subst e
          rw [hp, Option.some.injEq] at h
          exact .inl (.inr h.symm)
        · exact .inr ⟨q, by rwa [Function.update_of_ne e]⟩
    · rintro ((h | rfl) | ⟨q, h⟩)
      · exact .inl h
      · exact .inr ⟨p, hp⟩
      · rw [Function.update_apply] at h
        split_ifs at h
        exact .inr ⟨q, h⟩

/-- `malloc` returning `p`; not enabled while a cell is live there. -/
def malloc (H : Heap V) (p : ℕ) : Option (Heap V) :=
  if hp : H.live p = none then some (H.allocate p hp) else none

/-- An access to the cell at `p`. -/
def access (H : Heap V) (p : ℕ) : Heap V := { H with sound := H.sound && (H.live p).isSome }

/-- The value `v` is stored at `p`. -/
def store (H : Heap V) (p : ℕ) (v : V) : Heap V :=
  { H.access p with content := Function.update H.content p v }

/-- `free(p)`; for an address where no cell is live it frees nothing. -/
def free (H : Heap V) (p : ℕ) : Heap V :=
  match h : (H.access p).live p with
  | some n => (H.access p).dispose p n h
  | none => H.access p

@[simp] theorem access_live : (H.access p).live = H.live := rfl

@[simp] theorem store_live {v : V} : (H.store p v).live = H.live := rfl

@[simp] theorem store_content {v : V} :
    (H.store p v).content = Function.update H.content p v := rfl

theorem sound_access (hs : H.sound = true) (hp : H.live p = some n) :
    (H.access p).sound = true := by
  show (H.sound && (H.live p).isSome) = true
  rw [hs, hp]
  rfl

theorem malloc_cases {H' : Heap V} (h : H.malloc p = some H') :
    H.live p = none ∧ H'.live = Function.update H.live p (some H.next) ∧
      H'.content = H.content ∧ H'.sound = H.sound := by
  unfold malloc at h
  split_ifs at h with hp
  cases h
  exact ⟨hp, rfl, rfl, rfl⟩

/-- Some address is free: only finitely many cells have been allocated. -/
theorem exists_malloc (H : Heap V) : ∃ p H', H.malloc p = some H' := by
  by_contra hall
  have hlive : ∀ p, ∃ n, H.live p = some n := fun p =>
    Option.ne_none_iff_exists'.1 fun h => hall ⟨p, H.allocate p h, dif_pos h⟩
  choose f hf using hlive
  have hlt : ∀ p, f p < H.next := fun p => (H.lt_next _).2 (.inr ⟨p, hf p⟩)
  refine not_injective_infinite_finite (fun p => (⟨f p, hlt p⟩ : Fin H.next)) fun a b h => ?_
  rw [Fin.mk.injEq] at h
  exact H.live_inj (hf a) (h ▸ hf b)

/-- What freeing a live cell does. -/
theorem free_of_live (h : H.live p = some n) :
    (H.free p).live = Function.update H.live p none ∧ (H.free p).freed = H.freed ++ [n] ∧
      (H.free p).content = H.content ∧ (H.free p).sound = H.sound := by
  have hsound : (H.access p).sound = H.sound := by
    show (H.sound && (H.live p).isSome) = H.sound
    rw [h, Option.isSome_some, Bool.and_true]
  unfold free
  split
  · rename_i k hk
    obtain rfl : n = k := Option.some.inj (h.symm.trans hk)
    exact ⟨rfl, rfl, rfl, hsound⟩
  · rename_i hn
    exact absurd (h.symm.trans hn) (Option.some_ne_none n)

/-- **What has been allocated is live, with one owner, or has been freed once.** -/
theorem accounted {O : Type*} {holds : O → Option ℕ} (own : Ownership H.live holds)
    (hn : n < H.next) :
    (∃ p, H.live p = some n ∧ n ∉ H.freed ∧ ∃! o, holds o = some p) ∨
      H.freed.count n = 1 ∧ ∀ o p, holds o = some p → H.live p ≠ some n := by
  rcases (H.lt_next n).1 hn with hfreed | ⟨p, hp⟩
  · exact .inr ⟨List.count_eq_one_of_mem H.freed_nodup hfreed, fun o p _ hp =>
      H.live_freed hp hfreed⟩
  · exact .inl ⟨p, hp, H.live_freed hp, own.existsUnique hp⟩

end Heap
end PosixHw
