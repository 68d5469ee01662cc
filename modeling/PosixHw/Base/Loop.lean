import Mathlib.Tactic

/-!
# Counting loops

`forTo n body s` is `for (i = 0; i < n; i++)`, where a turn may be undefined.  There are two rules:
`forTo_eq`, where the state before each turn is known, and `forTo_invariant`, for a loop that is
known to be defined.

An array that has been written as a whole is `tabulate n g`, with `g i` at `i`; so a loop over an
array is a matter of functions.
-/

namespace PosixHw
namespace Loop

variable {σ : Type*} {body : ℕ → σ → Option σ} {n : ℕ} {s t : σ}

/-- `for (i = 0; i < n; i++)` -/
def forTo (body : ℕ → σ → Option σ) : ℕ → σ → Option σ
  | 0, s => some s
  | n + 1, s => (forTo body n s).bind (body n)

/-- **The rule for a loop whose states are known**: `f i` before the turn `i`. -/
theorem forTo_eq {f : ℕ → σ} (hs : f 0 = s) (h : ∀ i < n, body i (f i) = some (f (i + 1))) :
    forTo body n s = some (f n) := by
  induction n with
  | zero => rw [forTo, hs]
  | succ n ih =>
    rw [forTo, ih fun i hi => h i (Nat.lt_succ_of_lt hi), Option.bind_some, h n n.lt_succ_self]

/-- **The rule for a loop that is defined**: what each turn brings from `i` to `i + 1`. -/
theorem forTo_invariant {I : ℕ → σ → Prop} (hs : I 0 s)
    (hstep : ∀ i < n, ∀ s t, I i s → body i s = some t → I (i + 1) t)
    (h : forTo body n s = some t) : I n t := by
  induction n generalizing t with
  | zero =>
    cases h
    exact hs
  | succ n ih =>
    obtain ⟨u, hu, ht⟩ := Option.bind_eq_some_iff.1 h
    apply hstep n n.lt_succ_self u t _ ht
    exact ih (fun i hi => hstep i (Nat.lt_succ_of_lt hi)) hu

section Arrays

variable {α : Type*} {g : ℕ → α} {i : ℕ} {x : α} {a : List α}

/-- `a[i] = x` -/
def put (a : List α) (i : ℕ) (x : α) : Option (List α) :=
  if i < a.length then some (a.set i x) else none

/-- The array with `g i` at `i`. -/
def tabulate (n : ℕ) (g : ℕ → α) : List α := (List.range n).map g

@[simp] theorem length_tabulate : (tabulate n g).length = n := by simp [tabulate]

theorem getElem?_tabulate (h : i < n) : (tabulate n g)[i]? = some (g i) := by simp [tabulate, h]

theorem tabulate_congr {f : ℕ → α} (h : ∀ i < n, f i = g i) : tabulate n f = tabulate n g := by
  apply List.map_congr_left
  intro i hi
  exact h i (List.mem_range.1 hi)

theorem tabulate_succ (n : ℕ) (g : ℕ → α) : tabulate (n + 1) g = tabulate n g ++ [g n] := by
  simp [tabulate, List.range_succ]

theorem put_tabulate (h : i < n) :
    put (tabulate n g) i x = some (tabulate n (Function.update g i x)) := by
  rw [put, if_pos (by simpa using h)]
  congr 1
  apply List.ext_getElem?
  intro j
  by_cases hj : j < n
  · rw [List.getElem?_set, getElem?_tabulate hj, length_tabulate]
    by_cases hij : i = j
    · subst hij
      simp [h, tabulate]
    · simp [tabulate, hij, hj, Function.update_of_ne (Ne.symm hij)]
  · rw [List.getElem?_eq_none (by simpa using hj), List.getElem?_eq_none (by simpa using hj)]

/-- An array with any values in it. -/
theorem exists_tabulate [Inhabited α] (a : List α) : ∃ g, a = tabulate a.length g := by
  refine ⟨fun i => a[i]?.getD default, List.ext_getElem? fun i => ?_⟩
  by_cases hi : i < a.length
  · rw [getElem?_tabulate hi, List.getElem?_eq_getElem hi, Option.getD_some]
  · rw [List.getElem?_eq_none (not_lt.1 hi), List.getElem?_eq_none (by simpa using hi)]

theorem reverse_tabulate : (tabulate n g).reverse = tabulate n fun i => g (n - 1 - i) := by
  apply List.ext_getElem?
  intro i
  by_cases hi : i < n
  · rw [List.getElem?_reverse (by simpa using hi), length_tabulate, getElem?_tabulate (by omega),
      getElem?_tabulate hi]
  · rw [List.getElem?_eq_none (by simpa using hi), List.getElem?_eq_none (by simpa using hi)]

end Arrays

end Loop
end PosixHw
