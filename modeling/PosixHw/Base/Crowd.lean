import Mathlib.Data.Finset.Card
import Mathlib.Logic.Function.Basic
import Mathlib.Tactic

/-!
# Threads that look for a free place

Places `0, 1, 2, ..` each have room for one thread.  A thread looks for a place from the left: it
goes on to the next one only if somebody has the place it is at, stays where it is otherwise, and
begins again at `0` at any time.  It may well find each place taken at the moment when it gets
there, though most places are free.

`Crowd` says that not more than `k - i` of the `k` threads are at place `i` or further right.  A
thread that goes on leaves one behind, so all moves keep it, and no thread comes as far as `k`.
-/

namespace PosixHw

variable {τ : Type*} {threads : Finset τ} {place place' : τ → ℕ} {t u : τ}

/-- The threads at `i` or further right are at most those that `i` places leave over. -/
def Crowd (threads : Finset τ) (place : τ → ℕ) : Prop :=
  ∀ i, (threads.filter fun t => i ≤ place t).card ≤ threads.card - i

namespace Crowd

/-- All threads are at the first place. -/
theorem start (h : ∀ t, place t = 0) : Crowd threads place := by
  intro i
  cases i with
  | zero => exact Finset.card_filter_le _ _
  | succ i =>
    have hempty : (threads.filter fun t => i + 1 ≤ place t) = ∅ := by
      apply Finset.filter_false_of_mem
      intro t _
      rw [h t]
      exact Nat.not_succ_le_zero i
    rw [hempty]
    exact Nat.zero_le _

/-- No thread gets beyond the number of the threads. -/
theorem lt (h : Crowd threads place) (ht : t ∈ threads) : place t < threads.card := by
  have hmem : t ∈ threads.filter fun u => place t ≤ place u :=
    Finset.mem_filter.2 ⟨ht, le_rfl⟩
  have hpos := Finset.card_pos.2 ⟨t, hmem⟩
  have hle := h (place t)
  omega

/-- Threads go back. -/
theorem mono (h : Crowd threads place) (hle : ∀ t, place' t ≤ place t) : Crowd threads place' := by
  intro i
  apply le_trans _ (h i)
  apply Finset.card_le_card
  intro t ht
  obtain ⟨ht, hi⟩ := Finset.mem_filter.1 ht
  exact Finset.mem_filter.2 ⟨ht, hi.trans (hle t)⟩

variable [DecidableEq τ]

theorem back (h : Crowd threads place) {x : ℕ} (hx : x ≤ place t) :
    Crowd threads (Function.update place t x) := by
  apply h.mono
  intro u
  by_cases hu : u = t
  · rw [hu, Function.update_self]
    exact hx
  · rw [Function.update_of_ne hu]

/-- A thread goes on, past another one. -/
theorem advance (h : Crowd threads place) (hu : u ∈ threads) (hne : u ≠ t)
    (hplace : place u = place t) : Crowd threads (Function.update place t (place t + 1)) := by
  intro i
  by_cases hi : i = place t + 1
  · -- `t` comes here from the place of `u`, where both have been counted
    have hsub : insert u (threads.filter fun v => i ≤ Function.update place t (place t + 1) v)
        ⊆ threads.filter fun v => place t ≤ place v := by
      apply Finset.insert_subset (Finset.mem_filter.2 ⟨hu, hplace.ge⟩)
      intro v hv
      obtain ⟨hv, hiv⟩ := Finset.mem_filter.1 hv
      refine Finset.mem_filter.2 ⟨hv, ?_⟩
      by_cases hvt : v = t
      · rw [hvt]
      · rw [Function.update_of_ne hvt] at hiv
        omega
    have hnot : u ∉ threads.filter fun v => i ≤ Function.update place t (place t + 1) v := by
      intro hmem
      have hiu := (Finset.mem_filter.1 hmem).2
      rw [Function.update_of_ne hne, hplace] at hiu
      omega
    have hcard := (Finset.card_le_card hsub).trans (h (place t))
    rw [Finset.card_insert_of_notMem hnot] at hcard
    omega
  · have hsame : (threads.filter fun v => i ≤ Function.update place t (place t + 1) v)
        = threads.filter fun v => i ≤ place v := by
      apply Finset.filter_congr
      intro v _
      by_cases hvt : v = t
      · rw [hvt, Function.update_self]
        omega
      · rw [Function.update_of_ne hvt]
    rw [hsame]
    exact h i

end Crowd
end PosixHw
