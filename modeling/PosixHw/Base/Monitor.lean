import Mathlib.Tactic
import Mathlib.Data.Finset.Card

/-!
# Condition variables

A mutex is an `Option T`: the thread that holds it, if any.  A condition variable is the set of
the threads that sleep on it together with the set of those that were woken and have yet to
re-acquire the mutex.  A thread is never in both sets; the structure carries this.

* `Cond.wait` puts a thread to sleep, `Cond.wake` wakes one sleeper (also spuriously),
  `Cond.reacquire` lets a woken thread go on;
* `Cond.signal c w` is `pthread_cond_signal`: it wakes the sleeper named by `w`, and does nothing
  (`w = none`) exactly when nobody sleeps.
-/

namespace PosixHw

variable {T : Type*}

/-- The waiters of a condition variable. -/
structure Cond (T : Type*) where
  sleeping : Finset T
  woken : Finset T
  disj : Disjoint sleeping woken

namespace Cond

/-- No waiters: the state after `pthread_cond_init`. -/
def init : Cond T := ⟨∅, ∅, Finset.disjoint_empty_left _⟩

@[simp] theorem init_sleeping : (init : Cond T).sleeping = ∅ := rfl
@[simp] theorem init_woken : (init : Cond T).woken = ∅ := rfl

theorem notMem_woken {c : Cond T} {t : T} (ht : t ∈ c.sleeping) : t ∉ c.woken :=
  Finset.disjoint_left.1 c.disj ht

variable [DecidableEq T]

/-- `t` goes to sleep. -/
def wait (c : Cond T) (t : T) : Cond T where
  sleeping := insert t c.sleeping
  woken := c.woken.erase t
  disj := Finset.disjoint_insert_left.2
    ⟨Finset.notMem_erase t _, c.disj.mono_right (Finset.erase_subset _ _)⟩

/-- `t` is woken. -/
def wake (c : Cond T) (t : T) : Cond T where
  sleeping := c.sleeping.erase t
  woken := insert t c.woken
  disj := Finset.disjoint_insert_right.2
    ⟨Finset.notMem_erase t _, c.disj.mono_left (Finset.erase_subset _ _)⟩

/-- `t`, once woken, holds the mutex again. -/
def reacquire (c : Cond T) (t : T) : Cond T where
  sleeping := c.sleeping
  woken := c.woken.erase t
  disj := c.disj.mono_right (Finset.erase_subset _ _)

/-- One sleeper is woken, if there is one. -/
def signal (c : Cond T) : Option T → Option (Cond T)
  | none => if c.sleeping = ∅ then some c else none
  | some t => if t ∈ c.sleeping then some (c.wake t) else none

variable {c d : Cond T} {t : T}

@[simp] theorem wait_sleeping : (c.wait t).sleeping = insert t c.sleeping := rfl
@[simp] theorem wait_woken : (c.wait t).woken = c.woken.erase t := rfl
@[simp] theorem wake_sleeping : (c.wake t).sleeping = c.sleeping.erase t := rfl
@[simp] theorem wake_woken : (c.wake t).woken = insert t c.woken := rfl
@[simp] theorem reacquire_sleeping : (c.reacquire t).sleeping = c.sleeping := rfl
@[simp] theorem reacquire_woken : (c.reacquire t).woken = c.woken.erase t := rfl

/-- What a signal does. -/
theorem signal_cases {w : Option T} (h : c.signal w = some d) :
    (w = none ∧ c.sleeping = ∅ ∧ d = c) ∨ ∃ t, w = some t ∧ t ∈ c.sleeping ∧ d = c.wake t := by
  cases w with
  | none =>
    simp only [signal] at h
    split_ifs at h with hc
    cases h
    exact Or.inl ⟨rfl, hc, rfl⟩
  | some t =>
    simp only [signal] at h
    split_ifs at h with ht
    cases h
    exact Or.inr ⟨t, rfl, ht, rfl⟩

/-- A signal is never refused. -/
theorem exists_signal (c : Cond T) : ∃ w d, c.signal w = some d := by
  by_cases h : c.sleeping = ∅
  · exact ⟨none, c, if_pos h⟩
  · obtain ⟨t, ht⟩ := Finset.nonempty_iff_ne_empty.2 h
    exact ⟨some t, c.wake t, if_pos ht⟩

theorem card_wake (ht : t ∈ c.sleeping) : (c.wake t).woken.card = c.woken.card + 1 :=
  Finset.card_insert_of_notMem (notMem_woken ht)

theorem card_reacquire (ht : t ∈ c.woken) : (c.reacquire t).woken.card + 1 = c.woken.card :=
  Finset.card_erase_add_one ht

/-- A signal wakes one waiter at most. -/
theorem card_signal {w : Option T} (h : c.signal w = some d) :
    d.woken.card ≤ c.woken.card + 1 := by
  rcases signal_cases h with ⟨-, -, rfl⟩ | ⟨t, -, ht, rfl⟩
  · exact Nat.le_succ _
  · exact (card_wake ht).le

/-- Waking moves a waiter from one set to the other. -/
theorem wake_waiters (ht : t ∈ c.sleeping) :
    (c.wake t).sleeping ∪ (c.wake t).woken = c.sleeping ∪ c.woken := by
  rw [wake_sleeping, wake_woken, Finset.union_insert, ← Finset.insert_union,
    Finset.insert_erase ht]

/-- A signal changes no waiter into a thread that does not wait, or back. -/
theorem signal_waiters {w : Option T} (h : c.signal w = some d) :
    d.sleeping ∪ d.woken = c.sleeping ∪ c.woken := by
  rcases signal_cases h with ⟨-, -, rfl⟩ | ⟨t, -, ht, rfl⟩
  · rfl
  · exact wake_waiters ht

end Cond
end PosixHw
