import Mathlib.Tactic

/-!
# Mutexes and what the threads believe

`holder i` is the thread that has locked the mutex `i`, if there is one; `holds t` is the mutex that
the thread `t`, from where it is in its program, takes itself to have locked.  `Exclusive` says that
no thread is mistaken, `Known` that a locked mutex is known to its holder.  A step of a thread locks
a mutex, unlocks it, or does neither; there is one lemma for each.
-/

namespace PosixHw
namespace Mutex

variable {ι τ : Type*} {holder : ι → Option τ} {holds : τ → Option ι} {i : ι} {t u : τ}

/-- A thread that takes itself to have locked a mutex has locked it. -/
def Exclusive (holder : ι → Option τ) (holds : τ → Option ι) : Prop :=
  ∀ t i, holds t = some i → holder i = some t

/-- Two threads do not have the same mutex. -/
theorem Exclusive.unique (h : Exclusive holder holds) (ht : holds t = some i)
    (hu : holds u = some i) : t = u :=
  Option.some.inj ((h t i ht).symm.trans (h u i hu))

variable [DecidableEq τ]

/-- The thread goes on with the same mutex, or with none. -/
theorem Exclusive.move (h : Exclusive holder holds) {o : Option ι} (ho : o = holds t) :
    Exclusive holder (Function.update holds t o) := by
  rwa [ho, Function.update_eq_self]

variable [DecidableEq ι]

theorem Exclusive.lock (h : Exclusive holder holds) (hfree : holder i = none) :
    Exclusive (Function.update holder i (some t)) (Function.update holds t (some i)) := by
  intro u j hu
  by_cases htu : u = t
  · subst htu
    rw [Function.update_self] at hu
    obtain rfl := Option.some.inj hu
    rw [Function.update_self]
  · rw [Function.update_of_ne htu] at hu
    have hj : j ≠ i := by
      rintro rfl
      rw [h u j hu] at hfree
      cases hfree
    rw [Function.update_of_ne hj]
    exact h u j hu

theorem Exclusive.unlock (h : Exclusive holder holds) (ht : holds t = some i) :
    Exclusive (Function.update holder i none) (Function.update holds t none) := by
  intro u j hu
  have htu : u ≠ t := by
    rintro rfl
    rw [Function.update_self] at hu
    cases hu
  rw [Function.update_of_ne htu] at hu
  have hj : j ≠ i := by
    rintro rfl
    exact htu (h.unique hu ht)
  rw [Function.update_of_ne hj]
  exact h u j hu

/-! ### Mutexes that are locked -/

/-- The holder of a mutex takes itself to have locked it, and no other one. -/
def Known (holder : ι → Option τ) (holds : τ → Option ι) : Prop :=
  ∀ i t, holder i = some t → holds t = some i

omit [DecidableEq ι] in
theorem Known.move (h : Known holder holds) {o : Option ι} (ho : o = holds t) :
    Known holder (Function.update holds t o) := by
  rwa [ho, Function.update_eq_self]

theorem Known.lock (h : Known holder holds) (ht : holds t = none) :
    Known (Function.update holder i (some t)) (Function.update holds t (some i)) := by
  intro j u hj
  by_cases hji : j = i
  · subst hji
    rw [Function.update_self] at hj
    obtain rfl := Option.some.inj hj
    rw [Function.update_self]
  · rw [Function.update_of_ne hji] at hj
    have hut : u ≠ t := by
      rintro rfl
      rw [h j u hj] at ht
      cases ht
    rw [Function.update_of_ne hut]
    exact h j u hj

theorem Known.unlock (h : Known holder holds) (ht : holds t = some i) :
    Known (Function.update holder i none) (Function.update holds t none) := by
  intro j u hj
  have hji : j ≠ i := by
    rintro rfl
    rw [Function.update_self] at hj
    cases hj
  rw [Function.update_of_ne hji] at hj
  have hut : u ≠ t := by
    rintro rfl
    exact hji (Option.some.inj ((h j u hj).symm.trans ht))
  rw [Function.update_of_ne hut]
  exact h j u hj

/-! ### A single mutex -/

section Single

variable {holds : τ → Option Unit} {o : Option τ}

theorem Exclusive.lock_single (h : Exclusive (fun _ => o) holds) (hfree : o = none) :
    Exclusive (fun _ => some t) (Function.update holds t (some ())) := by
  have hlock := Exclusive.lock (t := t) (i := ()) h hfree
  rw [Function.update_eq_const_of_subsingleton] at hlock
  exact hlock

theorem Exclusive.unlock_single (h : Exclusive (fun _ => o) holds) (ht : holds t = some ()) :
    Exclusive (fun _ => none) (Function.update holds t none) := by
  have hunlock := Exclusive.unlock (i := ()) h ht
  rw [Function.update_eq_const_of_subsingleton] at hunlock
  exact hunlock

theorem Known.lock_single (h : Known (fun _ => o) holds) (ht : holds t = none) :
    Known (fun _ => some t) (Function.update holds t (some ())) := by
  have hlock := Known.lock (i := ()) h ht
  rw [Function.update_eq_const_of_subsingleton] at hlock
  exact hlock

theorem Known.unlock_single (h : Known (fun _ => o) holds) (ht : holds t = some ()) :
    Known (fun _ => none) (Function.update holds t none) := by
  have hunlock := Known.unlock (i := ()) h ht
  rw [Function.update_eq_const_of_subsingleton] at hunlock
  exact hunlock

end Single

end Mutex
end PosixHw
