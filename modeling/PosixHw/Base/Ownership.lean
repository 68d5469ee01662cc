import Mathlib.Logic.Function.Basic
import Mathlib.Logic.ExistsUnique
import Mathlib.Tactic.SplitIfs

/-!
# Handles and their owners

A resource is used through a handle, and a handle is given out again after the resource is gone.
`live h` is the resource behind the handle `h`, if there is one, and `holds o` is the handle that
the owner `o` has in hand.

`Ownership live holds` says that every live handle has exactly one owner and that nobody holds
another.  An owner may acquire a handle, pass it on and release it: `Ownership.acquire`,
`Ownership.transfer` and `Ownership.release`.
-/

namespace PosixHw

/-- Every live handle is held by exactly one owner, and no other handle is held. -/
structure Ownership {O H C : Type*} (live : H → Option C) (holds : O → Option H) : Prop where
  isLive : ∀ {o h}, holds o = some h → ∃ c, live h = some c
  held : ∀ {h c}, live h = some c → ∃ o, holds o = some h
  inj : ∀ {o o' h}, holds o = some h → holds o' = some h → o = o'

namespace Ownership

variable {O H C : Type*} {live live' : H → Option C} {holds : O → Option H} {o o' : O} {h : H}
  {c : C}

theorem init : Ownership (fun _ : H => (none : Option C)) fun _ : O => none where
  isLive e := by cases e
  held e := by cases e
  inj e := by cases e

/-- A live handle has exactly one owner. -/
theorem existsUnique (own : Ownership live holds) (hc : live h = some c) :
    ∃! o, holds o = some h := by
  obtain ⟨o, ho⟩ := own.held hc
  exact ⟨o, ho, fun _ h' => own.inj h' ho⟩

variable [DecidableEq O]

/-- A handle passes from `o` to `o'`, whose hands are free. -/
theorem transfer (own : Ownership live holds) (ho : holds o = some h) (ho' : holds o' = none) :
    Ownership live (Function.update (Function.update holds o none) o' (some h)) where
  isLive := by
    intro o₁ h₁ e₁
    rw [Function.update_apply, Function.update_apply] at e₁
    split_ifs at e₁
    · cases e₁; exact own.isLive ho
    · exact own.isLive e₁
  held := by
    intro h₁ c₁ e₁
    obtain ⟨o₁, ho₁⟩ := own.held e₁
    by_cases e : o₁ = o
    · subst e
      rw [ho, Option.some.injEq] at ho₁
      exact ⟨o', by rw [Function.update_self, ho₁]⟩
    · refine ⟨o₁, ?_⟩
      rwa [Function.update_of_ne, Function.update_of_ne e]
      rintro rfl
      rw [ho'] at ho₁; cases ho₁
  inj := by
    have hone : ∀ {o₁}, o₁ ≠ o → holds o₁ ≠ some h := fun e e₁ => e (own.inj e₁ ho)
    intro o₁ o₂ h₁ e₁ e₂
    rw [Function.update_apply, Function.update_apply] at e₁ e₂
    split_ifs at e₁ e₂ with i₁ i₂ i₂ j₁ j₂
    · rw [i₁, i₂]
    · cases e₁; exact absurd e₂ (hone (by assumption))
    · cases e₂; exact absurd e₁ (hone (by assumption))
    · exact own.inj e₁ e₂

variable [DecidableEq H]

/-- An owner with free hands takes a handle that was not live. -/
theorem acquire (own : Ownership live holds) (ho : holds o = none) (hh : live h = none)
    (hc : live' = Function.update live h (some c)) :
    Ownership live' (Function.update holds o (some h)) where
  isLive := by
    intro o₁ h₁ e₁
    rw [hc]
    by_cases e : h₁ = h
    · exact ⟨c, by rw [e, Function.update_self]⟩
    · rw [Function.update_of_ne e]
      refine own.isLive (o := o₁) ?_
      rwa [Function.update_of_ne] at e₁
      rintro rfl
      rw [Function.update_self, Option.some.injEq] at e₁
      exact e e₁.symm
  held := by
    intro h₁ c₁ e₁
    by_cases e : h₁ = h
    · exact ⟨o, by rw [e, Function.update_self]⟩
    · rw [hc, Function.update_of_ne e] at e₁
      obtain ⟨o₁, ho₁⟩ := own.held e₁
      refine ⟨o₁, ?_⟩
      rwa [Function.update_of_ne]
      rintro rfl
      rw [ho] at ho₁; cases ho₁
  inj := by
    have hne : ∀ {o₁}, holds o₁ ≠ some h := fun e₁ => by
      obtain ⟨d, hd⟩ := own.isLive e₁
      rw [hh] at hd; cases hd
    intro o₁ o₂ h₁ e₁ e₂
    rw [Function.update_apply] at e₁ e₂
    split_ifs at e₁ e₂ with i₁ i₂ i₂
    · rw [i₁, i₂]
    · cases e₁; exact absurd e₂ hne
    · cases e₂; exact absurd e₁ hne
    · exact own.inj e₁ e₂

/-- The owner of a handle releases it, and it is not live any more. -/
theorem release (own : Ownership live holds) (ho : holds o = some h)
    (hc : live' = Function.update live h none) :
    Ownership live' (Function.update holds o none) where
  isLive := by
    intro o₁ h₁ e₁
    rw [Function.update_apply] at e₁
    split_ifs at e₁ with e
    rw [hc, Function.update_of_ne]
    · exact own.isLive e₁
    · rintro rfl
      exact e (own.inj e₁ ho)
  held := by
    intro h₁ c₁ e₁
    rw [hc, Function.update_apply] at e₁
    split_ifs at e₁ with e
    obtain ⟨o₁, ho₁⟩ := own.held e₁
    refine ⟨o₁, ?_⟩
    rwa [Function.update_of_ne]
    rintro rfl
    rw [ho, Option.some.injEq] at ho₁
    exact e ho₁.symm
  inj := by
    intro o₁ o₂ h₁ e₁ e₂
    rw [Function.update_apply] at e₁ e₂
    split_ifs at e₁ e₂
    exact own.inj e₁ e₂

end Ownership
end PosixHw
