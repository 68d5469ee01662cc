import Mathlib.Tactic

/-!
# Programs that may exit early

A program of the kind `if (call(..) fails) { report; clean up; return 1; }` is a function of the
state; it returns a value, or exits, and in both cases leaves a state behind.

`Meets P c Q E`: started where `P` holds, `c` returns with `Q` or exits with `E`.  There is one rule
for each way to put programs together; `Meets.downFrom` is the one for a loop that counts down.
-/

namespace PosixHw
namespace Exits

/-- A program on states `σ` that returns an `α` or exits with an `ε`. -/
def Prog (ε σ α : Type) : Type := σ → Except ε α × σ

variable {ε σ α β : Type}

instance : Monad (Prog ε σ) where
  pure a := fun s => (.ok a, s)
  bind c f := fun s =>
    match c s with
    | (.ok a, t) => f a t
    | (.error e, t) => (.error e, t)

/-- Leaves the program. -/
def exit (e : ε) : Prog ε σ α := fun s => (.error e, s)

/-- `if (!ok) { c }` -/
def check (ok : Bool) (c : Prog ε σ Unit) : Prog ε σ Unit := if ok then pure () else c

/-- `for (i = n - 1; i >= 0; i--) { body(i) }` -/
def downFrom : ℕ → (ℕ → Prog ε σ Unit) → Prog ε σ Unit
  | 0, _ => pure ()
  | n + 1, body => do
    body n
    downFrom n body

/-- From a state with `P`, the program returns with `Q` or exits with `E`. -/
def Meets (P : σ → Prop) (c : Prog ε σ α) (Q : α → σ → Prop) (E : ε → σ → Prop) : Prop :=
  ∀ s, P s →
    match c s with
    | (.ok a, t) => Q a t
    | (.error e, t) => E e t

variable {P P' : σ → Prop} {Q Q' : α → σ → Prop} {R : β → σ → Prop} {E : ε → σ → Prop}
  {c : Prog ε σ α} {f : α → Prog ε σ β}

namespace Meets

/-- A call that does not leave the program. -/
theorem returns (h : ∀ s, P s → ∃ a t, c s = (.ok a, t) ∧ Q a t) : Meets P c Q E := by
  intro s hs
  obtain ⟨a, t, hc, hQ⟩ := h s hs
  rw [hc]
  exact hQ

/-- Less is asked for before, and less is promised after. -/
theorem mono (h : Meets P c Q E) (hP : ∀ s, P' s → P s) (hQ : ∀ a s, Q a s → Q' a s) :
    Meets P' c Q' E := by
  intro s hs
  have hmeets := h s (hP s hs)
  generalize c s = r at hmeets
  obtain ⟨(e | a), t⟩ := r
  · exact hmeets
  · exact hQ a t hmeets

theorem pure {a : α} (h : ∀ s, P s → Q a s) : Meets P (Pure.pure a) Q E := fun s hs => h s hs

theorem exit {e : ε} (h : ∀ s, P s → E e s) : Meets P (Exits.exit e) Q E := fun s hs => h s hs

/-- One program after the other. -/
theorem bind (hc : Meets P c Q E) (hf : ∀ a, Meets (Q a) (f a) R E) :
    Meets P (c >>= f) R E := by
  intro s hs
  have hmeets := hc s hs
  show match (match c s with | (.ok a, t) => f a t | (.error e, t) => (.error e, t)) with
    | (.ok a, t) => R a t
    | (.error e, t) => E e t
  generalize c s = r at hmeets
  obtain ⟨(e | a), t⟩ := r
  · exact hmeets
  · exact hf a t hmeets

/-- A test of what a call has returned: `A` holds if it is true, and `B` before the other branch. -/
theorem check {ok : Bool} {c : Prog ε σ Unit} {A B : σ → Prop} (hc : Meets B c (fun _ => A) E) :
    Meets (fun s => (ok = true → A s) ∧ (ok = false → B s)) (Exits.check ok c) (fun _ => A) E := by
  cases ok with
  | true => exact Meets.pure fun _ hs => hs.1 rfl
  | false => exact fun s hs => hc s (hs.2 rfl)

/-- What a part of the state is before the program may be fixed. -/
theorem fix {τ : Type} (g : σ → τ) (h : ∀ x, Meets (fun s => P s ∧ g s = x) c Q E) :
    Meets P c Q E := fun s hs => h (g s) s ⟨hs, rfl⟩

/-- **The rule for a loop that counts down**: each turn brings the invariant from `n + 1` to `n`. -/
theorem downFrom {I : ℕ → σ → Prop} {body : ℕ → Prog ε σ Unit}
    (hbody : ∀ n, Meets (I (n + 1)) (body n) (fun _ => I n) E) (n : ℕ) :
    Meets (I n) (Exits.downFrom n body) (fun _ => I 0) E := by
  induction n with
  | zero => exact Meets.pure fun _ hs => hs
  | succ n ih => exact (hbody n).bind fun _ => ih

end Meets

end Exits
end PosixHw
