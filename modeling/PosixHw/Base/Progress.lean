import PosixHw.Base.Run

/-!
# Loops that consume their input

A system is given as in `Run`; a step is a turn of a loop, `running` tells whether the loop goes on,
and `unread` is what is left of the input.

* `Consumes`: a turn leaves the loop or consumes something.  So there must be no turn that goes on
  where the input is at its end.
* `Progress`: all turns of a run do.
* `Progress.length_le`: such a run is bounded by the input.  `ProgressIff` says for which runs of a
  system this is so; it follows from the steps alone (`progressIff_of_step`).
* `exists_run_of_endless` is for a loop that goes on for ever.
-/

namespace PosixHw
namespace Run

variable {σ α : Type*} {step : σ → α → Option σ} {s t : σ} {as : List α}

/-- The turn leaves the loop or consumes something. -/
def Consumes (running : σ → Bool) (unread : σ → ℕ) (s t : σ) : Prop :=
  running t = true → unread t < unread s

/-- All turns of the run do. -/
def Progress (step : σ → α → Option σ) (running : σ → Bool) (unread : σ → ℕ) (s : σ)
    (as : List α) : Prop :=
  Along step (fun s a => ∀ t, step s a = some t → Consumes running unread s t) s as

/-- Two conditions that agree where a step is enabled agree along every run. -/
theorem Along.congr {P Q : σ → α → Prop} (hPQ : ∀ s a t, step s a = some t → (P s a ↔ Q s a))
    (h : run step s as = some t) : Along step P s as ↔ Along step Q s as := by
  induction as generalizing s with
  | nil => exact Iff.rfl
  | cons a as ih =>
    obtain ⟨u, hu, h⟩ := run_cons_eq_some.1 h
    refine and_congr (hPQ s a u hu) (forall₂_congr fun v hv => ?_)
    obtain rfl : u = v := Option.some.inj (hu.symm.trans hv)
    exact ih h

variable {running : σ → Bool} {unread : σ → ℕ}

/-- When all turns make progress. -/
theorem progress_iff_along {P : σ → α → Prop}
    (hP : ∀ s a t, step s a = some t → (Consumes running unread s t ↔ P s a))
    (h : run step s as = some t) : Progress step running unread s as ↔ Along step P s as := by
  refine Along.congr (fun s a u hu => ?_) h
  rw [← hP s a u hu]
  exact ⟨fun hall => hall u hu, fun hu' v hv => Option.some.inj (hu.symm.trans hv) ▸ hu'⟩

/-- **Termination.** A run that makes progress has at most one turn more than there is input. -/
theorem Progress.length_le (hrun : ∀ s a t, step s a = some t → running s = true)
    (hp : Progress step running unread s as) (h : run step s as = some t) :
    as.length ≤ unread s + 1 := by
  induction as generalizing s with
  | nil => exact Nat.zero_le _
  | cons a as ih =>
    obtain ⟨u, hu, h⟩ := run_cons_eq_some.1 h
    have hle := ih (hp.2 u hu) h
    rw [List.length_cons]
    cases as with
    | nil => exact Nat.succ_le_succ (Nat.zero_le _)
    | cons b bs =>
      obtain ⟨v, hv, -⟩ := run_cons_eq_some.1 h
      have hlt : unread u < unread s := hp.1 u hu (hrun u b v hv)
      omega

/-- All turns of a run from `s` make progress exactly if they all meet `P`, and such a run is
bounded by the input. -/
def ProgressIff (step : σ → α → Option σ) (running : σ → Bool) (unread : σ → ℕ)
    (P : σ → α → Prop) (s : σ) : Prop :=
  ∀ as t, run step s as = some t →
    (Progress step running unread s as ↔ Along step P s as) ∧
    (Along step P s as → as.length ≤ unread s + 1)

theorem progressIff_of_step {P : σ → α → Prop}
    (hrun : ∀ s a t, step s a = some t → running s = true)
    (hP : ∀ s a t, step s a = some t → (Consumes running unread s t ↔ P s a)) (s : σ) :
    ProgressIff step running unread P s := by
  intro as t h
  have hiff := progress_iff_along hP h
  exact ⟨hiff, fun hall => (hiff.2 hall).length_le hrun h⟩

/-- A loop that gets into a state from which it goes on in the same way has runs of any length. -/
theorem exists_run_of_endless {I : σ → Prop} (hstep : ∀ s, I s → ∃ a t, step s a = some t ∧ I t)
    (hs : I s) (n : ℕ) : ∃ as t, run step s as = some t ∧ as.length = n ∧ I t := by
  induction n generalizing s with
  | zero => exact ⟨[], s, rfl, rfl, hs⟩
  | succ n ih =>
    obtain ⟨a, u, hu, hI⟩ := hstep s hs
    obtain ⟨as, t, ht, hlen, hIt⟩ := ih hI
    exact ⟨a :: as, t, run_cons_eq_some.2 ⟨u, hu, ht⟩, by rw [List.length_cons, hlen], hIt⟩

end Run
end PosixHw
