import PosixHw.Base.Run

/-!
# Notifications that merge

A notification that is posted while one is waiting is merged with it: there is one flag, and no
queue.  `Notifier` is this protocol in itself.  Not more is taken than was posted, and nothing that
was posted is lost: once nothing is waiting, something has been taken since.

A system implements the notifier if each of its steps posts, takes or changes neither the flag nor
the number of the notifications that were taken; `run_labels` is the simulation rule for this.
-/

namespace PosixHw
namespace Run

variable {σ α β τ : Type*} {step : σ → α → Option σ} {step' : τ → β → Option τ} {s t : σ}
  {as : List α}

/-- What the steps of a run are to another system: one of its actions, or nothing. -/
def labels (step : σ → α → Option σ) (f : σ → α → Option β) : σ → List α → List β
  | _, [] => []
  | s, a :: as =>
    match step s a with
    | none => []
    | some t => (f s a).toList ++ labels step f t as

/-- **The simulation rule for steps that may do nothing.** -/
theorem run_labels {I : σ → Prop} {f : σ → α → Option β} {abs : σ → τ}
    (hkeep : ∀ s a t, I s → step s a = some t → I t)
    (hnone : ∀ s a t, I s → step s a = some t → f s a = none → abs t = abs s)
    (hsome : ∀ s a t b, I s → step s a = some t → f s a = some b →
      step' (abs s) b = some (abs t)) (hs : I s) (h : run step s as = some t) :
    run step' (abs s) (labels step f s as) = some (abs t) := by
  induction as generalizing s with
  | nil =>
    cases h
    rfl
  | cons a as ih =>
    obtain ⟨u, hu, h⟩ := run_cons_eq_some.1 h
    have hlabels : labels step f s (a :: as) = (f s a).toList ++ labels step f u as := by
      rw [labels, hu]
    have htail := ih (hkeep s a u hs hu) h
    rw [hlabels]
    cases hf : f s a with
    | none =>
      rw [← hnone s a u hs hu hf]
      exact htail
    | some b => exact run_cons_eq_some.2 ⟨abs u, hsome s a u b hs hu hf, htail⟩

/-- Labels that the actions alone decide are counted as these are. -/
theorem countP_labels {f : σ → α → Option β} {p : α → Bool} {q : β → Bool}
    (hf : ∀ s a, (f s a).toList.countP q = [a].countP p) (h : run step s as = some t) :
    (labels step f s as).countP q = as.countP p := by
  induction as generalizing s with
  | nil => rfl
  | cons a as ih =>
    obtain ⟨u, hu, h⟩ := run_cons_eq_some.1 h
    rw [labels, hu]
    dsimp only
    rw [List.countP_append, hf, ih h, ← List.countP_append, List.singleton_append]

/-- Labels that leave actions out. -/
theorem labels_filter {p : α → Bool} (h : run step s as = some t) :
    labels step (fun _ a => if p a then some a else none) s as = as.filter p := by
  induction as generalizing s with
  | nil => rfl
  | cons a as ih =>
    obtain ⟨u, hu, h⟩ := run_cons_eq_some.1 h
    rw [labels, hu]
    dsimp only
    rw [ih h, List.filter_cons]
    split_ifs <;> rfl

end Run

namespace Notifier

open Run

/-- Whether a notification is waiting, and how many have been taken. -/
structure State where
  flag : Bool
  taken : ℕ
  deriving DecidableEq

inductive Action
  | post
  | take
  deriving DecidableEq

/-- One step; nothing can be taken while nothing is waiting. -/
def step (s : State) : Action → Option State
  | .post => some { s with flag := true }
  | .take => if s.flag then some ⟨false, s.taken + 1⟩ else none

/-- What has been taken, and what is going to be. -/
def State.owed (s : State) : ℕ := s.taken + s.flag.toNat

variable {s t u : State} {as bs : List Action}

theorem owed_step {a : Action} (h : step s a = some t) :
    t.owed ≤ s.owed + [a].countP (· = .post) := by
  obtain ⟨flag, taken⟩ := s
  cases a with
  | post =>
    cases h
    cases flag <;> simp [State.owed]
  | take =>
    cases flag with
    | false => cases h
    | true =>
      cases h
      simp [State.owed]

/-- **Nothing is made up**: not more is taken than was posted. -/
theorem owed_run (h : run step s as = some t) : t.owed ≤ s.owed + as.countP (· = .post) := by
  induction as generalizing s with
  | nil =>
    cases h
    exact le_rfl
  | cons a as ih =>
    obtain ⟨u, hu, h⟩ := run_cons_eq_some.1 h
    have hstep := owed_step hu
    have hrun := ih h
    rw [← List.singleton_append, List.countP_append]
    omega

theorem owed_mono {a : Action} (h : step s a = some t) : s.owed ≤ t.owed := by
  obtain ⟨flag, taken⟩ := s
  cases a with
  | post =>
    cases h
    cases flag <;> simp [State.owed]
  | take =>
    cases flag with
    | false => cases h
    | true =>
      cases h
      simp [State.owed]

/-- **Nothing is lost**: when nothing is waiting after a notification was posted, more has been
taken than before. -/
theorem taken_lt (hs : step s .post = some t) (h : run step t as = some u) (hu : u.flag = false) :
    s.taken < u.taken := by
  have hmono : t.owed ≤ u.owed :=
    run_invariant (I := fun v => t.owed ≤ v.owed) (fun v a w hv hw => hv.trans (owed_mono hw))
      le_rfl h
  cases hs
  simp only [State.owed, hu, Bool.toNat_true, Bool.toNat_false] at hmono
  omega

end Notifier
end PosixHw
