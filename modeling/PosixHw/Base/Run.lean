import Mathlib.Tactic

/-!
# Runs of partial labelled steps

A system is given by `step : σ → α → Option σ`: the action `a` is enabled in the state `s` when
`step s a` is `some`, and every choice that the environment makes (which thread moves, which
sleeper is woken, whether a call fails) is written in the action.

* `run step s as` performs the actions `as` one after the other;
* `Reachable step s t` says that some list of actions leads from `s` to `t`;
* `Along step P s as` says that every action of the run is performed in a state that meets `P`;
* `run_invariant`, `run_invariant_along` and `Reachable.invariant` are the induction rules: what
  one step preserves, a whole run preserves;
* `run_countP` is the one for a measure that counts some of the actions, `run_length_add` the one
  for a measure of what is left to do, and `run_dichotomy` the one for a property that is lost with
  the first action that does not meet a condition, as is `run_forall_iff` for one that may come
  back;
* `run_simulation_along` and `run_progress_along` are those for two systems that move in lockstep.
-/

namespace PosixHw
namespace Run

variable {σ α : Type*}

/-- The state after the actions `as`; `none` as soon as one of them is not enabled. -/
def run (step : σ → α → Option σ) : σ → List α → Option σ
  | s, [] => some s
  | s, a :: as => (step s a).bind fun t => run step t as

variable {step : σ → α → Option σ} {s t u : σ} {a : α} {as bs : List α}

@[simp] theorem run_nil : run step s [] = some s := rfl

theorem run_cons : run step s (a :: as) = (step s a).bind fun t => run step t as := rfl

theorem run_cons_eq_some :
    run step s (a :: as) = some u ↔ ∃ t, step s a = some t ∧ run step t as = some u :=
  Option.bind_eq_some_iff

theorem run_append : run step s (as ++ bs) = (run step s as).bind fun t => run step t bs := by
  induction as generalizing s with
  | nil => rfl
  | cons a as ih =>
    rw [List.cons_append, run_cons, run_cons]
    cases h : step s a with
    | none => rfl
    | some t => exact ih

theorem run_append_eq_some :
    run step s (as ++ bs) = some u ↔ ∃ t, run step s as = some t ∧ run step t bs = some u := by
  rw [run_append, Option.bind_eq_some_iff]

theorem run_singleton : run step s [a] = step s a := by
  rw [run_cons]; cases step s a <;> rfl

/-! ### Reachability -/

/-- Some list of actions leads from `s` to `t`. -/
def Reachable (step : σ → α → Option σ) (s t : σ) : Prop := ∃ as, run step s as = some t

theorem Reachable.refl (s : σ) : Reachable step s s := ⟨[], rfl⟩

theorem Reachable.tail (h : Reachable step s t) (ht : step t a = some u) : Reachable step s u := by
  obtain ⟨as, has⟩ := h
  exact ⟨as ++ [a], run_append_eq_some.2 ⟨t, has, by rw [run_singleton, ht]⟩⟩

/-- **The invariant rule.** What every step preserves holds after every run. -/
theorem run_invariant {I : σ → Prop} (hstep : ∀ s a t, I s → step s a = some t → I t)
    (hs : I s) (h : run step s as = some t) : I t := by
  induction as generalizing s with
  | nil => cases h; exact hs
  | cons a as ih =>
    obtain ⟨u, hu, h⟩ := run_cons_eq_some.1 h
    exact ih (hstep s a u hs hu) h

/-- The invariant rule for a property of the state and of what has happened so far. -/
theorem run_history {I : List α → σ → Prop}
    (hstep : ∀ bs s a t, I bs s → step s a = some t → I (bs ++ [a]) t) (hs : I [] s)
    (h : run step s as = some t) : I as t := by
  induction as using List.reverseRecOn generalizing t with
  | nil =>
    cases h
    exact hs
  | append_singleton as a ih =>
    obtain ⟨u, hu, ht⟩ := run_append_eq_some.1 h
    rw [run_singleton] at ht
    exact hstep as u a t (ih hu) ht

theorem Reachable.invariant {I : σ → Prop} (hstep : ∀ s a t, I s → step s a = some t → I t)
    (hs : I s) (h : Reachable step s t) : I t := by
  obtain ⟨as, has⟩ := h
  exact run_invariant hstep hs has

/-- **The counting rule.** What grows by one with the actions `p`, and only with these, counts them
in a run. -/
theorem run_countP {f : σ → ℕ} {p : α → Bool}
    (hstep : ∀ s a t, step s a = some t → f t = f s + [a].countP p) (h : run step s as = some t) :
    f t = f s + as.countP p := by
  induction as generalizing s with
  | nil =>
    cases h
    rfl
  | cons a as ih =>
    obtain ⟨u, hu, h⟩ := run_cons_eq_some.1 h
    rw [ih h, hstep s a u hu, Nat.add_assoc, ← List.countP_append, List.singleton_append]

/-- Such a measure is bounded in all states of a run exactly if the count is. -/
theorem run_countP_le_iff {f : σ → ℕ} {p : α → Bool} {k : ℕ}
    (hstep : ∀ s a t, step s a = some t → f t = f s + [a].countP p) (h : run step s as = some t) :
    (∀ bs u, bs <+: as → run step s bs = some u → f u ≤ k) ↔ f s + as.countP p ≤ k := by
  constructor
  · intro hall
    rw [← run_countP hstep h]
    exact hall as t (List.prefix_refl as) h
  · intro hle bs u hbs hu
    rw [run_countP hstep hu]
    exact (Nat.add_le_add_left hbs.sublist.countP_le _).trans hle

/-- **The termination rule.** What falls by one with every step bounds the runs. -/
theorem run_length_add {I : σ → Prop} {f : σ → ℕ}
    (hstep : ∀ s a t, I s → step s a = some t → I t ∧ f t + 1 = f s) (hs : I s)
    (h : run step s as = some t) : as.length + f t = f s := by
  induction as generalizing s with
  | nil =>
    cases h
    exact Nat.zero_add _
  | cons a as ih =>
    obtain ⟨u, hu, h⟩ := run_cons_eq_some.1 h
    obtain ⟨hI, hf⟩ := hstep s a u hs hu
    rw [List.length_cons, Nat.add_right_comm, ih hI h, hf]

/-- What falls with every step bounds the runs too. -/
theorem run_length_le {I : σ → Prop} {f : σ → ℕ}
    (hstep : ∀ s a t, I s → step s a = some t → I t ∧ f t < f s) (hs : I s)
    (h : run step s as = some t) : as.length + f t ≤ f s := by
  induction as generalizing s with
  | nil =>
    cases h
    exact (Nat.zero_add _).le
  | cons a as ih =>
    obtain ⟨u, hu, h⟩ := run_cons_eq_some.1 h
    obtain ⟨hI, hf⟩ := hstep s a u hs hu
    rw [List.length_cons, Nat.add_right_comm]
    exact (Nat.succ_le_succ (ih hI h)).trans hf

/-! ### Runs whose actions all meet a condition -/

/-- Every action of the run `as` from `s` is performed in a state that meets `P`. -/
def Along (step : σ → α → Option σ) (P : σ → α → Prop) : σ → List α → Prop
  | _, [] => True
  | s, a :: as => P s a ∧ ∀ t, step s a = some t → Along step P t as

/-- The invariant rule for runs whose actions all meet `P`. -/
theorem run_invariant_along {I : σ → Prop} {P : σ → α → Prop}
    (hstep : ∀ s a t, I s → P s a → step s a = some t → I t)
    (hs : I s) (hP : Along step P s as) (h : run step s as = some t) : I t := by
  induction as generalizing s with
  | nil => cases h; exact hs
  | cons a as ih =>
    obtain ⟨u, hu, h⟩ := run_cons_eq_some.1 h
    exact ih (hstep s a u hs hP.1 hu) (hP.2 u hu) h

/-- A condition on a part of the state that moves like the first system. -/
theorem Along.of_part {τ : Type*} {step' : τ → α → Option τ} {f : τ → σ} {P : σ → α → Prop}
    (hstep : ∀ p a q, step' p a = some q → step (f p) a = some (f q)) {p : τ}
    (h : Along step P (f p) as) : Along step' (fun p a => P (f p) a) p as := by
  induction as generalizing p with
  | nil => trivial
  | cons a as ih => exact ⟨h.1, fun q hq => ih (h.2 (f q) (hstep p a q hq))⟩

/-- A condition on the actions alone. -/
theorem Along.of_forall {P : α → Prop} (h : ∀ a ∈ as, P a) : Along step (fun _ a => P a) s as := by
  induction as generalizing s with
  | nil => trivial
  | cons a as ih =>
    exact ⟨h a List.mem_cons_self, fun t _ => ih fun b hb => h b (List.mem_cons_of_mem _ hb)⟩

/-- Where every action that meets `P` is enabled, a run of such actions goes through. -/
theorem run_defined {I : σ → Prop} {P : α → Prop}
    (hstep : ∀ s a, I s → P a → ∃ t, step s a = some t ∧ I t) (hs : I s) (hP : ∀ a ∈ as, P a) :
    ∃ t, run step s as = some t ∧ I t := by
  induction as generalizing s with
  | nil => exact ⟨s, rfl, hs⟩
  | cons a as ih =>
    obtain ⟨ha, has⟩ := List.forall_mem_cons.1 hP
    obtain ⟨u, hu, hI⟩ := hstep s a hs ha
    obtain ⟨t, ht, hIt⟩ := ih hI has
    exact ⟨t, run_cons_eq_some.2 ⟨u, hu, ht⟩, hIt⟩

/-- The converse, where the steps that meet the condition are enabled. -/
theorem Along.forall_mem {I : σ → Prop} {P : α → Prop}
    (hstep : ∀ s a, I s → P a → ∃ t, step s a = some t ∧ I t) (hs : I s)
    (h : Along step (fun _ a => P a) s as) : ∀ a ∈ as, P a := by
  induction as generalizing s with
  | nil => simp
  | cons a as ih =>
    obtain ⟨t, ht, hI⟩ := hstep s a hs h.1
    exact List.forall_mem_cons.2 ⟨h.1, ih hI (h.2 t ht)⟩

/-- **The dichotomy rule.** If `I` is kept by the actions that meet `P`, one that does not leads to
`J`, and `J` is kept by all actions, then a run ends with `I` or with `J`, depending on whether its
actions all meet `P`. -/
theorem run_dichotomy {I J : σ → Prop} {P : σ → α → Prop}
    (hkeep : ∀ s a t, I s → P s a → step s a = some t → I t)
    (hbreak : ∀ s a t, I s → ¬ P s a → step s a = some t → J t)
    (hbroken : ∀ s a t, J s → step s a = some t → J t)
    (hs : I s) (h : run step s as = some t) :
    Along step P s as ∧ I t ∨ ¬ Along step P s as ∧ J t := by
  induction as generalizing s with
  | nil =>
    cases h
    exact .inl ⟨trivial, hs⟩
  | cons a as ih =>
    obtain ⟨u, hu, h⟩ := run_cons_eq_some.1 h
    by_cases hP : P s a
    · rcases ih (hkeep s a u hs hP hu) h with ⟨halong, ht⟩ | ⟨halong, ht⟩
      · refine .inl ⟨⟨hP, fun v hv => ?_⟩, ht⟩
        obtain rfl : u = v := Option.some.inj (hu.symm.trans hv)
        exact halong
      · exact .inr ⟨fun hall => halong (hall.2 u hu), ht⟩
    · exact .inr ⟨fun hall => hP hall.1, run_invariant hbroken (hbreak s a u hs hP hu) h⟩

/-- **The rule of the first failure.** If `I` is kept by the actions that meet `P` and implies `Q`,
and one that does not leads to a state without `Q`, then `Q` holds in all states of a run exactly if
all of its actions meet `P`. -/
theorem run_forall_iff {I Q : σ → Prop} {P : α → Prop} (hQ : ∀ s, I s → Q s)
    (hkeep : ∀ s a t, I s → P a → step s a = some t → I t)
    (hbreak : ∀ s a t, I s → ¬ P a → step s a = some t → ¬ Q t)
    (hs : I s) (h : run step s as = some u) :
    (∀ bs t, bs <+: as → run step s bs = some t → Q t) ↔ ∀ a ∈ as, P a := by
  induction as generalizing s with
  | nil =>
    refine iff_of_true (fun bs t hbs ht => ?_) (by simp)
    rw [List.prefix_nil.1 hbs] at ht
    cases ht
    exact hQ s hs
  | cons a as ih =>
    obtain ⟨v, hv, h⟩ := run_cons_eq_some.1 h
    by_cases hP : P a
    · rw [List.forall_mem_cons, ← ih (hkeep s a v hs hP hv) h]
      constructor
      · exact fun hall => ⟨hP, fun bs t hbs ht =>
          hall (a :: bs) t ((List.prefix_cons_inj a).2 hbs) (run_cons_eq_some.2 ⟨v, hv, ht⟩)⟩
      · rintro ⟨-, hall⟩ bs t hbs ht
        rcases List.prefix_cons_iff.1 hbs with rfl | ⟨bs', rfl, hbs'⟩
        · cases ht
          exact hQ s hs
        · obtain ⟨w, hw, ht⟩ := run_cons_eq_some.1 ht
          obtain rfl : v = w := Option.some.inj (hv.symm.trans hw)
          exact hall bs' t hbs' ht
    · refine iff_of_false (fun hall => ?_) fun hall => hP (hall a List.mem_cons_self)
      exact hbreak s a v hs hP hv
        (hall [a] v (List.singleton_prefix_cons_iff.2 rfl) (by rw [run_singleton, hv]))

theorem Along.and {P Q : σ → α → Prop} (hP : Along step P s as) (hQ : Along step Q s as) :
    Along step (fun s a => P s a ∧ Q s a) s as := by
  induction as generalizing s with
  | nil => trivial
  | cons a as ih => exact ⟨⟨hP.1, hQ.1⟩, fun t ht => ih (hP.2 t ht) (hQ.2 t ht)⟩

theorem Along.mono {P Q : σ → α → Prop} (h : ∀ s a, P s a → Q s a) (hP : Along step P s as) :
    Along step Q s as := by
  induction as generalizing s with
  | nil => trivial
  | cons a as ih => exact ⟨h s a hP.1, fun t ht => ih (hP.2 t ht)⟩

/-- Two conditions that agree in the states with `I` agree along every run, if `I` is kept where the
second one holds. -/
theorem along_iff {I : σ → Prop} {P Q : σ → α → Prop} (hPQ : ∀ s a, I s → (P s a ↔ Q s a))
    (hkeep : ∀ s a t, I s → Q s a → step s a = some t → I t) (hs : I s) :
    Along step P s as ↔ Along step Q s as := by
  induction as generalizing s with
  | nil => exact Iff.rfl
  | cons a as ih =>
    constructor
    · rintro ⟨hP, hall⟩
      have hQ := (hPQ s a hs).1 hP
      exact ⟨hQ, fun t ht => (ih (hkeep s a t hs hQ ht)).1 (hall t ht)⟩
    · rintro ⟨hQ, hall⟩
      exact ⟨(hPQ s a hs).2 hQ, fun t ht => (ih (hkeep s a t hs hQ ht)).2 (hall t ht)⟩

instance Along.decidable {P : σ → α → Prop} [∀ s a, Decidable (P s a)] :
    ∀ s as, Decidable (Along step P s as)
  | _, [] => inferInstanceAs (Decidable True)
  | s, a :: as =>
    match hs : step s a with
    | none => decidable_of_iff (P s a)
        ⟨fun hP => ⟨hP, fun _ ht => nomatch hs.symm.trans ht⟩, And.left⟩
    | some t =>
      have := Along.decidable (P := P) t as
      decidable_of_iff (P s a ∧ Along step P t as)
        ⟨fun h => ⟨h.1, fun _ hu => Option.some.inj (hs.symm.trans hu) ▸ h.2⟩,
          fun h => ⟨h.1, h.2 t hs⟩⟩

/-! ### Lockstep -/

section Simulation

variable {τ β : Type*} {step' : τ → β → Option τ} {R : σ → τ → Prop} {P : σ → α → Prop}

/-- **The simulation rule.** If each step of the first system from a state that meets `P` is matched
by a step of the second one, then so is a whole run. -/
theorem run_simulation_along (f : α → β)
    (hstep : ∀ s a s' t, R s t → P s a → step s a = some s' →
      ∃ t', step' t (f a) = some t' ∧ R s' t') {s s' : σ} {t : τ}
    (hst : R s t) (hP : Along step P s as) (h : run step s as = some s') :
    ∃ t', run step' t (as.map f) = some t' ∧ R s' t' := by
  induction as generalizing s t with
  | nil =>
    cases h
    exact ⟨t, rfl, hst⟩
  | cons a as ih =>
    obtain ⟨s₁, hs₁, h⟩ := run_cons_eq_some.1 h
    obtain ⟨t₁, ht₁, hst₁⟩ := hstep s a s₁ t hst hP.1 hs₁
    obtain ⟨t', ht', hst'⟩ := ih hst₁ (hP.2 s₁ hs₁) h
    exact ⟨t', run_cons_eq_some.2 ⟨t₁, ht₁, ht'⟩, hst'⟩

/-- The simulation rule for the same actions in both systems. -/
theorem run_simulation {step' : τ → α → Option τ}
    (hstep : ∀ s a s' t, R s t → step s a = some s' → ∃ t', step' t a = some t' ∧ R s' t')
    {s s' : σ} {t : τ} (hst : R s t) (h : run step s as = some s') :
    ∃ t', run step' t as = some t' ∧ R s' t' := by
  obtain ⟨t', ht', hst'⟩ := run_simulation_along id (fun s a s' t hst _ => hstep s a s' t hst) hst
    (Along.of_forall fun _ _ => trivial) h
  rw [List.map_id] at ht'
  exact ⟨t', ht', hst'⟩

/-- If both systems can make the step whenever the state of the first one meets `P`, then both can
make the whole run. -/
theorem run_progress_along (f : α → β)
    (hstep : ∀ s a t, R s t → P s a →
      ∃ s' t', step s a = some s' ∧ step' t (f a) = some t' ∧ R s' t') {s : σ} {t : τ}
    (hst : R s t) (hP : Along step P s as) :
    ∃ s' t', run step s as = some s' ∧ run step' t (as.map f) = some t' ∧ R s' t' := by
  induction as generalizing s t with
  | nil => exact ⟨s, t, rfl, rfl, hst⟩
  | cons a as ih =>
    obtain ⟨s₁, t₁, hs₁, ht₁, hst₁⟩ := hstep s a t hst hP.1
    obtain ⟨s', t', hs', ht', hst'⟩ := ih hst₁ (hP.2 s₁ hs₁)
    exact ⟨s', t', run_cons_eq_some.2 ⟨s₁, hs₁, hs'⟩, run_cons_eq_some.2 ⟨t₁, ht₁, ht'⟩, hst'⟩

end Simulation

end Run
end PosixHw
