import PosixHw.Base.Run

/-!
# What a system can still do

`Leads step I G`: whatever has happened so far (the state meets `I`), there is a way to go on that
brings about `G`.  A system for which this is false for the end of the program may get into a state
from which it never ends, whatever the scheduler does.

There are three rules: `Leads.of_measure` for a way that consists of many rounds, `Leads.forall_mem`
for goals that are brought about one after the other, and `Leads.trans` for stages.
-/

namespace PosixHw
namespace Run

variable {σ α ι : Type*} {step : σ → α → Option σ} {I G H : σ → Prop} {s t u : σ}

theorem Reachable.trans (h : Reachable step s t) (h' : Reachable step t u) :
    Reachable step s u := by
  obtain ⟨as, has⟩ := h
  obtain ⟨bs, hbs⟩ := h'
  exact ⟨as ++ bs, run_append_eq_some.2 ⟨t, has, hbs⟩⟩

/-- From every state with `I`, some run brings about `G`, and `I` still holds. -/
def Leads (step : σ → α → Option σ) (I G : σ → Prop) : Prop :=
  ∀ s, I s → ∃ t, Reachable step s t ∧ I t ∧ G t

/-- One round after the other: each makes the measure smaller. -/
theorem Leads.of_measure (m : σ → ℕ)
    (h : ∀ s, I s → ¬ G s → ∃ t, Reachable step s t ∧ I t ∧ m t < m s) : Leads step I G := by
  intro s
  induction s using (measure m).wf.induction with
  | h s ih =>
    intro hs
    by_cases hG : G s
    · exact ⟨s, Reachable.refl s, hs, hG⟩
    · obtain ⟨t, hst, ht, hlt⟩ := h s hs hG
      obtain ⟨u, htu, hu, hGu⟩ := ih t hlt ht
      exact ⟨u, hst.trans htu, hu, hGu⟩

/-- A stage that keeps `I` is followed by one that begins with `I` and `G`. -/
theorem Leads.trans (h : Leads step I G) (h' : Leads step (fun s => I s ∧ G s) H) :
    Leads step I H := by
  intro s hs
  obtain ⟨t, hst, hI, hG⟩ := h s hs
  obtain ⟨u, htu, ⟨hIu, -⟩, hH⟩ := h' t ⟨hI, hG⟩
  exact ⟨u, hst.trans htu, hIu, hH⟩

/-- Goals that are brought about one after the other, where none of those reached is lost. -/
theorem Leads.forall_mem {S : ι → σ → Prop} {l : List ι}
    (h : ∀ i ∈ l, ∀ s, I s →
      ∃ t, Reachable step s t ∧ I t ∧ S i t ∧ ∀ j, j ≠ i → S j s → S j t) :
    Leads step I fun s => ∀ i ∈ l, S i s := by
  induction l with
  | nil =>
    intro s hs
    exact ⟨s, Reachable.refl s, hs, fun i hi => absurd hi List.not_mem_nil⟩
  | cons i l ih =>
    intro s hs
    obtain ⟨t, hst, ht, hall⟩ := ih (fun j hj => h j (List.mem_cons_of_mem i hj)) s hs
    obtain ⟨u, htu, hu, hi, hkeep⟩ := h i List.mem_cons_self t ht
    refine ⟨u, hst.trans htu, hu, List.forall_mem_cons.2 ⟨hi, fun j hj => ?_⟩⟩
    by_cases hji : j = i
    · rwa [hji]
    · exact hkeep j hji (hall j hj)

end Run
end PosixHw
