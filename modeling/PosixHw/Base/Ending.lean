import PosixHw.Base.Leads

/-!
# Processes that something may end

A system is given by `step : σ → α → Option σ`, and a process runs it.  Where `fatal s e` holds, the
event `e` may end the process: a signal that is not handled, a call whose effect is not defined.
After that nobody makes a step any more.

* `Ending.step` are the steps of the process, `alive` those that do not end it;
* `run_spec`: a run of the process is one of the system, up to its end.  So what holds after every
  run of the system holds after every run of the process;
* `reaches_iff`: a process that has not ended can bring about what the system can, and one that has
  ended nothing more.
-/

namespace PosixHw
namespace Ending

open Run

/-- What ends a process: the signal of a `send` to nobody, or a call whose effect is not defined. -/
inductive Cause
  | sigpipe
  | undefined
  deriving DecidableEq

/-- The state of the system, and what has ended the process. -/
structure Process (σ ε : Type*) where
  state : σ
  ended : Option ε

/-- An action of the system, or the end of the process. -/
inductive Event (α ε : Type*)
  | act (a : α)
  | ends (e : ε)
  deriving DecidableEq

variable {σ α ε : Type*}

/-- The process begins. -/
def Process.init (s : σ) : Process σ ε := ⟨s, none⟩

def Event.action : Event α ε → Option α
  | .act a => some a
  | .ends _ => none

/-- The system makes a step, and the process goes on. -/
def alive (step : σ → α → Option σ) : Process σ ε → α → Option (Process σ ε)
  | ⟨s, none⟩, a => (step s a).map Process.init
  | ⟨_, some _⟩, _ => none

/-- One step of the process. -/
def step (inner : σ → α → Option σ) (fatal : σ → ε → Bool) :
    Process σ ε → Event α ε → Option (Process σ ε)
  | p, .act a => alive inner p a
  | ⟨s, none⟩, .ends e => if fatal s e then some ⟨s, some e⟩ else none
  | ⟨_, some _⟩, .ends _ => none

section

variable {inner : σ → α → Option σ} {fatal : σ → ε → Bool} {s t : σ} {p q : Process σ ε} {a : α}
  {e : ε} {as : List α} {es : List (Event α ε)}

theorem alive_init : alive inner (.init s : Process σ ε) a = (inner s a).map Process.init := rfl

theorem alive_cases (h : alive inner p a = some q) :
    p.ended = none ∧ q.ended = none ∧ inner p.state a = some q.state := by
  obtain ⟨s, ended⟩ := p
  cases ended with
  | some e => cases h
  | none =>
    obtain ⟨t, ht, rfl⟩ := Option.map_eq_some_iff.1 h
    exact ⟨rfl, rfl, ht⟩

theorem step_ends_cases (h : step inner fatal p (.ends e) = some q) :
    p.ended = none ∧ fatal p.state e = true ∧ q = ⟨p.state, some e⟩ := by
  obtain ⟨s, ended⟩ := p
  cases ended with
  | some d => cases h
  | none =>
    obtain ⟨hf, h⟩ := Option.ite_none_right_eq_some.1 h
    exact ⟨rfl, hf, (Option.some.inj h).symm⟩

/-- **A run of the process** is one of the system, up to its end, which was possible there. -/
theorem run_spec (h : run (step inner fatal) (.init s) es = some p) :
    run inner s (es.filterMap Event.action) = some p.state ∧
      ∀ e, p.ended = some e → fatal p.state e = true := by
  refine run_history (I := fun es p => run inner s (es.filterMap Event.action) = some p.state ∧
      ∀ e, p.ended = some e → fatal p.state e = true) ?_ ⟨rfl, fun e he => by cases he⟩ h
  rintro es p (a | e) q ⟨hrun, -⟩ hstep
  · obtain ⟨-, hq, hs⟩ := alive_cases hstep
    refine ⟨?_, fun e he => ?_⟩
    · rw [List.filterMap_append]
      exact run_append_eq_some.2 ⟨p.state, hrun, by rw [← hs]; exact run_singleton⟩
    · rw [hq] at he
      cases he
  · obtain ⟨-, hfatal, rfl⟩ := step_ends_cases hstep
    refine ⟨?_, fun d hd => ?_⟩
    · rw [List.filterMap_append]
      exact hrun.symm ▸ congrArg (run inner s) (List.append_nil _)
    · cases hd
      exact hfatal

theorem mem_action : a ∈ es.filterMap Event.action ↔ .act a ∈ es := by
  rw [List.mem_filterMap]
  constructor
  · rintro ⟨b | e, hmem, hb⟩
    · cases hb
      exact hmem
    · cases hb
  · exact fun hmem => ⟨.act a, hmem, rfl⟩

/-- The actions of a run of the process are as many as those of the system. -/
theorem count_action [DecidableEq α] [DecidableEq ε] :
    (es.filterMap Event.action).count a = es.count (.act a) := by
  induction es with
  | nil => rfl
  | cons e es ih =>
    cases e with
    | act b => simp [Event.action, List.count_cons, ih]
    | ends d => exact ih.trans (List.count_cons_of_ne (by simp)).symm

/-- A process that has not ended goes on like the system. -/
theorem reachable_init (h : Reachable inner s t) :
    Reachable (alive inner) (.init s : Process σ ε) (.init t) := by
  obtain ⟨as, has⟩ := h
  have hstep : ∀ u a v (p : Process σ ε), p = .init u → inner u a = some v →
      ∃ q, alive inner p a = some q ∧ q = .init v := fun u a v p hp hs =>
    ⟨.init v, by rw [hp, alive_init, hs]; rfl, rfl⟩
  obtain ⟨q, hq, rfl⟩ := run_simulation hstep rfl has
  exact ⟨as, hq⟩

/-- What it reaches, the system reaches. -/
theorem reachable_state (h : Reachable (alive inner) p q) : Reachable inner p.state q.state :=
  h.invariant (I := fun u => Reachable inner p.state u.state)
    (fun _ _ _ hu hs => hu.tail (alive_cases hs).2.2) (Reachable.refl _)

/-- One that has ended stays as it is. -/
theorem eq_of_reachable (hp : p.ended = some e) (h : Reachable (alive inner) p q) : q = p :=
  h.invariant (I := fun u => u = p)
    (fun u _ _ hu hs => by
      rw [hu] at hs
      rw [(alive_cases hs).1] at hp
      cases hp)
    rfl

/-- **What can still be brought about.**  If nothing ends the process in a state with `G`, it can go
on to a state with `G` exactly if it has not ended and the system can. -/
theorem reaches_iff {G : σ → Prop} (hG : ∀ e, p.ended = some e → ¬ G p.state) :
    (∃ q, Reachable (alive inner) p q ∧ G q.state) ↔
      p.ended = none ∧ ∃ t, Reachable inner p.state t ∧ G t := by
  constructor
  · rintro ⟨q, hq, hgoal⟩
    refine ⟨?_, q.state, reachable_state hq, hgoal⟩
    cases he : p.ended with
    | none => rfl
    | some e =>
      rw [eq_of_reachable he hq] at hgoal
      exact absurd hgoal (hG e he)
  · rintro ⟨he, t, ht, hgoal⟩
    obtain ⟨s, ended⟩ := p
    cases he
    exact ⟨.init t, reachable_init ht, hgoal⟩

end

end Ending
end PosixHw
