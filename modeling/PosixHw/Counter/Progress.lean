import PosixHw.Counter.Basic

/-!
# The shared counter: every run ends

The threads cannot block each other for ever: the mutex belongs to a thread that can go on, and
`main` waits for threads that have not returned.  Each step is one of a fixed number of steps, so
every schedule leads to the end of the program, where the counter is printed.
-/

namespace PosixHw
namespace Counter

open Run

/-- The steps that a thread has before it: five for each increment, and the last test. -/
def Pc.remaining (k : ℕ) : Pc → ℕ
  | .new => 5 * k + 1
  | .test i => 5 * (k - i) + 1
  | .lock i => 5 * (k - i)
  | .read i => 5 * (k - i) - 1
  | .write i _ => 5 * (k - i) - 2
  | .unlock i => 5 * (k - i) - 3
  | .done => 0

/-- The steps that `main` has before it. -/
def MainPc.remaining (n : ℕ) : MainPc → ℕ
  | .create i => (n - i) + n + 4
  | .join i => (n - i) + 3
  | .destroy => 2
  | .print => 1
  | .done _ => 0

/-- The steps that the program has before it. -/
def State.remaining (c : Params) (s : State) : ℕ :=
  s.main.remaining c.numThreads + total c.numThreads (Pc.remaining c.numIncrements) s.threads

section Steps

variable {c : Params} {s s' : State} {t : ℕ} {a : Action}

/-- A thread moves itself, by one step. -/
theorem stepThread_remaining (hw : (s.threads t).Within c.numIncrements)
    (hs : stepThread c s t = some s') :
    s.threads t ≠ .new ∧ s.threads t ≠ .done ∧ s'.main = s.main ∧
      ∃ p, s'.threads = Function.update s.threads t p ∧
        p.remaining c.numIncrements + 1 = (s.threads t).remaining c.numIncrements := by
  unfold stepThread at hs
  cases hp : s.threads t with
  | new => simp [hp] at hs
  | done => simp [hp] at hs
  | test i =>
    rw [hp] at hs hw
    cases hs
    refine ⟨(fun h => by cases h), (fun h => by cases h), rfl, _, rfl, ?_⟩
    split_ifs with hi
    · rfl
    · have hik : c.numIncrements - i = 0 := by omega
      simp [Pc.remaining, hik]
  | lock i =>
    rw [hp] at hs hw
    change (if _ then _ else _) = _ at hs
    split_ifs at hs
    cases hs
    refine ⟨(fun h => by cases h), (fun h => by cases h), rfl, _, rfl, ?_⟩
    simp only [Pc.Within, Pc.remaining] at hw ⊢
    omega
  | read i | write i value | unlock i =>
    rw [hp] at hs hw
    cases hs
    refine ⟨(fun h => by cases h), (fun h => by cases h), rfl, _, rfl, ?_⟩
    simp only [Pc.Within, Pc.remaining] at hw ⊢
    omega

theorem stepMain_remaining (h : Inv c s) (hs : stepMain c s = some s') :
    s'.remaining c + 1 = s.remaining c := by
  unfold stepMain at hs
  cases hm : s.main with
  | create i =>
    simp only [hm] at hs
    split_ifs at hs with hi
    · cases hs
      have hcreated : s.main.created c.numThreads = i := by rw [hm]; rfl
      have hsum := total_update (Pc.remaining c.numIncrements) s.threads (.test 0) hi
      rw [(h.new_iff i).2 hcreated.le] at hsum
      have hsame := Nat.add_right_cancel hsum
      simp only [State.remaining, State.move, hm, hsame, MainPc.remaining]
      omega
    · cases hs
      have hcreated := h.created_le
      rw [hm] at hcreated
      simp only [MainPc.created] at hcreated
      simp only [State.remaining, hm, MainPc.remaining]
      omega
  | join i =>
    simp only [hm] at hs
    split_ifs at hs with hi hdone
    · cases hs
      simp only [State.remaining, hm, MainPc.remaining]
      omega
    · cases hs
      simp only [State.remaining, hm, MainPc.remaining]
      omega
  | destroy =>
    simp only [hm] at hs
    split_ifs at hs
    cases hs
    simp only [State.remaining, hm, MainPc.remaining]
    omega
  | print =>
    simp only [hm] at hs
    cases hs
    simp only [State.remaining, hm, MainPc.remaining]
    omega
  | done value => simp [hm] at hs

/-- Every step is one of those that were left. -/
theorem remaining_step (h : Inv c s) (hs : step c s a = some s') :
    s'.remaining c + 1 = s.remaining c := by
  cases a with
  | main => exact stepMain_remaining h hs
  | thread t =>
    obtain ⟨hnew, hdone, hm, p, hp, hstep⟩ := stepThread_remaining (h.within t) hs
    have hlt := lt_of_lt_of_le (h.active hnew hdone).1 h.created_le
    have hsum := total_update (Pc.remaining c.numIncrements) s.threads p hlt
    rw [State.remaining, State.remaining, hm, hp]
    omega

/-! ### Some step is always possible -/

/-- Only a thread that wants a locked mutex has to wait. -/
theorem stepThread_isSome (hnew : s.threads t ≠ .new) (hdone : s.threads t ≠ .done)
    (hlock : ∀ i, s.threads t = .lock i → s.mutex = none) : ∃ s', stepThread c s t = some s' := by
  unfold stepThread
  cases hp : s.threads t with
  | new => exact absurd hp hnew
  | test i => exact ⟨_, rfl⟩
  | lock i => exact ⟨_, if_pos (hlock i hp)⟩
  | read i => exact ⟨_, rfl⟩
  | write i value => exact ⟨_, rfl⟩
  | unlock i => exact ⟨_, rfl⟩
  | done => exact absurd hp hdone

/-- The owner of the mutex goes on. -/
theorem Inv.owner (h : Inv c s) (hmutex : s.mutex = some t) :
    s.threads t ≠ .new ∧ s.threads t ≠ .done ∧ ∀ i, s.threads t ≠ .lock i := by
  have hholds := h.held t hmutex
  refine ⟨fun hp => ?_, fun hp => ?_, fun i hp => ?_⟩
  all_goals
    rw [hp] at hholds
    cases hholds

/-- **No deadlock.** Some step is possible until the counter has been printed. -/
theorem Inv.enabled (h : Inv c s) (hm : ∀ value, s.main ≠ .done value) :
    ∃ a s', Counter.step c s a = some s' := by
  cases hpc : s.main with
  | create i =>
    refine ⟨.main, ?_⟩
    simp only [Counter.step, Counter.stepMain, hpc]
    split_ifs
    · exact ⟨_, rfl⟩
    · exact ⟨_, rfl⟩
  | join i =>
    by_cases hi : i < c.numThreads
    · by_cases hdone : s.threads i = .done
      · exact ⟨.main, { s with main := .join (i + 1) }, by
          simp [Counter.step, Counter.stepMain, hpc, hi, hdone]⟩
      · have hnew : s.threads i ≠ .new := by
          rw [Ne, h.new_iff, hpc, not_le]
          exact hi
        cases hmutex : s.mutex with
        | none => exact ⟨.thread i, stepThread_isSome hnew hdone fun _ _ => hmutex⟩
        | some u =>
          obtain ⟨hunew, hudone, hulock⟩ := h.owner hmutex
          exact ⟨.thread u, stepThread_isSome hunew hudone fun j hj => absurd hj (hulock j)⟩
    · exact ⟨.main, { s with main := .destroy }, by
        simp [Counter.step, Counter.stepMain, hpc, hi]⟩
  | destroy =>
    have hmutex : s.mutex = none := by
      cases hmutex : s.mutex with
      | none => rfl
      | some u =>
        obtain ⟨hunew, hudone, -⟩ := h.owner hmutex
        have hactive := h.active hunew hudone
        rw [hpc] at hactive
        exact absurd hactive.1 (not_lt.2 hactive.2)
    exact ⟨.main, { s with main := .print }, by
      simp [Counter.step, Counter.stepMain, hpc, hmutex]⟩
  | print => exact ⟨.main, { s with main := .done s.counter }, by
      simp [Counter.step, Counter.stepMain, hpc]⟩
  | done value => exact absurd hpc (hm value)

end Steps

/-- **Every schedule ends.** A run has at most as many steps as there are to make, and one that
cannot go on has printed the number of all increments, as far as that is an `int`. -/
theorem counter_terminates {c : Params} {as : List Action} {s : State}
    (h : run (step c) start as = some s) :
    as.length ≤ start.remaining c ∧
      ((∀ a, step c s a = none) → s.main = .done (c.numThreads * c.numIncrements)) := by
  have hlength : as.length + s.remaining c = start.remaining c :=
    run_length_add (fun _ _ _ hI hs => ⟨hI.step hs, remaining_step hI hs⟩) (inv_start c) h
  have hI := inv_of_run h
  refine ⟨by omega, fun hstuck => ?_⟩
  by_contra hm
  have hrunning : ∀ value, s.main ≠ .done value := fun value hv =>
    hm (hv.trans (congrArg MainPc.done (hI.printed_eq hv)))
  obtain ⟨a, s', hs⟩ := hI.enabled hrunning
  rw [hstuck a] at hs
  cases hs

theorem counter_terminates_sample :
    ∃ s, run (step ⟨2, 1⟩) start sampleRun = some s ∧ sampleRun.length = start.remaining ⟨2, 1⟩ ∧
      sampleRun.length ≤ start.remaining ⟨2, 1⟩ := by
  obtain ⟨s, hs, -⟩ := Option.map_eq_some_iff.1
    (show (run (step ⟨2, 1⟩) start sampleRun).map State.main = some (.done 2) by decide)
  exact ⟨s, hs, by decide, (counter_terminates hs).1⟩

end Counter
end PosixHw
