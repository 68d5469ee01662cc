import PosixHw.Signal.Basic

/-!
# A signal without an effect

`signal/task2.c` blocks SIGINT.  What the process does from then on is what it would do if nobody
sent the signal, which remains pending.
-/

namespace PosixHw
namespace Signal

open Run

namespace Task2

/-- The program handles no signal, and blocks SIGINT after the first call. -/
structure Inv (s : State Pc) : Prop where
  handled : s.handled = ∅
  handler : s.handler = none
  blocked : s.pc ≠ .sigprocmask → .int ∈ s.blocked
  killed : s.life = .killed .int → s.pc = .sigprocmask

/-- The process as it would be if nobody had sent SIGINT. -/
def forget (s : State Pc) : State Pc := { s with pending := s.pending.erase .int }

variable {fatal : ℕ → Bool} {s t : State Pc} {a : Action} {sig : Sig}

theorem main_cases (h : program.main s = some t) :
    (s.pc = .sigprocmask ∧ t = { s with blocked := insert .int s.blocked, pc := .print }) ∨
      (s.pc = .print ∧ t = { s with out := s.out ++ ["SIGINT blocked.\n"], pc := .loop }) ∨
      (s.pc = .loop ∧ t = s) := by
  simp only [program] at h
  split at h
  · rename_i hpc
    cases h
    exact .inl ⟨hpc, rfl⟩
  · rename_i hpc
    cases h
    exact .inr (.inl ⟨hpc, rfl⟩)
  · rename_i hpc
    cases h
    exact .inr (.inr ⟨hpc, rfl⟩)

theorem fails_cases (h : program.fails s = some t) :
    s.pc = .sigprocmask ∧
      t = { s with err := s.err ++ ["sigprocmask failed"], life := .exited 1 } := by
  simp only [program] at h
  split at h
  · rename_i hpc
    cases h
    exact ⟨hpc, rfl⟩
  · cases h
  · cases h

theorem Inv.step (h : Inv s) (hs : step fatal program s a = some t) : Inv t := by
  obtain ⟨hlife, ⟨sig, rfl, rfl⟩ | ⟨sig, rfl, hdeliver⟩ | ⟨rfl, hhandle⟩ | ⟨rfl, -, hmain⟩ |
    ⟨rfl, -, hfails⟩⟩ := step_cases hs
  · exact ⟨h.handled, h.handler, h.blocked, h.killed⟩
  · obtain ⟨-, hblocked, ⟨hhandled, -⟩ | ⟨-, -, rfl⟩ | ⟨-, -, rfl⟩⟩ := deliver_cases hdeliver
    · rw [h.handled] at hhandled
      exact absurd hhandled (Finset.notMem_empty _)
    · refine ⟨h.handled, h.handler, h.blocked, fun he => ?_⟩
      obtain rfl : sig = .int := by simpa using he
      by_contra hpc
      exact hblocked (h.blocked hpc)
    · exact ⟨h.handled, h.handler, h.blocked, h.killed⟩
  · simp [State.handle, h.handler] at hhandle
  · have hkilled : s.life ≠ .killed .int := by
      rw [hlife]
      exact fun he => by cases he
    rcases main_cases hmain with ⟨-, rfl⟩ | ⟨hpc, rfl⟩ | ⟨-, rfl⟩
    · exact ⟨h.handled, h.handler, fun _ => Finset.mem_insert_self _ _, fun he => absurd he hkilled⟩
    · exact ⟨h.handled, h.handler, fun _ => h.blocked (by rw [hpc]; exact fun he => by cases he),
        fun he => absurd he hkilled⟩
    · exact h
  · obtain ⟨-, rfl⟩ := fails_cases hfails
    exact ⟨h.handled, h.handler, h.blocked, fun he => by cases he⟩

/-- The first call is made once. -/
theorem pc_step (hpc : s.pc ≠ .sigprocmask) (hs : step fatal program s a = some t) :
    t.pc ≠ .sigprocmask := by
  obtain ⟨-, ⟨sig, rfl, rfl⟩ | ⟨sig, rfl, hdeliver⟩ | ⟨rfl, hhandle⟩ | ⟨rfl, -, hmain⟩ |
    ⟨rfl, -, hfails⟩⟩ := step_cases hs
  · exact hpc
  · obtain ⟨-, -, ⟨-, rfl⟩ | ⟨-, -, rfl⟩ | ⟨-, -, rfl⟩⟩ := deliver_cases hdeliver <;> exact hpc
  · rcases handle_cases hhandle with ⟨-, rfl⟩ | ⟨-, rfl⟩ <;> exact hpc
  · rcases main_cases hmain with ⟨-, rfl⟩ | ⟨-, rfl⟩ | ⟨-, rfl⟩
    · exact fun he => by cases he
    · exact fun he => by cases he
    · exact hpc
  · exact absurd (fails_cases hfails).1 hpc

theorem forget_send : forget { s with pending := insert .int s.pending } = forget s := by
  unfold forget
  simp [Finset.erase_insert_eq_erase]

/-- A step that does not send SIGINT goes the same way without it. -/
theorem step_forget (h : Inv s) (hpc : s.pc ≠ .sigprocmask) (ha : a ≠ .send .int)
    (hs : step fatal program s a = some t) : step fatal program (forget s) a = some (forget t) := by
  have hint := h.blocked hpc
  obtain ⟨hlife, ⟨sig, rfl, rfl⟩ | ⟨sig, rfl, hdeliver⟩ | ⟨rfl, hhandle⟩ | ⟨rfl, hnone, hmain⟩ |
    ⟨rfl, -, hfails⟩⟩ := step_cases hs
  · have hne : sig ≠ .int := fun he => ha (by rw [he])
    simp [step, forget, hlife, Finset.erase_insert_of_ne hne]
  · obtain ⟨hpending, hblocked, hcases⟩ := deliver_cases hdeliver
    have hne : sig ≠ .int := by
      rintro rfl
      exact hblocked hint
    have hready : sig ∈ s.pending.erase .int ∧ sig ∉ s.blocked :=
      ⟨Finset.mem_erase.2 ⟨hne, hpending⟩, hblocked⟩
    rcases hcases with ⟨hhandled, -⟩ | ⟨hhandled, hfatal, rfl⟩ | ⟨hhandled, hfatal, rfl⟩
    · rw [h.handled] at hhandled
      exact absurd hhandled (Finset.notMem_empty _)
    · simp [step, State.deliver, forget, hlife, hready, hhandled, hfatal]
    · simp [step, State.deliver, forget, hlife, hready, hhandled, hfatal,
        Finset.erase_right_comm]
  · simp [State.handle, h.handler] at hhandle
  · rcases main_cases hmain with ⟨he, -⟩ | ⟨he, rfl⟩ | ⟨he, rfl⟩
    · exact absurd he hpc
    · simp [step, program, forget, hlife, hnone, he]
    · simp [step, program, forget, hlife, hnone, he]
  · exact absurd (fails_cases hfails).1 hpc

/-- SIGINT stays pending. -/
theorem pending_step (h : Inv s) (hpc : s.pc ≠ .sigprocmask)
    (hs : step fatal program s a = some t) (hint : .int ∈ s.pending) : .int ∈ t.pending := by
  obtain ⟨-, ⟨sig, rfl, rfl⟩ | ⟨sig, rfl, hdeliver⟩ | ⟨rfl, hhandle⟩ | ⟨rfl, -, hmain⟩ |
    ⟨rfl, -, hfails⟩⟩ := step_cases hs
  · exact Finset.mem_insert_of_mem hint
  · obtain ⟨-, hblocked, hcases⟩ := deliver_cases hdeliver
    have hne : .int ≠ sig := by
      rintro rfl
      exact hblocked (h.blocked hpc)
    rcases hcases with ⟨-, rfl⟩ | ⟨-, -, rfl⟩ | ⟨-, -, rfl⟩
    · exact Finset.mem_erase.2 ⟨hne, hint⟩
    · exact hint
    · exact Finset.mem_erase.2 ⟨hne, hint⟩
  · rcases handle_cases hhandle with ⟨-, rfl⟩ | ⟨-, rfl⟩ <;> exact hint
  · rcases main_cases hmain with ⟨-, rfl⟩ | ⟨-, rfl⟩ | ⟨-, rfl⟩ <;> exact hint
  · exact absurd (fails_cases hfails).1 hpc

/-- **SIGINT has no effect.** Once the first call has returned, every run goes the same way if no
SIGINT is sent in it; the signal does not end the process, and remains pending when it has been
sent. -/
theorem sigint_blocked {bs as : List Action}
    (ht : run (step fatal program) program.start bs = some t) (hpc : t.pc ≠ .sigprocmask)
    (hs : run (step fatal program) t as = some s) :
    run (step fatal program) (forget t) (as.filter (· ≠ .send .int)) = some (forget s) ∧
      s.life ≠ .killed .int ∧ (.send .int ∈ as → .int ∈ s.pending) := by
  have hstart : Inv program.start := ⟨rfl, rfl, fun he => absurd rfl he, fun he => by cases he⟩
  have hInv : Inv t := run_invariant (fun _ _ _ h hs => Inv.step h hs) hstart ht
  have hkeep : ∀ s a t, (Inv s ∧ s.pc ≠ .sigprocmask) → step fatal program s a = some t →
      Inv t ∧ t.pc ≠ .sigprocmask := fun s a t h hs => ⟨h.1.step hs, pc_step h.2 hs⟩
  have hend := run_invariant hkeep ⟨hInv, hpc⟩ hs
  refine ⟨?_, fun he => hend.2 (hend.1.killed he), fun hmem => ?_⟩
  · rw [← labels_filter hs]
    refine run_labels hkeep (fun s a t h hs hf => ?_) (fun s a t b h hs hf => ?_) ⟨hInv, hpc⟩ hs
    · obtain rfl : a = .send .int := by simpa using hf
      rw [pending_of_send hs]
      exact forget_send
    · split_ifs at hf with ha
      cases hf
      exact step_forget h.1 h.2 (of_decide_eq_true ha) hs
  · obtain ⟨bs, cs, rfl⟩ := List.append_of_mem hmem
    obtain ⟨u, hu, hs⟩ := run_append_eq_some.1 hs
    obtain ⟨v, hv, hs⟩ := run_cons_eq_some.1 hs
    have hu' : Inv u ∧ u.pc ≠ .sigprocmask :=
      run_invariant (I := fun w => Inv w ∧ w.pc ≠ .sigprocmask) hkeep ⟨hInv, hpc⟩ hu
    have hv' := hkeep u _ v hu' hv
    have hint : .int ∈ v.pending := by
      rw [pending_of_send hv]
      exact Finset.mem_insert_self _ _
    exact (run_invariant (I := fun w => (Inv w ∧ w.pc ≠ .sigprocmask) ∧ .int ∈ w.pending)
      (fun w a w' hw hs => ⟨hkeep w a w' hw.1 hs, pending_step hw.1.1 hw.1.2 hs hw.2⟩)
      ⟨hv', hint⟩ hs).2

/-- SIGINT is sent before and after the line is printed. -/
theorem sigint_blocked_sample :
    ∃ t s, run (step (fun _ => true) program) program.start [.main] = some t ∧
      run (step (fun _ => true) program) t [.send .int, .main, .send .int] = some s ∧
      s.out = ["SIGINT blocked.\n"] ∧ .int ∈ s.pending := by
  obtain ⟨t, ht, hpc⟩ := Option.map_eq_some_iff.1
    (show (run (step (fun _ => true) program) program.start [.main]).map State.pc = some .print
      from rfl)
  have hout : (run (step (fun _ => true) program) t [.send .int, .main, .send .int]).map State.out
      = some ["SIGINT blocked.\n"] := by
    cases ht
    rfl
  obtain ⟨s, hs, hout⟩ := Option.map_eq_some_iff.1 hout
  have hfirst : t.pc ≠ .sigprocmask := by
    rw [hpc]
    exact fun he => by cases he
  exact ⟨t, s, ht, hs, hout, (sigint_blocked ht hfirst hs).2.2 List.mem_cons_self⟩

end Task2

end Signal
end PosixHw
