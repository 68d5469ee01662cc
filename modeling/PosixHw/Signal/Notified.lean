import PosixHw.Signal.Basic

/-!
# Two ways to be notified

`signal/task1.c` is told of SIGUSR1 by its handler, `signal/task3.c` by `sigwait`.  Both implement
the notifier: a signal is taken when it is delivered to the handler, or when `sigwait` returns.
-/

namespace PosixHw
namespace Signal

open Run

/-! ### The handler -/

namespace Task1

/-- The program handles SIGUSR1 in its loop, and nothing else. -/
structure Inv (s : State Pc) : Prop where
  handled : s.handled = if s.pc = .loop then {.usr1} else ∅
  handler : s.handler ≠ none → .usr1 ∈ s.blocked ∧ s.pc = .loop
  killed : s.life = .killed .usr1 → s.pc = .sigaction

/-- What the steps are to the notifier. -/
def label (s : State Pc) : Action → Option Notifier.Action
  | .send .usr1 => some .post
  | .deliver .usr1 => if .usr1 ∈ s.handled then some .take else none
  | _ => none

variable {fatal : ℕ → Bool} {s t : State Pc} {a : Action} {sig : Sig}

theorem Inv.mem_handled (h : Inv s) : sig ∈ s.handled ↔ sig = .usr1 ∧ s.pc = .loop := by
  rw [h.handled]
  split_ifs with hpc
  · simp [hpc]
  · simp [hpc]

theorem main_cases (h : program.main s = some t) :
    s.pc = .sigaction ∧ t = { s with handled := insert .usr1 s.handled, pc := .loop } ∨
      s.pc = .loop ∧ t = s := by
  simp only [program] at h
  split at h
  · rename_i hpc
    cases h
    exact .inl ⟨hpc, rfl⟩
  · rename_i hpc
    cases h
    exact .inr ⟨hpc, rfl⟩

theorem fails_cases (h : program.fails s = some t) :
    s.pc = .sigaction ∧
      t = { s with err := s.err ++ ["sigaction failed"], life := .exited 1 } := by
  simp only [program] at h
  split at h
  · rename_i hpc
    cases h
    exact ⟨hpc, rfl⟩
  · cases h

theorem Inv.deliver (h : Inv s) (hs : s.deliver fatal sig = some t) : Inv t := by
  obtain ⟨-, -, ⟨hhandled, rfl⟩ | ⟨hhandled, -, rfl⟩ | ⟨-, -, rfl⟩⟩ := deliver_cases hs
  · obtain ⟨rfl, hpc⟩ := h.mem_handled.1 hhandled
    exact ⟨h.handled, fun _ => ⟨Finset.mem_insert_self _ _, hpc⟩, h.killed⟩
  · refine ⟨h.handled, h.handler, fun hkilled => ?_⟩
    -- killed: SIGUSR1 had no handler yet
    obtain rfl : sig = .usr1 := by simpa using hkilled
    cases hpc : s.pc with
    | sigaction => rfl
    | loop => exact absurd (h.mem_handled.2 ⟨rfl, hpc⟩) hhandled
  · exact ⟨h.handled, h.handler, h.killed⟩

theorem Inv.step (h : Inv s) (hs : step fatal program s a = some t) : Inv t := by
  obtain ⟨hlife, ⟨sig, rfl, rfl⟩ | ⟨sig, rfl, hdeliver⟩ | ⟨rfl, hhandle⟩ | ⟨rfl, hnone, hmain⟩ |
    ⟨rfl, hnone, hfails⟩⟩ := step_cases hs
  · exact ⟨h.handled, h.handler, h.killed⟩
  · exact h.deliver hdeliver
  · rcases handle_cases hhandle with ⟨hprint, rfl⟩ | ⟨-, rfl⟩
    · have hhandler := h.handler (by rw [hprint]; exact Option.some_ne_none _)
      exact ⟨h.handled, fun _ => hhandler, h.killed⟩
    · exact ⟨h.handled, fun he => absurd rfl he, h.killed⟩
  · rcases main_cases hmain with ⟨hpc, rfl⟩ | ⟨-, rfl⟩
    · refine ⟨?_, fun he => absurd hnone he, fun he => ?_⟩
      · have hempty : s.handled = ∅ := by
          rw [h.handled, hpc]
          rfl
        simp [hempty]
      · rw [show s.life = .killed .usr1 from he] at hlife
        cases hlife
    · exact h
  · obtain ⟨hpc, rfl⟩ := fails_cases hfails
    exact ⟨h.handled, h.handler, fun he => by cases he⟩

/-- `main` has nothing to say itself. -/
def telling (_ : Pc) : Bool := false

theorem notifier_deliver (h : Inv s) (hs : s.deliver fatal sig = some t) :
    (label s (.deliver sig) = none ∧ t.notifier telling = s.notifier telling) ∨
      (label s (.deliver sig) = some .take ∧
        Notifier.step (s.notifier telling) .take = some (t.notifier telling)) := by
  obtain ⟨hpending, hblocked, ⟨hhandled, rfl⟩ | ⟨hhandled, -, rfl⟩ | ⟨-, hfatal, rfl⟩⟩ :=
    deliver_cases hs
  · obtain ⟨rfl, hpc⟩ := h.mem_handled.1 hhandled
    -- while the handler runs the signal is blocked
    have hhandler : s.handler = none := by
      by_contra he
      exact hblocked (h.handler he).1
    refine .inr ⟨if_pos hhandled, notifier_take hpending (Finset.notMem_erase _ _) ?_⟩
    simp [State.outstanding, State.printed, hhandler, telling]
  · refine .inl ⟨?_, rfl⟩
    cases sig with
    | usr1 => exact if_neg hhandled
    | int | other => rfl
  · have hne := ne_usr1_of_not_fatal hfatal
    refine .inl ⟨?_, notifier_erase hne⟩
    cases sig with
    | usr1 => exact absurd rfl hne
    | int | other => rfl

theorem notifier_step (h : Inv s) (hs : step fatal program s a = some t) :
    (label s a = none ∧ t.notifier telling = s.notifier telling) ∨
      ∃ b, label s a = some b ∧
        Notifier.step (s.notifier telling) b = some (t.notifier telling) := by
  obtain ⟨-, ⟨sig, rfl, rfl⟩ | ⟨sig, rfl, hdeliver⟩ | ⟨rfl, hhandle⟩ | ⟨rfl, hnone, hmain⟩ |
    ⟨rfl, hnone, hfails⟩⟩ := step_cases hs
  · cases sig with
    | usr1 => exact .inr ⟨.post, rfl, congrArg some notifier_send.symm⟩
    | int | other => exact .inl ⟨rfl, notifier_insert (fun he => by cases he)⟩
  · rcases notifier_deliver h hdeliver with hstay | htake
    · exact .inl hstay
    · exact .inr ⟨_, htake⟩
  · refine .inl ⟨rfl, notifier_congr ?_ ?_⟩
    · rcases handle_cases hhandle with ⟨-, rfl⟩ | ⟨-, rfl⟩ <;> exact Iff.rfl
    · rcases handle_cases hhandle with ⟨hprint, rfl⟩ | ⟨hret, rfl⟩
      -- the line is printed, and is outstanding no more
      · simp [State.printed, State.outstanding, hprint]
        omega
      · simp [State.printed, State.outstanding, hret]
  · refine .inl ⟨rfl, ?_⟩
    rcases main_cases hmain with ⟨-, rfl⟩ | ⟨-, rfl⟩ <;> rfl
  · obtain ⟨-, rfl⟩ := fails_cases hfails
    exact .inl ⟨rfl, rfl⟩

theorem countP_label (s : State Pc) (a : Action) :
    (label s a).toList.countP (· = .post) = [a].countP Action.IsPost := by
  cases a with
  | send sig => cases sig <;> rfl
  | deliver sig =>
    cases sig with
    | usr1 =>
      simp only [label]
      split_ifs <;> rfl
    | int | other => rfl
  | handler | main | fails => rfl

theorem notified (fatal : ℕ → Bool) : Notified fatal program telling :=
  notified_of_labels ⟨rfl, fun he => absurd rfl he, fun he => by cases he⟩ rfl
    (fun _ _ _ h hs => h.step hs) (fun _ h => h.killed) (fun _ _ _ h hs => notifier_step h hs)
    countP_label fun _ => rfl

end Task1

/-! ### Waiting -/

namespace Task3

/-- The program handles no signal, and blocks SIGUSR1 after the first call. -/
structure Inv (s : State Pc) : Prop where
  handled : s.handled = ∅
  handler : s.handler = none
  blocked : s.pc ≠ .sigprocmask → .usr1 ∈ s.blocked
  killed : s.life = .killed .usr1 → s.pc = .sigprocmask

/-- What the steps are to the notifier. -/
def label (s : State Pc) : Action → Option Notifier.Action
  | .send .usr1 => some .post
  | .main => if s.pc = .sigwait then some .take else none
  | _ => none

/-- `main` has a line to print. -/
def telling (pc : Pc) : Bool := pc = .got

variable {fatal : ℕ → Bool} {s t : State Pc} {a : Action} {sig : Sig}

theorem main_cases (h : program.main s = some t) :
    (s.pc = .sigprocmask ∧ t = { s with blocked := insert .usr1 s.blocked, pc := .print }) ∨
      (s.pc = .print ∧ t = { s with out := s.out ++ ["SIGUSR1 blocked\n"], pc := .sigwait }) ∨
      (s.pc = .sigwait ∧ .usr1 ∈ s.pending ∧
        t = { s with pending := s.pending.erase .usr1, pc := .got }) ∨
      (s.pc = .got ∧ t = { s with out := s.out ++ [Signal.got], pc := .sigwait }) := by
  simp only [program] at h
  split at h
  · rename_i hpc
    cases h
    exact .inl ⟨hpc, rfl⟩
  · rename_i hpc
    cases h
    exact .inr (.inl ⟨hpc, rfl⟩)
  · rename_i hpc
    split_ifs at h with hpending
    cases h
    exact .inr (.inr (.inl ⟨hpc, hpending, rfl⟩))
  · rename_i hpc
    cases h
    exact .inr (.inr (.inr ⟨hpc, rfl⟩))

theorem fails_cases (h : program.fails s = some t) :
    (s.pc = .sigprocmask ∧
        t = { s with err := s.err ++ ["sigprocmask failed"], life := .exited 1 }) ∨
      (s.pc = .sigwait ∧ t = { s with err := s.err ++ ["error while waiting for signal"] }) := by
  simp only [program] at h
  split at h
  · rename_i hpc
    cases h
    exact .inl ⟨hpc, rfl⟩
  · rename_i hpc
    cases h
    exact .inr ⟨hpc, rfl⟩
  · cases h
  · cases h

/-- A signal is not handled: it ends the process, or nothing comes of it. -/
theorem Inv.deliver_cases (h : Inv s) (hs : s.deliver fatal sig = some t) :
    (sig ∉ s.blocked ∧ t = { s with life := .killed sig }) ∨
      (sig ≠ .usr1 ∧ t = { s with pending := s.pending.erase sig }) := by
  obtain ⟨-, hblocked, ⟨hhandled, -⟩ | ⟨-, -, rfl⟩ | ⟨-, hfatal, rfl⟩⟩ := Signal.deliver_cases hs
  · rw [h.handled] at hhandled
    exact absurd hhandled (Finset.notMem_empty _)
  · exact .inl ⟨hblocked, rfl⟩
  · exact .inr ⟨ne_usr1_of_not_fatal hfatal, rfl⟩

theorem Inv.step (h : Inv s) (hs : step fatal program s a = some t) : Inv t := by
  obtain ⟨hlife, ⟨sig, rfl, rfl⟩ | ⟨sig, rfl, hdeliver⟩ | ⟨rfl, hhandle⟩ | ⟨rfl, -, hmain⟩ |
    ⟨rfl, -, hfails⟩⟩ := step_cases hs
  · exact ⟨h.handled, h.handler, h.blocked, h.killed⟩
  · rcases h.deliver_cases hdeliver with ⟨hblocked, rfl⟩ | ⟨-, rfl⟩
    · refine ⟨h.handled, h.handler, h.blocked, fun he => ?_⟩
      obtain rfl : sig = .usr1 := by simpa using he
      by_contra hpc
      exact hblocked (h.blocked hpc)
    · exact ⟨h.handled, h.handler, h.blocked, h.killed⟩
  · simp [State.handle, h.handler] at hhandle
  · have hkilled : s.life ≠ .killed .usr1 := by
      rw [hlife]
      exact fun he => by cases he
    rcases main_cases hmain with ⟨-, rfl⟩ | ⟨hpc, rfl⟩ | ⟨hpc, -, rfl⟩ | ⟨hpc, rfl⟩
    · exact ⟨h.handled, h.handler, fun _ => Finset.mem_insert_self _ _, fun he => absurd he hkilled⟩
    all_goals
      exact ⟨h.handled, h.handler, fun _ => h.blocked (by rw [hpc]; exact fun he => by cases he),
        fun he => absurd he hkilled⟩
  · rcases fails_cases hfails with ⟨-, rfl⟩ | ⟨-, rfl⟩
    · exact ⟨h.handled, h.handler, h.blocked, fun he => by cases he⟩
    · exact ⟨h.handled, h.handler, h.blocked, h.killed⟩

theorem notifier_main (hs : program.main s = some t) :
    (label s .main = none ∧ t.notifier telling = s.notifier telling) ∨
      (label s .main = some .take ∧
        Notifier.step (s.notifier telling) .take = some (t.notifier telling)) := by
  rcases main_cases hs with ⟨hpc, rfl⟩ | ⟨hpc, rfl⟩ | ⟨hpc, hpending, rfl⟩ | ⟨hpc, rfl⟩
  · refine .inl ⟨by simp [label, hpc], notifier_congr Iff.rfl ?_⟩
    simp [State.printed, State.outstanding, telling, hpc]
  · refine .inl ⟨by simp [label, hpc], notifier_congr Iff.rfl ?_⟩
    simp [State.printed, State.outstanding, telling, hpc, got]
  · refine .inr ⟨if_pos hpc, notifier_take hpending (Finset.notMem_erase _ _) ?_⟩
    simp [State.printed, State.outstanding, telling, hpc]
    omega
  · refine .inl ⟨by simp [label, hpc], notifier_congr Iff.rfl ?_⟩
    simp [State.printed, State.outstanding, telling, hpc]
    omega

theorem notifier_step (h : Inv s) (hs : step fatal program s a = some t) :
    (label s a = none ∧ t.notifier telling = s.notifier telling) ∨
      ∃ b, label s a = some b ∧
        Notifier.step (s.notifier telling) b = some (t.notifier telling) := by
  obtain ⟨-, ⟨sig, rfl, rfl⟩ | ⟨sig, rfl, hdeliver⟩ | ⟨rfl, hhandle⟩ | ⟨rfl, -, hmain⟩ |
    ⟨rfl, -, hfails⟩⟩ := step_cases hs
  · cases sig with
    | usr1 => exact .inr ⟨.post, rfl, congrArg some notifier_send.symm⟩
    | int | other => exact .inl ⟨rfl, notifier_insert (fun he => by cases he)⟩
  · rcases h.deliver_cases hdeliver with ⟨-, rfl⟩ | ⟨hne, rfl⟩
    · exact .inl ⟨rfl, rfl⟩
    · exact .inl ⟨rfl, notifier_erase hne⟩
  · simp [State.handle, h.handler] at hhandle
  · rcases notifier_main hmain with hstay | htake
    · exact .inl hstay
    · exact .inr ⟨_, htake⟩
  · rcases fails_cases hfails with ⟨-, rfl⟩ | ⟨-, rfl⟩ <;> exact .inl ⟨rfl, rfl⟩

theorem countP_label (s : State Pc) (a : Action) :
    (label s a).toList.countP (· = .post) = [a].countP Action.IsPost := by
  cases a with
  | send sig => cases sig <;> rfl
  | main =>
    simp only [label]
    split_ifs <;> rfl
  | deliver | handler | fails => rfl

theorem notified (fatal : ℕ → Bool) : Notified fatal program telling :=
  notified_of_labels ⟨rfl, rfl, fun he => absurd rfl he, fun he => by cases he⟩ rfl
    (fun _ _ _ h hs => h.step hs) (fun _ h => h.killed) (fun _ _ _ h hs => notifier_step h hs)
    countP_label fun _ => rfl

end Task3

/-- **Two ways to be notified.** The handler of `task1.c` and the loop of `task3.c` implement the
same notifier, whatever is sent and however the steps are scheduled; a report is a line on the
terminal. -/
theorem sigusr1_notified (fatal : ℕ → Bool) :
    Notified fatal Task1.program Task1.telling ∧ Notified fatal Task3.program Task3.telling :=
  ⟨Task1.notified fatal, Task3.notified fatal⟩

end Signal
end PosixHw
