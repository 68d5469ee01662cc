import PosixHw.Base.Notifier

/-!
# Signals

The programs of `signal/`: `task1.c` handles SIGUSR1, `task2.c` blocks SIGINT, and `task3.c` blocks
SIGUSR1 and waits for it.

A signal that is sent is pending until it is delivered, and a second one of the same kind is merged
with it.  Anybody may send any signal at any time; what a signal does before the first system call
of a program has returned is what it does by default.

The standard output is a terminal: a `printf` that ends in a newline writes at once.  To a file or a
pipe, `task1.c` and `task3.c` would write when their buffer is full; they neither flush nor exit.
-/

namespace PosixHw
namespace Signal

open Run

/-- The signals that the programs name, and all the others. -/
inductive Sig
  | int
  | usr1
  | other (n : ℕ)
  deriving DecidableEq

/-- By default a signal ends the process or is ignored; `fatal` tells which of the others do. -/
def Sig.fatal (fatal : ℕ → Bool) : Sig → Bool
  | .int | .usr1 => true
  | .other n => fatal n

inductive Life
  | running
  | exited (code : ℕ)
  | killed (sig : Sig)
  deriving DecidableEq

/-- Where `handle_sigusr1` is. -/
inductive HandlerPc
  | print
  | ret
  deriving DecidableEq

/-- A process: its signals, where its handler and its `main` are, and what it has written to the
terminal. -/
structure State (P : Type) where
  pending : Finset Sig
  blocked : Finset Sig
  handled : Finset Sig
  handler : Option HandlerPc
  pc : P
  out : List String
  err : List String
  life : Life

/-- The steps of a `main`, and its steps where a system call fails. -/
structure Program (P : Type) where
  first : P
  main : State P → Option (State P)
  fails : State P → Option (State P)

inductive Action
  | send (sig : Sig)
  | deliver (sig : Sig)
  | handler
  | main
  | fails
  deriving DecidableEq

variable {P : Type}

/-- The start of a program. -/
def Program.start (prog : Program P) : State P :=
  ⟨∅, ∅, ∅, none, prog.first, [], [], .running⟩

/-- A signal that is pending and not blocked is delivered. While its handler runs, it is blocked. -/
def State.deliver (fatal : ℕ → Bool) (s : State P) (sig : Sig) : Option (State P) :=
  if sig ∈ s.pending ∧ sig ∉ s.blocked then
    -- the handler is called; a signal that comes meanwhile waits
    if sig ∈ s.handled then
      some { s with pending := s.pending.erase sig, blocked := insert sig s.blocked,
                    handler := some .print }
    -- the default action: the end of the process, or nothing
    else if sig.fatal fatal then some { s with life := .killed sig }
    else some { s with pending := s.pending.erase sig }
  else none

/-- `printf("Got SIGUSR1\n")` -/
def got : String := "Got SIGUSR1\n"

/-- The steps of `handle_sigusr1`; the terminal shows what is printed. -/
def State.handle (s : State P) : Option (State P) :=
  match s.handler with
  | some .print => some { s with out := s.out ++ [got], handler := some .ret }
  | some .ret => some { s with blocked := s.blocked.erase .usr1, handler := none }
  | none => none

/-- One step of a process that runs; `main` does not while the handler does. -/
def step (fatal : ℕ → Bool) (prog : Program P) (s : State P) (a : Action) : Option (State P) :=
  if s.life = .running then
    match a with
    | .send sig => some { s with pending := insert sig s.pending }
    | .deliver sig => s.deliver fatal sig
    | .handler => s.handle
    | .main => if s.handler = none then prog.main s else none
    | .fails => if s.handler = none then prog.fails s else none
  else none

/-! ### The programs -/

namespace Task1

inductive Pc
  | sigaction
  | loop
  deriving DecidableEq

def program : Program Pc where
  first := .sigaction
  main s :=
    match s.pc with
    | .sigaction => some { s with handled := insert .usr1 s.handled, pc := .loop }
    | .loop => some s
  fails s :=
    match s.pc with
    | .sigaction => some { s with err := s.err ++ ["sigaction failed"], life := .exited 1 }
    | .loop => none

end Task1

namespace Task2

inductive Pc
  | sigprocmask
  | print
  | loop
  deriving DecidableEq

def program : Program Pc where
  first := .sigprocmask
  main s :=
    match s.pc with
    | .sigprocmask => some { s with blocked := insert .int s.blocked, pc := .print }
    | .print => some { s with out := s.out ++ ["SIGINT blocked.\n"], pc := .loop }
    | .loop => some s
  fails s :=
    match s.pc with
    | .sigprocmask => some { s with err := s.err ++ ["sigprocmask failed"], life := .exited 1 }
    | .print | .loop => none

end Task2

namespace Task3

inductive Pc
  | sigprocmask
  | print
  | sigwait
  | got
  deriving DecidableEq

def program : Program Pc where
  first := .sigprocmask
  main s :=
    match s.pc with
    | .sigprocmask => some { s with blocked := insert .usr1 s.blocked, pc := .print }
    | .print => some { s with out := s.out ++ ["SIGUSR1 blocked\n"], pc := .sigwait }
    -- `sigwait` takes a signal that is pending and blocked, or waits for one
    | .sigwait =>
      if .usr1 ∈ s.pending then some { s with pending := s.pending.erase .usr1, pc := .got }
      else none
    | .got => some { s with out := s.out ++ [Signal.got], pc := .sigwait }
  fails s :=
    match s.pc with
    | .sigprocmask => some { s with err := s.err ++ ["sigprocmask failed"], life := .exited 1 }
    | .sigwait => some { s with err := s.err ++ ["error while waiting for signal"] }
    | .print | .got => none

end Task3

/-! ### Notifications -/

/-- How often the program has said that it got the signal. -/
def State.printed (s : State P) : ℕ := s.out.count got

/-- The program has been told of a signal and has not said so yet; `telling` is where `main` is
then. -/
def State.outstanding (telling : P → Bool) (s : State P) : ℕ :=
  (if s.handler = some .print then 1 else 0) + if telling s.pc then 1 else 0

/-- The program has said what there was to say. -/
def State.AtRest (telling : P → Bool) (s : State P) : Prop :=
  .usr1 ∉ s.pending ∧ s.outstanding telling = 0

/-- The notifier that the process implements. -/
def State.notifier (telling : P → Bool) (s : State P) : Notifier.State :=
  ⟨decide (.usr1 ∈ s.pending), s.printed + s.outstanding telling⟩

/-- Somebody sends SIGUSR1. -/
def Action.IsPost (a : Action) : Bool := a = .send .usr1

/-- In every run the program says at most as often that it got the signal as the signal was sent,
it is not killed by the signal once its first system call has returned, and for each signal it says
so at least once before it is at rest again. -/
def Notified (fatal : ℕ → Bool) (prog : Program P) (telling : P → Bool) : Prop :=
  ∀ as s, run (step fatal prog) prog.start as = some s →
    s.printed ≤ as.countP Action.IsPost ∧ (s.life = .killed .usr1 → s.pc = prog.first) ∧
      ∀ bs cs t, as = bs ++ .send .usr1 :: cs → run (step fatal prog) prog.start bs = some t →
        s.AtRest telling → t.printed < s.printed

section Notified

variable {fatal : ℕ → Bool} {prog : Program P} {telling : P → Bool} {s t : State P} {a : Action}
  {sig : Sig}

theorem running_of_step (h : step fatal prog s a = some t) : s.life = .running := by
  by_contra hlife
  unfold step at h
  rw [if_neg hlife] at h
  cases h

theorem deliver_cases (h : s.deliver fatal sig = some t) :
    sig ∈ s.pending ∧ sig ∉ s.blocked ∧
      (sig ∈ s.handled ∧
          t = { s with pending := s.pending.erase sig, blocked := insert sig s.blocked,
                       handler := some .print } ∨
        sig ∉ s.handled ∧ sig.fatal fatal = true ∧ t = { s with life := .killed sig } ∨
        sig ∉ s.handled ∧ sig.fatal fatal = false ∧
          t = { s with pending := s.pending.erase sig }) := by
  unfold State.deliver at h
  split_ifs at h with hready hhandled hfatal
  · cases h
    exact ⟨hready.1, hready.2, .inl ⟨hhandled, rfl⟩⟩
  · cases h
    exact ⟨hready.1, hready.2, .inr (.inl ⟨hhandled, hfatal, rfl⟩)⟩
  · cases h
    exact ⟨hready.1, hready.2, .inr (.inr ⟨hhandled, by simpa using hfatal, rfl⟩)⟩

theorem handle_cases (h : s.handle = some t) :
    s.handler = some .print ∧ t = { s with out := s.out ++ [got], handler := some .ret } ∨
      s.handler = some .ret ∧
        t = { s with blocked := s.blocked.erase .usr1, handler := none } := by
  unfold State.handle at h
  split at h
  · rename_i hprint
    cases h
    exact .inl ⟨hprint, rfl⟩
  · rename_i hret
    cases h
    exact .inr ⟨hret, rfl⟩
  · cases h

/-- What a step can be. -/
theorem step_cases (h : step fatal prog s a = some t) :
    s.life = .running ∧
      ((∃ sig, a = .send sig ∧ t = { s with pending := insert sig s.pending }) ∨
        (∃ sig, a = .deliver sig ∧ s.deliver fatal sig = some t) ∨
        (a = .handler ∧ s.handle = some t) ∨
        (a = .main ∧ s.handler = none ∧ prog.main s = some t) ∨
        (a = .fails ∧ s.handler = none ∧ prog.fails s = some t)) := by
  have hlife := running_of_step h
  unfold step at h
  rw [if_pos hlife] at h
  refine ⟨hlife, ?_⟩
  cases a with
  | send sig =>
    cases h
    exact .inl ⟨sig, rfl, rfl⟩
  | deliver sig => exact .inr (.inl ⟨sig, rfl, h⟩)
  | handler => exact .inr (.inr (.inl ⟨rfl, h⟩))
  | main =>
    dsimp only at h
    split_ifs at h with hhandler
    exact .inr (.inr (.inr (.inl ⟨rfl, hhandler, h⟩)))
  | fails =>
    dsimp only at h
    split_ifs at h with hhandler
    exact .inr (.inr (.inr (.inr ⟨rfl, hhandler, h⟩)))

theorem pending_of_send (h : step fatal prog s (.send sig) = some t) :
    t = { s with pending := insert sig s.pending } := by
  have hlife := running_of_step h
  unfold step at h
  rw [if_pos hlife] at h
  exact (Option.some.inj h).symm

/-! ### What the steps are to the notifier -/

/-- Posting. -/
theorem notifier_send :
    State.notifier telling { s with pending := insert .usr1 s.pending }
      = ⟨true, (s.notifier telling).taken⟩ := by
  unfold State.notifier
  simp
  rfl

theorem notifier_congr (hpending : .usr1 ∈ t.pending ↔ .usr1 ∈ s.pending)
    (htold : t.printed + t.outstanding telling = s.printed + s.outstanding telling) :
    t.notifier telling = s.notifier telling := by
  unfold State.notifier
  rw [htold, decide_eq_decide.2 hpending]

theorem notifier_take (hpending : .usr1 ∈ s.pending) (hpending' : .usr1 ∉ t.pending)
    (htold : t.printed + t.outstanding telling = s.printed + s.outstanding telling + 1) :
    Notifier.step (s.notifier telling) .take = some (t.notifier telling) := by
  unfold State.notifier Notifier.step
  rw [htold, decide_eq_true hpending, decide_eq_false hpending']
  rfl

/-- The other signals. -/
theorem notifier_insert (h : sig ≠ .usr1) :
    State.notifier telling { s with pending := insert sig s.pending } = s.notifier telling :=
  notifier_congr (by simp [h.symm]) rfl

theorem notifier_erase (h : sig ≠ .usr1) :
    State.notifier telling { s with pending := s.pending.erase sig } = s.notifier telling :=
  notifier_congr (by simp [h.symm]) rfl

theorem ne_usr1_of_not_fatal (h : sig.fatal fatal = false) : sig ≠ .usr1 := by
  rintro rfl
  cases h

/-- **A program that implements the notifier** notifies. -/
theorem notified_of_labels {I : State P → Prop} {label : State P → Action → Option Notifier.Action}
    (hstart : I prog.start) (hrest : prog.start.outstanding telling = 0)
    (hkeep : ∀ s a t, I s → step fatal prog s a = some t → I t)
    (hkilled : ∀ s, I s → s.life = .killed .usr1 → s.pc = prog.first)
    (hstep : ∀ s a t, I s → step fatal prog s a = some t →
      (label s a = none ∧ t.notifier telling = s.notifier telling) ∨
        ∃ b, label s a = some b ∧
          Notifier.step (s.notifier telling) b = some (t.notifier telling))
    (hpost : ∀ s a, (label s a).toList.countP (· = .post) = [a].countP Action.IsPost)
    (hsend : ∀ s, label s (.send .usr1) = some .post) :
    Notified fatal prog telling := by
  intro as s h
  have hI : ∀ bs t, run (step fatal prog) prog.start bs = some t → I t := fun bs t ht =>
    run_invariant hkeep hstart ht
  have hnone : ∀ s a t, I s → step fatal prog s a = some t → label s a = none →
      t.notifier telling = s.notifier telling := by
    intro s a t hs ht hlabel
    rcases hstep s a t hs ht with ⟨-, he⟩ | ⟨b, hb, -⟩
    · exact he
    · rw [hlabel] at hb
      cases hb
  have hsome : ∀ s a t b, I s → step fatal prog s a = some t → label s a = some b →
      Notifier.step (s.notifier telling) b = some (t.notifier telling) := by
    intro s a t b hs ht hlabel
    rcases hstep s a t hs ht with ⟨hnone, -⟩ | ⟨b', hb, he⟩
    · rw [hlabel] at hnone
      cases hnone
    · obtain rfl := Option.some.inj (hb.symm.trans hlabel)
      exact he
  refine ⟨?_, hkilled s (hI as s h), ?_⟩
  · have howed := Notifier.owed_run (run_labels hkeep hnone hsome hstart h)
    rw [countP_labels hpost h] at howed
    have hzero : (prog.start.notifier telling).owed = 0 := by
      have hprinted : prog.start.printed = 0 := rfl
      rw [Notifier.State.owed, State.notifier, hprinted, hrest]
      rfl
    have hle : s.printed ≤ (s.notifier telling).owed := by
      exact (Nat.le_add_right _ _).trans (Nat.le_add_right _ _)
    omega
  · rintro bs cs t rfl ht hatRest
    obtain ⟨t', ht', h⟩ := run_append_eq_some.1 h
    obtain rfl : t = t' := Option.some.inj (ht.symm.trans ht')
    obtain ⟨u, hu, h⟩ := run_cons_eq_some.1 h
    have hrun := run_labels hkeep hnone hsome (hkeep t _ u (hI bs t ht) hu) h
    have hlt := Notifier.taken_lt (hsome t _ u .post (hI bs t ht) hu (hsend t)) hrun
      (decide_eq_false hatRest.1)
    have hout := hatRest.2
    simp only [State.notifier] at hlt
    omega

end Notified

end Signal
end PosixHw
