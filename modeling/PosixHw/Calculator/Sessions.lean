import PosixHw.Base.Decimal
import PosixHw.Base.Run
import PosixHw.Calculator.Basic

/-!
# What a session with a calculator computes

A session is a list of commands, each a choice and two numbers, typed in any way that `%d` reads,
and a 5 at the end.  `answer` is what it should give, by exact arithmetic: the quotient is cut off
towards zero, and is 0 if the divisor is.  `session_iff` says when the programs give it: exactly if
each result fits into an `int`.  What is typed behind the 5 is not read.
-/

namespace PosixHw
namespace Calculator

open Run Scanf

/-- A choice and two numbers, as they are typed. -/
structure Command where
  choice : Decimal
  a : Decimal
  b : Decimal

def Command.tokens (c : Command) : List Decimal := [c.choice, c.a, c.b]

/-- The commands of a session, its 5, and what follows it. -/
structure Session where
  commands : List Command
  leave : Decimal
  rest : List UInt8
  choice_ne : ∀ c ∈ commands, c.choice.int ≠ 5
  leave_eq : leave.int = 5
  apart : ∀ d ∈ (commands.flatMap Command.tokens ++ [leave]).tail, d.Apart
  stops : Stops rest

/-- What is typed. -/
def Session.input (S : Session) : List UInt8 :=
  texts (S.commands.flatMap Command.tokens ++ [S.leave]) ++ S.rest

/-- The operation behind a choice. -/
def meaning (choice : ℤ) : Option (ℤ → ℤ → ℤ) :=
  match choice with
  | 1 => some (· + ·)
  | 2 => some (· - ·)
  | 3 => some (· * ·)
  | 4 => some Int.tdiv
  | _ => none

/-- What should be answered. -/
def Command.answer (c : Command) : Out :=
  match meaning c.choice.int with
  | some f => .result (f c.a.int c.b.int)
  | none => wrongChoice

/-- The result is an `int`. -/
def Command.Fits (c : Command) : Prop :=
  ∀ f ∈ meaning c.choice.int, -2 ^ 31 ≤ f c.a.int c.b.int ∧ f c.a.int c.b.int < 2 ^ 31

instance (c : Command) : Decidable c.Fits := inferInstanceAs (Decidable (∀ f ∈ meaning _, _))

/-- What should be printed. -/
def Session.report (S : Session) : List Out :=
  S.commands.flatMap (fun c => [menu, ask, c.answer]) ++ [menu]

/-- The session ends, with `out` printed and `rest` not read. -/
def Ends (s : State) (n : ℕ) (out : List Out) (rest : List UInt8) : Prop :=
  ∃ t, run step s (List.replicate n ()) = some t ∧ t.running = false ∧ t.out = out ∧ t.input = rest

/-! ### One command -/

variable {c : Command} {ds : List Decimal} {rest : List UInt8}

theorem int_eq (n : ℤ) : int n = if -2 ^ 31 ≤ n ∧ n < 2 ^ 31 then some n else none := rfl

/-- The quotient of the library is that of `Int.tdiv`, also by zero. -/
theorem divide_eq (a b : ℤ) : divide a b = int (a.tdiv b) := by
  unfold divide
  split_ifs with hb
  · rw [hb, Int.tdiv_zero]
    rfl
  · rfl

/-- The programs compute by exact arithmetic, as long as the result fits. -/
theorem operation_eq (choice : ℤ) :
    operation choice = (meaning choice).map fun f a b => int (f a b) := by
  -- the four cases of the `switch`, and its default
  by_cases h1 : choice = 1
  · rw [h1]
    rfl
  by_cases h2 : choice = 2
  · rw [h2]
    rfl
  by_cases h3 : choice = 3
  · rw [h3]
    rfl
  by_cases h4 : choice = 4
  · rw [h4]
    show some divide = some fun a b => int (a.tdiv b)
    apply congrArg some
    funext a b
    exact divide_eq a b
  · have hoperation : operation choice = none := by
      unfold operation
      split <;> first | rfl | contradiction
    have hmeaning : meaning choice = none := by
      unfold meaning
      split <;> first | rfl | contradiction
    rw [hoperation, hmeaning]
    rfl

/-- The two numbers of a command are read. -/
theorem scanTwo_texts (hds : ∀ d ∈ c.b :: ds, d.Apart) (hrest : Stops rest) (x y : ℤ) :
    scanTwo x y (texts (c.a :: c.b :: ds) ++ rest) = (c.a.int, c.b.int, texts ds ++ rest) := by
  rw [scanTwo, scanInt_texts hds hrest]
  dsimp only
  rw [scanInt_texts (fun d hd => hds d (List.mem_cons_of_mem _ hd)) hrest]
  rfl

/-- **A turn of the loop** answers one command, or is undefined. -/
theorem step_command (choice a b : ℤ) (out : List Out) (hchoice : c.choice.int ≠ 5)
    (hds : ∀ d ∈ (c.tokens ++ ds).tail, d.Apart) (hrest : Stops rest) :
    step ⟨choice, a, b, texts (c.tokens ++ ds) ++ rest, out, true⟩ ()
      = if c.Fits then some ⟨c.choice.int, c.a.int, c.b.int, texts ds ++ rest,
          out ++ [menu, ask, c.answer], true⟩ else none := by
  have hscan : scanInt (texts (c.tokens ++ ds) ++ rest)
      = (some c.choice.int, texts (c.a :: c.b :: ds) ++ rest) := scanInt_texts hds hrest
  have htwo : scanTwo a b (texts (c.a :: c.b :: ds) ++ rest)
      = (c.a.int, c.b.int, texts ds ++ rest) :=
    scanTwo_texts (fun d hd => hds d (List.mem_cons_of_mem _ hd)) hrest a b
  rw [step, if_pos rfl]
  simp only [State.chosen, hscan, Option.getD_some, if_neg hchoice, htwo, operation_eq]
  -- a choice without an operation has been read with its two numbers, too
  cases hmeaning : meaning c.choice.int with
  | none =>
    have hfits : c.Fits := fun f hf => by rw [hmeaning] at hf; cases hf
    have hanswer : c.answer = wrongChoice := by rw [Command.answer, hmeaning]
    rw [if_pos hfits, hanswer]
    rfl
  | some f =>
    have hfits : c.Fits ↔ -2 ^ 31 ≤ f c.a.int c.b.int ∧ f c.a.int c.b.int < 2 ^ 31 := by
      rw [Command.Fits, hmeaning]
      simp only [Option.mem_def, Option.some.injEq, forall_eq']
    have hanswer : c.answer = .result (f c.a.int c.b.int) := by rw [Command.answer, hmeaning]
    rw [hanswer, Option.map_some]
    dsimp only
    rw [int_eq]
    by_cases hint : -2 ^ 31 ≤ f c.a.int c.b.int ∧ f c.a.int c.b.int < 2 ^ 31
    · rw [if_pos hint, if_pos (hfits.2 hint)]
      rfl
    · rw [if_neg hint, if_neg (mt hfits.1 hint)]
      rfl

/-- The 5 ends the loop. -/
theorem step_leave (choice a b : ℤ) (out : List Out) {d : Decimal} (hd : d.int = 5)
    (hrest : Stops rest) :
    step ⟨choice, a, b, texts [d] ++ rest, out, true⟩ ()
      = some ⟨5, a, b, rest, out ++ [menu], false⟩ := by
  have hscan : scanInt (texts [d] ++ rest) = (some 5, rest) := by
    rw [scanInt_texts (fun e he => absurd he List.not_mem_nil) hrest, hd]
    rfl
  rw [step, if_pos rfl]
  simp only [State.chosen, hscan, Option.getD_some, if_true]

/-! ### All commands -/

/-- **The run of a session**, from any values of the variables. -/
theorem ends_iff (choice a b : ℤ) (out : List Out) {cs : List Command} {d : Decimal}
    (hne : ∀ c ∈ cs, c.choice.int ≠ 5) (hd : d.int = 5)
    (happart : ∀ e ∈ (cs.flatMap Command.tokens ++ [d]).tail, e.Apart) (hrest : Stops rest) :
    Ends ⟨choice, a, b, texts (cs.flatMap Command.tokens ++ [d]) ++ rest, out, true⟩
      (cs.length + 1) (out ++ (cs.flatMap (fun c => [menu, ask, c.answer]) ++ [menu])) rest ↔
      ∀ c ∈ cs, c.Fits := by
  -- over the commands, from any values of the variables
  induction cs generalizing choice a b out with
  | nil =>
    apply iff_of_true _ fun c hc => absurd hc List.not_mem_nil
    exact ⟨_, run_cons_eq_some.2 ⟨_, step_leave choice a b out hd hrest, rfl⟩, rfl, rfl, rfl⟩
  | cons c cs ih =>
    rw [List.flatMap_cons, List.append_assoc] at happart ⊢
    have hstep := step_command choice a b out (hne c List.mem_cons_self) happart hrest
    have htail : ∀ e ∈ (cs.flatMap Command.tokens ++ [d]).tail, e.Apart := fun e he =>
      happart e (List.mem_cons_of_mem _ (List.mem_cons_of_mem _ (List.mem_of_mem_tail he)))
    rw [List.forall_mem_cons]
    by_cases hfits : c.Fits
    · rw [if_pos hfits] at hstep
      have hih := ih c.choice.int c.a.int c.b.int (out ++ [menu, ask, c.answer])
        (fun c hc => hne c (List.mem_cons_of_mem _ hc)) htail
      rw [and_iff_right hfits, ← hih]
      unfold Ends
      rw [List.length_cons, List.replicate_succ, run_cons, hstep, Option.bind_some]
      simp only [List.flatMap_cons, List.append_assoc]
    -- the turn is undefined, and so is the run
    · rw [if_neg hfits] at hstep
      apply iff_of_false _ fun h => hfits h.1
      rintro ⟨t, hrun, -⟩
      rw [List.length_cons, List.replicate_succ, run_cons, hstep] at hrun
      cases hrun

/-- **What a session computes.**  With either library the calculator ends after the 5 and has
answered all commands by exact arithmetic, whatever was in its variables, exactly if the results
fit into an `int`; with the shared one, if it could be loaded. -/
theorem session_iff (S : Session) (choice a b : ℤ) (loaded : Bool) :
    (Ends (start choice a b S.input) (S.commands.length + 1) S.report S.rest ↔
      ∀ c ∈ S.commands, c.Fits) ∧
    (Ends (dynamicStart loaded choice a b S.input) (S.commands.length + 1) S.report S.rest ↔
      loaded = true ∧ ∀ c ∈ S.commands, c.Fits) := by
  have hstatic : Ends (start choice a b S.input) (S.commands.length + 1) S.report S.rest ↔
      ∀ c ∈ S.commands, c.Fits := ends_iff choice a b [] S.choice_ne S.leave_eq S.apart S.stops
  refine ⟨hstatic, ?_⟩
  cases loaded with
  | true =>
    rw [and_iff_right rfl]
    exact hstatic
  | false =>
    apply iff_of_false _ fun h => Bool.false_ne_true h.1
    -- the program has ended before the loop
    rintro ⟨t, hrun, -⟩
    obtain ⟨u, hu, -⟩ := run_cons_eq_some.1 hrun
    have hrunning := running_of_step hu
    cases hrunning

/-! ### Any numbers can be typed -/

/-- A choice and two numbers. -/
structure Numbers where
  choice : ℤ
  a : ℤ
  b : ℤ

/-- The numbers are of the type `int`, and the choice is not 5. -/
structure Numbers.Typable (x : Numbers) : Prop where
  choice : -2 ^ 31 ≤ x.choice ∧ x.choice < 2 ^ 31
  a : -2 ^ 31 ≤ x.a ∧ x.a < 2 ^ 31
  b : -2 ^ 31 ≤ x.b ∧ x.b < 2 ^ 31
  choice_ne : x.choice ≠ 5

/-- Each number on a line of its own. -/
def Numbers.command (x : Numbers) : Command := ⟨.onLine x.choice, .onLine x.a, .onLine x.b⟩

/-- The answer, by exact arithmetic. -/
def Numbers.answer (x : Numbers) : Out :=
  match meaning x.choice with
  | some f => .result (f x.a x.b)
  | none => wrongChoice

theorem Numbers.Typable.answer_eq {x : Numbers} (h : x.Typable) : x.command.answer = x.answer := by
  rw [Command.answer, command, int_onLine h.choice.1 h.choice.2, int_onLine h.a.1 h.a.2,
    int_onLine h.b.1 h.b.2]
  rfl

/-- The session in which they are typed, and a 5 behind them. -/
def Session.ofNumbers (l : List Numbers) (h : ∀ x ∈ l, x.Typable) : Session where
  commands := l.map Numbers.command
  leave := .onLine 5
  rest := []
  choice_ne c hc := by
    obtain ⟨x, hx, rfl⟩ := List.mem_map.1 hc
    rw [Numbers.command, int_onLine (h x hx).choice.1 (h x hx).choice.2]
    exact (h x hx).choice_ne
  leave_eq := int_onLine (by decide) (by decide)
  apart d hd := by
    rcases List.mem_append.1 (List.mem_of_mem_tail hd) with hd | hd
    · obtain ⟨c, hc, hd⟩ := List.mem_flatMap.1 hd
      obtain ⟨x, -, rfl⟩ := List.mem_map.1 hc
      simp only [Numbers.command, Command.tokens, List.mem_cons, List.not_mem_nil, or_false] at hd
      rcases hd with rfl | rfl | rfl
      · exact apart_onLine x.choice
      · exact apart_onLine x.a
      · exact apart_onLine x.b
    · rw [List.mem_singleton.1 hd]
      exact apart_onLine 5
  stops b hb := by cases hb

/-- What should be printed for them. -/
theorem Session.report_ofNumbers {l : List Numbers} (h : ∀ x ∈ l, x.Typable) :
    (Session.ofNumbers l h).report = l.flatMap (fun x => [menu, ask, x.answer]) ++ [menu] := by
  rw [Session.report, Session.ofNumbers, List.flatMap_map]
  refine congrArg (· ++ [menu]) (List.flatMap_congr fun x hx => ?_)
  rw [(h x hx).answer_eq]

/-- `4 -7 2` is answered; `1 2147483647 1` is not. -/
theorem session_iff_numbers :
    (∃ S : Session, S.commands.length = 1 ∧
      Ends (start 0 0 0 S.input) 2 [menu, ask, .result (-3), menu] S.rest) ∧
    ∃ S : Session, S.commands.length = 1 ∧ ¬ Ends (start 0 0 0 S.input) 2 S.report S.rest := by
  have hquotient : ∀ x ∈ ([⟨4, -7, 2⟩] : List Numbers), x.Typable := fun x hx => by
    rw [List.mem_singleton.1 hx]
    constructor <;> decide
  have hsum : ∀ x ∈ ([⟨1, 2147483647, 1⟩] : List Numbers), x.Typable := fun x hx => by
    rw [List.mem_singleton.1 hx]
    constructor <;> decide
  constructor
  · have hreport := Session.report_ofNumbers hquotient
    have hends := (session_iff (.ofNumbers _ hquotient) 0 0 0 true).1
    rw [hreport] at hends
    have hfits : ∀ c ∈ [Numbers.command ⟨4, -7, 2⟩], c.Fits := by decide +kernel
    exact ⟨.ofNumbers _ hquotient, rfl, hends.2 hfits⟩
  · have hfits : ¬ ∀ c ∈ [Numbers.command ⟨1, 2147483647, 1⟩], c.Fits := by decide +kernel
    exact ⟨.ofNumbers _ hsum, rfl, fun hends =>
      hfits ((session_iff (.ofNumbers _ hsum) 0 0 0 true).1.1 hends)⟩

end Calculator
end PosixHw
