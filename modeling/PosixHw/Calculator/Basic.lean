import PosixHw.Base.Scanf

/-!
# The calculators

The programs `libs/static/main.c` and `libs/dynamic/main.c` with their library.  They have the same
loop; the second one first loads the library, and ends at once if it does not get all of it.

A sum, difference, product or quotient that does not fit into an `int` is undefined.
-/

namespace PosixHw
namespace Calculator

open Scanf

/-- The value of an `int` expression. -/
def int (n : ℤ) : Option ℤ := if -2 ^ 31 ≤ n ∧ n < 2 ^ 31 then some n else none

def add (a b : ℤ) : Option ℤ := int (a + b)
def sub (a b : ℤ) : Option ℤ := int (a - b)
def mul (a b : ℤ) : Option ℤ := int (a * b)
def divide (a b : ℤ) : Option ℤ := if b = 0 then some 0 else int (a.tdiv b)

/-- What is printed: a fixed text, or the line with the result. -/
inductive Out
  | text (s : String)
  | result (n : ℤ)
  deriving DecidableEq

/-- The texts of `printf`. -/
def menu : Out := .text ("1) Сложение\n" ++ "2) Вычитание\n" ++ "3) Умножение\n" ++
  "4) Деление\n" ++ "5) Выход\n")
def ask : Out := .text "Введите два числа: "
def wrongChoice : Out := .text "Неправильный выбор\n"

/-- The variables of `main`, the input and the output; `running` is false after the loop. -/
structure State where
  choice : ℤ
  a : ℤ
  b : ℤ
  input : List UInt8
  out : List Out
  running : Bool

/-- The start of the loop, with any values in the variables. -/
def start (choice a b : ℤ) (input : List UInt8) : State := ⟨choice, a, b, input, [], true⟩

/-- The start of the program with the shared library: `loaded` tells whether `dlopen` and the four
calls of `dlsym` succeed. -/
def dynamicStart (loaded : Bool) (choice a b : ℤ) (input : List UInt8) : State :=
  { start choice a b input with running := loaded }

/-- `scanf("%d %d", &a, &b)`: it ends with the first number that is missing. -/
def scanTwo (a b : ℤ) (input : List UInt8) : ℤ × ℤ × List UInt8 :=
  match scanInt input with
  | (none, rest) => (a, b, rest)
  | (some a, rest) => (a, (scanInt rest).1.getD b, (scanInt rest).2)

/-- The operation that `choice` asks for; `none` for a wrong choice. -/
def operation (choice : ℤ) : Option (ℤ → ℤ → Option ℤ) :=
  match choice with
  | 1 => some add
  | 2 => some sub
  | 3 => some mul
  | 4 => some divide
  | _ => none

/-- The number that a turn reads; if `scanf` finds none, it is what it was. -/
def State.chosen (s : State) : ℤ := (scanInt s.input).1.getD s.choice

/-- One turn of the loop. -/
def step (s : State) (_ : Unit) : Option State :=
  if s.running then
    if s.chosen = 5 then
      some ⟨s.chosen, s.a, s.b, (scanInt s.input).2, s.out ++ [menu], false⟩
    else
      let (a, b, rest) := scanTwo s.a s.b (scanInt s.input).2
      match operation s.chosen with
      | some f => (f a b).map fun n =>
          ⟨s.chosen, a, b, rest, s.out ++ [menu, ask, .result n], true⟩
      | none => some ⟨s.chosen, a, b, rest, s.out ++ [menu, ask, wrongChoice], true⟩
  else none

/-! ### What a turn consumes -/

theorem length_scanTwo_le (a b : ℤ) (input : List UInt8) :
    (scanTwo a b input).2.2.length ≤ input.length := by
  have hle := length_scanInt_le input
  rw [scanTwo]
  split
  · rename_i h
    rw [h] at hle
    exact hle
  · rename_i h
    rw [h] at hle
    exact (length_scanInt_le _).trans hle

theorem scanTwo_eq {input : List UInt8} (h : ¬ Takes input) (a b : ℤ) :
    scanTwo a b input = (a, b, input) := by
  rw [scanTwo, scanInt_eq h]

theorem running_of_step {s t : State} {u : Unit} (h : step s u = some t) : s.running = true := by
  by_contra hr
  rw [step, if_neg hr] at h
  cases h

/-- Where a turn of the loop goes on, it has read two numbers, or tried to. -/
theorem step_cases {s t : State} {u : Unit} (h : step s u = some t) :
    s.chosen = 5 ∧ t.running = false ∨
    s.chosen ≠ 5 ∧ t.running = true ∧
      t.input = (scanTwo s.a s.b (scanInt s.input).2).2.2 := by
  have hr := running_of_step h
  rw [step, if_pos hr] at h
  split_ifs at h with h5
  · cases h
    exact .inl ⟨h5, rfl⟩
  · refine .inr ⟨h5, ?_⟩
    generalize scanTwo s.a s.b (scanInt s.input).2 = r at h
    dsimp only at h
    split at h
    · obtain ⟨n, -, rfl⟩ := Option.map_eq_some_iff.1 h
      exact ⟨rfl, rfl⟩
    · cases h
      exact ⟨rfl, rfl⟩

end Calculator
end PosixHw
