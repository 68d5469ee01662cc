import PosixHw.Base.Run
import PosixHw.Base.Scanf

/-!
# The address books: the menu

The programs `structs/task.c` and `dynamic/task.c` have one `main`: it prints the menu, reads a
number and calls the operation.  They differ in how the book is stored, so `step` has the four
operations as parameters.  An operation of `dynamic/task.c` may also call `exit`; `turn` is `step`
for such operations (`step_eq_turn`).

`Simulates` compares two books operation by operation; `run_simulates` carries this over to whole
sessions: the two programs then read the same input and print the same output for as long as the
first one is defined.  `ExitSimulates` and `turn_simulates` do the same for `turn`.
-/

namespace PosixHw
namespace AddressBook

open Run Scanf

/-- `NAME_LEN`. -/
def nameLen : ℕ := 10

/-- What is printed: a fixed text, or the line that shows a record. -/
inductive Out
  | text (s : String)
  | record (name secondName tel : List UInt8)
  deriving DecidableEq

/-- The input that has not been read and the output so far. -/
structure Io where
  input : List UInt8
  out : List Out

/-- `printf`. -/
def Io.print (io : Io) (o : Out) : Io := { io with out := io.out ++ [o] }

/-- The texts of `printf`. -/
def menu : Out := .text ("\nМеню:\n" ++ "1) Добавить абонента\n" ++ "2) Удалить абонента\n" ++
  "3) Поиск абонентов по имени\n" ++ "4) Вывод всех записей\n" ++ "5) Выход\n" ++
  "Введите номер пункта: ")
def bye : Out := .text "Выход из программы.\n"
def wrongChoice : Out := .text "Неправильный ввод. Попробуйте еще раз.\n"
def askName : Out := .text "Введите имя: "
def askSecondName : Out := .text "Введите фамилию: "
def askTel : Out := .text "Введите телефон: "
def askDelete : Out := .text "Введите имя абонента для удаления: "
def deleted : Out := .text "Абонент удален.\n"
def notFound : Out := .text "Абонент не найден.\n"
def askSearch : Out := .text "Введите имя для поиска: "

/-- How a book of the type `B` is changed, searched and printed. -/
structure Ops (B : Type*) where
  add : B → Io → Option (B × Io)
  delete : B → Io → Option (B × Io)
  search : B → Io → Option (B × Io)
  print : B → Io → Option (B × Io)

/-- The variables of `main`; `running` is false after the loop. -/
structure State (B : Type*) where
  book : B
  choice : ℤ
  io : Io
  running : Bool

/-- The start: an empty book, and any value in `choice`. -/
def start {B : Type*} (book : B) (choice : ℤ) (input : List UInt8) : State B :=
  ⟨book, choice, ⟨input, []⟩, true⟩

/-- One turn of the loop of `main`.  If `scanf` finds no number, `choice` is what it was. -/
def step {B : Type*} (ops : Ops B) (s : State B) (_ : Unit) : Option (State B) :=
  if s.running then
    let r := scanInt s.io.input
    let choice := r.1.getD s.choice
    let io : Io := { (s.io.print menu) with input := r.2 }
    let after := fun x : B × Io => (⟨x.1, choice, x.2, true⟩ : State B)
    match choice with
    | 1 => (ops.add s.book io).map after
    | 2 => (ops.delete s.book io).map after
    | 3 => (ops.search s.book io).map after
    | 4 => (ops.print s.book io).map after
    | 5 => some ⟨s.book, choice, io.print bye, false⟩
    | _ => some ⟨s.book, choice, io.print wrongChoice, true⟩
  else none

/-! ### Operations that may end the program -/

/-- How an operation ends: back in the menu, or in `exit`. -/
inductive Outcome (B : Type*)
  | back (book : B) (io : Io)
  | exit (io : Io)

/-- How a book is changed, searched and printed by operations that may call `exit`. -/
structure ExitOps (B : Type*) where
  add : B → Io → Option (Outcome B)
  delete : B → Io → Option (Outcome B)
  search : B → Io → Option (Outcome B)
  print : B → Io → Option (Outcome B)

/-- The state after an operation. -/
def Outcome.after {B : Type*} (book : B) (choice : ℤ) : Outcome B → State B
  | .back b io => ⟨b, choice, io, true⟩
  | .exit io => ⟨book, choice, io, false⟩

/-- The operation that `choice` asks for; `finish` is what is done behind the loop of `main`. -/
def ExitOps.choose {B : Type*} (ops : ExitOps B) (finish : B → B) (book : B) (choice : ℤ)
    (io : Io) : Option (State B) :=
  match choice with
  | 1 => (ops.add book io).map (Outcome.after book choice)
  | 2 => (ops.delete book io).map (Outcome.after book choice)
  | 3 => (ops.search book io).map (Outcome.after book choice)
  | 4 => (ops.print book io).map (Outcome.after book choice)
  | 5 => some ⟨finish book, choice, io.print bye, false⟩
  | _ => some ⟨book, choice, io.print wrongChoice, true⟩

/-- The number that a turn reads; if `scanf` finds none, it is what it was. -/
def State.chosen {B : Type*} (s : State B) : ℤ := (scanInt s.io.input).1.getD s.choice

/-- The input and output when the operation begins. -/
def State.ready {B : Type*} (s : State B) : Io :=
  { (s.io.print menu) with input := (scanInt s.io.input).2 }

/-- One turn of the loop of `main`. -/
def turn {B : Type*} (ops : ExitOps B) (finish : B → B) (s : State B) : Option (State B) :=
  if s.running then ops.choose finish s.book s.chosen s.ready else none

/-- Operations that never call `exit`. -/
def Ops.withoutExit {B : Type*} (ops : Ops B) : ExitOps B where
  add b io := (ops.add b io).map fun x => .back x.1 x.2
  delete b io := (ops.delete b io).map fun x => .back x.1 x.2
  search b io := (ops.search b io).map fun x => .back x.1 x.2
  print b io := (ops.print b io).map fun x => .back x.1 x.2

theorem step_eq_turn {B : Type*} (ops : Ops B) (s : State B) (u : Unit) :
    step ops s u = turn ops.withoutExit id s := by
  have hmap : ∀ (o : Option (B × Io)) (choice : ℤ),
      (o.map fun x => Outcome.back x.1 x.2).map (Outcome.after s.book choice)
        = o.map fun x => (⟨x.1, choice, x.2, true⟩ : State B) := by
    intro o choice
    cases o <;> rfl
  unfold step turn ExitOps.choose
  split_ifs
  · simp only [Ops.withoutExit, hmap]
    rfl
  · rfl

/-! ### Comparing two books -/

section Simulation

variable {A B : Type*} {R : A → B → Prop}

/-- What `f` does on `a` is done by `g` on `b`, with the same input and output. -/
def Follows (R : A → B → Prop) (f : A → Io → Option (A × Io)) (g : B → Io → Option (B × Io)) :
    Prop :=
  ∀ {a b io a' io'}, R a b → f a io = some (a', io') → ∃ b', g b io = some (b', io') ∧ R a' b'

/-- The operations of `B` follow those of `A`. -/
structure Simulates (R : A → B → Prop) (f : Ops A) (g : Ops B) : Prop where
  add : Follows R f.add g.add
  delete : Follows R f.delete g.delete
  search : Follows R f.search g.search
  print : Follows R f.print g.print

/-- Two states with related books and the same of everything else. -/
structure Related (R : A → B → Prop) (s : State A) (t : State B) : Prop where
  book : R s.book t.book
  choice : t.choice = s.choice
  io : t.io = s.io
  running : t.running = s.running

theorem related_start {a : A} {b : B} (h : R a b) (choice : ℤ) (input : List UInt8) :
    Related R (start a choice input) (start b choice input) := ⟨h, rfl, rfl, rfl⟩

theorem step_simulates {f : Ops A} {g : Ops B} (h : Simulates R f g) {s s' : State A}
    {t : State B} {u : Unit} (hst : Related R s t) (hs : step f s u = some s') :
    ∃ t', step g t u = some t' ∧ Related R s' t' := by
  obtain ⟨hbook, hchoice, hio, hrun⟩ := hst
  -- an operation of `main`
  have hop : ∀ {choice : ℤ} {io : Io} {p : A → Io → Option (A × Io)} {q : B → Io → Option (B × Io)},
      Follows R p q → (p s.book io).map (fun x => (⟨x.1, choice, x.2, true⟩ : State A)) = some s' →
      ∃ t', (q t.book io).map (fun x => (⟨x.1, choice, x.2, true⟩ : State B)) = some t' ∧
        Related R s' t' := by
    intro choice io p q hpq hs
    obtain ⟨⟨a', io'⟩, ha, rfl⟩ := Option.map_eq_some_iff.1 hs
    obtain ⟨b', hb, hR⟩ := hpq hbook ha
    exact ⟨_, by rw [hb]; rfl, hR, rfl, rfl, rfl⟩
  unfold step at hs ⊢
  rw [hrun, hio, hchoice]
  split_ifs at hs ⊢ with hr
  · dsimp only at hs ⊢
    split at hs
    · exact hop h.add hs
    · exact hop h.delete hs
    · exact hop h.search hs
    · exact hop h.print hs
    · cases hs
      exact ⟨_, rfl, hbook, rfl, rfl, rfl⟩
    · cases hs
      exact ⟨_, rfl, hbook, rfl, rfl, rfl⟩

/-- A session of the first book is one of the second. -/
theorem run_simulates {f : Ops A} {g : Ops B} (h : Simulates R f g) {us : List Unit}
    {s s' : State A} {t : State B} (hst : Related R s t) (hs : run (step f) s us = some s') :
    ∃ t', run (step g) t us = some t' ∧ Related R s' t' :=
  run_simulation (fun _ u _ _ hst hs => step_simulates (u := u) h hst hs) hst hs

/-! ### Comparing two books whose operations may end the program -/

/-- The same ending, with related books. -/
inductive Outcome.Related (R : A → B → Prop) : Outcome A → Outcome B → Prop
  | back {a : A} {b : B} (h : R a b) (io : Io) : Outcome.Related R (.back a io) (.back b io)
  | exit (io : Io) : Outcome.Related R (.exit io) (.exit io)

/-- What `f` does on `a` is done by `g` on `b`. -/
def ExitFollows (R : A → B → Prop) (f : A → Io → Option (Outcome A))
    (g : B → Io → Option (Outcome B)) : Prop :=
  ∀ {a b io o}, R a b → f a io = some o → ∃ o', g b io = some o' ∧ Outcome.Related R o o'

/-- The operations of `B` follow those of `A`. -/
structure ExitSimulates (R : A → B → Prop) (f : ExitOps A) (g : ExitOps B) : Prop where
  add : ExitFollows R f.add g.add
  delete : ExitFollows R f.delete g.delete
  search : ExitFollows R f.search g.search
  print : ExitFollows R f.print g.print

/-- Two states with the same of everything but the books, which are related while the programs
run. -/
structure RelatedWhile (R : A → B → Prop) (s : State A) (t : State B) : Prop where
  book : s.running = true → R s.book t.book
  choice : t.choice = s.choice
  io : t.io = s.io
  running : t.running = s.running

theorem turn_simulates {f : ExitOps A} {g : ExitOps B} {finish : A → A} {finish' : B → B}
    (h : ExitSimulates R f g) {s s' : State A} {t : State B} (hst : RelatedWhile R s t)
    (hs : turn f finish s = some s') : ∃ t', turn g finish' t = some t' ∧ RelatedWhile R s' t' := by
  obtain ⟨hbook, hchoice, hio, hrun⟩ := hst
  have hready : t.ready = s.ready := by rw [State.ready, State.ready, hio]
  have hchosen : t.chosen = s.chosen := by rw [State.chosen, State.chosen, hio, hchoice]
  unfold turn at hs ⊢
  rw [hrun, hready, hchosen]
  split_ifs at hs ⊢ with hr
  -- an operation of `main`
  have hop : ∀ {p : A → Io → Option (Outcome A)} {q : B → Io → Option (Outcome B)},
      ExitFollows R p q → (p s.book s.ready).map (Outcome.after s.book s.chosen) = some s' →
      ∃ t', (q t.book s.ready).map (Outcome.after t.book s.chosen) = some t' ∧
        RelatedWhile R s' t' := by
    intro p q hpq hs
    obtain ⟨o, ho, rfl⟩ := Option.map_eq_some_iff.1 hs
    obtain ⟨o', ho', hR⟩ := hpq (hbook hr) ho
    refine ⟨o'.after t.book s.chosen, by rw [ho']; rfl, ?_⟩
    cases hR with
    | back hR io => exact ⟨fun _ => hR, rfl, rfl, rfl⟩
    | exit io => exact ⟨nofun, rfl, rfl, rfl⟩
  unfold ExitOps.choose at hs ⊢
  split at hs
  · exact hop h.add hs
  · exact hop h.delete hs
  · exact hop h.search hs
  · exact hop h.print hs
  · cases hs
    exact ⟨_, rfl, nofun, rfl, rfl, rfl⟩
  · cases hs
    exact ⟨_, rfl, fun _ => hbook hr, rfl, rfl, rfl⟩

/-- A session of the first book is one of the second, where the operations may depend on what the
environment does in each turn. -/
theorem run_turn_simulates {E : Type*} {f : E → ExitOps A} {g : E → ExitOps B} {finish : A → A}
    {finish' : B → B} (h : ∀ e, ExitSimulates R (f e) (g e)) {es : List E} {s s' : State A}
    {t : State B} (hst : RelatedWhile R s t)
    (hs : run (fun s e => turn (f e) finish s) s es = some s') :
    ∃ t', run (fun t e => turn (g e) finish' t) t es = some t' ∧ RelatedWhile R s' t' :=
  run_simulation (fun _ e _ _ hst hs => turn_simulates (h e) hst hs) hst hs

end Simulation

end AddressBook
end PosixHw
