import PosixHw.AddressBook.Bag
import PosixHw.Base.Progress

/-!
# The address books: what a turn of the menu consumes

A turn consumes something if `%d` takes the first byte, or if the operation asks for a token that is
there.  So it does not where the next byte is neither white space nor a sign nor a digit and the
operation that was chosen before asks for nothing, and it does not at the end of the input: only the
choice 5, which is read before, leaves the loop.
-/

namespace PosixHw
namespace AddressBook

open Run Scanf CString
open AddressBook.Array (maxAbonents scanInto scanName)
open Heap (Realloc)

/-- The turn of the menu leaves the loop, or there is something to consume; `adds` says when the
operation `add` leaves the loop or consumes something. -/
def Moves {B : Type*} (adds : Prop) (s : State B) : Prop :=
  Takes s.io.input ∨ s.chosen = 5 ∨ s.chosen = 1 ∧ adds ∨
    (s.chosen = 2 ∨ s.chosen = 3) ∧ s.io.input ≠ []

/-- The array has room for a record, and there is a token. -/
def Array.Moves (s : State Array.Book) (_ : Unit) : Prop :=
  AddressBook.Moves (s.book.count < maxAbonents ∧ s.io.input ≠ []) s

/-- There is a token, or no memory. -/
def Heap.Moves (s : State Heap.Book) (r : Realloc) : Prop :=
  AddressBook.Moves (s.io.input ≠ [] ∨ r.failed = true) s

/-- The input that has not been read. -/
def State.unread {B : Type*} (s : State B) : ℕ := s.io.input.length

/-- What holds of the input after the operation, unless this calls `exit`. -/
def Outcome.All {B : Type*} (p : List UInt8 → Prop) : Outcome B → Prop
  | .back _ io => p io.input
  | .exit _ => True

/-- What the operations consume. -/
structure Consumption {B : Type*} (ops : ExitOps B) (adds : B → List UInt8 → Prop) : Prop where
  add_le : ∀ {b io o}, ops.add b io = some o → o.All fun r => r.length ≤ io.input.length
  add_lt : ∀ {b io o}, ops.add b io = some o →
    (o.All (fun r => r.length < io.input.length) ↔ adds b io.input)
  delete : ∀ {b io o}, ops.delete b io = some o →
    io.input ≠ [] ∧ o.All fun r => r.length < io.input.length
  search : ∀ {b io o}, ops.search b io = some o →
    io.input ≠ [] ∧ o.All fun r => r.length < io.input.length
  print : ∀ {b io o}, ops.print b io = some o → ∃ b' io', o = .back b' io' ∧ io'.input = io.input

section Turn

variable {B : Type*} {ops : ExitOps B} {finish : B → B} {adds : B → List UInt8 → Prop}
  {s t : State B}

theorem running_of_turn (h : turn ops finish s = some t) : s.running = true := by
  by_contra hr
  rw [turn, if_neg hr] at h
  cases h

/-- What the menu does with a choice. -/
inductive Chosen (ops : ExitOps B) (finish : B → B) (book : B) (io : Io) : ℤ → State B → Prop
  | add {o} (h : ops.add book io = some o) : Chosen ops finish book io 1 (o.after book 1)
  | delete {o} (h : ops.delete book io = some o) : Chosen ops finish book io 2 (o.after book 2)
  | search {o} (h : ops.search book io = some o) : Chosen ops finish book io 3 (o.after book 3)
  | print {o} (h : ops.print book io = some o) : Chosen ops finish book io 4 (o.after book 4)
  | exit : Chosen ops finish book io 5 ⟨finish book, 5, io.print bye, false⟩
  | wrong {choice : ℤ} (h : choice ∉ Set.Icc 1 5) :
      Chosen ops finish book io choice ⟨book, choice, io.print wrongChoice, true⟩

theorem choose_cases {book : B} {choice : ℤ} {io : Io}
    (h : ops.choose finish book choice io = some t) : Chosen ops finish book io choice t := by
  unfold ExitOps.choose at h
  split at h
  · obtain ⟨o, ho, rfl⟩ := Option.map_eq_some_iff.1 h
    exact .add ho
  · obtain ⟨o, ho, rfl⟩ := Option.map_eq_some_iff.1 h
    exact .delete ho
  · obtain ⟨o, ho, rfl⟩ := Option.map_eq_some_iff.1 h
    exact .search ho
  · obtain ⟨o, ho, rfl⟩ := Option.map_eq_some_iff.1 h
    exact .print ho
  · cases h
    exact .exit
  · cases h
    -- the default of the `switch`
    refine .wrong fun hmem => ?_
    obtain ⟨hlo, hhi⟩ := hmem
    have hcases : choice = 1 ∨ choice = 2 ∨ choice = 3 ∨ choice = 4 ∨ choice = 5 := by omega
    tauto

theorem consumes_after {book : B} {choice : ℤ} {o : Outcome B} :
    Consumes State.running State.unread s (o.after book choice) ↔
      o.All fun r => r.length < s.io.input.length := by
  cases o with
  | back b io => exact forall_prop_of_true rfl
  | exit io => exact iff_of_true nofun trivial

theorem Outcome.All.mono {p q : List UInt8 → Prop} (h : ∀ r, p r → q r) {o : Outcome B}
    (ho : o.All p) : o.All q := by
  cases o with
  | back b io => exact h _ ho
  | exit io => exact trivial

/-- A turn whose number is read has consumed something, whatever the operation does. -/
theorem consumes_turn_of_takes (hops : Consumption ops adds) (h : turn ops finish s = some t)
    (htakes : Takes s.io.input) : Consumes State.running State.unread s t := by
  have hlt : s.ready.input.length < s.io.input.length := length_scanInt_lt htakes
  have hr := running_of_turn h
  rw [turn, if_pos hr] at h
  have hcases := choose_cases h
  generalize s.chosen = choice at hcases
  cases hcases with
  | add ho => exact consumes_after.2 ((hops.add_le ho).mono fun _ hle => hle.trans_lt hlt)
  | delete ho => exact consumes_after.2 ((hops.delete ho).2.mono fun _ hle => hle.trans hlt)
  | search ho => exact consumes_after.2 ((hops.search ho).2.mono fun _ hle => hle.trans hlt)
  | print ho =>
    obtain ⟨b', io', rfl, hio⟩ := hops.print ho
    refine consumes_after.2 ?_
    show io'.input.length < _
    rwa [hio]
  | exit => exact nofun
  | wrong => exact fun _ => hlt

/-- **When a turn leaves the loop or consumes something.** -/
theorem consumes_turn_iff (hops : Consumption ops adds) (h : turn ops finish s = some t) :
    Consumes State.running State.unread s t ↔ Moves (adds s.book s.io.input) s := by
  by_cases htakes : Takes s.io.input
  · exact iff_of_true (consumes_turn_of_takes hops h htakes) (.inl htakes)
  -- without a number the choice is the old one, and nothing has been read
  have hready : s.ready.input = s.io.input := by
    rw [State.ready, scanInt_eq htakes]
  have hr := running_of_turn h
  rw [turn, if_pos hr] at h
  have hcases := choose_cases h
  rw [Moves]
  generalize s.chosen = choice at hcases
  cases hcases with
  | add ho =>
    rw [consumes_after, ← hready, hops.add_lt ho, hready]
    simp [htakes]
  | delete ho =>
    obtain ⟨hne, hlt⟩ := hops.delete ho
    rw [hready] at hne hlt
    simp [consumes_after, hlt, hne]
  | search ho =>
    obtain ⟨hne, hlt⟩ := hops.search ho
    rw [hready] at hne hlt
    simp [consumes_after, hlt, hne]
  | print ho =>
    obtain ⟨b', io', rfl, hio⟩ := hops.print ho
    refine iff_of_false (fun hlt => ?_) (by simp [htakes])
    have hlt : io'.input.length < s.io.input.length := consumes_after.1 hlt
    rw [hio, hready] at hlt
    exact lt_irrefl _ hlt
  | exit => exact iff_of_true (fun hrunning => by cases hrunning) (by simp)
  | wrong hmem =>
    refine iff_of_false (fun hlt => ?_) fun hmoves => ?_
    · have hlt : s.ready.input.length < s.io.input.length := hlt rfl
      rw [hready] at hlt
      exact lt_irrefl _ hlt
    · rcases hmoves with hmoves | rfl | ⟨rfl, -⟩ | ⟨rfl | rfl, -⟩
      · exact htakes hmoves
      all_goals exact hmem (by decide)

end Turn

/-! ### What the operations consume -/

theorem print_input (io : Io) (o : Out) : (io.print o).input = io.input := rfl

theorem scanInto_input {m m' : Mem} {p : ℕ} {io io' : Io}
    (h : scanInto m p io = some (m', io')) : io'.input = (scanStr io.input).2 := by
  rw [scanInto] at h
  split_ifs at h
  · cases h
    rfl
  · obtain ⟨m₁, -, he⟩ := Option.map_eq_some_iff.1 h
    cases he
    rfl

theorem scanName_input {io io' : Io} {w : List UInt8} (h : scanName io = some (w, io')) :
    io.input ≠ [] ∧ io'.input.length < io.input.length := by
  rw [scanName] at h
  split_ifs at h with hw
  cases h
  have hne : io.input ≠ [] := by
    intro hnil
    rw [hnil, scanStr_nil] at hw
    exact hw (.inl rfl)
  exact ⟨hne, length_scanStr_lt_iff.2 hne⟩

/-- Three tokens. -/
theorem length_scanStr_record (input : List UInt8) :
    (scanStr (scanStr (scanStr input).2).2).2.length ≤ input.length ∧
    ((scanStr (scanStr (scanStr input).2).2).2.length < input.length ↔ input ≠ []) := by
  have h₁ := length_scanStr_le input
  have h₂ := length_scanStr_le (scanStr input).2
  have h₃ := length_scanStr_le (scanStr (scanStr input).2).2
  refine ⟨by omega, fun hlt hnil => ?_, fun hne => ?_⟩
  · rw [hnil] at hlt
    exact Nat.not_lt_zero _ hlt
  · have hlt := length_scanStr_lt_iff.2 hne
    omega

namespace Array

theorem deleteLoop_input {b b' : Book} {name : List UInt8} {io io' : Io} {k i : ℕ}
    (h : deleteLoop b name io k i = some (b', io')) : io'.input = io.input := by
  induction k generalizing i with
  | zero =>
    cases h
    rfl
  | succ k ih =>
    rw [deleteLoop] at h
    split_ifs at h
    · obtain ⟨m, -, h⟩ := Option.bind_eq_some_iff.1 h
      obtain ⟨m', -, he⟩ := Option.map_eq_some_iff.1 h
      cases he
      rfl
    · exact ih h

theorem searchLoop_input (m : Mem) (name : List UInt8) (k i : ℕ) (io : Io) :
    (searchLoop m name k i io).input = io.input := by
  induction k generalizing i io with
  | zero => rfl
  | succ k ih =>
    rw [searchLoop, ih]
    split_ifs <;> rfl

theorem printLoop_input (m : Mem) (k i : ℕ) (io : Io) :
    (printLoop m k i io).input = io.input := by
  induction k generalizing i io with
  | zero => rfl
  | succ k ih =>
    rw [printLoop, ih]
    rfl

theorem add_input {b b' : Book} {io io' : Io} (h : add b io = some (b', io')) :
    io'.input = if b.count < maxAbonents
      then (scanStr (scanStr (scanStr io.input).2).2).2 else io.input := by
  rw [add] at h
  split_ifs at h with hfull
  · cases h
    rw [if_neg (Nat.not_lt.2 hfull)]
    rfl
  · obtain ⟨⟨m₁, io₁⟩, h₁, h⟩ := Option.bind_eq_some_iff.1 h
    obtain ⟨⟨m₂, io₂⟩, h₂, h⟩ := Option.bind_eq_some_iff.1 h
    obtain ⟨⟨m₃, io₃⟩, h₃, he⟩ := Option.map_eq_some_iff.1 h
    cases he
    have e₁ := scanInto_input h₁
    have e₂ := scanInto_input h₂
    have e₃ := scanInto_input h₃
    rw [print_input] at e₁ e₂ e₃
    rw [if_pos (Nat.lt_of_not_le hfull), e₃, e₂, e₁]

theorem consumption : Consumption ops.withoutExit
    fun b input => b.count < maxAbonents ∧ input ≠ [] where
  add_le := by
    intro b io o h
    obtain ⟨⟨b', io'⟩, hadd, rfl⟩ := Option.map_eq_some_iff.1 h
    have hio := add_input hadd
    show io'.input.length ≤ _
    split_ifs at hio
    · exact hio ▸ (length_scanStr_record io.input).1
    · exact hio ▸ le_rfl
  add_lt := by
    intro b io o h
    obtain ⟨⟨b', io'⟩, hadd, rfl⟩ := Option.map_eq_some_iff.1 h
    have hio := add_input hadd
    show io'.input.length < _ ↔ _
    split_ifs at hio with hroom
    · rw [hio, (length_scanStr_record io.input).2, and_iff_right hroom]
    · rw [hio]
      exact iff_of_false (lt_irrefl _) fun hh => hroom hh.1
  delete := by
    intro b io o h
    obtain ⟨⟨b', io'⟩, hdelete, rfl⟩ := Option.map_eq_some_iff.1 h
    obtain ⟨⟨name, io₁⟩, hname, hloop⟩ := Option.bind_eq_some_iff.1 hdelete
    obtain ⟨hne, hlt⟩ := scanName_input hname
    refine ⟨hne, ?_⟩
    show io'.input.length < _
    rw [deleteLoop_input hloop]
    exact hlt
  search := by
    intro b io o h
    obtain ⟨⟨b', io'⟩, hsearch, rfl⟩ := Option.map_eq_some_iff.1 h
    obtain ⟨⟨name, io₁⟩, hname, he⟩ := Option.map_eq_some_iff.1 hsearch
    obtain ⟨hne, hlt⟩ := scanName_input hname
    cases he
    refine ⟨hne, ?_⟩
    show (searchLoop _ _ _ _ io₁).input.length < _
    rw [searchLoop_input]
    exact hlt
  print := by
    intro b io o h
    cases h
    exact ⟨_, _, rfl, printLoop_input _ _ _ _⟩

end Array

namespace Heap

theorem deleteAt_input {r : Realloc} {b : Book} {i : ℕ} {io : Io} {o : Outcome Book}
    (h : deleteAt r b i io = some o) : o.All fun input => input = io.input := by
  obtain ⟨m, -, h⟩ := Option.bind_eq_some_iff.1 h
  obtain ⟨last, -, h⟩ := Option.bind_eq_some_iff.1 h
  obtain ⟨m', -, h⟩ := Option.map_eq_some_iff.1 h
  split at h
  · split_ifs at h
    · cases h
      exact trivial
    · cases h
      exact rfl
  · cases h
    exact rfl

theorem deleteLoop_input {r : Realloc} {b : Book} {name : List UInt8} {io : Io} {k i : ℕ}
    {o : Outcome Book} (h : deleteLoop r b name io k i = some o) :
    o.All fun input => input = io.input := by
  induction k generalizing i with
  | zero =>
    cases h
    exact rfl
  | succ k ih =>
    obtain ⟨w, -, h⟩ := Option.bind_eq_some_iff.1 h
    split_ifs at h
    · exact deleteAt_input h
    · exact ih h

theorem printRecord_input {list : Option Mem} {i : ℕ} {io io' : Io}
    (h : printRecord list i io = some io') : io'.input = io.input := by
  obtain ⟨name, -, h⟩ := Option.bind_eq_some_iff.1 h
  obtain ⟨secondName, -, h⟩ := Option.bind_eq_some_iff.1 h
  obtain ⟨tel, -, rfl⟩ := Option.map_eq_some_iff.1 h
  rfl

theorem searchLoop_input {list : Option Mem} {name : List UInt8} {k i : ℕ} {io io' : Io}
    (h : searchLoop list name k i io = some io') : io'.input = io.input := by
  induction k generalizing i io with
  | zero =>
    cases h
    rfl
  | succ k ih =>
    obtain ⟨w, -, h⟩ := Option.bind_eq_some_iff.1 h
    obtain ⟨io₁, hprint, h⟩ := Option.bind_eq_some_iff.1 h
    rw [ih h]
    split_ifs at hprint
    · exact printRecord_input hprint
    · cases hprint
      rfl

theorem printLoop_input {list : Option Mem} {k i : ℕ} {io io' : Io}
    (h : printLoop list k i io = some io') : io'.input = io.input := by
  induction k generalizing i io with
  | zero =>
    cases h
    rfl
  | succ k ih =>
    obtain ⟨io₁, hprint, h⟩ := Option.bind_eq_some_iff.1 h
    rw [ih h, printRecord_input hprint]

theorem realloc_eq_none_iff (list : Option Mem) (n : ℕ) {r : Realloc} :
    realloc list n r = none ↔ r.failed = true := by
  cases r with
  | block fresh => exact iff_of_false (Option.some_ne_none _) nofun
  | null => exact iff_of_true rfl rfl

theorem add_input {r : Realloc} {b : Book} {io : Io} {o : Outcome Book}
    (h : add r b io = some o) :
    r.failed = true ∧ o = .exit (io.print noMemory) ∨
    r.failed = false ∧ ∃ b' io', o = .back b' io' ∧
      io'.input = (scanStr (scanStr (scanStr io.input).2).2).2 := by
  rw [add] at h
  split at h
  · rename_i hnone
    cases h
    exact .inl ⟨(realloc_eq_none_iff _ _).1 hnone, rfl⟩
  · rename_i m hm
    have hr : r.failed = false := by
      rw [← Bool.not_eq_true, ← realloc_eq_none_iff b.list, hm]
      exact Option.some_ne_none _
    obtain ⟨⟨m₁, io₁⟩, h₁, h⟩ := Option.bind_eq_some_iff.1 h
    obtain ⟨⟨m₂, io₂⟩, h₂, h⟩ := Option.bind_eq_some_iff.1 h
    obtain ⟨⟨m₃, io₃⟩, h₃, rfl⟩ := Option.map_eq_some_iff.1 h
    have e₁ := scanInto_input h₁
    have e₂ := scanInto_input h₂
    have e₃ := scanInto_input h₃
    rw [print_input] at e₁ e₂ e₃
    exact .inr ⟨hr, _, io₃, rfl, by rw [e₃, e₂, e₁]⟩

theorem consumption (r : Realloc) :
    Consumption (ops r) fun _ input => input ≠ [] ∨ r.failed = true where
  add_le := by
    intro b io o h
    rcases add_input h with ⟨-, rfl⟩ | ⟨-, b', io', rfl, hio⟩
    · exact trivial
    · show io'.input.length ≤ _
      exact hio ▸ (length_scanStr_record io.input).1
  add_lt := by
    intro b io o h
    rcases add_input h with ⟨hr, rfl⟩ | ⟨hr, b', io', rfl, hio⟩
    · exact iff_of_true trivial (.inr hr)
    · show io'.input.length < _ ↔ _
      rw [hio, (length_scanStr_record io.input).2, hr]
      simp
  delete := by
    intro b io o h
    obtain ⟨⟨name, io₁⟩, hname, hloop⟩ := Option.bind_eq_some_iff.1 h
    obtain ⟨hne, hlt⟩ := scanName_input hname
    exact ⟨hne, (deleteLoop_input hloop).mono fun _ he => he ▸ hlt⟩
  search := by
    intro b io o h
    obtain ⟨⟨name, io₁⟩, hname, h⟩ := Option.bind_eq_some_iff.1 h
    obtain ⟨io', hloop, rfl⟩ := Option.map_eq_some_iff.1 h
    obtain ⟨hne, hlt⟩ := scanName_input hname
    refine ⟨hne, ?_⟩
    show io'.input.length < _
    rw [searchLoop_input hloop]
    exact hlt
  print := by
    intro b io o h
    obtain ⟨io', hloop, rfl⟩ := Option.map_eq_some_iff.1 h
    exact ⟨_, io', rfl, printLoop_input hloop⟩

end Heap

end AddressBook
end PosixHw
