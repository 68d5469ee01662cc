import PosixHw.AddressBook.Progress
import PosixHw.Calculator.Basic

/-!
# Menus and their input

A turn of a calculator consumes something exactly if `%d` takes the first byte.  Otherwise all three
conversions fail at that byte, or at the end of the input, and the turn is made with the variables
as they are.

`menus_progress_iff` puts the calculators and the address books together.  In a session in which all
turns make progress there are not more turns than bytes, and one (`Progress.length_le`).
-/

namespace PosixHw

open Run Scanf

namespace Calculator

/-- The input that has not been read. -/
def State.unread (s : State) : ℕ := s.input.length

/-- The turn leaves the loop, or there is something to consume. -/
def Moves (s : State) (_ : Unit) : Prop := Takes s.input ∨ s.chosen = 5

instance (s : State) (u : Unit) : Decidable (Moves s u) := inferInstanceAs (Decidable (_ ∨ _))

theorem consumes_step_iff {s t : State} {u : Unit} (h : step s u = some t) :
    Consumes State.running State.unread s t ↔ Moves s u := by
  rcases step_cases h with ⟨h5, ht⟩ | ⟨h5, ht, hinput⟩
  · refine iff_of_true (fun hrun => ?_) (.inr h5)
    rw [ht] at hrun
    cases hrun
  · rw [Consumes, forall_prop_of_true ht, Moves, or_iff_left h5, State.unread, State.unread, hinput]
    by_cases htakes : Takes s.input
    · exact iff_of_true ((length_scanTwo_le _ _ _).trans_lt (length_scanInt_lt htakes)) htakes
    · have hrest : (scanInt s.input).2 = s.input := by rw [scanInt_eq htakes]
      rw [hrest, scanTwo_eq htakes]
      exact iff_of_false (lt_irrefl _) htakes

end Calculator

namespace AddressBook

open AddressBook.Heap (Realloc)

instance (s : State Array.Book) (u : Unit) : Decidable (Array.Moves s u) :=
  inferInstanceAs (Decidable (_ ∨ _ ∨ _ ∨ _))

instance (s : State Heap.Book) (r : Realloc) : Decidable (Heap.Moves s r) :=
  inferInstanceAs (Decidable (_ ∨ _ ∨ _ ∨ _))

theorem Array.consumes_step_iff {s t : State Array.Book} {u : Unit}
    (h : step Array.ops s u = some t) :
    Consumes State.running State.unread s t ↔ Array.Moves s u := by
  rw [step_eq_turn] at h
  exact consumes_turn_iff Array.consumption h

theorem Heap.consumes_step_iff {s t : State Heap.Book} {r : Realloc}
    (h : Heap.step s r = some t) :
    Consumes State.running State.unread s t ↔ Heap.Moves s r :=
  consumes_turn_iff (Heap.consumption r) h

end AddressBook

/-- **When the menus make progress.** In every session of one of the four programs, all turns leave
the loop or consume something exactly if all begin where there is something to consume, or choose 5;
and then there is at most one turn more than there are bytes. -/
theorem menus_progress_iff (choice a b : ℤ) (loaded : Bool) (input : List UInt8) :
    ProgressIff (AddressBook.step AddressBook.Array.ops) AddressBook.State.running
        AddressBook.State.unread AddressBook.Array.Moves
        (AddressBook.start AddressBook.Array.empty choice input) ∧
      ProgressIff AddressBook.Heap.step AddressBook.State.running AddressBook.State.unread
        AddressBook.Heap.Moves (AddressBook.start AddressBook.Heap.empty choice input) ∧
      ProgressIff Calculator.step Calculator.State.running Calculator.State.unread Calculator.Moves
        (Calculator.start choice a b input) ∧
      ProgressIff Calculator.step Calculator.State.running Calculator.State.unread Calculator.Moves
        (Calculator.dynamicStart loaded choice a b input) := by
  have hcalculator : ∀ s, ProgressIff Calculator.step Calculator.State.running
      Calculator.State.unread Calculator.Moves s := by
    refine progressIff_of_step (fun s u t h => ?_) fun s u t h => ?_
    · exact Calculator.running_of_step h
    · exact Calculator.consumes_step_iff h
  refine ⟨?_, ?_, hcalculator _, hcalculator _⟩
  · refine progressIff_of_step (fun s u t h => ?_) (fun s u t h => ?_) _
    · rw [AddressBook.step_eq_turn] at h
      exact AddressBook.running_of_turn h
    · exact AddressBook.Array.consumes_step_iff h
  · refine progressIff_of_step (fun s r t h => ?_) (fun s r t h => ?_) _
    · exact AddressBook.running_of_turn h
    · exact AddressBook.Heap.consumes_step_iff h

/-- A session of the array ends: `1 a b c 5`. -/
example : Along (AddressBook.step AddressBook.Array.ops) AddressBook.Array.Moves
    (AddressBook.start AddressBook.Array.empty 0 "1 a b c 5\n".toUTF8.data.toList) [(), ()] := by
  decide +kernel

/-! ### The end of the input -/

namespace AddressBook

open AddressBook.Heap (Realloc)

/-- The book is printed again and again. -/
structure Printing {B : Type*} (empty : B) (s : State B) : Prop where
  running : s.running = true
  book : s.book = empty
  chosen : s.chosen = 4
  rest : s.ready.input = []

theorem printing_start {B : Type*} (empty : B) (choice : ℤ) :
    Printing empty (start empty choice "4".toUTF8.data.toList) := ⟨rfl, rfl, rfl, rfl⟩

theorem Printing.turn {B : Type*} {empty : B} {s : State B} (ops : ExitOps B) (finish : B → B)
    (h : Printing empty s) (hprint : ∀ io, ops.print empty io = some (.back empty io)) :
    ∃ t, turn ops finish s = some t ∧ Printing empty t := by
  refine ⟨⟨empty, 4, s.ready, true⟩, ?_, rfl, rfl, ?_, ?_⟩
  · rw [AddressBook.turn, if_pos h.running, h.chosen]
    show (ops.print s.book s.ready).map _ = _
    rw [h.book, hprint]
    rfl
  · rw [State.chosen, h.rest]
    rfl
  · show (scanInt s.ready.input).2 = []
    rw [h.rest]
    rfl

end AddressBook

namespace Calculator

/-- The same sum is computed again and again. -/
structure Adding (s : State) : Prop where
  running : s.running = true
  chosen : s.chosen = 1
  rest : scanTwo s.a s.b (scanInt s.input).2 = (2, 3, [])

theorem Adding.step {s : State} (h : Adding s) : ∃ t, step s () = some t ∧ Adding t := by
  refine ⟨⟨1, 2, 3, [], s.out ++ [menu, ask, .result 5], true⟩, ?_, rfl, rfl, rfl⟩
  rw [Calculator.step, if_pos h.running, h.chosen, h.rest]
  rfl

theorem adding_start (choice a b : ℤ) :
    Adding (start choice a b "1 2 3".toUTF8.data.toList) := by
  have h₁ : scanInt "1 2 3".toUTF8.data.toList = (some 1, " 2 3".toUTF8.data.toList) := by
    decide +kernel
  have h₂ : scanInt " 2 3".toUTF8.data.toList = (some 2, " 3".toUTF8.data.toList) := by
    decide +kernel
  have h₃ : scanInt " 3".toUTF8.data.toList = (some 3, []) := by
    decide +kernel
  refine ⟨rfl, ?_, ?_⟩
  · rw [State.chosen, start, h₁]
    rfl
  · rw [start, h₁, scanTwo, h₂]
    simp only [h₃]
    rfl

end Calculator

/-- At the end of the input nothing stops the menus: after `4` the address books print for ever, and
after `1 2 3` the calculators add. -/
theorem menus_endless :
    (∀ choice n, ∃ us t, run (AddressBook.step AddressBook.Array.ops)
        (AddressBook.start AddressBook.Array.empty choice "4".toUTF8.data.toList) us = some t ∧
      us.length = n ∧ t.running = true) ∧
    (∀ choice n, ∃ rs t, run AddressBook.Heap.step
        (AddressBook.start AddressBook.Heap.empty choice "4".toUTF8.data.toList) rs = some t ∧
      rs.length = n ∧ t.running = true) ∧
    ∀ choice a b n, ∃ us t, run Calculator.step
        (Calculator.start choice a b "1 2 3".toUTF8.data.toList) us = some t ∧
      us.length = n ∧ t.running = true := by
  refine ⟨fun choice n => ?_, fun choice n => ?_, fun choice a b n => ?_⟩
  · have hstep : ∀ s, AddressBook.Printing AddressBook.Array.empty s → ∃ u t,
        AddressBook.step AddressBook.Array.ops s u = some t ∧
          AddressBook.Printing AddressBook.Array.empty t := by
      intro s hs
      obtain ⟨t, ht, hI⟩ := hs.turn AddressBook.Array.ops.withoutExit id fun io => rfl
      exact ⟨(), t, (AddressBook.step_eq_turn _ _ _).trans ht, hI⟩
    obtain ⟨us, t, ht, hlen, hI⟩ :=
      exists_run_of_endless hstep (AddressBook.printing_start _ choice) n
    exact ⟨us, t, ht, hlen, hI.running⟩
  · have hstep : ∀ s, AddressBook.Printing AddressBook.Heap.empty s → ∃ r t,
        AddressBook.Heap.step s r = some t ∧ AddressBook.Printing AddressBook.Heap.empty t :=
      fun s hs => ⟨.null, hs.turn _ _ fun io => rfl⟩
    obtain ⟨rs, t, ht, hlen, hI⟩ :=
      exists_run_of_endless hstep (AddressBook.printing_start _ choice) n
    exact ⟨rs, t, ht, hlen, hI.running⟩
  · obtain ⟨us, t, ht, hlen, hI⟩ := exists_run_of_endless
      (fun s (hs : Calculator.Adding s) => ⟨(), hs.step⟩)
      (Calculator.adding_start choice a b) n
    exact ⟨us, t, ht, hlen, hI.running⟩

end PosixHw
