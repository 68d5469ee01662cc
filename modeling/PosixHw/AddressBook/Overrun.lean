import PosixHw.AddressBook.Agreement

/-!
# The address books and long tokens

Nothing bounds what `scanf("%s", ..)` stores.  `Short` is the condition under which a turn stores no
byte too many: every token that it asks for is there and has at most 9 bytes.

* A turn that is `Short` is defined in both programs, and in the directory and the bag that they are
  compared with (`directory_defined`, `bag_defined`).
* An addition then stays inside its record (`add_frame`).
* `sessions_short` is about whole sessions, `phone_overrun` shows what a token of 10 bytes does.
-/

namespace PosixHw
namespace AddressBook

open Run Scanf CString
open AddressBook.Array (maxAbonents nameAt secondNameAt telAt scanInto token_eq_some full)
open Heap (Realloc bag)

/-- The next `n` tokens of the input. -/
def tokens : ℕ → List UInt8 → List (List UInt8)
  | 0, _ => []
  | n + 1, input => (scanStr input).1 :: tokens n (scanStr input).2

/-- The next `n` tokens are there and have at most 9 bytes. -/
def Fit (n : ℕ) (io : Io) : Prop := ∀ w ∈ tokens n io.input, w ≠ [] ∧ w.length < nameLen

/-- The menu is shown, and the operation that is chosen asks for short tokens only. -/
def Array.Short (s : State Array.Book) (_ : Unit) : Prop :=
  s.running = true ∧
  (s.chosen = 1 → s.book.count < maxAbonents → Fit 3 s.ready) ∧
  (s.chosen = 2 ∨ s.chosen = 3 → Fit 1 s.ready)

/-- The same for the book on the heap, which asks for nothing if it gets no memory. -/
def Heap.Short (s : State Heap.Book) (r : Realloc) : Prop :=
  s.running = true ∧
  (s.chosen = 1 → r.failed = false → Fit 3 s.ready) ∧
  (s.chosen = 2 ∨ s.chosen = 3 → Fit 1 s.ready)

instance (n : ℕ) (io : Io) : Decidable (Fit n io) :=
  inferInstanceAs (Decidable (∀ w ∈ tokens n io.input, w ≠ [] ∧ w.length < nameLen))

instance (s : State Array.Book) (u : Unit) : Decidable (Array.Short s u) :=
  inferInstanceAs (Decidable (_ ∧ _ ∧ _))

instance (s : State Heap.Book) (r : Realloc) : Decidable (Heap.Short s r) :=
  inferInstanceAs (Decidable (_ ∧ _ ∧ _))

/-! ### Short tokens are accepted -/

theorem Fit.token {n : ℕ} {io : Io} (h : Fit (n + 1) io) :
    ∃ x, token io = some x ∧ Fit n x.2 := by
  have hw := h (scanStr io.input).1 (by simp [tokens])
  refine ⟨_, token_eq_some.2 ⟨rfl, hw, rfl⟩, fun w hmem => h w ?_⟩
  rw [tokens]
  exact List.mem_cons_of_mem _ hmem

theorem append_defined {l : List Record} {io : Io} (h : Fit 3 io) : ∃ x, append l io = some x := by
  have hname : Fit 3 (io.print askName) := h
  obtain ⟨⟨name, io₁⟩, hname, h₁⟩ := hname.token
  have hsecond : Fit 2 (io₁.print askSecondName) := h₁
  obtain ⟨⟨secondName, io₂⟩, hsecond, h₂⟩ := hsecond.token
  have htel : Fit 1 (io₂.print askTel) := h₂
  obtain ⟨⟨tel, io₃⟩, htel, -⟩ := htel.token
  exact ⟨(l ++ [⟨name, secondName, tel⟩], io₃), by
    simp only [append, hname, hsecond, htel, Option.bind_some, Option.map_some]⟩

theorem remove_defined {l : List Record} {io : Io} (h : Fit 1 io) : ∃ x, remove l io = some x := by
  have hname : Fit 1 (io.print askDelete) := h
  obtain ⟨x, hx, -⟩ := hname.token
  exact ⟨_, by rw [remove, hx, Option.map_some]⟩

theorem find_defined {l : List Record} {io : Io} (h : Fit 1 io) : ∃ x, find l io = some x := by
  have hname : Fit 1 (io.print askSearch) := h
  obtain ⟨x, hx, -⟩ := hname.token
  exact ⟨_, by rw [find, hx, Option.map_some]⟩

/-- A turn is defined if the operation that is chosen is. -/
theorem turn_defined {B : Type*} {ops : ExitOps B} {finish : B → B} {s : State B}
    (hr : s.running = true) (hadd : s.chosen = 1 → ∃ o, ops.add s.book s.ready = some o)
    (hdelete : s.chosen = 2 → ∃ o, ops.delete s.book s.ready = some o)
    (hsearch : s.chosen = 3 → ∃ o, ops.search s.book s.ready = some o)
    (hprint : s.chosen = 4 → ∃ o, ops.print s.book s.ready = some o) :
    ∃ t, turn ops finish s = some t := by
  have hafter : ∀ {p : Option (Outcome B)}, (∃ o, p = some o) →
      ∃ t, p.map (Outcome.after s.book s.chosen) = some t := by
    rintro p ⟨o, rfl⟩
    exact ⟨_, rfl⟩
  unfold turn ExitOps.choose
  rw [if_pos hr]
  split
  · exact hafter (hadd ‹_›)
  · exact hafter (hdelete ‹_›)
  · exact hafter (hsearch ‹_›)
  · exact hafter (hprint ‹_›)
  · exact ⟨_, rfl⟩
  · exact ⟨_, rfl⟩

/-- The directory accepts a short turn of the array. -/
theorem directory_defined {s : State Array.Book} {r : State (List Record)}
    (h : Related Array.Holds r s) (hs : Array.Short s ()) :
    ∃ r', step (directory maxAbonents full) r () = some r' := by
  obtain ⟨hbook, hchoice, hio, hrun⟩ := h
  obtain ⟨hr, hadd, hquery⟩ := hs
  have hchosen : s.chosen = r.chosen := by rw [State.chosen, State.chosen, hio, hchoice]
  have hready : s.ready = r.ready := by rw [State.ready, State.ready, hio]
  rw [hchosen, hready] at hadd hquery
  have hback : ∀ {p : Option (List Record × Io)}, (∃ x, p = some x) →
      ∃ o, p.map (fun x => Outcome.back x.1 x.2) = some o := by
    rintro p ⟨x, rfl⟩
    exact ⟨_, rfl⟩
  rw [step_eq_turn]
  refine turn_defined (hrun ▸ hr) (fun h1 => hback ?_) (fun h2 => hback ?_) (fun h3 => hback ?_)
    fun h4 => ⟨_, rfl⟩
  · unfold directory
    dsimp only
    split_ifs with hfull
    · exact ⟨_, rfl⟩
    · exact append_defined (hadd h1 (by rw [hbook.count]; omega))
  · exact remove_defined (hquery (.inl h2))
  · exact find_defined (hquery (.inr h3))

/-- The bag accepts a short turn of the heap. -/
theorem bag_defined {s : State Heap.Book} {t : State (List Record)} {r : Realloc}
    (h : RelatedWhile Heap.Holds t s) (hs : Heap.Short s r) : ∃ t', Heap.bagStep t r = some t' := by
  obtain ⟨-, hchoice, hio, hrun⟩ := h
  obtain ⟨hr, hadd, hquery⟩ := hs
  have hchosen : s.chosen = t.chosen := by rw [State.chosen, State.chosen, hio, hchoice]
  have hready : s.ready = t.ready := by rw [State.ready, State.ready, hio]
  rw [hchosen, hready] at hadd hquery
  have hback : ∀ {α β : Type _} {p : Option α} {f : α → β}, (∃ x, p = some x) →
      ∃ o, p.map f = some o := by
    rintro α β p f ⟨x, rfl⟩
    exact ⟨_, rfl⟩
  refine turn_defined (hrun ▸ hr) (fun h1 => ?_) (fun h2 => ?_) (fun h3 => ?_) fun h4 => ⟨_, rfl⟩
  · unfold bag Heap.insert
    dsimp only
    split_ifs with hfail
    · exact ⟨_, rfl⟩
    · exact hback (append_defined (hadd h1 (Bool.eq_false_iff.2 hfail)))
  · have hname : Fit 1 (t.ready.print askDelete) := hquery (.inl h2)
    obtain ⟨x, hx, -⟩ := hname.token
    exact hback ⟨x, hx⟩
  · exact hback (find_defined (hquery (.inr h3)))

/-! ### An addition stays inside its record -/

/-- A short token changes no byte outside of its field. -/
theorem scanInto_frame {m m' : Mem} {p q n : ℕ} {io io' : Io} (hfit : Fit (n + 1) io)
    (h : scanInto m p io = some (m', io')) (hq : q < p ∨ p + nameLen ≤ q) :
    m'[q]? = m[q]? ∧ Fit n io' := by
  obtain ⟨⟨w, io₁⟩, hx, hrest⟩ := hfit.token
  obtain ⟨hw, ⟨hne, hlt⟩, hio⟩ := token_eq_some.1 hx
  unfold scanInto at h
  dsimp only at h
  rw [hw, if_neg hne] at h
  obtain ⟨m₁, hm₁, h⟩ := Option.map_eq_some_iff.1 h
  cases h
  refine ⟨write_frame hm₁ ?_, hio ▸ hrest⟩
  rw [List.length_append, List.length_singleton]
  omega

/-- The three tokens of a record change no byte outside of it. -/
theorem scanRecord_frame {m m₁ m₂ m₃ : Mem} {i q : ℕ} {io io₁ io₂ io₃ : Io} (hfit : Fit 3 io)
    (h₁ : scanInto m (nameAt i) (io.print askName) = some (m₁, io₁))
    (h₂ : scanInto m₁ (secondNameAt i) (io₁.print askSecondName) = some (m₂, io₂))
    (h₃ : scanInto m₂ (telAt i) (io₂.print askTel) = some (m₃, io₃))
    (hq : q < nameAt i ∨ nameAt (i + 1) ≤ q) : m₃[q]? = m[q]? := by
  have hnext : nameAt (i + 1) = nameAt i + 3 * nameLen := Nat.mul_succ _ _
  have hsecond : secondNameAt i = nameAt i + nameLen := rfl
  have htel : telAt i = nameAt i + 2 * nameLen := rfl
  have hfit' : Fit 3 (io.print askName) := hfit
  obtain ⟨e₁, f₁⟩ := scanInto_frame hfit' h₁ (by omega : q < _ ∨ _ ≤ q)
  have f₁' : Fit 2 (io₁.print askSecondName) := f₁
  obtain ⟨e₂, f₂⟩ := scanInto_frame f₁' h₂ (by omega : q < _ ∨ _ ≤ q)
  have f₂' : Fit 1 (io₂.print askTel) := f₂
  obtain ⟨e₃, -⟩ := scanInto_frame f₂' h₃ (by omega : q < _ ∨ _ ≤ q)
  rw [e₃, e₂, e₁]

/-- A turn in which the first operation is chosen. -/
theorem turn_add {B : Type*} {ops : ExitOps B} {finish : B → B} {s : State B}
    (hr : s.running = true) (h1 : s.chosen = 1) :
    turn ops finish s = (ops.add s.book s.ready).map (Outcome.after s.book s.chosen) := by
  unfold turn ExitOps.choose
  simp only [hr, h1, if_true]

/-- An addition to the array changes only the place of the new record. -/
theorem Array.add_frame {s s' : State Array.Book} (hs : Array.Short s ())
    (h : step Array.ops s () = some s') (h1 : s.chosen = 1) {q : ℕ}
    (hq : q < nameAt s.book.count ∨ nameAt (s.book.count + 1) ≤ q) :
    s'.book.list[q]? = s.book.list[q]? := by
  rw [step_eq_turn, turn_add hs.1 h1] at h
  obtain ⟨o, ho, rfl⟩ := Option.map_eq_some_iff.1 h
  obtain ⟨⟨b', io'⟩, hadd, rfl⟩ := Option.map_eq_some_iff.1 ho
  unfold Array.ops Array.add at hadd
  dsimp only at hadd
  split_ifs at hadd with hfull
  · cases hadd
    rfl
  · obtain ⟨⟨m₁, io₁⟩, h₁, hadd⟩ := Option.bind_eq_some_iff.1 hadd
    obtain ⟨⟨m₂, io₂⟩, h₂, hadd⟩ := Option.bind_eq_some_iff.1 hadd
    obtain ⟨⟨m₃, io₃⟩, h₃, hadd⟩ := Option.map_eq_some_iff.1 hadd
    cases hadd
    exact scanRecord_frame (hs.2.1 h1 (Nat.not_le.1 hfull)) h₁ h₂ h₃ hq

/-- An addition on the heap changes no byte of the earlier records. -/
theorem Heap.add_frame {l : List Record} {s s' : State Heap.Book} {r : Realloc}
    (hb : Heap.Holds l s.book) (hs : Heap.Short s r) (h : Heap.step s r = some s')
    (h1 : s.chosen = 1) {q : ℕ} (hq : q < nameAt s.book.count) :
    (s'.book.list.getD [])[q]? = (s.book.list.getD [])[q]? := by
  unfold Heap.step at h
  rw [turn_add hs.1 h1] at h
  obtain ⟨o, ho, rfl⟩ := Option.map_eq_some_iff.1 h
  unfold Heap.ops Heap.add at ho
  dsimp only at ho
  cases r with
  | null =>
    cases ho
    rfl
  | block fresh =>
    obtain ⟨cs, -, hstores⟩ := hb
    obtain ⟨f, g, e, -, -, -, hgrow⟩ := Heap.realloc_grow hstores fresh
    rw [hgrow] at ho
    dsimp only at ho
    obtain ⟨⟨m₁, io₁⟩, h₁, ho⟩ := Option.bind_eq_some_iff.1 ho
    obtain ⟨⟨m₂, io₂⟩, h₂, ho⟩ := Option.bind_eq_some_iff.1 ho
    obtain ⟨⟨m₃, io₃⟩, h₃, ho⟩ := Option.map_eq_some_iff.1 ho
    cases ho
    have hframe := scanRecord_frame (hs.2.1 h1 rfl) h₁ h₂ h₃ (.inl hq)
    have hlen : q < (cs.flatMap Heap.Cell.bytes).length := by
      rw [Heap.length_cells, ← hstores.count]
      exact hq
    rw [hstores.list]
    simp only [List.append_assoc, List.getElem?_append_left hlen] at hframe
    exact hframe

/-! ### Sessions -/

/-- **Short tokens stay in their records.**  A session of either book in which every token that is
asked for has at most 9 bytes stores no byte outside of the object, reads the same input and prints
the same output as the directory or the bag, which show what was typed, and an addition changes only
the place of the new record. -/
theorem sessions_short (choice : ℤ) (input : List UInt8) :
    (∀ us, Along (step Array.ops) Array.Short (start Array.empty choice input) us →
      ∃ s r, run (step Array.ops) (start Array.empty choice input) us = some s ∧
        run (step (directory maxAbonents full)) (start [] choice input) us = some r ∧
        s.io = r.io ∧
        ∀ s', Array.Short s () → step Array.ops s () = some s' → s.chosen = 1 →
          ∀ q, q < nameAt s.book.count ∨ nameAt (s.book.count + 1) ≤ q →
            s'.book.list[q]? = s.book.list[q]?) ∧
    ∀ rs, Along Heap.step Heap.Short (start Heap.empty choice input) rs →
      ∃ s r, run Heap.step (start Heap.empty choice input) rs = some s ∧
        run Heap.bagStep (start [] choice input) rs = some r ∧
        s.io = r.io ∧
        ∀ a s', Heap.Short s a → Heap.step s a = some s' → s.chosen = 1 →
          ∀ q, q < nameAt s.book.count →
            (s'.book.list.getD [])[q]? = (s.book.list.getD [])[q]? := by
  constructor
  · intro us hus
    obtain ⟨s, r, hs, hr, hrel⟩ :=
      run_progress_along (R := fun s r => Related Array.Holds r s) (fun u => u)
        (fun s u r hrel hP => by
          obtain ⟨r', hr'⟩ := directory_defined hrel hP
          obtain ⟨s', hs', hrel'⟩ := step_simulates Array.simulates hrel hr'
          exact ⟨s', r', hs', hr', hrel'⟩)
        (related_start Array.holds_empty choice input) hus
    rw [List.map_id'] at hr
    exact ⟨s, r, hs, hr, hrel.io, fun s' hP h h1 q hq => Array.add_frame hP h h1 hq⟩
  · intro rs hrs
    have hstart : RelatedWhile Heap.Holds (start [] choice input)
        (start Heap.empty choice input) := ⟨fun _ => Heap.holds_empty, rfl, rfl, rfl⟩
    obtain ⟨s, r, hs, hr, hrel⟩ :=
      run_progress_along (R := fun s r => RelatedWhile Heap.Holds r s) (fun e => e)
        (fun s e r hrel hP => by
          obtain ⟨r', hr'⟩ := bag_defined hrel hP
          obtain ⟨s', hs', hrel'⟩ := turn_simulates (Heap.simulates e) hrel hr'
          exact ⟨s', r', hs', hr', hrel'⟩)
        hstart hrs
    rw [List.map_id'] at hr
    refine ⟨s, r, hs, hr, hrel.io, fun a s' hP h h1 q hq => ?_⟩
    exact Heap.add_frame (hrel.book (hrel.running.symm.trans hP.1)) hP h h1 hq

/-- The input `1 a b c 4`. -/
def shortInput : List UInt8 := [49, 32, 97, 32, 98, 32, 99, 32, 52]

/-- Both books show the record. -/
theorem sessions_short_oneRecord :
    (∃ s r, run (step Array.ops) (start Array.empty 0 shortInput) [(), ()] = some s ∧
      run (step (directory maxAbonents full)) (start [] 0 shortInput) [(), ()] = some r ∧
      s.io = r.io) ∧
    ∃ s r, run Heap.step (start Heap.empty 0 shortInput)
        (List.replicate 2 (.block fun _ => 7)) = some s ∧
      run Heap.bagStep (start [] 0 shortInput) (List.replicate 2 (.block fun _ => 7)) = some r ∧
      s.io = r.io := by
  obtain ⟨harray, hheap⟩ := sessions_short 0 shortInput
  obtain ⟨s, r, hs, hr, hio, -⟩ := harray [(), ()] (by decide +kernel)
  obtain ⟨s', r', hs', hr', hio', -⟩ :=
    hheap (List.replicate 2 (.block fun _ => 7)) (by decide +kernel)
  exact ⟨⟨s, r, hs, hr, hio⟩, s', r', hs', hr', hio'⟩

/-- The input `1 x y 0123456789 1 z b c`. -/
def phoneInput : List UInt8 :=
  [49, 32, 120, 32, 121, 32, 48, 49, 50, 51, 52, 53, 54, 55, 56, 57, 32, 49, 32, 122, 32, 98,
   32, 99]

/-- The input `2 0123456789`. -/
def queryInput : List UInt8 := [50, 32, 48, 49, 50, 51, 52, 53, 54, 55, 56, 57]

/-- A phone of 10 bytes.  In the array its NUL is in the next record, and when that is filled, the
first record shows its name behind the phone.  On the heap the NUL is outside of the block.  A query
of 10 bytes is stored outside of the local array. -/
theorem phone_overrun :
    (run (step Array.ops) (start Array.empty 0 phoneInput) [()]).map
        (fun s => Array.contents s.book)
      = some [.record [120] [121] [48, 49, 50, 51, 52, 53, 54, 55, 56, 57]] ∧
    (run (step Array.ops) (start Array.empty 0 phoneInput) [(), ()]).map
        (fun s => Array.contents s.book)
      = some [.record [120] [121] [48, 49, 50, 51, 52, 53, 54, 55, 56, 57, 122],
          .record [122] [98] [99]] ∧
    (run Heap.step (start Heap.empty 0 phoneInput) [.block fun _ => 7]).isNone = true ∧
    (run (step Array.ops) (start Array.empty 0 queryInput) [()]).isNone = true ∧
    (run Heap.step (start Heap.empty 0 queryInput) [.block fun _ => 7]).isNone = true :=
  ⟨by decide +kernel, by decide +kernel, by decide +kernel, by decide +kernel, by decide +kernel⟩

end AddressBook
end PosixHw
