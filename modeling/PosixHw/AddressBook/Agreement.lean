import PosixHw.AddressBook.HeapRefinement

/-!
# The two address books

The array deletes by moving the later records up, the heap by moving the last record into the gap.
Both books are compared turn by turn, through the directory and the bag (`turn_alike`).

* What always agrees is how many records with each name there are.
* The records agree for as long as each deletion finds equal records in both (`Unambiguous`).

`Alike` is about both: its parameter `v` says what of a record is compared.
-/

namespace PosixHw
namespace AddressBook

open Run PosixHw.Lists
open AddressBook.Array (maxAbonents full)
open Heap (Realloc bag bagStep noMemory)

/-- The records of a book, as the program prints them. -/
def Array.contents (b : Array.Book) : List Out := (Array.printLoop b.list b.count 0 ⟨[], []⟩).out
def Heap.contents (b : Heap.Book) : Option (List Out) :=
  (Heap.printLoop b.list b.count 0 ⟨[], []⟩).map Io.out

/-- The name of a line that shows a record. -/
def Out.name : Out → List UInt8
  | .text _ => []
  | .record name _ _ => name

/-- A line without what stands behind the name. -/
def Out.nameOnly : Out → Out
  | .text s => .text s
  | .record name _ _ => .record name [] []

/-- The book never has more than 100 records, and `realloc` succeeds; without bytes to keep it may
return NULL. -/
def Roomy (s : State (List Record)) (r : Realloc) : Prop :=
  (s.chosen = 1 → s.book.length < maxAbonents ∧ r.failed = false) ∧
  (s.chosen = 2 → s.book.length ≤ 1 ∨ r.failed = false)

/-- The directory and the bag, turn by turn. -/
def bothStep (p : State (List Record) × State (List Record)) (r : Realloc) :
    Option (State (List Record) × State (List Record)) :=
  (step (directory maxAbonents full) p.1 ()).bind fun s => (bagStep p.2 r).map fun t => (s, t)

/-- What `v` tells of the first record with the name. -/
def first (v : Out → Out) (n : List UInt8) (l : List Record) : Option Out :=
  (l.find? (Record.named n)).map fun r => v r.shown

/-- If a name is typed for deletion, the first records that have it are equal, if any has it. -/
def Unambiguous (p : State (List Record) × State (List Record)) (_ : Realloc) : Prop :=
  p.2.chosen = 2 → ∀ x ∈ token (p.2.ready.print askDelete),
    first id x.1 p.1.book = first id x.1 p.2.book

instance (s : State (List Record)) (r : Realloc) : Decidable (Roomy s r) :=
  inferInstanceAs (Decidable (_ ∧ _))

instance (p : State (List Record) × State (List Record)) (r : Realloc) :
    Decidable (Unambiguous p r) :=
  inferInstanceAs (Decidable (_ → _))

/-! ### Lists of records that are alike -/

section Alike

variable {v : Out → Out}

/-- What is compared of the records. -/
def seen (v : Out → Out) (l : List Record) : List Out := (l.map Record.shown).map v

/-- What is compared tells the names. -/
def TellsName (v : Out → Out) : Prop := ∀ r : Record, (v r.shown).name = text r.name

theorem tellsName_id : TellsName id := fun _ => rfl

theorem tellsName_nameOnly : TellsName Out.nameOnly := fun _ => rfl

/-- The records with a name, among what is seen. -/
theorem seen_filter (hv : TellsName v) (n : List UInt8) (l : List Record) :
    seen v (l.filter (Record.named n)) = (seen v l).filter fun o => o.name = text n := by
  induction l with
  | nil => rfl
  | cons r l ih =>
    have hr : decide ((v r.shown).name = text n) = Record.named n r := by rw [hv r]; rfl
    unfold seen at ih ⊢
    simp only [List.map_cons, List.filter_cons, hr]
    split_ifs
    · rw [List.map_cons, List.map_cons, ih]
    · exact ih

theorem seen_filter_perm (hv : TellsName v) {l m : List Record} (h : (seen v l).Perm (seen v m))
    (n : List UInt8) :
    (seen v (l.filter (Record.named n))).Perm (seen v (m.filter (Record.named n))) := by
  rw [seen_filter hv, seen_filter hv]
  exact h.filter _

theorem any_named_iff {l : List Record} {n : List UInt8} :
    l.any (Record.named n) = true ↔ l.filter (Record.named n) ≠ [] := by
  rw [List.any_eq_true, ne_eq, List.filter_eq_nil_iff]
  simp

/-- Both lists have a record with the name, or none of them has. -/
theorem any_named_eq (hv : TellsName v) {l m : List Record} (h : (seen v l).Perm (seen v m))
    (n : List UInt8) : l.any (Record.named n) = m.any (Record.named n) := by
  have hlen := (seen_filter_perm hv h n).length_eq
  simp only [seen, List.length_map] at hlen
  rw [Bool.eq_iff_iff, any_named_iff, any_named_iff, ← List.length_pos_iff, ← List.length_pos_iff,
    hlen]

/-- The record that is erased comes first. -/
theorem seen_eraseP {l : List Record} {n : List UInt8} (h : l.any (Record.named n) = true) :
    ∃ o, first v n l = some o ∧ (seen v l).Perm (o :: seen v (l.eraseP (Record.named n))) := by
  obtain ⟨r, hr⟩ := Option.isSome_iff_exists.1 (List.find?_isSome.2 (List.any_eq_true.1 h))
  obtain ⟨hrn, l₁, l₂, rfl, hl₁⟩ := List.find?_eq_some_iff_append.1 hr
  have hnot : ∀ x ∈ l₁, ¬ Record.named n x = true := fun x hx => by simpa using hl₁ x hx
  refine ⟨v r.shown, by rw [first, hr, Option.map_some], ?_⟩
  rw [List.eraseP_append_right _ hnot, List.eraseP_cons_of_pos hrn]
  simp only [seen, List.map_append, List.map_cons]
  exact List.perm_middle

/-- Two deletions that find equal records leave lists that are alike. -/
theorem seen_delete {l m : List Record} (hv : TellsName v) (h : (seen v l).Perm (seen v m))
    {n : List UInt8} (hany : m.any (Record.named n) = true) (heq : first v n l = first v n m) :
    (seen v (l.eraseP (Record.named n))).Perm (seen v (swapErase (Record.named n) m)) := by
  obtain ⟨o, ho, hl⟩ := seen_eraseP (v := v) ((any_named_eq hv h n).trans hany)
  obtain ⟨o', ho', hm⟩ := seen_eraseP (v := v) hany
  obtain rfl : o = o' := Option.some.inj (ho.symm.trans (heq.trans ho'))
  have hswap : (seen v (swapErase (Record.named n) m)).Perm
      (seen v (m.eraseP (Record.named n))) := ((swapErase_perm _ _).map _).map _
  exact (List.Perm.cons_inv (hl.symm.trans (h.trans hm))).trans hswap.symm

/-- The first records with a name have this name. -/
theorem first_nameOnly {l : List Record} {n : List UInt8} (h : l.any (Record.named n) = true) :
    first Out.nameOnly n l = some (.record (text n) [] []) := by
  obtain ⟨r, hr⟩ := Option.isSome_iff_exists.1 (List.find?_isSome.2 (List.any_eq_true.1 h))
  have hnamed : Record.named n r = true := List.find?_some hr
  have hname : text r.name = text n := of_decide_eq_true hnamed
  rw [first, hr, Option.map_some, Record.shown, Out.nameOnly, hname]

theorem first_of_not_any {l : List Record} {n : List UInt8} (h : l.any (Record.named n) = false) :
    first v n l = none := by
  rw [first, Option.map_eq_none_iff, List.find?_eq_none]
  exact fun r hr => List.any_eq_false.1 h r hr

/-! ### One turn -/

/-- The same input, and the same output up to the order and to what `v` leaves out. -/
structure IoAlike (v : Out → Out) (io io' : Io) : Prop where
  input : io.input = io'.input
  out : (io.out.map v).Perm (io'.out.map v)

theorem IoAlike.printAll {io io' : Io} (h : IoAlike v io io') {os os' : List Out}
    (hos : (os.map v).Perm (os'.map v)) : IoAlike v (io.printAll os) (io'.printAll os') := by
  refine ⟨h.input, ?_⟩
  simp only [Io.printAll, List.map_append]
  exact h.out.append hos

theorem IoAlike.print {io io' : Io} (h : IoAlike v io io') (o : Out) :
    IoAlike v (io.print o) (io'.print o) := h.printAll (.refl _)

theorem token_alike {io io' io₁' : Io} {w : List UInt8} (h : IoAlike v io io')
    (hw : token io' = some (w, io₁')) : ∃ io₁, token io = some (w, io₁) ∧ IoAlike v io₁ io₁' := by
  obtain ⟨hscan, hlen, rfl⟩ := Array.token_eq_some.1 hw
  refine ⟨_, Array.token_eq_some.2 ⟨by rw [h.input, hscan], hlen, rfl⟩, ?_⟩
  exact ⟨congrArg (fun i => (Scanf.scanStr i).2) h.input, h.out⟩

/-- Both operations come back to the menu, with books and outputs that are alike. -/
inductive Outcome.Alike (v : Out → Out) : Outcome (List Record) → Outcome (List Record) → Prop
  | back {l m : List Record} {io io' : Io} (h : (seen v l).Perm (seen v m))
      (hio : IoAlike v io io') : Outcome.Alike v (.back l io) (.back m io')

section Turn

variable {l m : List Record} {io io' : Io} {r : Realloc} {o : Outcome (List Record)}

theorem append_alike (h : (seen v l).Perm (seen v m)) (hio : IoAlike v io io')
    {x' : List Record × Io} (hx' : append m io' = some x') :
    ∃ x, append l io = some x ∧ (seen v x.1).Perm (seen v x'.1) ∧ IoAlike v x.2 x'.2 := by
  obtain ⟨⟨name, io₁⟩, hname, hx'⟩ := Option.bind_eq_some_iff.1 hx'
  obtain ⟨⟨secondName, io₂⟩, hsecond, hx'⟩ := Option.bind_eq_some_iff.1 hx'
  obtain ⟨⟨tel, io₃⟩, htel, rfl⟩ := Option.map_eq_some_iff.1 hx'
  obtain ⟨jo₁, hname, hio₁⟩ := token_alike (hio.print _) hname
  obtain ⟨jo₂, hsecond, hio₂⟩ := token_alike (hio₁.print _) hsecond
  obtain ⟨jo₃, htel, hio₃⟩ := token_alike (hio₂.print _) htel
  refine ⟨(l ++ [⟨name, secondName, tel⟩], jo₃), ?_, ?_, hio₃⟩
  · simp only [append, hname, hsecond, htel, Option.bind_some, Option.map_some]
  · simp only [seen, List.map_append] at h ⊢
    exact h.append_right _

theorem add_alike (h : (seen v l).Perm (seen v m)) (hio : IoAlike v io io')
    (hlt : m.length < maxAbonents) (hr : r.failed = false) (ho : (bag r).add m io' = some o) :
    ∃ o₁, (directory maxAbonents full).withoutExit.add l io = some o₁ ∧ Outcome.Alike v o₁ o := by
  have hlen : l.length = m.length := by simpa [seen] using h.length_eq
  simp only [bag, Heap.insert, hr, Bool.false_eq_true, if_false] at ho
  obtain ⟨x', hx', rfl⟩ := Option.map_eq_some_iff.1 ho
  obtain ⟨x, hx, hperm, hio'⟩ := append_alike h hio hx'
  refine ⟨.back x.1 x.2, ?_, .back hperm hio'⟩
  simp only [Ops.withoutExit, directory, hlen, if_neg (Nat.not_le.2 hlt), hx, Option.map_some]

theorem delete_alike (hv : TellsName v) (h : (seen v l).Perm (seen v m)) (hio : IoAlike v io io')
    (hr : m.length ≤ 1 ∨ r.failed = false)
    (heq : ∀ x ∈ token (io'.print askDelete), first v x.1 l = first v x.1 m)
    (ho : (bag r).delete m io' = some o) :
    ∃ o₁, (directory maxAbonents full).withoutExit.delete l io = some o₁ ∧
      Outcome.Alike v o₁ o := by
  obtain ⟨⟨n, io₁'⟩, hn, rfl⟩ := Option.map_eq_some_iff.1 ho
  obtain ⟨io₁, hn', hio₁⟩ := token_alike (hio.print askDelete) hn
  simp only [Ops.withoutExit, directory, remove, hn', Option.map_some, any_named_eq hv h n]
  by_cases hany : m.any (Record.named n) = true
  · -- the request for memory does not end the program
    have hback : ¬ (r.failed = true ∧ swapErase (Record.named n) m ≠ []) := by
      rintro ⟨hfail, hne⟩
      rcases hr with hone | hr
      · obtain ⟨x, hx, hxn⟩ := List.any_eq_true.1 hany
        have hlen : (swapErase (Record.named n) m).length = m.length - 1 := by
          rw [(swapErase_perm _ _).length_eq, List.length_eraseP_of_mem hx hxn]
        exact hne (List.length_eq_zero_iff.1 (by omega))
      · rw [hr] at hfail
        exact Bool.false_ne_true hfail
    refine ⟨_, rfl, ?_⟩
    rw [if_pos hany, if_pos hany, if_neg hback]
    exact .back (seen_delete hv h hany (heq (n, io₁') hn)) (hio₁.print _)
  · refine ⟨_, rfl, ?_⟩
    rw [if_neg hany, if_neg hany]
    exact .back h (hio₁.print _)

theorem search_alike (hv : TellsName v) (h : (seen v l).Perm (seen v m)) (hio : IoAlike v io io')
    (ho : (bag r).search m io' = some o) :
    ∃ o₁, (directory maxAbonents full).withoutExit.search l io = some o₁ ∧
      Outcome.Alike v o₁ o := by
  obtain ⟨x, hx, rfl⟩ := Option.map_eq_some_iff.1 ho
  obtain ⟨⟨n, io₁'⟩, hn, rfl⟩ := Option.map_eq_some_iff.1 hx
  obtain ⟨io₁, hn', hio₁⟩ := token_alike (hio.print askSearch) hn
  refine ⟨_, ?_, .back h (hio₁.printAll (seen_filter_perm hv h n))⟩
  simp only [Ops.withoutExit, directory, find, hn', Option.map_some]

theorem print_alike (h : (seen v l).Perm (seen v m)) (hio : IoAlike v io io')
    (ho : (bag r).print m io' = some o) :
    ∃ o₁, (directory maxAbonents full).withoutExit.print l io = some o₁ ∧
      Outcome.Alike v o₁ o := by
  cases ho
  exact ⟨_, rfl, .back h (hio.printAll h)⟩

end Turn

/-- Two sessions that are alike. -/
structure Alike (v : Out → Out) (s t : State (List Record)) : Prop where
  book : s.running = true → (seen v s.book).Perm (seen v t.book)
  choice : s.choice = t.choice
  io : IoAlike v s.io t.io
  running : s.running = t.running

/-- What has to hold of a deletion for the records to stay alike. -/
def Agrees (v : Out → Out) (s t : State (List Record)) : Prop :=
  t.chosen = 2 → ∀ x ∈ token (t.ready.print askDelete), first v x.1 s.book = first v x.1 t.book

/-- Deletions leave names that are alike, whatever else is in the records. -/
theorem Alike.agrees {s t : State (List Record)} (h : Alike Out.nameOnly s t)
    (hr : t.running = true) : Agrees Out.nameOnly s t := by
  intro _ x _
  have hany := any_named_eq tellsName_nameOnly (h.book (h.running.trans hr)) x.1
  cases ht : t.book.any (Record.named x.1) with
  | true => rw [first_nameOnly (hany.trans ht), first_nameOnly ht]
  | false => rw [first_of_not_any (hany.trans ht), first_of_not_any ht]

/-- They also agree on all that is compared if the records with the name are all equal. -/
theorem Alike.agrees_of_equal {s t : State (List Record)} (hv : TellsName v) (h : Alike v s t)
    (hr : t.running = true)
    (heq : ∀ x ∈ token (t.ready.print askDelete), ∀ r ∈ t.book, ∀ r' ∈ t.book,
      Record.named x.1 r = true → Record.named x.1 r' = true → v r.shown = v r'.shown) :
    Agrees v s t := by
  intro _ x hx
  have hperm := h.book (h.running.trans hr)
  have hany := any_named_eq hv hperm x.1
  cases ht : t.book.any (Record.named x.1) with
  | false => rw [first_of_not_any (hany.trans ht), first_of_not_any ht]
  | true =>
    obtain ⟨r, hr⟩ := Option.isSome_iff_exists.1
      (List.find?_isSome.2 (List.any_eq_true.1 (hany.trans ht)))
    obtain ⟨r', hr'⟩ := Option.isSome_iff_exists.1 (List.find?_isSome.2 (List.any_eq_true.1 ht))
    -- the bag has a record that looks like the one of the directory
    have hmem : v r.shown ∈ seen v (t.book.filter (Record.named x.1)) := by
      refine (seen_filter_perm hv hperm x.1).mem_iff.1 ?_
      refine List.mem_map_of_mem (List.mem_map_of_mem (List.mem_filter.2 ⟨?_, ?_⟩))
      · exact List.mem_of_find?_eq_some hr
      · exact List.find?_some hr
    obtain ⟨y, hy, hyv⟩ : ∃ y ∈ t.book.filter (Record.named x.1), v y.shown = v r.shown := by
      simpa [seen] using hmem
    obtain ⟨hybook, hyname⟩ := List.mem_filter.1 hy
    have hsame : v r.shown = v r'.shown :=
      hyv.symm.trans (heq x hx y hybook r' (List.mem_of_find?_eq_some hr') hyname
        (List.find?_some hr'))
    rw [first, first, hr, hr', Option.map_some, Option.map_some, hsame]

theorem turn_alike (hv : TellsName v) {s t t' : State (List Record)} {r : Realloc}
    (hst : Alike v s t) (hroom : Roomy t r) (hagrees : t.running = true → Agrees v s t)
    (ht : bagStep t r = some t') :
    ∃ s', step (directory maxAbonents full) s () = some s' ∧ Alike v s' t' := by
  obtain ⟨hbook, hchoice, hio, hrun⟩ := hst
  have hchosen : s.chosen = t.chosen := by rw [State.chosen, State.chosen, hio.input, hchoice]
  have hready : IoAlike v s.ready t.ready :=
    ⟨congrArg (fun i => (Scanf.scanInt i).2) hio.input, (hio.print menu).out⟩
  rw [step_eq_turn]
  unfold bagStep turn at ht
  unfold turn
  rw [hrun, hchosen]
  split_ifs at ht ⊢ with hr
  have hperm := hbook (hrun.trans hr)
  -- an operation of `main`
  have hop : ∀ {p q : Option (Outcome (List Record))},
      (∀ {o}, q = some o → ∃ o₁, p = some o₁ ∧ Outcome.Alike v o₁ o) →
      q.map (Outcome.after t.book t.chosen) = some t' →
      ∃ s', p.map (Outcome.after s.book t.chosen) = some s' ∧ Alike v s' t' := by
    intro p q hpq hq
    obtain ⟨o, ho, rfl⟩ := Option.map_eq_some_iff.1 hq
    obtain ⟨o₁, ho₁, halike⟩ := hpq ho
    refine ⟨_, by rw [ho₁]; rfl, ?_⟩
    cases halike with
    | back h hio => exact ⟨fun _ => h, rfl, hio, rfl⟩
  unfold ExitOps.choose at ht ⊢
  split at ht
  · rename_i h1
    obtain ⟨hlt, hfail⟩ := hroom.1 h1
    exact hop (add_alike hperm hready hlt hfail) ht
  · rename_i h2
    exact hop (delete_alike hv hperm hready (hroom.2 h2) (hagrees hr h2)) ht
  · exact hop (search_alike hv hperm hready) ht
  · exact hop (print_alike hperm hready) ht
  · cases ht
    exact ⟨_, rfl, by simp, rfl, hready.print _, rfl⟩
  · cases ht
    exact ⟨_, rfl, fun _ => hperm, rfl, hready.print _, rfl⟩

end Alike

/-! ### Sessions -/

theorem alike_start (v : Out → Out) (choice : ℤ) (input : List UInt8) :
    Alike v (start [] choice input) (start [] choice input) :=
  ⟨fun _ => .refl _, rfl, ⟨rfl, .refl _⟩, rfl⟩

/-- A session with the bag, and the session with the directory that goes with it. -/
theorem run_alike {v : Out → Out} (hv : TellsName v) {rs : List Realloc}
    {s t t' : State (List Record)} (hst : Alike v s t)
    (hrs : Along bothStep (fun p r => Roomy p.2 r ∧
      (Alike v p.1 p.2 → p.2.running = true → Agrees v p.1 p.2)) (s, t) rs)
    (h : run bagStep t rs = some t') :
    ∃ s', run (step (directory maxAbonents full)) s (rs.map fun _ => ()) = some s' ∧
      Alike v s' t' := by
  induction rs generalizing s t with
  | nil =>
    cases h
    exact ⟨s, rfl, hst⟩
  | cons r rs ih =>
    obtain ⟨u, hu, h⟩ := run_cons_eq_some.1 h
    obtain ⟨⟨hroom, hagrees⟩, hrs⟩ := hrs
    obtain ⟨s₁, hs₁, halike⟩ := turn_alike hv hst hroom (hagrees hst) hu
    have hboth : bothStep (s, t) r = some (s₁, u) := by
      rw [bothStep, hs₁, hu]
      rfl
    obtain ⟨s', hs', halike'⟩ := ih halike (hrs (s₁, u) hboth) h
    exact ⟨s', run_cons_eq_some.2 ⟨s₁, hs₁, hs'⟩, halike'⟩

/-- The bag is a part of both. -/
theorem bagStep_of_bothStep {p q : State (List Record) × State (List Record)} {r : Realloc}
    (h : bothStep p r = some q) : bagStep p.2 r = some q.2 := by
  obtain ⟨s, -, h⟩ := Option.bind_eq_some_iff.1 h
  obtain ⟨t, ht, rfl⟩ := Option.map_eq_some_iff.1 h
  exact ht

theorem Array.contents_eq {l : List Record} {b : Array.Book} (h : Array.Holds l b) :
    Array.contents b = l.map Record.shown := by
  have hall : Array.Holds ([] ++ l) b := h
  have hloop : Array.printLoop b.list l.length 0 ⟨[], []⟩
      = Io.printAll ⟨[], []⟩ (l.map Record.shown) := Array.printLoop_records hall _
  rw [Array.contents, h.count, hloop]
  rfl

theorem Heap.contents_eq {l : List Record} {b : Heap.Book} (h : Heap.Holds l b) :
    Heap.contents b = some (l.map Record.shown) := by
  obtain ⟨cs, rfl, h⟩ := h
  have hall : Heap.Stores ([] ++ cs) b := h
  have hloop : Heap.printLoop b.list cs.length 0 ⟨[], []⟩
      = some (Io.printAll ⟨[], []⟩ ((cs.map Cell.record).map Record.shown)) :=
    Heap.printLoop_cells hall _
  rw [Heap.contents, h.count, hloop]
  rfl

/-- **The two books agree** for as long as there are at most 100 records, `realloc` succeeds and
every token has 1 to 9 bytes.  They read the same input, hold as many records with each name, and
print as many lines with each name.  If moreover, whenever a name is deleted, the first record that
has it is the same in both, they hold the same records and print the same lines, up to the order. -/
theorem books_agree {choice : ℤ} {input : List UInt8} {rs : List Realloc}
    {t : State (List Record)} (h : run bagStep (start [] choice input) rs = some t)
    (hrs : Along bagStep Roomy (start [] choice input) rs) :
    ∃ a b, run (step Array.ops) (start Array.empty choice input) (rs.map fun _ => ()) = some a ∧
      run Heap.step (start Heap.empty choice input) rs = some b ∧
      a.io.input = b.io.input ∧ a.choice = b.choice ∧ a.running = b.running ∧
      (a.io.out.map Out.nameOnly).Perm (b.io.out.map Out.nameOnly) ∧
      (a.running = true → a.book.count = b.book.count ∧ ∃ l, Heap.contents b.book = some l ∧
        ((Array.contents a.book).map Out.nameOnly).Perm (l.map Out.nameOnly)) ∧
      (Along bothStep Unambiguous (start [] choice input, start [] choice input) rs →
        a.io.out.Perm b.io.out ∧
        (a.running = true → ∃ l, Heap.contents b.book = some l ∧
          (Array.contents a.book).Perm l)) := by
  have hroom : Along bothStep (fun p r => Roomy p.2 r)
      (start [] choice input, start [] choice input) rs :=
    Along.of_part (f := Prod.snd) (fun _ _ _ => bagStep_of_bothStep) hrs
  obtain ⟨s, hs, halike⟩ := run_alike tellsName_nameOnly (alike_start _ choice input)
    (hroom.mono fun _ _ hroom => ⟨hroom, fun halike => halike.agrees⟩) h
  obtain ⟨a, ha, habook, hachoice, haio, harun⟩ :=
    run_simulates Array.simulates (related_start Array.holds_empty choice input) hs
  have hstart : RelatedWhile Heap.Holds (start [] choice input) (start Heap.empty choice input) :=
    ⟨fun _ => Heap.holds_empty, rfl, rfl, rfl⟩
  obtain ⟨b, hb, hbbook, hbchoice, hbio, hbrun⟩ := run_turn_simulates Heap.simulates hstart h
  have hcontents := Array.contents_eq habook
  have hholds : a.running = true → Heap.Holds t.book b.book := fun hr =>
    hbbook (halike.running.symm.trans (harun.symm.trans hr))
  refine ⟨a, b, ha, hb, ?_, ?_, ?_, ?_, fun hr => ⟨?_, _, Heap.contents_eq (hholds hr), ?_⟩,
    fun hun => ?_⟩
  · rw [haio, hbio, halike.io.input]
  · rw [hachoice, hbchoice, halike.choice]
  · rw [harun, hbrun, halike.running]
  · rw [haio, hbio]
    exact halike.io.out
  · obtain ⟨cs, hcs, hstores⟩ := hholds hr
    have hlen : s.book.length = t.book.length := by
      simpa [seen] using (halike.book (harun.symm.trans hr)).length_eq
    rw [habook.count, hlen, hcs, List.length_map, hstores.count]
  · rw [hcontents]
    exact halike.book (harun.symm.trans hr)
  · -- the same sessions, with nothing left out
    obtain ⟨s₂, hs₂, hsame⟩ := run_alike tellsName_id (alike_start _ choice input)
      ((hroom.and hun).mono fun _ _ hP => ⟨hP.1, fun _ _ => hP.2⟩) h
    obtain rfl : s₂ = s := Option.some.inj (hs₂.symm.trans hs)
    have hout := hsame.io.out
    rw [List.map_id, List.map_id] at hout
    refine ⟨by rw [haio, hbio]; exact hout, fun hr => ⟨_, Heap.contents_eq (hholds hr), ?_⟩⟩
    have hbook := hsame.book (harun.symm.trans hr)
    rw [seen, seen, List.map_id, List.map_id] at hbook
    rw [hcontents]
    exact hbook

/-- The input `1 a b c 1 a e f 2 a 3 a`. -/
def agreeingInput : List UInt8 :=
  [49, 32, 97, 32, 98, 32, 99, 32, 49, 32, 97, 32, 101, 32, 102, 32, 50, 32, 97, 32, 51, 32, 97]

/-- No record has moved before `a` is deleted: both books hold `a e f`, and show it. -/
theorem books_agree_sharedName :
    ∃ a b, run (step Array.ops) (start Array.empty 0 agreeingInput) [(), (), (), ()] = some a ∧
      run Heap.step (start Heap.empty 0 agreeingInput)
        (List.replicate 4 (.block fun _ => 7)) = some b ∧
      a.io.out.Perm b.io.out ∧ a.io.input = b.io.input := by
  have hroom : Along bagStep Roomy (start [] 0 agreeingInput)
      (List.replicate 4 (.block fun _ => 7)) := by decide +kernel
  have hun : Along bothStep Unambiguous (start [] 0 agreeingInput, start [] 0 agreeingInput)
      (List.replicate 4 (.block fun _ => 7)) := by decide +kernel
  obtain ⟨t, ht⟩ : ∃ t, run bagStep (start [] 0 agreeingInput)
      (List.replicate 4 (.block fun _ => 7)) = some t := ⟨_, rfl⟩
  obtain ⟨a, b, ha, hb, hinput, -, -, -, -, hagree⟩ := books_agree ht hroom
  exact ⟨a, b, ha, hb, (hagree hun).1, hinput⟩

/-- The input `1 b c d 1 a e f 1 a g h 2 b 2 a 3 a`. -/
def differingInput : List UInt8 :=
  [49, 32, 98, 32, 99, 32, 100, 32, 49, 32, 97, 32, 101, 32, 102, 32, 49, 32, 97, 32, 103, 32,
   104, 32, 50, 32, 98, 32, 50, 32, 97, 32, 51, 32, 97]

/-- `realloc` succeeds six times. -/
def differingAnswers : List Realloc := List.replicate 6 (.block fun _ => 7)

/-- When `b` is deleted, the heap moves `a g h` before `a e f`.  When `a` is deleted next, the array
keeps `a g h` and the heap keeps `a e f`, and that is what the search shows. -/
theorem books_differ :
    (run bagStep (start [] 0 differingInput) differingAnswers).isSome = true ∧
    Along bagStep Roomy (start [] 0 differingInput) differingAnswers ∧
    (run (step Array.ops) (start Array.empty 0 differingInput)
        (differingAnswers.map fun _ => ())).map
        (fun a => (a.running, Array.contents a.book, a.io.out.getLast?))
      = some (true, [.record [97] [103] [104]], some (.record [97] [103] [104])) ∧
    (run Heap.step (start Heap.empty 0 differingInput) differingAnswers).map
        (fun b => (b.running, Heap.contents b.book, b.io.out.getLast?))
      = some (true, some [.record [97] [101] [102]], some (.record [97] [101] [102])) :=
  ⟨by decide +kernel, by decide +kernel, by decide +kernel, by decide +kernel⟩

end AddressBook
end PosixHw
