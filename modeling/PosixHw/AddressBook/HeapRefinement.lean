import PosixHw.AddressBook.Bag
import PosixHw.AddressBook.Refinement

/-!
# The address book on the heap is a bag of records

The block is a sequence of cells, one for each record of the bag.  A cell has three fields: the
token that was typed, its NUL, and bytes that no one has written (`Stores`).

* `realloc` with room for `n` cells keeps the first `n` of them (`realloc_shrink`), and with room
  for one more it keeps all (`realloc_grow`).
* Deleting copies the last cell over the one that is found and gives up the last place
  (`deleteAt_cell`); on the list of cells this is `swapErase`.
* `simulates` collects the operations; `bag_session` is about whole sessions.
-/

namespace PosixHw
namespace AddressBook
namespace Heap

open Run Scanf CString PosixHw.Lists
open AddressBook.Array (recordSize nameAt secondNameAt telAt scanInto scanName token_eq_some
  scanName_token nameAt_succ)

/-! ### Cells -/

/-- A field with a token; nothing is known of the bytes after its NUL. -/
structure Field where
  token : List UInt8
  rest : Mem
  length_eq : token.length + 1 + rest.length = nameLen

/-- A record as it is stored. -/
structure Cell where
  name : Field
  secondName : Field
  tel : Field

def Field.bytes (f : Field) : Mem := f.token ++ 0 :: f.rest

def Cell.bytes (c : Cell) : Mem := c.name.bytes ++ c.secondName.bytes ++ c.tel.bytes

/-- The record, as it was typed. -/
def Cell.record (c : Cell) : Record := ⟨c.name.token, c.secondName.token, c.tel.token⟩

/-- The block that `list` owns is made of the cells `cs`; without cells `list` may be NULL. -/
structure Stores (cs : List Cell) (b : Book) : Prop where
  count : b.count = cs.length
  list : b.list.getD [] = cs.flatMap Cell.bytes

/-- The bag has the records that are stored, in their order. -/
def Holds (l : List Record) (b : Book) : Prop := ∃ cs, l = cs.map Cell.record ∧ Stores cs b

theorem holds_empty : Holds [] empty := ⟨[], rfl, rfl, rfl⟩

@[simp] theorem Field.length_bytes (f : Field) : f.bytes.length = nameLen := by
  rw [← f.length_eq, Field.bytes, List.length_append, List.length_cons]
  omega

@[simp] theorem Cell.length_bytes (c : Cell) : c.bytes.length = recordSize := by
  simp [Cell.bytes, recordSize, nameLen]

theorem length_cells (cs : List Cell) : (cs.flatMap Cell.bytes).length = nameAt cs.length := by
  induction cs with
  | nil => rfl
  | cons c cs ih =>
    rw [List.flatMap_cons, List.length_append, c.length_bytes, ih, List.length_cons, nameAt_succ,
      Nat.add_comm]

/-- The string in a field ends in the field. -/
theorem string_field (pre post : Mem) (f : Field) :
    string (some (pre ++ f.bytes ++ post)) pre.length = some (text f.token) := by
  have hdrop : (pre ++ f.bytes ++ post).drop pre.length = f.token ++ 0 :: (f.rest ++ post) := by
    rw [List.append_assoc, List.drop_left, Field.bytes, List.append_assoc, List.cons_append]
  unfold string strlen str
  rw [Option.bind_some, hdrop, if_pos (by simp), Option.map_some, takeWhile_nul]
  rfl

/-! ### One cell of the block -/

section Cell

variable {cs ds : List Cell} {c : Cell} {b : Book}

/-- There is a block. -/
theorem Stores.block (h : Stores (cs ++ c :: ds) b) :
    b.list = some ((cs ++ c :: ds).flatMap Cell.bytes) := by
  cases hlist : b.list with
  | none =>
    have hlen := congrArg List.length h.list
    rw [hlist, Option.getD_none, length_cells, List.length_append, List.length_cons] at hlen
    simp [nameAt, recordSize, nameLen] at hlen
  | some m =>
    have hm := h.list
    rw [hlist, Option.getD_some] at hm
    rw [hm]

/-- The bytes around the fields of a cell. -/
theorem cells_split (cs ds : List Cell) (c : Cell) :
    (cs ++ c :: ds).flatMap Cell.bytes
      = cs.flatMap Cell.bytes ++ c.name.bytes ++ c.secondName.bytes ++ c.tel.bytes
        ++ ds.flatMap Cell.bytes := by
  rw [List.flatMap_append, List.flatMap_cons, Cell.bytes]
  simp only [List.append_assoc]

theorem string_name (h : Stores (cs ++ c :: ds) b) :
    string b.list (nameAt cs.length) = some (text c.name.token) := by
  have hassoc : (cs ++ c :: ds).flatMap Cell.bytes = cs.flatMap Cell.bytes ++ c.name.bytes
      ++ (c.secondName.bytes ++ c.tel.bytes ++ ds.flatMap Cell.bytes) := by
    rw [cells_split]
    simp only [List.append_assoc]
  rw [h.block, hassoc, ← length_cells, string_field]

theorem string_secondName (h : Stores (cs ++ c :: ds) b) :
    string b.list (secondNameAt cs.length) = some (text c.secondName.token) := by
  have hassoc : (cs ++ c :: ds).flatMap Cell.bytes = (cs.flatMap Cell.bytes ++ c.name.bytes)
      ++ c.secondName.bytes ++ (c.tel.bytes ++ ds.flatMap Cell.bytes) := by
    rw [cells_split]
    simp only [List.append_assoc]
  have hlen : secondNameAt cs.length = (cs.flatMap Cell.bytes ++ c.name.bytes).length := by
    rw [List.length_append, length_cells, c.name.length_bytes, secondNameAt]
  rw [h.block, hassoc, hlen, string_field]

theorem string_tel (h : Stores (cs ++ c :: ds) b) :
    string b.list (telAt cs.length) = some (text c.tel.token) := by
  have hlen : telAt cs.length
      = (cs.flatMap Cell.bytes ++ c.name.bytes ++ c.secondName.bytes).length := by
    rw [List.length_append, List.length_append, length_cells, c.name.length_bytes,
      c.secondName.length_bytes, telAt]
    omega
  rw [h.block, cells_split, hlen, string_field]

theorem printRecord_cell (h : Stores (cs ++ c :: ds) b) (io : Io) :
    printRecord b.list cs.length io = some (io.print c.record.shown) := by
  rw [printRecord, string_name h, string_secondName h, string_tel h]
  rfl

theorem read_cell (cs ds : List Cell) (c : Cell) :
    read ((cs ++ c :: ds).flatMap Cell.bytes) (nameAt cs.length) recordSize = some c.bytes := by
  have hread : read (cs.flatMap Cell.bytes ++ c.bytes ++ ds.flatMap Cell.bytes)
      (cs.flatMap Cell.bytes).length c.bytes.length = some c.bytes := read_append
  rw [length_cells, c.length_bytes] at hread
  rw [List.flatMap_append, List.flatMap_cons, ← List.append_assoc, hread]

theorem write_cell (cs ds : List Cell) (c d : Cell) :
    write ((cs ++ c :: ds).flatMap Cell.bytes) (nameAt cs.length) d.bytes
      = some ((cs ++ d :: ds).flatMap Cell.bytes) := by
  have hwrite : write (cs.flatMap Cell.bytes ++ c.bytes ++ ds.flatMap Cell.bytes)
      (cs.flatMap Cell.bytes).length d.bytes
      = some (cs.flatMap Cell.bytes ++ d.bytes ++ ds.flatMap Cell.bytes) :=
    write_append (by simp)
  rw [length_cells] at hwrite
  rw [List.flatMap_append, List.flatMap_cons, ← List.append_assoc, hwrite, List.flatMap_append,
    List.flatMap_cons, ← List.append_assoc]

end Cell

/-! ### realloc -/

/-- With less room the first cells stay. -/
theorem realloc_shrink (cs ds : List Cell) (fresh : ℕ → UInt8) :
    realloc (some ((cs ++ ds).flatMap Cell.bytes)) (recordSize * cs.length) (.block fresh)
      = some (cs.flatMap Cell.bytes) := by
  have hlen : (cs.flatMap Cell.bytes).length = recordSize * cs.length := length_cells cs
  have htake : ((cs ++ ds).flatMap Cell.bytes).take (recordSize * cs.length)
      = cs.flatMap Cell.bytes := by
    rw [List.flatMap_append, ← hlen, List.take_left]
  unfold realloc
  dsimp only
  rw [Option.getD_some, htake, hlen, Nat.sub_self, List.range_zero, List.map_nil, List.append_nil]

/-- With room for one more cell all of them stay, and any bytes are in the new fields. -/
theorem realloc_grow {cs : List Cell} {b : Book} (h : Stores cs b) (fresh : ℕ → UInt8) :
    ∃ f g e : Mem, f.length = nameLen ∧ g.length = nameLen ∧ e.length = nameLen ∧
      realloc b.list (recordSize * (b.count + 1)) (.block fresh)
        = some (cs.flatMap Cell.bytes ++ f ++ g ++ e) := by
  have hlen : (cs.flatMap Cell.bytes).length = recordSize * cs.length := length_cells cs
  have hsub : recordSize * (cs.length + 1) - recordSize * cs.length = recordSize := by
    rw [Nat.mul_succ, Nat.add_sub_cancel_left]
  have htake : (cs.flatMap Cell.bytes).take (recordSize * (cs.length + 1))
      = cs.flatMap Cell.bytes :=
    List.take_of_length_le (by rw [hlen, Nat.mul_succ]; omega)
  refine ⟨((List.range recordSize).map fresh).take nameLen,
    (((List.range recordSize).map fresh).drop nameLen).take nameLen,
    (((List.range recordSize).map fresh).drop nameLen).drop nameLen,
    by simp [recordSize, nameLen], by simp [recordSize, nameLen], by simp [recordSize, nameLen],
    ?_⟩
  unfold realloc
  dsimp only
  rw [h.list, h.count, htake, hlen, hsub]
  simp only [List.append_assoc, List.take_append_drop]

/-! ### Searching and printing -/

/-- Moves the border between the cells before `i` and those from `i` on. -/
theorem Stores.assoc {cs ds : List Cell} {c : Cell} {b : Book} (h : Stores (cs ++ c :: ds) b) :
    Stores ((cs ++ [c]) ++ ds) b := by
  rwa [List.append_assoc, List.singleton_append]

theorem printLoop_cells {cs ds : List Cell} {b : Book} (h : Stores (cs ++ ds) b) (io : Io) :
    printLoop b.list ds.length cs.length io
      = some (io.printAll ((ds.map Cell.record).map Record.shown)) := by
  induction ds generalizing cs io with
  | nil => simp [printLoop, Io.printAll]
  | cons c ds ih =>
    have hnext := ih h.assoc (io.print c.record.shown)
    rw [List.length_append, List.length_singleton] at hnext
    rw [List.length_cons, printLoop, printRecord_cell h, Option.bind_some, hnext, List.map_cons,
      List.map_cons, Array.printAll_cons]

theorem searchLoop_cells {cs ds : List Cell} {b : Book} (h : Stores (cs ++ ds) b)
    (n : List UInt8) (io : Io) :
    searchLoop b.list (text n) ds.length cs.length io
      = some (io.printAll (((ds.map Cell.record).filter (Record.named n)).map Record.shown)) := by
  induction ds generalizing cs io with
  | nil => simp [searchLoop, Io.printAll]
  | cons c ds ih =>
    have hnext := fun io => ih h.assoc io
    simp only [List.length_append, List.length_singleton] at hnext
    rw [List.length_cons, searchLoop, string_name h, Option.bind_some, List.map_cons]
    split_ifs with hn
    · have hc : Record.named n c.record = true := decide_eq_true hn
      rw [List.filter_cons_of_pos hc, List.map_cons, printRecord_cell h, Option.bind_some, hnext,
        Array.printAll_cons]
    · have hc : ¬ Record.named n c.record = true := fun hc => hn (of_decide_eq_true hc)
      rw [List.filter_cons_of_neg hc, Option.bind_some, hnext]

/-! ### Deleting -/

/-- What the program does when the block has lost a record. -/
def afterDelete (r : Realloc) (cs : List Cell) (io : Io) (o : Outcome Book) : Prop :=
  if r.failed ∧ cs ≠ [] then o = .exit (io.print noMemory)
  else ∃ b, o = .back b (io.print deleted) ∧ Stores cs b

/-- The last cell is copied over a cell, and its own place is given up. -/
theorem deleteAt_cell {cs ds : List Cell} {c : Cell} {b : Book} (h : Stores (cs ++ c :: ds) b)
    (r : Realloc) (io : Io) :
    ∃ o, deleteAt r b cs.length io = some o ∧
      afterDelete r (cs ++ (ds.getLast?.toList ++ ds.dropLast)) io o := by
  -- the cells after the copy
  obtain ⟨z, hread, hwrite⟩ : ∃ z : Cell,
      read ((cs ++ c :: ds).flatMap Cell.bytes) (nameAt (b.count - 1)) recordSize = some z.bytes ∧
      write ((cs ++ c :: ds).flatMap Cell.bytes) (nameAt cs.length) z.bytes
        = some (((cs ++ (ds.getLast?.toList ++ ds.dropLast)) ++ [z]).flatMap Cell.bytes) := by
    cases ds using List.reverseRecOn with
    | nil =>
      have hcount : b.count - 1 = cs.length := by rw [h.count]; simp
      refine ⟨c, ?_, ?_⟩
      · rw [hcount]
        exact read_cell cs [] c
      · rw [write_cell]
        simp
    | append_singleton ds z =>
      have hcount : b.count - 1 = (cs ++ c :: ds).length := by rw [h.count]; simp
      have hlist : cs ++ c :: (ds ++ [z]) = (cs ++ c :: ds) ++ z :: [] := by simp
      refine ⟨z, ?_, ?_⟩
      · rw [hcount, hlist, read_cell]
      · rw [write_cell, List.getLast?_concat, List.dropLast_concat]
        simp
  generalize hes : cs ++ (ds.getLast?.toList ++ ds.dropLast) = es at hwrite ⊢
  have hcount : b.count - 1 = es.length := by
    have hlen := (getLast?_append_dropLast_perm ds).length_eq
    rw [← hes, h.count, List.length_append, List.length_append, hlen, List.length_cons]
    omega
  have hpos : 0 < es.length ↔ es ≠ [] := List.length_pos_iff
  unfold deleteAt
  rw [h.block, Option.bind_some, hread, Option.bind_some, hwrite, Option.map_some, hcount]
  refine ⟨_, rfl, ?_⟩
  unfold afterDelete
  cases r with
  | block fresh =>
    rw [if_neg (by simp [Realloc.failed]), realloc_shrink]
    exact ⟨_, rfl, rfl, rfl⟩
  | null =>
    have hnull : realloc (some ((es ++ [z]).flatMap Cell.bytes)) (recordSize * es.length) .null
        = none := rfl
    rw [hnull]
    dsimp only
    by_cases hne : es = []
    · subst hne
      exact ⟨_, rfl, rfl, rfl⟩
    · rw [if_pos ⟨rfl, hne⟩, if_pos (hpos.2 hne)]

/-- The loop of `delete_abonent` from the cells `ds` on. -/
theorem deleteLoop_cells {cs ds : List Cell} {b : Book} (h : Stores (cs ++ ds) b)
    (r : Realloc) (n : List UInt8) (io : Io) :
    ∃ o, deleteLoop r b (text n) io ds.length cs.length = some o ∧
      if (ds.map Cell.record).any (Record.named n) then
        afterDelete r (cs ++ swapErase (fun c => Record.named n c.record) ds) io o
      else o = .back b (io.print notFound) := by
  induction ds generalizing cs with
  | nil => exact ⟨_, rfl, rfl⟩
  | cons c ds ih =>
    rw [List.length_cons, deleteLoop, string_name h, Option.bind_some, List.map_cons,
      List.any_cons, swapErase]
    by_cases hn : text c.name.token = text n
    · -- the first record with this name
      have hc : Record.named n c.record = true := decide_eq_true hn
      obtain ⟨o, ho, hafter⟩ := deleteAt_cell h r io
      refine ⟨o, by rw [if_pos hn, ho], ?_⟩
      rwa [hc, Bool.true_or, if_pos rfl, if_pos rfl]
    · have hc : Record.named n c.record = false := decide_eq_false hn
      obtain ⟨o, ho, hafter⟩ := ih h.assoc
      rw [List.length_append, List.length_singleton] at ho
      refine ⟨o, by rw [if_neg hn, ho], ?_⟩
      rw [hc, Bool.false_or, if_neg Bool.false_ne_true]
      rwa [List.append_assoc, List.singleton_append] at hafter

/-! ### Adding -/

/-- A token is read into a field, whatever the field holds. -/
theorem scanInto_field {io io' : Io} {w old : Mem} (pre post : Mem)
    (h : token io = some (w, io')) (hold : old.length = nameLen) :
    ∃ f : Field, f.token = w ∧
      scanInto (pre ++ old ++ post) pre.length io = some (pre ++ f.bytes ++ post, io') := by
  obtain ⟨hw, ⟨hne, hlt⟩, rfl⟩ := token_eq_some.1 h
  refine ⟨⟨w, old.drop (w.length + 1), by rw [List.length_drop, hold]; omega⟩, rfl, ?_⟩
  have hsplit : pre ++ old ++ post
      = pre ++ old.take (w.length + 1) ++ (old.drop (w.length + 1) ++ post) := by
    rw [List.append_assoc, List.append_assoc, ← List.append_assoc (old.take _),
      List.take_append_drop]
  have hwrite : write (pre ++ old.take (w.length + 1) ++ (old.drop (w.length + 1) ++ post))
      pre.length (w ++ [0]) = some (pre ++ (w ++ [0]) ++ (old.drop (w.length + 1) ++ post)) := by
    refine write_append ?_
    rw [List.length_append, List.length_singleton, List.length_take, hold]
    omega
  unfold scanInto
  dsimp only
  rw [hw, if_neg hne, hsplit, hwrite, Field.bytes]
  simp

/-- Three tokens are read into the new cell. -/
theorem add_cell {cs : List Cell} {b : Book} (h : Stores cs b) (fresh : ℕ → UInt8)
    {io io₁ io₂ io₃ : Io} {name secondName tel : List UInt8}
    (hname : token (io.print askName) = some (name, io₁))
    (hsecond : token (io₁.print askSecondName) = some (secondName, io₂))
    (htel : token (io₂.print askTel) = some (tel, io₃)) :
    ∃ c b', c.record = ⟨name, secondName, tel⟩ ∧
      add (.block fresh) b io = some (.back b' io₃) ∧ Stores (cs ++ [c]) b' := by
  obtain ⟨f, g, e, hf, hg, he, hgrow⟩ := realloc_grow h fresh
  -- the fields are filled from the left
  obtain ⟨c₁, hc₁, h₁⟩ := scanInto_field (cs.flatMap Cell.bytes) (g ++ e) hname hf
  obtain ⟨c₂, hc₂, h₂⟩ := scanInto_field (cs.flatMap Cell.bytes ++ c₁.bytes) e hsecond hg
  obtain ⟨c₃, hc₃, h₃⟩ := scanInto_field (cs.flatMap Cell.bytes ++ c₁.bytes ++ c₂.bytes) [] htel he
  have hlen₂ : (cs.flatMap Cell.bytes ++ c₁.bytes).length = secondNameAt b.count := by
    rw [List.length_append, length_cells, c₁.length_bytes, h.count, secondNameAt]
  have hlen₃ : (cs.flatMap Cell.bytes ++ c₁.bytes ++ c₂.bytes).length = telAt b.count := by
    rw [List.length_append, hlen₂, c₂.length_bytes, secondNameAt, telAt]
    omega
  rw [length_cells, ← h.count] at h₁
  rw [hlen₂] at h₂
  rw [hlen₃] at h₃
  simp only [List.append_assoc, List.append_nil] at h₁ h₂ h₃ hgrow
  refine ⟨⟨c₁, c₂, c₃⟩,
    ⟨some ((cs ++ [(⟨c₁, c₂, c₃⟩ : Cell)]).flatMap Cell.bytes), b.count + 1⟩, ?_, ?_,
    ⟨by simp [h.count], rfl⟩⟩
  · rw [Cell.record, hc₁, hc₂, hc₃]
  · unfold add
    rw [hgrow]
    simp only [h₁, h₂, h₃, Option.bind_some, Option.map_some]
    simp [Cell.bytes]

/-! ### The operations -/

theorem add_follows (r : Realloc) : ExitFollows Holds (bag r).add (ops r).add := by
  rintro l b io o ⟨cs, rfl, h⟩ hl
  cases r with
  | null =>
    cases hl
    exact ⟨_, rfl, .exit _⟩
  | block fresh =>
    simp only [bag, insert, Realloc.failed, append, if_neg Bool.false_ne_true] at hl
    obtain ⟨x, hx, rfl⟩ := Option.map_eq_some_iff.1 hl
    obtain ⟨⟨name, io₁⟩, hname, hx⟩ := Option.bind_eq_some_iff.1 hx
    obtain ⟨⟨secondName, io₂⟩, hsecond, hx⟩ := Option.bind_eq_some_iff.1 hx
    obtain ⟨⟨tel, io₃⟩, htel, rfl⟩ := Option.map_eq_some_iff.1 hx
    obtain ⟨c, b', hc, hadd, hb⟩ := add_cell h fresh hname hsecond htel
    exact ⟨_, hadd, .back ⟨cs ++ [c], by rw [List.map_append, List.map_singleton, hc], hb⟩ _⟩

theorem delete_follows (r : Realloc) : ExitFollows Holds (bag r).delete (ops r).delete := by
  rintro l b io o ⟨cs, rfl, h⟩ hl
  obtain ⟨⟨name, io₁⟩, hname, rfl⟩ := Option.map_eq_some_iff.1 hl
  have hall : Stores ([] ++ cs) b := h
  obtain ⟨o', ho', hloop⟩ := deleteLoop_cells hall r name io₁
  have hdelete : delete r b io = some o' := by
    unfold delete
    rw [scanName_token hname, Option.bind_some, h.count]
    exact ho'
  refine ⟨o', hdelete, ?_⟩
  have hmap : swapErase (Record.named name) (cs.map Cell.record)
      = (swapErase (fun c => Record.named name c.record) cs).map Cell.record :=
    swapErase_map _ _ _
  dsimp only
  split_ifs at hloop ⊢ with hany hfail
  · rw [hmap, ne_eq, List.map_eq_nil_iff] at hfail
    rw [List.nil_append, afterDelete, if_pos hfail] at hloop
    exact hloop ▸ .exit _
  · rw [hmap, ne_eq, List.map_eq_nil_iff] at hfail
    rw [List.nil_append, afterDelete, if_neg hfail] at hloop
    obtain ⟨b', rfl, hb⟩ := hloop
    exact .back ⟨_, hmap, hb⟩ _
  · subst hloop
    exact .back ⟨cs, rfl, h⟩ _

theorem search_follows (r : Realloc) : ExitFollows Holds (bag r).search (ops r).search := by
  rintro l b io o ⟨cs, rfl, h⟩ hl
  obtain ⟨x, hx, rfl⟩ := Option.map_eq_some_iff.1 hl
  obtain ⟨⟨name, io₁⟩, hname, rfl⟩ := Option.map_eq_some_iff.1 hx
  have hall : Stores ([] ++ cs) b := h
  have hloop := searchLoop_cells hall name io₁
  refine ⟨.back b _, ?_, .back ⟨cs, rfl, h⟩ _⟩
  unfold ops search
  dsimp only
  rw [scanName_token hname, Option.bind_some, h.count]
  exact congrArg (Option.map (Outcome.back b)) hloop

theorem print_follows (r : Realloc) : ExitFollows Holds (bag r).print (ops r).print := by
  rintro l b io o ⟨cs, rfl, h⟩ hl
  cases hl
  have hall : Stores ([] ++ cs) b := h
  have hloop := printLoop_cells hall io
  refine ⟨.back b _, ?_, .back ⟨cs, rfl, h⟩ _⟩
  unfold ops print
  dsimp only
  rw [h.count]
  exact congrArg (Option.map (Outcome.back b)) hloop

/-- The program does what the bag does. -/
theorem simulates (r : Realloc) : ExitSimulates Holds (bag r) (ops r) :=
  ⟨add_follows r, delete_follows r, search_follows r, print_follows r⟩

/-! ### Sessions -/

/-- The place of a record in the block. -/
theorem Stores.read_cell {cs : List Cell} {b : Book} (h : Stores cs b) {i : ℕ} {c : Cell}
    (hc : cs[i]? = some c) : read (b.list.getD []) (nameAt i) recordSize = some c.bytes := by
  obtain ⟨hi, rfl⟩ := List.getElem?_eq_some_iff.1 hc
  have hcs : cs = cs.take i ++ cs[i] :: cs.drop (i + 1) := by
    rw [← List.drop_eq_getElem_cons hi, List.take_append_drop]
  have hread := Heap.read_cell (cs.take i) (cs.drop (i + 1)) cs[i]
  rwa [List.length_take_of_le hi.le, ← hcs, ← h.list] at hread

theorem Stores.length_block {cs : List Cell} {b : Book} (h : Stores cs b) :
    (b.list.getD []).length = recordSize * b.count := by
  rw [h.list, length_cells, h.count]
  rfl

theorem Stores.count_of_null {cs : List Cell} {b : Book} (h : Stores cs b) (hnull : b.list = none) :
    b.count = 0 := by
  have hlen := h.length_block
  rw [hnull, Option.getD_none, List.length_nil] at hlen
  simp only [recordSize, nameLen] at hlen
  omega

/-- **The book on the heap is a bag of records.**  As long as every token that is typed has 1 to 9
bytes, and whatever `realloc` does, the program stays inside its block, reads the same input and
prints the same output as the bag.  Back in the menu the block has room for `count` records, NULL
stands for a book without records only, and the places are the records of the bag.  Up to the order,
what a deletion takes out of the bag is the first record with the name, and nothing else. -/
theorem bag_session {choice : ℤ} {input : List UInt8} {rs : List Realloc}
    {r : State (List Record)} (h : run bagStep (start [] choice input) rs = some r) :
    ∃ s, run step (start empty choice input) rs = some s ∧
      s.io = r.io ∧ s.choice = r.choice ∧ s.running = r.running ∧
      (s.running = true →
        s.book.count = r.book.length ∧
        (s.book.list.getD []).length = recordSize * s.book.count ∧
        (s.book.list = none → s.book.count = 0) ∧
        ∀ i x, r.book[i]? = some x → ∃ c : Cell, c.record = x ∧
          read (s.book.list.getD []) (nameAt i) recordSize = some c.bytes) ∧
      ∀ n, (swapErase (Record.named n) r.book).Perm (r.book.eraseP (Record.named n)) := by
  have hstart : RelatedWhile Holds (start [] choice input) (start empty choice input) :=
    ⟨fun _ => holds_empty, rfl, rfl, rfl⟩
  obtain ⟨s, hs, hbook, hchoice, hio, hrunning⟩ := run_turn_simulates simulates hstart h
  refine ⟨s, hs, hio, hchoice, hrunning, fun hrun => ?_, fun n => swapErase_perm _ _⟩
  obtain ⟨cs, hcs, hstores⟩ := hbook (hrunning.symm.trans hrun)
  refine ⟨?_, hstores.length_block, hstores.count_of_null, fun i x hx => ?_⟩
  · rw [hstores.count, hcs, List.length_map]
  · rw [hcs, List.getElem?_map] at hx
    obtain ⟨c, hc, rfl⟩ := Option.map_eq_some_iff.1 hx
    exact ⟨c, rfl, hstores.read_cell hc⟩

/-- The input `1 a b c 1 d e f 2 a 2 d 1 g h i`. -/
def emptiedInput : List UInt8 :=
  [49, 32, 97, 32, 98, 32, 99, 32, 49, 32, 100, 32, 101, 32, 102, 32, 50, 32, 97, 32, 50, 32,
   100, 32, 49, 32, 103, 32, 104, 32, 105]

/-- The second deletion gets NULL. -/
def emptiedAnswers : List Realloc :=
  [.block fun _ => 7, .block fun _ => 7, .block fun _ => 7, .null, .block fun _ => 7]

/-- The book becomes empty and is used again. -/
theorem bag_session_emptied :
    ∃ r s, run bagStep (start [] 0 emptiedInput) emptiedAnswers = some r ∧
      run step (start empty 0 emptiedInput) emptiedAnswers = some s ∧
      s.io = r.io ∧ s.book.count = 1 ∧
      ∃ c : Cell, c.record = ⟨[103], [104], [105]⟩ ∧
        read (s.book.list.getD []) (nameAt 0) recordSize = some c.bytes := by
  obtain ⟨r, hr, hbook, hrunning⟩ :
      ∃ r, run bagStep (start [] 0 emptiedInput) emptiedAnswers = some r ∧
        r.book = [⟨[103], [104], [105]⟩] ∧ r.running = true :=
    ⟨_, rfl, by decide +kernel, by decide +kernel⟩
  obtain ⟨s, hs, hio, -, hrun, hbag, -⟩ := bag_session hr
  obtain ⟨hcount, -, -, hcells⟩ := hbag (hrun.trans hrunning)
  exact ⟨r, s, hr, hs, hio, by rw [hcount, hbook]; rfl, hcells 0 _ (by rw [hbook]; rfl)⟩

end Heap
end AddressBook
end PosixHw
