import PosixHw.AddressBook.Array
import PosixHw.AddressBook.Directory

/-!
# The address book in a fixed array is an ordered directory

The array holds the records of the directory one after the other, each field filled up with NULs,
and then only NULs (`Holds`).

* Deleting moves every later record one place to the left and clears the last place
  (`delete_record`), so the place where the next record is typed is always clear.
* Adding fills three clear fields from the left (`add_record`).
* `simulates` collects the operations; `directory_session` is about whole sessions.
-/

namespace PosixHw
namespace AddressBook
namespace Array

open Run Scanf CString

/-! ### The bytes of a record -/

/-- A field: the token and the NULs after it. -/
def pad (w : List UInt8) : List UInt8 := w ++ List.replicate (nameLen - w.length) 0

/-- The bytes of a record. -/
def encode (r : Record) : List UInt8 := pad r.name ++ pad r.secondName ++ pad r.tel

/-- The tokens of the record fit into their fields. -/
structure Fitting (r : Record) : Prop where
  name : r.name.length < nameLen
  secondName : r.secondName.length < nameLen
  tel : r.tel.length < nameLen

/-- The bytes of the free places when `n` places are taken. -/
def free (n : ℕ) : Mem := List.replicate (recordSize * (maxAbonents - n)) 0

/-- The array holds the records `l` and nothing else. -/
structure Holds (l : List Record) (b : Book) : Prop where
  count : b.count = l.length
  le : l.length ≤ maxAbonents
  fitting : ∀ r ∈ l, Fitting r
  list : b.list = l.flatMap encode ++ free l.length

theorem holds_empty : Holds [] empty := ⟨rfl, Nat.zero_le _, by simp, rfl⟩

/-- The first of the free places. -/
theorem free_eq {n : ℕ} (h : n < maxAbonents) :
    free n = List.replicate recordSize 0 ++ free (n + 1) := by
  obtain ⟨k, hk⟩ : ∃ k, maxAbonents = n + 1 + k := ⟨maxAbonents - (n + 1), by omega⟩
  have hn : maxAbonents - n = k + 1 := by omega
  have hn' : maxAbonents - (n + 1) = k := by omega
  rw [free, free, hn, hn', List.replicate_append_replicate, Nat.mul_succ, Nat.add_comm]

theorem length_pad {w : List UInt8} (h : w.length < nameLen) : (pad w).length = nameLen := by
  rw [pad, List.length_append, List.length_replicate]
  omega

/-- The NUL that ends the string, and the ones after it. -/
theorem pad_eq {w : List UInt8} (h : w.length < nameLen) :
    pad w = w ++ 0 :: List.replicate (nameLen - w.length - 1) 0 := by
  rw [pad, ← List.replicate_succ]
  congr 2
  omega

theorem length_encode {r : Record} (h : Fitting r) : (encode r).length = recordSize := by
  rw [encode, List.length_append, List.length_append, length_pad h.name, length_pad h.secondName,
    length_pad h.tel]
  rfl

theorem nameAt_succ (i : ℕ) : nameAt (i + 1) = nameAt i + recordSize := Nat.mul_succ _ _

theorem length_records {l : List Record} (h : ∀ r ∈ l, Fitting r) :
    (l.flatMap encode).length = nameAt l.length := by
  induction l with
  | nil => rfl
  | cons r l ih =>
    rw [List.flatMap_cons, List.length_append, length_encode (h r List.mem_cons_self),
      ih fun r hr => h r (List.mem_cons_of_mem _ hr), List.length_cons, nameAt_succ, Nat.add_comm]

/-- The string in a field is the text of its token. -/
theorem str_pad {pre post w : List UInt8} (h : w.length < nameLen) :
    str (pre ++ pad w ++ post) pre.length = text w := by
  rw [pad_eq h, List.append_assoc, str, List.drop_left, List.append_assoc, List.cons_append]
  exact takeWhile_nul w _

/-! ### One record of the array -/

section Record

variable {l₁ l₂ : List Record} {r : Record} {b : Book}

/-- The bytes around a record. -/
theorem Holds.split (h : Holds (l₁ ++ r :: l₂) b) :
    ∃ post, b.list = l₁.flatMap encode ++ pad r.name ++ pad r.secondName ++ pad r.tel ++ post ∧
      (l₁.flatMap encode).length = nameAt l₁.length ∧ Fitting r := by
  refine ⟨l₂.flatMap encode ++ free (l₁ ++ r :: l₂).length, ?_,
    length_records fun x hx => h.fitting x (List.mem_append_left _ hx), h.fitting r (by simp)⟩
  rw [h.list, List.flatMap_append, List.flatMap_cons, encode]
  simp only [List.append_assoc]

theorem str_name (h : Holds (l₁ ++ r :: l₂) b) : str b.list (nameAt l₁.length) = text r.name := by
  obtain ⟨post, hlist, hlen, hr⟩ := h.split
  rw [hlist, ← hlen]
  have hassoc : l₁.flatMap encode ++ pad r.name ++ pad r.secondName ++ pad r.tel ++ post
      = l₁.flatMap encode ++ pad r.name ++ (pad r.secondName ++ pad r.tel ++ post) := by
    simp only [List.append_assoc]
  rw [hassoc, str_pad hr.name]

theorem str_secondName (h : Holds (l₁ ++ r :: l₂) b) :
    str b.list (secondNameAt l₁.length) = text r.secondName := by
  obtain ⟨post, hlist, hlen, hr⟩ := h.split
  have hassoc : l₁.flatMap encode ++ pad r.name ++ pad r.secondName ++ pad r.tel ++ post
      = (l₁.flatMap encode ++ pad r.name) ++ pad r.secondName ++ (pad r.tel ++ post) := by
    simp only [List.append_assoc]
  have hpre : secondNameAt l₁.length = (l₁.flatMap encode ++ pad r.name).length := by
    rw [List.length_append, hlen, length_pad hr.name]
    rfl
  rw [hlist, hassoc, hpre, str_pad hr.secondName]

theorem str_tel (h : Holds (l₁ ++ r :: l₂) b) : str b.list (telAt l₁.length) = text r.tel := by
  obtain ⟨post, hlist, hlen, hr⟩ := h.split
  have hpre : telAt l₁.length = (l₁.flatMap encode ++ pad r.name ++ pad r.secondName).length := by
    rw [List.length_append, List.length_append, hlen, length_pad hr.name, length_pad hr.secondName,
      telAt]
    omega
  rw [hlist, hpre, str_pad hr.tel]

theorem printRecord_eq (h : Holds (l₁ ++ r :: l₂) b) (io : Io) :
    printRecord b.list l₁.length io = io.print r.shown := by
  rw [printRecord, str_name h, str_secondName h, str_tel h]
  rfl

end Record

/-! ### Searching and printing -/

/-- Moves the border between the records before `i` and those from `i` on. -/
theorem Holds.assoc {l₁ l₂ : List Record} {r : Record} {b : Book} (h : Holds (l₁ ++ r :: l₂) b) :
    Holds ((l₁ ++ [r]) ++ l₂) b := by
  rwa [List.append_assoc, List.singleton_append]

theorem printAll_cons (io : Io) (o : Out) (os : List Out) :
    io.printAll (o :: os) = (io.print o).printAll os := by
  rw [Io.printAll, Io.print, Io.printAll, List.append_assoc]
  rfl

theorem printLoop_records {l₁ l₂ : List Record} {b : Book} (h : Holds (l₁ ++ l₂) b) (io : Io) :
    printLoop b.list l₂.length l₁.length io = io.printAll (l₂.map Record.shown) := by
  induction l₂ generalizing l₁ io with
  | nil => simp [printLoop, Io.printAll]
  | cons r l₂ ih =>
    have hnext := ih h.assoc (io.print r.shown)
    rw [List.length_append, List.length_singleton] at hnext
    rw [List.length_cons, printLoop, printRecord_eq h, hnext, List.map_cons, printAll_cons]

theorem searchLoop_records {l₁ l₂ : List Record} {b : Book} (h : Holds (l₁ ++ l₂) b)
    (n : List UInt8) (io : Io) :
    searchLoop b.list (text n) l₂.length l₁.length io
      = io.printAll ((l₂.filter (Record.named n)).map Record.shown) := by
  induction l₂ generalizing l₁ io with
  | nil => simp [searchLoop, Io.printAll]
  | cons r l₂ ih =>
    have hnext := fun io => ih h.assoc io
    simp only [List.length_append, List.length_singleton] at hnext
    rw [List.length_cons, searchLoop, str_name h, hnext]
    split_ifs with hn
    · have hr : Record.named n r = true := decide_eq_true hn
      rw [List.filter_cons_of_pos hr, List.map_cons, printRecord_eq h, printAll_cons]
    · have hr : ¬ Record.named n r = true := by simpa [Record.named] using hn
      rw [List.filter_cons_of_neg hr]

/-! ### Deleting -/

/-- After the copies the records have moved up by one place, and some bytes are left over. -/
theorem shift_records {pre : Mem} (post : Mem) {r : Record} {l : List Record} {j : ℕ}
    (hpre : pre.length = nameAt j) (hr : Fitting r) (hl : ∀ x ∈ l, Fitting x) :
    ∃ rest, rest.length = recordSize ∧
      shift l.length j (pre ++ encode r ++ l.flatMap encode ++ post)
        = some (pre ++ l.flatMap encode ++ rest ++ post) := by
  induction l generalizing pre r j with
  | nil => exact ⟨encode r, length_encode hr, by simp [shift]⟩
  | cons x l ih =>
    have hx := hl x List.mem_cons_self
    have hpre' : (pre ++ encode x).length = nameAt (j + 1) := by
      rw [List.length_append, hpre, length_encode hx, nameAt_succ]
    obtain ⟨rest, hrest, hshift⟩ := ih hpre' hx fun y hy => hl y (List.mem_cons_of_mem _ hy)
    refine ⟨rest, hrest, ?_⟩
    have hread : read (pre ++ encode r ++ (x :: l).flatMap encode ++ post) (nameAt (j + 1))
        recordSize = some (encode x) := by
      have h : read ((pre ++ encode r) ++ encode x ++ (l.flatMap encode ++ post))
          (pre ++ encode r).length (encode x).length = some (encode x) := read_append
      rwa [length_encode hx, List.length_append, hpre, length_encode hr, ← nameAt_succ,
        List.append_assoc _ (encode x), ← List.append_assoc (encode x), ← List.append_assoc] at h
    have hwrite : write (pre ++ encode r ++ (x :: l).flatMap encode ++ post) (nameAt j) (encode x)
        = some (pre ++ encode x ++ encode x ++ l.flatMap encode ++ post) := by
      have h : write (pre ++ encode r ++ (encode x ++ l.flatMap encode ++ post)) pre.length
          (encode x) = some (pre ++ encode x ++ (encode x ++ l.flatMap encode ++ post)) :=
        write_append ((length_encode hx).trans (length_encode hr).symm)
      rw [hpre] at h
      simpa only [List.flatMap_cons, List.append_assoc] using h
    rw [List.length_cons, shift, hread, Option.bind_some, hwrite, Option.bind_some, hshift]
    simp only [List.flatMap_cons, List.append_assoc]

/-- The copies of a deletion and the clearing of the last place. -/
theorem delete_record {l₁ l₂ : List Record} {r : Record} {b : Book} (h : Holds (l₁ ++ r :: l₂) b) :
    ∃ m m', shift (b.count - 1 - l₁.length) l₁.length b.list = some m ∧
      write m (nameAt (b.count - 1)) (List.replicate recordSize 0) = some m' ∧
      Holds (l₁ ++ l₂) ⟨m', b.count - 1⟩ := by
  have hfit : ∀ x ∈ l₁ ++ l₂, Fitting x := fun x hx => h.fitting x (by
    rcases List.mem_append.1 hx with hx | hx <;> simp [hx])
  have hlen : (l₁ ++ r :: l₂).length = (l₁ ++ l₂).length + 1 := by
    simp only [List.length_append, List.length_cons, Nat.add_assoc]
  have hcount : b.count - 1 = (l₁ ++ l₂).length := by rw [h.count, hlen, Nat.add_sub_cancel]
  have hmoves : b.count - 1 - l₁.length = l₂.length := by
    rw [hcount, List.length_append, Nat.add_sub_cancel_left]
  have hlt : (l₁ ++ l₂).length < maxAbonents := by
    have hle := h.le
    omega
  obtain ⟨rest, hrest, hshift⟩ := shift_records (free (l₁ ++ r :: l₂).length)
    (length_records fun x hx => hfit x (List.mem_append_left _ hx)) (h.fitting r (by simp))
    fun x hx => hfit x (List.mem_append_right _ hx)
  have hwrite : write ((l₁ ++ l₂).flatMap encode ++ rest ++ free (l₁ ++ r :: l₂).length)
      ((l₁ ++ l₂).flatMap encode).length (List.replicate recordSize 0)
      = some ((l₁ ++ l₂).flatMap encode ++ List.replicate recordSize 0
        ++ free (l₁ ++ r :: l₂).length) :=
    write_append (by rw [List.length_replicate, hrest])
  refine ⟨(l₁ ++ l₂).flatMap encode ++ rest ++ free (l₁ ++ r :: l₂).length,
    (l₁ ++ l₂).flatMap encode ++ free (l₁ ++ l₂).length, ?_, ?_, ⟨hcount, hlt.le, hfit, rfl⟩⟩
  · rw [hmoves, h.list, List.flatMap_append, List.flatMap_cons, List.flatMap_append]
    simpa only [List.append_assoc] using hshift
  · rw [length_records hfit, List.append_assoc _ (List.replicate _ _), hlen, ← free_eq hlt]
      at hwrite
    rwa [hcount, hlen]

/-- The loop of `delete_abonent` from the records `l₂` on. -/
theorem deleteLoop_records {l₁ l₂ : List Record} {b : Book} (h : Holds (l₁ ++ l₂) b)
    (n : List UInt8) (io : Io) :
    ∃ b', deleteLoop b (text n) io l₂.length l₁.length
        = some (b', io.print (if l₂.any (Record.named n) then deleted else notFound)) ∧
      Holds (l₁ ++ l₂.eraseP (Record.named n)) b' := by
  induction l₂ generalizing l₁ with
  | nil => exact ⟨b, rfl, h⟩
  | cons r l₂ ih =>
    rw [List.length_cons, deleteLoop, str_name h, List.any_cons, List.eraseP_cons]
    by_cases hn : text r.name = text n
    · -- the first record with this name
      have hr : Record.named n r = true := decide_eq_true hn
      obtain ⟨m, m', hm, hm', hb⟩ := delete_record h
      refine ⟨⟨m', b.count - 1⟩, ?_, ?_⟩
      · rw [if_pos hn, hm, Option.bind_some, hm', hr]
        rfl
      · rwa [hr, cond_true]
    · have hr : Record.named n r = false := decide_eq_false hn
      obtain ⟨b', hb', hb⟩ := ih h.assoc
      rw [List.length_append, List.length_singleton] at hb'
      rw [List.append_assoc, List.singleton_append] at hb
      exact ⟨b', by rw [if_neg hn, hb', hr, Bool.false_or], by rwa [hr, cond_false]⟩

/-! ### Tokens -/

theorem token_eq_some {io io' : Io} {w : List UInt8} :
    token io = some (w, io') ↔ (scanStr io.input).1 = w ∧ (w ≠ [] ∧ w.length < nameLen) ∧
      io' = { io with input := (scanStr io.input).2 } := by
  unfold token
  dsimp only
  split_ifs with h
  · constructor
    · intro hs
      cases hs
      exact ⟨rfl, h, rfl⟩
    · rintro ⟨rfl, -, rfl⟩
      rfl
  · constructor
    · intro hs
      cases hs
    · rintro ⟨rfl, hw, -⟩
      exact absurd hw h

/-- A query is read into the local array. -/
theorem scanName_token {io io' : Io} {w : List UInt8} (h : token io = some (w, io')) :
    scanName io = some (text w, io') := by
  obtain ⟨rfl, ⟨hne, hlt⟩, rfl⟩ := token_eq_some.1 h
  have hstr : str ((scanStr io.input).1 ++ [0]) 0 = text (scanStr io.input).1 := takeWhile_nul _ []
  unfold scanName
  dsimp only
  rw [if_neg (by rw [not_or]; exact ⟨hne, by omega⟩), hstr]

/-- An empty field. -/
def blank : Mem := List.replicate nameLen 0

/-- A token is read into an empty field. -/
theorem scanInto_token {io io' : Io} {w pre post : List UInt8} (h : token io = some (w, io')) :
    scanInto (pre ++ blank ++ post) pre.length io
      = some (pre ++ pad w ++ post, io') := by
  obtain ⟨hw, ⟨hne, hlt⟩, rfl⟩ := token_eq_some.1 h
  have hpad : pad w = (w ++ [0]) ++ List.replicate (nameLen - w.length - 1) 0 := by
    rw [pad_eq hlt, List.append_assoc, List.singleton_append]
  have hblank : blank
      = List.replicate (w.length + 1) 0 ++ List.replicate (nameLen - w.length - 1) 0 := by
    rw [List.replicate_append_replicate, blank]
    congr 1
    omega
  have hwrite : write (pre ++ List.replicate (w.length + 1) 0
        ++ (List.replicate (nameLen - w.length - 1) 0 ++ post)) pre.length (w ++ [0])
      = some (pre ++ (w ++ [0]) ++ (List.replicate (nameLen - w.length - 1) 0 ++ post)) :=
    write_append (by simp)
  unfold scanInto
  dsimp only
  rw [hw, if_neg hne, hblank, hpad]
  simp only [List.append_assoc] at hwrite ⊢
  rw [hwrite]
  rfl

/-! ### Adding -/

/-- Three tokens are read into the first free place. -/
theorem add_record {l : List Record} {b : Book} (h : Holds l b) (hlt : l.length < maxAbonents)
    {io io₁ io₂ io₃ : Io} {name secondName tel : List UInt8}
    (hname : token (io.print askName) = some (name, io₁))
    (hsecond : token (io₁.print askSecondName) = some (secondName, io₂))
    (htel : token (io₂.print askTel) = some (tel, io₃)) :
    ∃ b', add b io = some (b', io₃) ∧ Holds (l ++ [⟨name, secondName, tel⟩]) b' := by
  have hr : Fitting ⟨name, secondName, tel⟩ :=
    ⟨(token_eq_some.1 hname).2.1.2, (token_eq_some.1 hsecond).2.1.2, (token_eq_some.1 htel).2.1.2⟩
  have hlen := length_records h.fitting
  have hlen₁ : (l.flatMap encode ++ pad name).length = secondNameAt l.length := by
    rw [List.length_append, hlen, length_pad hr.name, secondNameAt]
  have hlen₂ : (l.flatMap encode ++ pad name ++ pad secondName).length = telAt l.length := by
    rw [List.length_append, hlen₁, length_pad hr.secondName, secondNameAt, telAt]
    omega
  have hlist : b.list = l.flatMap encode ++ blank ++ (blank ++ blank ++ free (l.length + 1)) := by
    have hrecord : List.replicate recordSize 0 = blank ++ (blank ++ blank) := rfl
    rw [h.list, free_eq hlt, hrecord]
    simp only [List.append_assoc]
  -- the fields are filled from the left
  have h₁ : scanInto (l.flatMap encode ++ blank ++ (blank ++ blank ++ free (l.length + 1)))
      (l.flatMap encode).length (io.print askName)
      = some (l.flatMap encode ++ pad name ++ (blank ++ blank ++ free (l.length + 1)), io₁) :=
    scanInto_token hname
  have h₂ : scanInto (l.flatMap encode ++ pad name ++ blank ++ (blank ++ free (l.length + 1)))
      (l.flatMap encode ++ pad name).length (io₁.print askSecondName)
      = some (l.flatMap encode ++ pad name ++ pad secondName ++ (blank ++ free (l.length + 1)),
          io₂) :=
    scanInto_token hsecond
  have h₃ : scanInto (l.flatMap encode ++ pad name ++ pad secondName ++ blank
        ++ free (l.length + 1))
      (l.flatMap encode ++ pad name ++ pad secondName).length (io₂.print askTel)
      = some (l.flatMap encode ++ pad name ++ pad secondName ++ pad tel ++ free (l.length + 1),
          io₃) :=
    scanInto_token htel
  rw [hlen] at h₁
  rw [hlen₁] at h₂
  rw [hlen₂] at h₃
  simp only [List.append_assoc] at h₁ h₂ h₃ hlist
  have hlen' : (l ++ [(⟨name, secondName, tel⟩ : Record)]).length = l.length + 1 := by
    rw [List.length_append, List.length_singleton]
  refine ⟨⟨l.flatMap encode ++ (pad name ++ (pad secondName ++ (pad tel ++ free (l.length + 1)))),
    l.length + 1⟩, ?_, ⟨hlen'.symm, hlen' ▸ hlt, ?_, ?_⟩⟩
  · unfold add
    rw [h.count, if_neg (by omega), hlist]
    simp only [h₁, h₂, h₃, Option.bind_some, Option.map_some]
  · intro r hmem
    rcases List.mem_append.1 hmem with hmem | hmem
    · exact h.fitting r hmem
    · exact List.mem_singleton.1 hmem ▸ hr
  · rw [hlen', List.flatMap_append, List.flatMap_singleton, encode]
    simp only [List.append_assoc]

/-! ### The operations -/

theorem add_follows : Follows Holds (directory maxAbonents full).add add := by
  intro l b io l' io' h hl
  by_cases hfull : maxAbonents ≤ l.length
  · -- nothing is read
    simp only [directory, if_pos hfull] at hl
    cases hl
    exact ⟨b, by unfold add; rw [h.count, if_pos hfull], h⟩
  · simp only [directory, if_neg hfull, append] at hl
    obtain ⟨⟨name, io₁⟩, hname, hl⟩ := Option.bind_eq_some_iff.1 hl
    obtain ⟨⟨secondName, io₂⟩, hsecond, hl⟩ := Option.bind_eq_some_iff.1 hl
    obtain ⟨⟨tel, io₃⟩, htel, hl⟩ := Option.map_eq_some_iff.1 hl
    cases hl
    exact add_record h (by omega) hname hsecond htel

theorem delete_follows : Follows Holds (directory maxAbonents full).delete delete := by
  intro l b io l' io' h hl
  obtain ⟨⟨name, io₁⟩, hname, hl⟩ := Option.map_eq_some_iff.1 hl
  dsimp only at hl
  have hall : Holds ([] ++ l) b := h
  obtain ⟨b', hb', hb⟩ : ∃ b', deleteLoop b (text name) io₁ l.length 0
      = some (b', io₁.print (if l.any (Record.named name) then deleted else notFound)) ∧
      Holds (l.eraseP (Record.named name)) b' :=
    deleteLoop_records hall name io₁
  have hdelete : delete b io = deleteLoop b (text name) io₁ l.length 0 := by
    unfold delete
    rw [scanName_token hname, Option.bind_some, h.count]
  split_ifs at hl with hany
  · cases hl
    exact ⟨b', by rw [hdelete, hb', if_pos hany], hb⟩
  · cases hl
    have hnone : ∀ r ∈ l, ¬ Record.named name r = true := by simpa using hany
    rw [List.eraseP_of_forall_not hnone] at hb
    exact ⟨b', by rw [hdelete, hb', if_neg hany], hb⟩

theorem search_follows : Follows Holds (directory maxAbonents full).search search := by
  intro l b io l' io' h hl
  obtain ⟨⟨name, io₁⟩, hname, hl⟩ := Option.map_eq_some_iff.1 hl
  cases hl
  have hall : Holds ([] ++ l) b := h
  have hloop : searchLoop b.list (text name) l.length 0 io₁
      = io₁.printAll ((l.filter (Record.named name)).map Record.shown) :=
    searchLoop_records hall name io₁
  refine ⟨b, ?_, h⟩
  unfold search
  rw [scanName_token hname, Option.map_some, ← hloop, h.count]

theorem print_follows : Follows Holds (directory maxAbonents full).print print := by
  intro l b io l' io' h hl
  cases hl
  have hall : Holds ([] ++ l) b := h
  have hloop : printLoop b.list l.length 0 io = io.printAll (l.map Record.shown) :=
    printLoop_records hall io
  refine ⟨b, ?_, h⟩
  unfold print
  rw [h.count, hloop]

/-- The program does what the directory does. -/
theorem simulates : Simulates Holds (directory maxAbonents full) ops :=
  ⟨add_follows, delete_follows, search_follows, print_follows⟩

/-! ### Sessions -/

/-- The slot of a record. -/
theorem Holds.read_record {l : List Record} {b : Book} (h : Holds l b) {i : ℕ} {r : Record}
    (hr : l[i]? = some r) : read b.list (nameAt i) recordSize = some (encode r) := by
  obtain ⟨hi, rfl⟩ := List.getElem?_eq_some_iff.1 hr
  have hl : l = l.take i ++ l[i] :: l.drop (i + 1) := by
    rw [← List.drop_eq_getElem_cons hi, List.take_append_drop]
  have hpre : ((l.take i).flatMap encode).length = nameAt i := by
    rw [length_records fun x hx => h.fitting x (List.mem_of_mem_take hx),
      List.length_take_of_le hi.le]
  have hread : read ((l.take i).flatMap encode ++ encode l[i]
        ++ ((l.drop (i + 1)).flatMap encode ++ free l.length))
      ((l.take i).flatMap encode).length (encode l[i]).length = some (encode l[i]) :=
    read_append
  rw [hpre, length_encode (h.fitting _ (List.getElem_mem hi))] at hread
  have hlist : b.list = (l.take i).flatMap encode ++ encode l[i]
      ++ ((l.drop (i + 1)).flatMap encode ++ free l.length) := by
    have hflat := congrArg (List.flatMap encode) hl
    rw [List.flatMap_append, List.flatMap_cons] at hflat
    rw [h.list, hflat]
    simp only [List.append_assoc]
  rw [hlist, hread]

/-- A slot after the records. -/
theorem Holds.read_free {l : List Record} {b : Book} (h : Holds l b) {i : ℕ} (hi : l.length ≤ i)
    (hlt : i < maxAbonents) :
    read b.list (nameAt i) recordSize = some (List.replicate recordSize 0) := by
  have hfree : free l.length = List.replicate (recordSize * (i - l.length)) 0 ++ free i := by
    rw [free, free, List.replicate_append_replicate, ← Nat.mul_add]
    congr 2
    omega
  have hpre : (l.flatMap encode ++ List.replicate (recordSize * (i - l.length)) 0).length
      = nameAt i := by
    rw [List.length_append, length_records h.fitting, List.length_replicate, nameAt, nameAt,
      ← Nat.mul_add, Nat.add_sub_cancel' hi]
  have hread : read (l.flatMap encode ++ List.replicate (recordSize * (i - l.length)) 0
        ++ List.replicate recordSize 0 ++ free (i + 1))
      (l.flatMap encode ++ List.replicate (recordSize * (i - l.length)) 0).length
      (List.replicate recordSize (0 : UInt8)).length = some (List.replicate recordSize 0) :=
    read_append
  rw [hpre, List.length_replicate, List.append_assoc, ← free_eq hlt, List.append_assoc, ← hfree,
    ← h.list] at hread
  exact hread

/-- **The array is an ordered directory.**  As long as every token that is typed has 1 to 9 bytes,
the program reads the same input and prints the same output as the directory with room for 100
records.  After every turn of the menu the first slots are the records of the directory, in their
order, and all other slots are zero. -/
theorem directory_session {choice : ℤ} {input : List UInt8} {us : List Unit}
    {r : State (List Record)}
    (h : run (step (directory maxAbonents full)) (start [] choice input) us = some r) :
    ∃ s, run (step ops) (start empty choice input) us = some s ∧
      s.io = r.io ∧ s.choice = r.choice ∧ s.running = r.running ∧
      s.book.count = r.book.length ∧ s.book.count ≤ maxAbonents ∧
      (∀ i x, r.book[i]? = some x →
        read s.book.list (nameAt i) recordSize = some (encode x)) ∧
      ∀ i, s.book.count ≤ i → i < maxAbonents →
        read s.book.list (nameAt i) recordSize = some (List.replicate recordSize 0) := by
  obtain ⟨s, hs, hbook, hchoice, hio, hrunning⟩ :=
    run_simulates simulates (related_start holds_empty choice input) h
  refine ⟨s, hs, hio, hchoice, hrunning, hbook.count, ?_, ?_, ?_⟩
  · rw [hbook.count]
    exact hbook.le
  · intro i x hx
    exact hbook.read_record hx
  · intro i hi hlt
    rw [hbook.count] at hi
    exact hbook.read_free hi hlt

/-- `1 a b c 1 a d e 2 a 4 5`: of two records with one name the first is deleted. -/
theorem directory_session_deleteFirst :
    ∃ r s, run (step (directory maxAbonents full))
        (start [] 0 [49, 32, 97, 32, 98, 32, 99, 32, 49, 32, 97, 32, 100, 32, 101, 32, 50, 32, 97,
          32, 52, 32, 53]) [(), (), (), (), ()] = some r ∧
      run (step ops)
        (start empty 0 [49, 32, 97, 32, 98, 32, 99, 32, 49, 32, 97, 32, 100, 32, 101, 32, 50, 32,
          97, 32, 52, 32, 53]) [(), (), (), (), ()] = some s ∧
      s.io = r.io ∧ s.running = false ∧ s.book.count = 1 ∧
      read s.book.list (nameAt 0) recordSize = some (encode ⟨[97], [100], [101]⟩) := by
  obtain ⟨r, hr, hbook, hrunning⟩ : ∃ r, run (step (directory maxAbonents full))
      (start [] 0 [49, 32, 97, 32, 98, 32, 99, 32, 49, 32, 97, 32, 100, 32, 101, 32, 50, 32, 97, 32,
        52, 32, 53]) [(), (), (), (), ()] = some r ∧ r.book = [⟨[97], [100], [101]⟩] ∧
      r.running = false :=
    ⟨_, rfl, by decide +kernel, by decide +kernel⟩
  obtain ⟨s, hs, hio, -, hrun, hcount, -, hslots, -⟩ := directory_session hr
  exact ⟨r, s, hr, hs, hio, hrun.trans hrunning, by rw [hcount, hbook]; rfl,
    hslots 0 _ (by rw [hbook]; rfl)⟩

end Array
end AddressBook
end PosixHw
