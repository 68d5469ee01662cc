import PosixHw.AddressBook.Array

/-!
# The address book on the heap

The program `dynamic/task.c`.  The pointer `list` is NULL or owns a block, and the block is the
sequence of its bytes.  What `realloc` does is chosen by the environment in every turn of the menu.

A copy outside of the block is undefined, and so is a string that does not end in it, a query of
more than 9 bytes and one that is missing.  The counter is a natural number: an `int` would not hold
it from `2 ^ 31` records on, which need a block of 60 GiB.
-/

namespace PosixHw
namespace AddressBook
namespace Heap

open CString
open AddressBook.Array (recordSize nameAt secondNameAt telAt scanInto scanName)

/-- What `realloc` does: it returns a block, with any bytes behind the common prefix, or NULL. -/
inductive Realloc
  | block (fresh : ℕ → UInt8)
  | null

/-- The variables `list` and `count`. -/
structure Book where
  list : Option Mem
  count : ℕ

/-- `list` is NULL. -/
def empty : Book := ⟨none, 0⟩

/-- The text for NULL. -/
def noMemory : Out := .text "Ошибка выделения памяти.\n"

/-- `realloc(list, n)`. -/
def realloc (list : Option Mem) (n : ℕ) : Realloc → Option Mem
  | .block fresh =>
    let old := (list.getD []).take n
    some (old ++ (List.range (n - old.length)).map fresh)
  | .null => none

/-- `add_abonent`. -/
def add (r : Realloc) (b : Book) (io : Io) : Option (Outcome Book) :=
  match realloc b.list (recordSize * (b.count + 1)) r with
  | none => some (.exit (io.print noMemory))
  | some m =>
    (scanInto m (nameAt b.count) (io.print askName)).bind fun (m, io) =>
      (scanInto m (secondNameAt b.count) (io.print askSecondName)).bind fun (m, io) =>
        (scanInto m (telAt b.count) (io.print askTel)).map fun (m, io) =>
          .back ⟨some m, b.count + 1⟩ io

/-- The string at `p`; it has to end in the block. -/
def string (list : Option Mem) (p : ℕ) : Option (List UInt8) :=
  list.bind fun m => (strlen m p).map fun _ => str m p

/-- Lines 85–92, the record `i` has the name. -/
def deleteAt (r : Realloc) (b : Book) (i : ℕ) (io : Io) : Option (Outcome Book) :=
  b.list.bind fun m =>
    (read m (nameAt (b.count - 1)) recordSize).bind fun last =>
      (write m (nameAt i) last).map fun m =>
        match realloc (some m) (recordSize * (b.count - 1)) r with
        | none =>
          if 0 < b.count - 1 then .exit (io.print noMemory)
          else .back ⟨none, b.count - 1⟩ (io.print deleted)
        | some m => .back ⟨some m, b.count - 1⟩ (io.print deleted)

/-- The loop of lines 83–95 from `i` on, for at most `k` turns. -/
def deleteLoop (r : Realloc) (b : Book) (name : List UInt8) (io : Io) :
    ℕ → ℕ → Option (Outcome Book)
  | 0, _ => some (.back b (io.print notFound))
  | k + 1, i =>
    (string b.list (nameAt i)).bind fun w =>
      if w = name then deleteAt r b i io else deleteLoop r b name io k (i + 1)

/-- `delete_abonent`. -/
def delete (r : Realloc) (b : Book) (io : Io) : Option (Outcome Book) :=
  (scanName (io.print askDelete)).bind fun (name, io) => deleteLoop r b name io b.count 0

/-- The `printf` of `list[i]`. -/
def printRecord (list : Option Mem) (i : ℕ) (io : Io) : Option Io :=
  (string list (nameAt i)).bind fun name =>
    (string list (secondNameAt i)).bind fun secondName =>
      (string list (telAt i)).map fun tel => io.print (.record name secondName tel)

/-- The loop of lines 104–109 from `i` on, for `k` turns. -/
def searchLoop (list : Option Mem) (name : List UInt8) : ℕ → ℕ → Io → Option Io
  | 0, _, io => some io
  | k + 1, i, io =>
    (string list (nameAt i)).bind fun w =>
      (if w = name then printRecord list i io else some io).bind (searchLoop list name k (i + 1))

/-- `search_abonent`. -/
def search (b : Book) (io : Io) : Option (Outcome Book) :=
  (scanName (io.print askSearch)).bind fun (name, io) =>
    (searchLoop b.list name b.count 0 io).map (.back b)

/-- The loop of lines 113–116 from `i` on, for `k` turns. -/
def printLoop (list : Option Mem) : ℕ → ℕ → Io → Option Io
  | 0, _, io => some io
  | k + 1, i, io => (printRecord list i io).bind (printLoop list k (i + 1))

/-- `print_abonent`. -/
def print (b : Book) (io : Io) : Option (Outcome Book) :=
  (printLoop b.list b.count 0 io).map (.back b)

/-- The operations of the program. -/
def ops (r : Realloc) : ExitOps Book where
  add := add r
  delete := delete r
  search := search
  print := print

/-- `free(list)`. -/
def release (b : Book) : Book := { b with list := none }

/-- One turn of the menu. -/
def step (s : State Book) (r : Realloc) : Option (State Book) := turn (ops r) release s

end Heap
end AddressBook
end PosixHw
