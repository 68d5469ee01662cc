import PosixHw.AddressBook.Menu
import PosixHw.Base.CString

/-!
# The address book in a fixed array

The program `structs/task.c`.  The array `list` is the sequence of its 3000 bytes: 100 records of
three fields of 10 bytes.  A copy or a string outside of it is undefined, and so are a query of more
than 9 bytes and one that is missing, since the functions read it from an array of 10 bytes that
they do not initialise.
-/

namespace PosixHw
namespace AddressBook
namespace Array

open Scanf CString

/-- `MAX_ABONENTS`. -/
def maxAbonents : ℕ := 100

/-- `sizeof(struct abonent)`. -/
def recordSize : ℕ := 3 * nameLen

/-- The addresses of `list[i].name`, `list[i].second_name` and `list[i].tel`. -/
def nameAt (i : ℕ) : ℕ := recordSize * i
def secondNameAt (i : ℕ) : ℕ := nameAt i + nameLen
def telAt (i : ℕ) : ℕ := nameAt i + 2 * nameLen

/-- The text for a full array. -/
def full : Out := .text "Справочник переполнен. Невозможно добавить больше абонентов.\n"

/-- The variables `list` and `abonents_count`. -/
structure Book where
  list : Mem
  count : ℕ

/-- `list` is all zeros. -/
def empty : Book := ⟨List.replicate (recordSize * maxAbonents) 0, 0⟩

/-- `scanf("%s", p)` for a pointer `p` into the array. -/
def scanInto (m : Mem) (p : ℕ) (io : Io) : Option (Mem × Io) :=
  let r := scanStr io.input
  if r.1 = [] then some (m, { io with input := r.2 })
  else (write m p (r.1 ++ [0])).map fun m => (m, { io with input := r.2 })

/-- `scanf("%s", name)` for the local array `name`, and the string that it then holds. -/
def scanName (io : Io) : Option (List UInt8 × Io) :=
  let r := scanStr io.input
  if r.1 = [] ∨ nameLen < r.1.length + 1 then none
  else some (str (r.1 ++ [0]) 0, { io with input := r.2 })

/-- `add_abonent`. -/
def add (b : Book) (io : Io) : Option (Book × Io) :=
  if maxAbonents ≤ b.count then some (b, io.print full)
  else
    (scanInto b.list (nameAt b.count) (io.print askName)).bind fun (m, io) =>
      (scanInto m (secondNameAt b.count) (io.print askSecondName)).bind fun (m, io) =>
        (scanInto m (telAt b.count) (io.print askTel)).map fun (m, io) => (⟨m, b.count + 1⟩, io)

/-- Lines 84–86: `list[j] = list[j + 1]`, for `k` values of `j`. -/
def shift : ℕ → ℕ → Mem → Option Mem
  | 0, _, m => some m
  | k + 1, j, m =>
    (read m (nameAt (j + 1)) recordSize).bind fun r => (write m (nameAt j) r).bind (shift k (j + 1))

/-- The loop of lines 82–92 from `i` on, for at most `k` turns. -/
def deleteLoop (b : Book) (name : List UInt8) (io : Io) : ℕ → ℕ → Option (Book × Io)
  | 0, _ => some (b, io.print notFound)
  | k + 1, i =>
    if str b.list (nameAt i) = name then
      (shift (b.count - 1 - i) i b.list).bind fun m =>
        (write m (nameAt (b.count - 1)) (List.replicate recordSize 0)).map fun m =>
          (⟨m, b.count - 1⟩, io.print deleted)
    else deleteLoop b name io k (i + 1)

/-- `delete_abonent`. -/
def delete (b : Book) (io : Io) : Option (Book × Io) :=
  (scanName (io.print askDelete)).bind fun (name, io) => deleteLoop b name io b.count 0

/-- The `printf` of `list[i]`. -/
def printRecord (m : Mem) (i : ℕ) (io : Io) : Io :=
  io.print (.record (str m (nameAt i)) (str m (secondNameAt i)) (str m (telAt i)))

/-- The loop of lines 101–106 from `i` on, for `k` turns. -/
def searchLoop (m : Mem) (name : List UInt8) : ℕ → ℕ → Io → Io
  | 0, _, io => io
  | k + 1, i, io =>
    searchLoop m name k (i + 1) (if str m (nameAt i) = name then printRecord m i io else io)

/-- `search_abonent`. -/
def search (b : Book) (io : Io) : Option (Book × Io) :=
  (scanName (io.print askSearch)).map fun (name, io) => (b, searchLoop b.list name b.count 0 io)

/-- The loop of lines 110–113 from `i` on, for `k` turns. -/
def printLoop (m : Mem) : ℕ → ℕ → Io → Io
  | 0, _, io => io
  | k + 1, i, io => printLoop m k (i + 1) (printRecord m i io)

/-- `print_abonents`. -/
def print (b : Book) (io : Io) : Option (Book × Io) := some (b, printLoop b.list b.count 0 io)

/-- The operations of the program. -/
def ops : Ops Book where
  add := add
  delete := delete
  search := search
  print := print

end Array
end AddressBook
end PosixHw
