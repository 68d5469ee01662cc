import PosixHw.AddressBook.Menu

/-!
# The address books: what they are for

An ordered directory: a list of records, in the order in which they were added.  Its operations are
defined for as long as every token that is typed has 1 to 9 bytes.

What is compared and shown of a token is its `text`, the bytes before the first NUL.
-/

namespace PosixHw
namespace AddressBook

open Scanf

/-- A record, as it was typed. -/
structure Record where
  name : List UInt8
  secondName : List UInt8
  tel : List UInt8
  deriving DecidableEq

/-- The bytes of a token before the first NUL. -/
def text (w : List UInt8) : List UInt8 := w.takeWhile (· ≠ 0)

/-- The line that shows a record. -/
def Record.shown (r : Record) : Out := .record (text r.name) (text r.secondName) (text r.tel)

/-- The record has the name `n`. -/
def Record.named (n : List UInt8) (r : Record) : Bool := text r.name = text n

/-- A token of 1 to 9 bytes is typed. -/
def token (io : Io) : Option (List UInt8 × Io) :=
  let r := scanStr io.input
  if r.1 ≠ [] ∧ r.1.length < nameLen then some (r.1, { io with input := r.2 }) else none

/-- Prints one after the other. -/
def Io.printAll (io : Io) (os : List Out) : Io := { io with out := io.out ++ os }

/-- A record is typed and becomes the last one. -/
def append (l : List Record) (io : Io) : Option (List Record × Io) :=
  (token (io.print askName)).bind fun (name, io) =>
    (token (io.print askSecondName)).bind fun (secondName, io) =>
      (token (io.print askTel)).map fun (tel, io) => (l ++ [⟨name, secondName, tel⟩], io)

/-- The first record with the name that is typed is removed. -/
def remove (l : List Record) (io : Io) : Option (List Record × Io) :=
  (token (io.print askDelete)).map fun (name, io) =>
    if l.any (Record.named name) then (l.eraseP (Record.named name), io.print deleted)
    else (l, io.print notFound)

/-- The records with the name that is typed are shown. -/
def find (l : List Record) (io : Io) : Option (List Record × Io) :=
  (token (io.print askSearch)).map fun (name, io) =>
    (l, io.printAll ((l.filter (Record.named name)).map Record.shown))

/-- All records are shown. -/
def showAll (l : List Record) (io : Io) : Option (List Record × Io) :=
  some (l, io.printAll (l.map Record.shown))

/-- A directory with room for `capacity` records; it says `full` when there are as many. -/
def directory (capacity : ℕ) (full : Out) : Ops (List Record) where
  add l io := if capacity ≤ l.length then some (l, io.print full) else append l io
  delete := remove
  search := find
  print := showAll

end AddressBook
end PosixHw
