import PosixHw.AddressBook.Directory
import PosixHw.AddressBook.Heap
import PosixHw.Base.Lists

/-!
# The address book on the heap: what it is for

A bag of records.  Its list is in some order, and the first record with a name is the one that is
deleted: the last record of the list takes its place.  An operation that gets no memory ends the
program.
-/

namespace PosixHw
namespace AddressBook
namespace Heap

open PosixHw.Lists

/-- The request for memory fails. -/
def Realloc.failed : Realloc → Bool
  | .block _ => false
  | .null => true

/-- A record is typed and put into the bag. -/
def insert (r : Realloc) (l : List Record) (io : Io) : Option (Outcome (List Record)) :=
  if r.failed then some (.exit (io.print noMemory))
  else (append l io).map fun x => .back x.1 x.2

/-- The first record with the name that is typed is taken out. -/
def takeOut (r : Realloc) (l : List Record) (io : Io) : Option (Outcome (List Record)) :=
  (token (io.print askDelete)).map fun (name, io) =>
    if l.any (Record.named name) then
      if r.failed ∧ swapErase (Record.named name) l ≠ [] then .exit (io.print noMemory)
      else .back (swapErase (Record.named name) l) (io.print deleted)
    else .back l (io.print notFound)

/-- The bag; `r` says which requests for memory fail. -/
def bag (r : Realloc) : ExitOps (List Record) where
  add := insert r
  delete := takeOut r
  search l io := (find l io).map fun x => .back x.1 x.2
  print l io := (showAll l io).map fun x => .back x.1 x.2

/-- One turn of the menu with the bag. -/
def bagStep (s : State (List Record)) (r : Realloc) : Option (State (List Record)) :=
  turn (bag r) id s

end Heap
end AddressBook
end PosixHw
