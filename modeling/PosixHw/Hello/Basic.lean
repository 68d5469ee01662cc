import PosixHw.Base.Exits
import Mathlib.Data.List.Infix

/-!
# A file written, and printed from its end

The program `file system/hello/hello.c`: writes a text into a file, opens the file again and prints
its bytes from the last one to the first, with a `fseek` before each.

Each call on the file may fail, as `Faults` says; the calls are numbered in their order.  All of
them are checked except `fclose`, which may fail to bring what has been written to the file.  A call
on a stream that is not open, or is open for the other purpose, is undefined.

What `printf` and `putchar` return is not looked at either, and nothing that the program does
depends on it: bytes that are printed may be lost on their way to the standard output
(`World.shown`).
-/

namespace PosixHw
namespace Hello

open Exits

/-- Which calls on the file fail, and how many bytes get through nevertheless; and which of the
printed bytes do not arrive. -/
structure Faults where
  fails : ℕ → Bool
  kept : ℕ → ℕ
  lost : ℕ → Bool

/-- `"w"` and `"r"` -/
inductive Mode
  | write
  | read
  deriving DecidableEq

/-- An open stream: the bytes written to it that are not yet in the file, and the position. -/
structure Stream where
  mode : Mode
  pending : List UInt8
  pos : ℕ
  deriving DecidableEq

/-- The file, the stream behind the variable `file`, what has been printed and reported; how many
streams have been opened and closed, how many calls made on the file, and how many of those that are
checked have failed. -/
structure World where
  file : List UInt8
  stream : Option Stream
  out : List UInt8
  err : List String
  opened : ℕ
  closed : ℕ
  calls : ℕ
  failed : ℕ

/-- How the program ends before the end of `main`. -/
inductive Exit
  | code (n : ℕ)
  | undefined
  deriving DecidableEq

/-- The start, with anything in the file. -/
def start (file : List UInt8) : World := ⟨file, none, [], [], 0, 0, 0, 0⟩

/-- A call has been made, or has been made and has failed. -/
def World.next (w : World) : World := { w with calls := w.calls + 1 }
def World.fail (w : World) : World := { w with calls := w.calls + 1, failed := w.failed + 1 }

/-! ### The calls -/

variable (f : Faults)

/-- `fopen`; it empties a file that is opened for writing. -/
def fopen (mode : Mode) : Prog Exit World Bool := fun w =>
  if f.fails w.calls then (.ok false, w.fail)
  else (.ok true, { w.next with
    file := if mode = .write then [] else w.file
    stream := some ⟨mode, [], 0⟩
    opened := w.opened + 1 })

/-- `fputs`, which writes into the buffer of the stream. -/
def fputs (text : List UInt8) : Prog Exit World Bool := fun w =>
  match w.stream with
  | some ⟨.write, pending, pos⟩ =>
    -- a part of the text may have got into the buffer
    if f.fails w.calls then (.ok false, { w.fail with
      stream := some ⟨.write, pending ++ text.take (f.kept w.calls), pos⟩ })
    else (.ok true, { w.next with stream := some ⟨.write, pending ++ text, pos⟩ })
  | _ => (.error .undefined, w)

/-- `fclose`: the stream is gone, also if its bytes could not be written. -/
def fclose : Prog Exit World Unit := fun w =>
  match w.stream with
  | some st => (.ok (), { w.next with
    file := w.file ++ if f.fails w.calls then st.pending.take (f.kept w.calls) else st.pending
    stream := none
    closed := w.closed + 1 })
  | none => (.error .undefined, w)

/-- `fseek`, to a position in the file; `fseek(.., 0, SEEK_END)` goes to its length. -/
def fseek (target : List UInt8 → ℕ) : Prog Exit World Bool := fun w =>
  match w.stream with
  | some ⟨.read, pending, _⟩ =>
    if f.fails w.calls then (.ok false, w.fail)
    else (.ok true, { w.next with stream := some ⟨.read, pending, target w.file⟩ })
  | _ => (.error .undefined, w)

/-- `ftell`; `none` stands for -1. -/
def ftell : Prog Exit World (Option ℕ) := fun w =>
  match w.stream with
  | some st =>
    if f.fails w.calls then (.ok none, w.fail) else (.ok (some st.pos), w.next)
  | none => (.error .undefined, w)

/-- `fgetc`; `none` stands for EOF. -/
def fgetc : Prog Exit World (Option UInt8) := fun w =>
  match w.stream with
  | some ⟨.read, pending, pos⟩ =>
    -- EOF comes from an error, or from the end of the file
    match if f.fails w.calls then none else w.file[pos]? with
    | some b => (.ok (some b), { w.next with stream := some ⟨.read, pending, pos + 1⟩ })
    | none => (.ok none, w.fail)
  | _ => (.error .undefined, w)

/-- What arrives of the bytes that have been printed. -/
def World.shown (w : World) : List UInt8 :=
  (w.out.zipIdx.filter fun b => !f.lost b.2).map Prod.fst

/-- `printf` or `putchar`. -/
def print (bytes : List UInt8) : Prog Exit World Unit := fun w =>
  (.ok (), { w with out := w.out ++ bytes })

/-- `perror` -/
def perror (s : String) : Prog Exit World Unit := fun w => (.ok (), { w with err := w.err ++ [s] })

/-! ### The program -/

/-- "String from file", and what comes before the bytes that are printed. -/
def text : List UInt8 := "String from file".toUTF8.data.toList
def header : List UInt8 := "Содержимое файла с конца: ".toUTF8.data.toList

/-- `perror(s); return 1;`, without and with `fclose(file)` between. -/
def giveUp (s : String) : Prog Exit World Unit := do
  perror s
  exit (.code 1)
def giveUpClosing (s : String) : Prog Exit World Unit := do
  perror s
  fclose f
  exit (.code 1)

/-- The body of the loop. -/
def printByte (i : ℕ) : Prog Exit World Unit := do
  let ok ← fseek f fun _ => i
  check ok (giveUpClosing f "Ошибка при перемещении по файлу")
  let ch ← fgetc f
  check ch.isSome (giveUpClosing f "Ошибка при чтении файла")
  print ch.toList

/-- From the second `fopen` on. -/
def printBack : Prog Exit World Unit := do
  let ok ← fopen f .read
  check ok (giveUp "Ошибка при открытии файла для чтения")
  let ok ← fseek f List.length
  check ok (giveUpClosing f "Ошибка при перемещении к концу файла")
  let fileSize ← ftell f
  check fileSize.isSome (giveUpClosing f "Ошибка при определении размера файла")
  print header
  -- `for (long i = fileSize - 1; i >= 0; i--)`
  downFrom (fileSize.getD 0) (printByte f)
  print "\n".toUTF8.data.toList
  fclose f

/-- `main` -/
def main : Prog Exit World Unit := do
  let ok ← fopen f .write
  check ok (giveUp "Ошибка при открытии файла для записи")
  let ok ← fputs f text
  check ok (giveUpClosing f "Ошибка при записи в файл")
  -- what this call returns is not looked at
  fclose f
  printBack f

/-! ### What holds between the calls -/

/-- No call that is checked has failed; `out` has been printed. -/
structure Clean (out : List UInt8) (w : World) : Prop where
  err : w.err = []
  failed : w.failed = 0
  out : w.out = out

/-- The stream is open, or none is. -/
def World.Open (w : World) (st : Stream) : Prop := w.stream = some st ∧ w.opened = w.closed + 1
def World.Shut (w : World) : Prop := w.stream = none ∧ w.opened = w.closed

/-- A call has failed and has not been reported.  What is printed by then is part of what should
be. -/
structure Failed (w : World) : Prop where
  err : w.err = []
  failed : w.failed = 1
  out : w.out <+: header ++ w.file.reverse

/-- The end after a failure. -/
structure Reported (w : World) : Prop where
  err : w.err.length = 1
  failed : w.failed = 1
  out : w.out <+: header ++ w.file.reverse
  shut : w.Shut

/-- How `main` may be left before its end. -/
def GivenUp : Exit → World → Prop
  | .code n, w => n = 1 ∧ Reported w
  | .undefined, _ => False

/-- The end of `main`. -/
structure Printed (w : World) : Prop where
  err : w.err = []
  failed : w.failed = 0
  out : w.out = header ++ w.file.reverse ++ "\n".toUTF8.data.toList
  shut : w.Shut

variable {f}

/-! ### The calls, one by one -/

section Calls

variable {w : World} {st : Stream} {pending : List UInt8} {pos : ℕ} {E : Exit → World → Prop}

theorem fputs_of_open (bytes : List UInt8) (h : w.stream = some ⟨.write, pending, pos⟩) :
    fputs f bytes w = if f.fails w.calls then (.ok false, { w.fail with
        stream := some ⟨.write, pending ++ bytes.take (f.kept w.calls), pos⟩ })
      else (.ok true, { w.next with stream := some ⟨.write, pending ++ bytes, pos⟩ }) := by
  unfold fputs
  rw [h]

theorem fclose_of_open (h : w.stream = some st) :
    fclose f w = (.ok (), { w.next with
      file := w.file ++ if f.fails w.calls then st.pending.take (f.kept w.calls) else st.pending
      stream := none
      closed := w.closed + 1 }) := by
  unfold fclose
  rw [h]

theorem fseek_of_open (target : List UInt8 → ℕ) (h : w.stream = some ⟨.read, pending, pos⟩) :
    fseek f target w = if f.fails w.calls then (.ok false, w.fail)
      else (.ok true, { w.next with stream := some ⟨.read, pending, target w.file⟩ }) := by
  unfold fseek
  rw [h]

theorem ftell_of_open (h : w.stream = some st) :
    ftell f w = if f.fails w.calls then (.ok none, w.fail) else (.ok (some st.pos), w.next) := by
  unfold ftell
  rw [h]

/-- A byte is there to be read. -/
theorem fgetc_of_open {b : UInt8} (h : w.stream = some ⟨.read, pending, pos⟩)
    (hb : w.file[pos]? = some b) :
    fgetc f w = if f.fails w.calls then (.ok none, w.fail)
      else (.ok (some b), { w.next with stream := some ⟨.read, pending, pos + 1⟩ }) := by
  unfold fgetc
  rw [h]
  dsimp only
  by_cases hfails : f.fails w.calls = true
  · rw [if_pos hfails, if_pos hfails]
  · rw [if_neg hfails, if_neg hfails, hb]

theorem Clean.failed_of_nil (h : Clean [] w) {t : World} (herr : t.err = w.err)
    (hfailed : t.failed = w.failed + 1) (hout : t.out = w.out) : Failed t where
  err := herr.trans h.err
  failed := by rw [hfailed, h.failed]
  out := by
    rw [hout, h.out]
    exact List.nil_prefix

theorem giveUp_meets (s : String) {Q : Unit → World → Prop} :
    Meets (fun w => Failed w ∧ w.Shut) (giveUp s) Q GivenUp := by
  rintro w ⟨h, hshut⟩
  refine ⟨rfl, ?_, h.failed, h.out, hshut⟩
  show (w.err ++ [s]).length = 1
  rw [h.err]
  rfl

/-- A stream that is closed after a failure has nothing to write, or nothing has been printed. -/
theorem giveUpClosing_meets (s : String) {Q : Unit → World → Prop} :
    Meets (fun w => Failed w ∧ ∃ st, w.Open st ∧ (st.pending = [] ∨ w.out = []))
      (giveUpClosing f s) Q GivenUp := by
  apply Meets.bind (Q := fun _ w => w.err.length = 1 ∧ w.failed = 1 ∧
    w.out <+: header ++ w.file.reverse ∧ ∃ st, w.Open st ∧ (st.pending = [] ∨ w.out = []))
  · apply Meets.returns
    rintro w ⟨h, hopen⟩
    refine ⟨(), _, rfl, ?_, h.failed, h.out, hopen⟩
    show (w.err ++ [s]).length = 1
    rw [h.err]
    rfl
  · intro _
    apply Meets.bind (Q := fun _ w => Reported w)
    · apply Meets.returns
      rintro w ⟨herr, hfailed, hprefix, st, ⟨hstream, hopened⟩, hout⟩
      refine ⟨(), _, fclose_of_open hstream, herr, hfailed, ?_, rfl, hopened⟩
      -- `fclose` may still write what is in the buffer: nothing, or nothing is printed yet
      rcases hout with hpending | hout
      · show w.out <+: header ++ (w.file ++ if _ then _ else _).reverse
        rw [hpending, List.take_nil, ite_self, List.append_nil]
        exact hprefix
      · show w.out <+: _
        rw [hout]
        exact List.nil_prefix
    · exact fun _ => Meets.exit fun w hw => ⟨rfl, hw⟩

/-- `fopen`, with what it does to the file. -/
theorem fopen_meets (mode : Mode) {n : ℕ} {P : List UInt8 → Prop} :
    Meets (fun w => Clean [] w ∧ w.Shut ∧ w.calls = n ∧ P (if mode = .write then [] else w.file))
      (fopen f mode)
      (fun ok w => (ok = true → Clean [] w ∧ w.Open ⟨mode, [], 0⟩ ∧ w.calls = n + 1 ∧ P w.file) ∧
        (ok = false → Failed w ∧ w.Shut)) E := by
  apply Meets.returns
  rintro w ⟨h, ⟨hstream, hopened⟩, hcalls, hP⟩
  by_cases hfails : f.fails w.calls = true
  · refine ⟨false, _, if_pos hfails, (fun hok => by cases hok), fun _ => ?_⟩
    exact ⟨h.failed_of_nil rfl rfl rfl, hstream, hopened⟩
  · refine ⟨true, _, if_neg hfails, fun _ => ?_, fun hok => by cases hok⟩
    exact ⟨⟨h.err, h.failed, h.out⟩, ⟨rfl, congrArg (· + 1) hopened⟩, congrArg (· + 1) hcalls, hP⟩

theorem fputs_meets (bytes : List UInt8) {n : ℕ} :
    Meets (fun w => Clean [] w ∧ w.Open ⟨.write, [], 0⟩ ∧ w.calls = n ∧ w.file = [])
      (fputs f bytes)
      (fun ok w =>
        (ok = true → Clean [] w ∧ w.Open ⟨.write, bytes, 0⟩ ∧ w.calls = n + 1 ∧ w.file = []) ∧
        (ok = false → Failed w ∧ ∃ st, w.Open st ∧ (st.pending = [] ∨ w.out = []))) E := by
  apply Meets.returns
  rintro w ⟨h, ⟨hstream, hopened⟩, hcalls, hfile⟩
  rw [fputs_of_open bytes hstream]
  by_cases hfails : f.fails w.calls = true
  · refine ⟨false, _, if_pos hfails, (fun hok => by cases hok), fun _ => ?_⟩
    exact ⟨h.failed_of_nil rfl rfl rfl, _, ⟨rfl, hopened⟩, .inr h.out⟩
  · refine ⟨true, _, if_neg hfails, fun _ => ?_, fun hok => by cases hok⟩
    exact ⟨⟨h.err, h.failed, h.out⟩, ⟨rfl, hopened⟩, congrArg (· + 1) hcalls, hfile⟩

/-- The first `fclose`: a part of the text is in the file then, or all of it. -/
theorem fclose_meets (bytes : List UInt8) {n : ℕ} :
    Meets (fun w => Clean [] w ∧ w.Open ⟨.write, bytes, 0⟩ ∧ w.calls = n ∧ w.file = [])
      (fclose f)
      (fun _ w => Clean [] w ∧ w.Shut ∧ w.file <+: bytes ∧ (f.fails n = false → w.file = bytes))
      E := by
  apply Meets.returns
  rintro w ⟨h, ⟨hstream, hopened⟩, hcalls, hfile⟩
  refine ⟨(), _, fclose_of_open hstream, ⟨h.err, h.failed, h.out⟩, ⟨rfl, hopened⟩, ?_,
    fun hok => ?_⟩
  · show w.file ++ (if _ then _ else _) <+: bytes
    rw [hfile, List.nil_append]
    split_ifs
    · exact List.take_prefix _ _
    · exact List.prefix_rfl
  · show w.file ++ (if f.fails w.calls then _ else _) = bytes
    rw [hfile, hcalls, hok]
    rfl

/-- The file is open for reading at `pos`, and nothing has failed. -/
structure Reading (file out : List UInt8) (pos : ℕ) (w : World) : Prop where
  clean : Clean out w
  isOpen : w.Open ⟨.read, [], pos⟩
  file : w.file = file

/-- The file is open for reading, and a call has failed. -/
def ReadFailed (w : World) : Prop := Failed w ∧ ∃ st, w.Open st ∧ (st.pending = [] ∨ w.out = [])

variable {file out : List UInt8}

/-- A call fails while the file is read; what has been printed is a part of what should be. -/
theorem Reading.fail (h : Reading file out pos w) (hout : out <+: header ++ file.reverse) :
    ReadFailed w.fail := by
  refine ⟨⟨h.clean.err, congrArg (· + 1) h.clean.failed, ?_⟩, _, h.isOpen, .inl rfl⟩
  show w.out <+: header ++ w.file.reverse
  rw [h.clean.out, h.file]
  exact hout

theorem fseek_meets (target : List UInt8 → ℕ) (hout : out <+: header ++ file.reverse) :
    Meets (Reading file out pos) (fseek f target)
      (fun ok w => (ok = true → Reading file out (target file) w) ∧
        (ok = false → ReadFailed w)) E := by
  apply Meets.returns
  intro w h
  rw [fseek_of_open target h.isOpen.1, h.file]
  by_cases hfails : f.fails w.calls = true
  · exact ⟨false, _, if_pos hfails, (fun hok => by cases hok), fun _ => h.fail hout⟩
  · refine ⟨true, _, if_neg hfails, fun _ => ?_, fun hok => by cases hok⟩
    exact ⟨⟨h.clean.err, h.clean.failed, h.clean.out⟩, ⟨rfl, h.isOpen.2⟩, h.file⟩

theorem ftell_meets (hout : out <+: header ++ file.reverse) :
    Meets (Reading file out pos) (ftell f)
      (fun r w => (r.isSome = true → r = some pos ∧ Reading file out pos w) ∧
        (r.isSome = false → ReadFailed w)) E := by
  apply Meets.returns
  intro w h
  rw [ftell_of_open h.isOpen.1]
  by_cases hfails : f.fails w.calls = true
  · exact ⟨none, _, if_pos hfails, (fun hok => by cases hok), fun _ => h.fail hout⟩
  · refine ⟨some pos, _, if_neg hfails, fun _ => ⟨rfl, ?_⟩, fun hok => by cases hok⟩
    exact ⟨⟨h.clean.err, h.clean.failed, h.clean.out⟩, h.isOpen, h.file⟩

theorem fgetc_meets {b : UInt8} (hb : file[pos]? = some b) (hout : out <+: header ++ file.reverse) :
    Meets (Reading file out pos) (fgetc f)
      (fun r w => (r.isSome = true → r = some b ∧ Reading file out (pos + 1) w) ∧
        (r.isSome = false → ReadFailed w)) E := by
  apply Meets.returns
  intro w h
  rw [fgetc_of_open h.isOpen.1 (by rw [h.file]; exact hb)]
  by_cases hfails : f.fails w.calls = true
  · exact ⟨none, _, if_pos hfails, (fun hok => by cases hok), fun _ => h.fail hout⟩
  · refine ⟨some b, _, if_neg hfails, fun _ => ⟨rfl, ?_⟩, fun hok => by cases hok⟩
    exact ⟨⟨h.clean.err, h.clean.failed, h.clean.out⟩, ⟨rfl, h.isOpen.2⟩, h.file⟩

theorem print_meets (bytes : List UInt8) :
    Meets (Reading file out pos) (print bytes) (fun _ => Reading file (out ++ bytes) pos) E := by
  apply Meets.returns
  intro w h
  refine ⟨(), _, rfl, ⟨h.clean.err, h.clean.failed, ?_⟩, h.isOpen, h.file⟩
  exact congrArg (· ++ bytes) h.clean.out

end Calls

/-! ### The loop -/

/-- The bytes from `n` on have been printed, the last one first. -/
def PrintedFrom (file : List UInt8) (n : ℕ) (w : World) : Prop :=
  n ≤ file.length ∧ ∃ pos, Reading file (header ++ (file.drop n).reverse) pos w

theorem prefix_reverse (file : List UInt8) (n : ℕ) :
    header ++ (file.drop n).reverse <+: header ++ file.reverse := by
  rw [List.prefix_append_right_inj, List.reverse_prefix]
  exact List.drop_suffix n file

/-- A turn of the loop prints one byte more. -/
theorem printByte_meets (file : List UInt8) (n : ℕ) :
    Meets (PrintedFrom file (n + 1)) (printByte f n) (fun _ => PrintedFrom file n) GivenUp := by
  rintro w ⟨hlt, pos, h⟩
  have hb : file[n]? = some file[n] := List.getElem?_eq_getElem hlt
  have hout := prefix_reverse file (n + 1)
  have hturn : Meets (Reading file (header ++ (file.drop (n + 1)).reverse) pos) (printByte f n)
      (fun _ => PrintedFrom file n) GivenUp := by
    apply Meets.bind (fseek_meets (fun _ => n) hout)
    intro ok
    apply Meets.bind (Meets.check (giveUpClosing_meets _))
    intro _
    apply Meets.bind (fgetc_meets hb hout)
    intro ch
    apply Meets.bind (Meets.check (giveUpClosing_meets _))
    intro _
    rintro w ⟨rfl, hw⟩
    refine ⟨Nat.le_of_succ_le hlt, n + 1, ?_⟩
    have hprint := print_meets (E := GivenUp) [file[n]] w hw
    -- the byte goes in front of those that have been printed
    rwa [List.append_assoc, ← List.reverse_cons, ← List.drop_eq_getElem_cons hlt] at hprint
  exact hturn w h

/-- **The second half**: prints the bytes of the file from the last one to the first, or gives
up. -/
theorem printBack_meets (file : List UInt8) :
    Meets (fun w => Clean [] w ∧ w.Shut ∧ w.file = file) (printBack f)
      (fun _ w => Printed w ∧ w.file = file) GivenUp := by
  have hnil : ([] : List UInt8) <+: header ++ file.reverse := List.nil_prefix
  have hopen : ∀ n, Meets (fun w => (Clean [] w ∧ w.Shut ∧ w.file = file) ∧ w.calls = n)
      (fopen f .read)
      (fun ok w => (ok = true → Reading file [] 0 w) ∧ (ok = false → Failed w ∧ w.Shut))
      GivenUp := by
    intro n
    apply (fopen_meets (P := (· = file)) (n := n) .read).mono
    · rintro w ⟨⟨hclean, hshut, hfile⟩, hn⟩
      exact ⟨hclean, hshut, hn, hfile⟩
    · rintro ok w ⟨hok, hfail⟩
      refine ⟨fun h => ?_, hfail⟩
      obtain ⟨hclean, hopen, -, hfile⟩ := hok h
      exact ⟨hclean, hopen, hfile⟩
  apply Meets.bind (Meets.fix World.calls hopen)
  intro ok
  apply Meets.bind (Meets.check (giveUp_meets _))
  intro _
  apply Meets.bind (fseek_meets List.length hnil)
  intro ok
  apply Meets.bind (Meets.check (giveUpClosing_meets _))
  intro _
  apply Meets.bind (ftell_meets hnil)
  intro fileSize
  apply Meets.bind (Meets.check (giveUpClosing_meets _))
  intro _
  apply Meets.bind (Q := fun _ w => fileSize = some file.length ∧ PrintedFrom file file.length w)
  · rintro w ⟨hsize, hw⟩
    have hprint := print_meets (E := GivenUp) header w hw
    refine ⟨hsize, le_rfl, file.length, ?_⟩
    rwa [List.drop_length, List.reverse_nil, List.append_nil]
  intro _
  -- the loop, from the end of the file to its beginning
  apply Meets.bind (Q := fun _ => PrintedFrom file 0)
  · rintro w ⟨rfl, hw⟩
    exact Meets.downFrom (printByte_meets file) file.length w hw
  intro _
  apply Meets.bind (Q := fun _ w => ∃ pos,
    Reading file (header ++ file.reverse ++ "\n".toUTF8.data.toList) pos w)
  · rintro w ⟨-, pos, hw⟩
    exact ⟨pos, print_meets (E := GivenUp) _ w hw⟩
  intro _
  apply Meets.returns
  rintro w ⟨pos, hw⟩
  have hfile : w.file ++ (if f.fails w.calls then ([] : List UInt8).take (f.kept w.calls) else [])
      = file := by
    rw [List.take_nil, ite_self, List.append_nil, hw.file]
  refine ⟨(), _, fclose_of_open hw.isOpen.1, ⟨hw.clean.err, hw.clean.failed, ?_, rfl, hw.isOpen.2⟩,
    hfile⟩
  exact hw.clean.out.trans (by rw [hfile])

/-! ### The whole program -/

/-- What the program leaves behind. -/
def Ends (f : Faults) : Except Exit Unit × World → Prop
  | (.ok _, w) => Printed w ∧ w.file <+: text ∧ (f.fails 2 = false → w.file = text)
  | (.error e, w) => GivenUp e w

/-- So it does, and what it has printed arrives, as far as it is not lost. -/
def Outcome (f : Faults) (r : Except Exit Unit × World) : Prop :=
  Ends f r ∧ (r.2.shown f).Sublist r.2.out ∧ ((∀ i, f.lost i = false) → r.2.shown f = r.2.out)

theorem shown_sublist (w : World) : (w.shown f).Sublist w.out := by
  have hsub := (List.filter_sublist (p := fun b : UInt8 × ℕ => !f.lost b.2)
    (l := w.out.zipIdx)).map Prod.fst
  rwa [List.zipIdx_map_fst] at hsub

theorem shown_eq (hlost : ∀ i, f.lost i = false) (w : World) : w.shown f = w.out := by
  rw [World.shown, List.filter_eq_self.2 fun b _ => by rw [hlost]; rfl, List.zipIdx_map_fst]

/-- **Every way in which `main` can end.**  Whatever was in the file and whichever calls fail:
nothing is done with a stream that is not open, and each stream that has been opened is closed.
If a call that is checked has failed, it is the only one; it is reported, `main` returns 1, and what
has been printed is part of the text from its end.  Otherwise `main` returns 0 and has printed what
is in the file, backwards: the text, unless `fclose` has lost the end of it.  All that is printed
arrives, unless a write to the standard output fails. -/
theorem main_outcome (f : Faults) (file : List UInt8) : Outcome f (main f (start file)) := by
  have hmain : Meets (fun w => w = start file) (main f)
      (fun _ w => Printed w ∧ w.file <+: text ∧ (f.fails 2 = false → w.file = text)) GivenUp := by
    apply Meets.bind (Q := fun ok w =>
      (ok = true → Clean [] w ∧ w.Open ⟨.write, [], 0⟩ ∧ w.calls = 1 ∧ w.file = []) ∧
        (ok = false → Failed w ∧ w.Shut))
    · rintro w rfl
      exact fopen_meets (P := (· = [])) (n := 0) .write _
        ⟨⟨rfl, rfl, rfl⟩, ⟨rfl, rfl⟩, rfl, rfl⟩
    intro ok
    apply Meets.bind (Meets.check (giveUp_meets _))
    intro _
    apply Meets.bind (fputs_meets text)
    intro ok
    apply Meets.bind (Meets.check (giveUpClosing_meets _))
    intro _
    apply Meets.bind (fclose_meets text)
    intro _
    apply Meets.fix World.file
    intro file
    rintro w ⟨⟨hclean, hshut, hprefix, htext⟩, hfile⟩
    rw [hfile] at hprefix htext
    have hback : Meets (fun w => Clean [] w ∧ w.Shut ∧ w.file = file) (printBack f)
        (fun _ w => Printed w ∧ w.file <+: text ∧ (f.fails 2 = false → w.file = text))
        GivenUp := by
      apply (printBack_meets file).mono fun w hw => hw
      rintro _ w ⟨hprinted, rfl⟩
      exact ⟨hprinted, hprefix, htext⟩
    exact hback w ⟨hclean, hshut, hfile⟩
  have houtcome := hmain (start file) rfl
  refine ⟨?_, shown_sublist _, fun hlost => shown_eq hlost _⟩
  unfold Ends
  generalize main f (start file) = r at houtcome ⊢
  obtain ⟨(e | a), w⟩ := r
  · exact houtcome
  · exact houtcome

/-- The byte before the last one cannot be read. -/
example : (main ⟨fun n => n = 9, fun _ => 0, fun _ => false⟩ (start [1, 2])).2.out
      = header ++ "e".toUTF8.data.toList ∧
    (main ⟨fun n => n = 9, fun _ => 0, fun _ => false⟩ (start [1, 2])).2.closed = 2 := by
  decide +kernel

end Hello
end PosixHw
