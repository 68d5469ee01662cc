import Mathlib.Tactic

/-!
# Pipes

A pipe is the bytes in it and the numbers of the descriptors that are open at its two ends.  A
`read` from an empty pipe waits as long as somebody can write, and returns nothing when nobody can;
a `write` to a pipe that nobody can read raises SIGPIPE.  The writes here are not longer than
`PIPE_BUF`, so they are not divided.

`Carries`: what has been received, and then what is in the pipe, is what has been sent.
-/

namespace PosixHw

/-- The bytes in the pipe, and the open descriptors for reading and for writing. -/
structure Pipe where
  buffer : List UInt8
  readers : ℕ
  writers : ℕ
  deriving DecidableEq

namespace Pipe

/-- A new pipe, with one descriptor at each end. -/
def new : Pipe := ⟨[], 1, 1⟩

/-- `fork` copies the descriptors. -/
def fork (p : Pipe) : Pipe := { p with readers := 2 * p.readers, writers := 2 * p.writers }

def closeRead (p : Pipe) : Pipe := { p with readers := p.readers - 1 }
def closeWrite (p : Pipe) : Pipe := { p with writers := p.writers - 1 }

/-- `read` of at most `n` bytes; `none` if it waits. -/
def read (p : Pipe) (n : ℕ) : Option (List UInt8 × Pipe) :=
  if p.buffer = [] then if p.writers = 0 then some ([], p) else none
  else some (p.buffer.take n, { p with buffer := p.buffer.drop n })

/-- `write`; `none` for SIGPIPE. -/
def write (p : Pipe) (bytes : List UInt8) : Option Pipe :=
  if p.readers = 0 then none else some { p with buffer := p.buffer ++ bytes }

/-- Of the bytes that have been sent, those that have not been received are in the pipe. -/
def Carries (p : Pipe) (sent received : List UInt8) : Prop := received ++ p.buffer = sent

variable {p q : Pipe} {sent received bytes got : List UInt8} {n : ℕ}

/-- Only the bytes matter. -/
theorem Carries.of_buffer (h : p.Carries sent received) (hq : q.buffer = p.buffer) :
    q.Carries sent received := by
  rw [Carries, hq]
  exact h

theorem Carries.write (h : p.Carries sent received) (hw : p.write bytes = some q) :
    q.Carries (sent ++ bytes) received := by
  unfold Pipe.write at hw
  split_ifs at hw
  cases hw
  show received ++ (p.buffer ++ bytes) = sent ++ bytes
  rw [← List.append_assoc, h]

theorem Carries.read (h : p.Carries sent received) (hr : p.read n = some (got, q)) :
    q.Carries sent (received ++ got) := by
  unfold Pipe.read at hr
  split_ifs at hr with hempty hclosed
  · cases hr
    rw [List.append_nil]
    exact h
  · cases hr
    show received ++ p.buffer.take n ++ p.buffer.drop n = sent
    rw [List.append_assoc, List.take_append_drop, h]

/-- One `read` returns all that is there, if there is room for it. -/
theorem read_eq (hne : p.buffer ≠ []) (hle : p.buffer.length ≤ n) :
    p.read n = some (p.buffer, { p with buffer := [] }) := by
  rw [Pipe.read, if_neg hne, List.take_of_length_le hle, List.drop_of_length_le hle]

/-- A read waits exactly while the pipe is empty and somebody can write. -/
theorem read_eq_none_iff : p.read n = none ↔ p.buffer = [] ∧ p.writers ≠ 0 := by
  unfold Pipe.read
  split_ifs with hempty hclosed
  · exact iff_of_false (by simp) fun h => h.2 hclosed
  · exact iff_of_true rfl ⟨hempty, hclosed⟩
  · exact iff_of_false (by simp) fun h => hempty h.1

end Pipe
end PosixHw
