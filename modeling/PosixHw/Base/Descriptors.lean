import Mathlib.Tactic

/-!
# Descriptor tables and pipes

A process has a table from descriptors to open objects; a child starts with a copy of its parent's.
The two ends of a pipe are objects of their own, and a reader sees the end of its input only when no
process holds the write end any more, so what matters of a table is which ends it `Holds`.
-/

namespace PosixHw

/-- What a descriptor can be open on: the ends of the pipe `p`, or anything else. -/
inductive Obj
  | other (n : ℕ)
  | readEnd (p : ℕ)
  | writeEnd (p : ℕ)
  deriving DecidableEq

/-- A descriptor table. -/
abbrev Fds := ℕ → Option Obj

namespace Fds

/-- Some descriptor is open on `o`. -/
def Holds (f : Fds) (o : Obj) : Prop := ∃ fd, f fd = some o

/-- No end of a pipe to write to is open. -/
def NoWriteEnd (f : Fds) : Prop := ∀ p, ¬ f.Holds (.writeEnd p)

/-- `close(fd)`. -/
def close (f : Fds) (fd : ℕ) : Fds := Function.update f fd none

/-- `dup2(a, b)`. -/
def dup2 (f : Fds) (a b : ℕ) : Fds :=
  match f a with
  | some o => Function.update f b (some o)
  | none => f

/-- `pipe`, when it makes the pipe `p` and returns the descriptors `rd` and `wr`; both were
free. -/
def pipe (f : Fds) (rd wr p : ℕ) : Option Fds :=
  if rd ≠ wr ∧ f rd = none ∧ f wr = none then
    some (Function.update (Function.update f rd (some (.readEnd p))) wr (some (.writeEnd p)))
  else none

variable {f g : Fds} {rd wr p fd a b : ℕ} {o : Obj}

theorem Holds.of_close (h : (f.close fd).Holds o) : f.Holds o := by
  obtain ⟨d, hd⟩ := h
  unfold close at hd
  rw [Function.update_apply] at hd
  split_ifs at hd
  exact ⟨d, hd⟩

theorem Holds.of_dup2 (h : (f.dup2 a b).Holds o) : f.Holds o := by
  obtain ⟨d, hd⟩ := h
  cases ha : f a with
  | none =>
    simp only [dup2, ha] at hd
    exact ⟨d, hd⟩
  | some o' =>
    simp only [dup2, ha, Function.update_apply] at hd
    split_ifs at hd
    · exact ⟨a, ha.trans hd⟩
    · exact ⟨d, hd⟩

theorem NoWriteEnd.close (h : f.NoWriteEnd) (fd : ℕ) : (f.close fd).NoWriteEnd := fun p hp =>
  h p hp.of_close

theorem NoWriteEnd.dup2 (h : f.NoWriteEnd) (a b : ℕ) : (f.dup2 a b).NoWriteEnd := fun p hp =>
  h p hp.of_dup2

/-- What `pipe` does. -/
theorem pipe_cases (h : f.pipe rd wr p = some g) :
    rd ≠ wr ∧ f rd = none ∧ f wr = none ∧
      g = Function.update (Function.update f rd (some (.readEnd p))) wr (some (.writeEnd p)) := by
  unfold pipe at h
  split_ifs at h with hf
  cases h
  exact ⟨hf.1, hf.2.1, hf.2.2, rfl⟩

/-- Closing the read end leaves only the write end of the new pipe. -/
theorem close_read (h : f.pipe rd wr p = some g) :
    g.close rd = Function.update f wr (some (.writeEnd p)) := by
  obtain ⟨hne, hrd, -, rfl⟩ := pipe_cases h
  unfold close
  rw [Function.update_comm hne, Function.update_idem]
  have hrd' : Function.update f wr (some (.writeEnd p)) rd = none := by
    rw [Function.update_of_ne hne, hrd]
  rw [← hrd', Function.update_eq_self]

/-- Closing the write end leaves only the read end of the new pipe. -/
theorem close_write (h : f.pipe rd wr p = some g) :
    g.close wr = Function.update f rd (some (.readEnd p)) := by
  obtain ⟨hne, -, hwr, rfl⟩ := pipe_cases h
  unfold close
  rw [Function.update_idem]
  have hwr' : Function.update f rd (some (.readEnd p)) wr = none := by
    rw [Function.update_of_ne hne.symm, hwr]
  rw [← hwr', Function.update_eq_self]

/-- Closing both ends undoes the `pipe`. -/
theorem close_close (h : f.pipe rd wr p = some g) : (g.close rd).close wr = f := by
  rw [close_read h]
  obtain ⟨-, -, hwr, -⟩ := pipe_cases h
  unfold close
  rw [Function.update_idem, ← hwr, Function.update_eq_self]

/-- The read end alone is no write end. -/
theorem noWriteEnd_close_write (h : f.pipe rd wr p = some g) (hf : f.NoWriteEnd) :
    (g.close wr).NoWriteEnd := by
  rintro q ⟨fd, hfd⟩
  rw [close_write h, Function.update_apply] at hfd
  split_ifs at hfd
  · cases hfd
  · exact hf q ⟨fd, hfd⟩

end Fds
end PosixHw
