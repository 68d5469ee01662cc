import PosixHw.Base.Strtok

/-!
# The shell with pipes: reading a command

The program `pipes/task3.c`, from the prompt to the calls of `fork`: it reads a line into `line`,
splits it at `'|'`, and splits the one or two stages at spaces into `args1` and `args2`.  The arrays
keep their contents from one line to the next.

A `strcmp` with NULL, a store outside an array, a read of `line` beyond its end and an array without
NULL that is handed to `execvp` are undefined: the functions are then `none`.
-/

namespace PosixHw
namespace Shell

open CString

/-- `MAX_ARGS`. -/
def maxArgs : ℕ := 10

/-- `MAX_LINE`. -/
def maxLine : ℕ := 1024

/-- The delimiters `" "` and `"|"`. -/
def space : UInt8 := 32
def bar : UInt8 := 124

/-- `COMMAND_EXIT`. -/
def commandExit : List UInt8 := [101, 120, 105, 116]

/-- An array of `MAX_ARGS` pointers. -/
structure Args where
  slots : List (Option ℕ)
  length_slots : slots.length = maxArgs

/-- `args[i] = p`. -/
def Args.set (a : Args) (i : ℕ) (p : Option ℕ) : Option Args :=
  if i < maxArgs then some ⟨a.slots.set i p, by rw [List.length_set, a.length_slots]⟩ else none

/-- The variables of `main` that live longer than a line, and the pointer that `strtok` keeps. -/
structure Locals where
  args1 : Args
  args2 : Args
  line : Mem
  saved : Option ℕ
  length_line : line.length = maxLine

instance : Inhabited Args := ⟨⟨List.replicate maxArgs none, List.length_replicate⟩⟩

instance : Inhabited Locals :=
  ⟨⟨default, default, List.replicate maxLine 0, none, List.length_replicate⟩⟩

/-- The loop that follows `args[i] = strtok(..)`, with `room` slots after `i`.  Where it is
`guarded` it stops at the last slot, else it goes on and stores outside the array. -/
def tokenLoop (guarded : Bool) : ℕ → Args → ℕ → Strtok → Option (Args × ℕ × Strtok)
  | 0, a, i, t =>
    if a.slots[i]? = some none ∨ guarded then some (a, i, t) else none
  | room + 1, a, i, t =>
    if a.slots[i]? = some none then some (a, i, t)
    else
      (strtok t none [space]).bind fun (p, t) =>
        (a.set (i + 1) p).bind fun a => tokenLoop guarded room a (i + 1) t

/-- Lines 31–36 and 39–44: splits the stage at `cmd`. -/
def splitStage (a : Args) (cmd : Option ℕ) (t : Strtok) : Option (Args × Strtok) :=
  (strtok t cmd [space]).bind fun (p, t) =>
    (a.set 0 p).bind fun a =>
      (tokenLoop true (maxArgs - 1) a 0 t).bind fun (a, i, t) =>
        (a.set i none).map fun a => (a, t)

/-- Lines 75–81: splits the line; also returns `cmd`. -/
def splitLine (a : Args) (t : Strtok) : Option (Option ℕ × Args × Strtok) :=
  (strtok t (some 0) [space]).bind fun (cmd, t) =>
    (a.set 0 cmd).bind fun a =>
      (tokenLoop false (maxArgs - 1) a 0 t).map fun (a, _, t) => (cmd, a, t)

/-- What `execvp` is called with: the file (or NULL) and the strings before the first NULL of the
vector. -/
structure Exec where
  file : Option (List UInt8)
  argv : List (List UInt8)
  deriving DecidableEq

/-- The strings that the pointers before the first NULL point to. -/
def argv (m : Mem) : List (Option ℕ) → Option (List (List UInt8))
  | [] => none
  | none :: _ => some []
  | some p :: rest => (argv m rest).map fun l => str m p :: l

/-- `execvp(file, a)`. -/
def exec (m : Mem) (file : Option ℕ) (a : Args) : Option Exec :=
  (argv m a.slots).map fun l => ⟨file.map (str m), l⟩

/-- What `main` does with a line: two stages, one command, `exit`; or the end of the input. -/
inductive Command
  | piped (left right : Exec)
  | single (e : Exec)
  | exit
  | eof
  deriving DecidableEq

/-- `line[strlen(line) - 1] = '\0'`. -/
def chop (m : Mem) : Option Mem :=
  (strlen m 0).bind fun n => if n = 0 then none else store m (n - 1) 0

/-- Lines 26–44 and 74–85 on the line in memory. -/
def parse (a1 a2 : Args) (m : Mem) (saved : Option ℕ) : Option (Command × Args × Args × Strtok) :=
  (strtok ⟨m, saved⟩ (some 0) [bar]).bind fun (cmd1, t) =>
    (strtok t none [bar]).bind fun (cmd2, t) =>
      if cmd2 = none then
        (splitLine a1 t).bind fun (cmd, a1, t) =>
          cmd.bind fun cmd =>
            if str t.mem cmd = commandExit then some (.exit, a1, a2, t)
            else (exec t.mem (some cmd) a1).map fun e => (.single e, a1, a2, t)
      else
        (splitStage a1 cmd1 t).bind fun (a1, t) =>
          (splitStage a2 cmd2 t).bind fun (a2, t) =>
            (exec t.mem (a1.slots.getD 0 none) a1).bind fun left =>
              (exec t.mem (a2.slots.getD 0 none) a2).map fun right =>
                (.piped left right, a1, a2, t)

/-! ### The line keeps its length -/

theorem length_tokenLoop {guarded : Bool} {room i i' : ℕ} {a a' : Args} {t t' : Strtok}
    (h : tokenLoop guarded room a i t = some (a', i', t')) : t'.mem.length = t.mem.length := by
  induction room generalizing a i t with
  | zero =>
    rw [tokenLoop] at h
    split_ifs at h
    cases h
    rfl
  | succ room ih =>
    rw [tokenLoop] at h
    split_ifs at h
    · cases h
      rfl
    · obtain ⟨⟨p, t₁⟩, ht, h⟩ := Option.bind_eq_some_iff.1 h
      obtain ⟨a₁, -, h⟩ := Option.bind_eq_some_iff.1 h
      exact (ih h).trans (length_strtok ht)

theorem length_splitStage {a a' : Args} {cmd : Option ℕ} {t t' : Strtok}
    (h : splitStage a cmd t = some (a', t')) : t'.mem.length = t.mem.length := by
  obtain ⟨⟨p, t₁⟩, ht, h⟩ := Option.bind_eq_some_iff.1 h
  obtain ⟨a₁, -, h⟩ := Option.bind_eq_some_iff.1 h
  obtain ⟨⟨a₂, i, t₂⟩, hloop, h⟩ := Option.bind_eq_some_iff.1 h
  obtain ⟨a₃, -, he⟩ := Option.map_eq_some_iff.1 h
  cases he
  exact (length_tokenLoop hloop).trans (length_strtok ht)

theorem length_splitLine {a a' : Args} {cmd : Option ℕ} {t t' : Strtok}
    (h : splitLine a t = some (cmd, a', t')) : t'.mem.length = t.mem.length := by
  obtain ⟨⟨p, t₁⟩, ht, h⟩ := Option.bind_eq_some_iff.1 h
  obtain ⟨a₁, -, h⟩ := Option.bind_eq_some_iff.1 h
  obtain ⟨⟨a₂, i, t₂⟩, hloop, he⟩ := Option.map_eq_some_iff.1 h
  cases he
  exact (length_tokenLoop hloop).trans (length_strtok ht)

theorem length_parse {a1 a2 a1' a2' : Args} {m : Mem} {saved : Option ℕ} {c : Command} {t : Strtok}
    (h : parse a1 a2 m saved = some (c, a1', a2', t)) : t.mem.length = m.length := by
  obtain ⟨⟨cmd1, t₁⟩, h₁, h⟩ := Option.bind_eq_some_iff.1 h
  obtain ⟨⟨cmd2, t₂⟩, h₂, h⟩ := Option.bind_eq_some_iff.1 h
  have hm : t₂.mem.length = m.length := (length_strtok h₂).trans (length_strtok h₁)
  dsimp only at h
  split_ifs at h
  · obtain ⟨⟨cmd, b, t₃⟩, h₃, h⟩ := Option.bind_eq_some_iff.1 h
    obtain ⟨q, -, h⟩ := Option.bind_eq_some_iff.1 h
    have hlen := (length_splitLine h₃).trans hm
    split_ifs at h
    · cases h
      exact hlen
    · obtain ⟨e, -, he⟩ := Option.map_eq_some_iff.1 h
      cases he
      exact hlen
  · obtain ⟨⟨b₁, t₃⟩, h₃, h⟩ := Option.bind_eq_some_iff.1 h
    obtain ⟨⟨b₂, t₄⟩, h₄, h⟩ := Option.bind_eq_some_iff.1 h
    obtain ⟨left, -, h⟩ := Option.bind_eq_some_iff.1 h
    obtain ⟨right, -, he⟩ := Option.map_eq_some_iff.1 h
    cases he
    exact (length_splitStage h₄).trans ((length_splitStage h₃).trans hm)

theorem length_chop {m m' : Mem} (h : chop m = some m') : m'.length = m.length := by
  obtain ⟨n, -, h⟩ := Option.bind_eq_some_iff.1 h
  unfold store at h
  split_ifs at h
  cases h
  exact List.length_set

/-- Lines 21–44 and 74–85: reads a line from the input and finds out what to do with it. -/
def readCommand (l : Locals) (input : List UInt8) : Option (Command × Locals × List UInt8) :=
  match hf : fgets l.line maxLine input with
  | none => some (.eof, l, input)
  | some (m, rest) =>
    match hc : chop m with
    | none => none
    | some m' =>
      match hp : parse l.args1 l.args2 m' l.saved with
      | none => none
      | some (c, a1, a2, t) =>
        some (c, ⟨a1, a2, t.mem, t.saved, by
          rw [length_parse hp, length_chop hc, length_fgets hf (by decide) l.length_line.ge,
            l.length_line]⟩, rest)

theorem readCommand_eq {l : Locals} {input rest : List UInt8} {m m' : Mem} {c : Command}
    {a1 a2 : Args} {t : Strtok} (hf : fgets l.line maxLine input = some (m, rest))
    (hc : chop m = some m') (hp : parse l.args1 l.args2 m' l.saved = some (c, a1, a2, t)) :
    ∃ l', readCommand l input = some (c, l', rest) ∧ l'.args1 = a1 ∧ l'.args2 = a2 ∧
      l'.line = t.mem ∧ l'.saved = t.saved := by
  unfold readCommand
  split
  · rename_i h
    rw [hf] at h
    cases h
  · rename_i h
    rw [hf, Option.some.injEq, Prod.mk.injEq] at h
    obtain ⟨rfl, rfl⟩ := h
    split
    · rename_i h
      rw [hc] at h
      cases h
    · rename_i h
      rw [hc, Option.some.injEq] at h
      subst h
      split
      · rename_i h
        rw [hp] at h
        cases h
      · rename_i h
        rw [hp] at h
        cases h
        exact ⟨_, rfl, rfl, rfl, rfl, rfl⟩

/-- What a command comes from. -/
theorem readCommand_cases {l l' : Locals} {input rest : List UInt8} {c : Command}
    (h : readCommand l input = some (c, l', rest)) :
    fgets l.line maxLine input = none ∨ ∃ m m' a1 a2 t,
      fgets l.line maxLine input = some (m, rest) ∧ chop m = some m' ∧
      parse l.args1 l.args2 m' l.saved = some (c, a1, a2, t) := by
  unfold readCommand at h
  split at h
  · rename_i hf
    exact .inl hf
  · rename_i m rest' hf
    split at h
    · cases h
    · rename_i m' hc
      split at h
      · cases h
      · rename_i c' a1 a2 t hp
        cases h
        exact .inr ⟨m, m', a1, a2, t, hf, hc, hp⟩

theorem readCommand_chop_none {l : Locals} {input rest : List UInt8} {m : Mem}
    (hf : fgets l.line maxLine input = some (m, rest)) (hc : chop m = none) :
    readCommand l input = none := by
  rw [Option.eq_none_iff_forall_ne_some]
  rintro ⟨c, l', rest'⟩ h
  obtain hf' | ⟨m₁, m₂, a1, a2, t, hf', hc', -⟩ := readCommand_cases h
  · rw [hf] at hf'
    cases hf'
  · rw [hf] at hf'
    cases hf'
    rw [hc] at hc'
    cases hc'

theorem readCommand_eq_none {l : Locals} {input rest : List UInt8} {m m' : Mem}
    (hf : fgets l.line maxLine input = some (m, rest)) (hc : chop m = some m')
    (hp : parse l.args1 l.args2 m' l.saved = none) : readCommand l input = none := by
  rw [Option.eq_none_iff_forall_ne_some]
  rintro ⟨c, l', rest'⟩ h
  obtain hf' | ⟨m₁, m₂, a1, a2, t, hf', hc', hp'⟩ := readCommand_cases h
  · rw [hf] at hf'
    cases hf'
  · rw [hf] at hf'
    cases hf'
    rw [hc] at hc'
    cases hc'
    rw [hp] at hp'
    cases hp'

end Shell
end PosixHw
