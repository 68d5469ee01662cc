import PosixHw.Base.Trace
import PosixHw.Shell.Defined

/-!
# The shell with pipes: what it stores and calls

The functions that read a command, once more, with the stores into the arrays and the calls of
`strcmp` and `execvp` as events.  `value_readCommand` says that they compute what the functions
without events do, so that all that is known of these can be used.

* `Access.ArgsSafe`: the stores into `args1` and `args2` are within the array, and each array that
  is handed to `execvp` has a NULL;
* `Access.NullSafe`: the store into `line` is within the array, and neither `strcmp` nor `execvp` is
  called with NULL.
-/

namespace PosixHw
namespace Shell

open CString

/-- A store into an array of pointers or into `line`, at an index; a call. -/
inductive Access
  | args (i : ℕ)
  | line (i : ℤ)
  | strcmp (cmd : Option ℕ)
  | execvp (file : Option ℕ) (vector : Args)

/-- The arrays of pointers are stored into within their bounds, and end with NULL. -/
def Access.ArgsSafe : Access → Prop
  | .args i => i < maxArgs
  | .execvp _ vector => none ∈ vector.slots
  | .line _ | .strcmp _ => True

/-- The line is stored into within its bounds, and no command is NULL. -/
def Access.NullSafe : Access → Prop
  | .line i => 0 ≤ i ∧ i < maxLine
  | .strcmp cmd => cmd ≠ none
  | .execvp file _ => file ≠ none
  | .args _ => True

instance : DecidablePred Access.ArgsSafe
  | .args i => inferInstanceAs (Decidable (i < maxArgs))
  | .execvp _ vector => inferInstanceAs (Decidable (none ∈ vector.slots))
  | .line _ | .strcmp _ => .isTrue trivial

instance : DecidablePred Access.NullSafe
  | .line i => inferInstanceAs (Decidable (0 ≤ i ∧ i < maxLine))
  | .strcmp cmd => inferInstanceAs (Decidable (cmd ≠ none))
  | .execvp file _ => inferInstanceAs (Decidable (file ≠ none))
  | .args _ => .isTrue trivial

namespace Traced

/-- `args[i] = p`. -/
def set (a : Args) (i : ℕ) (p : Option ℕ) : Trace Access Args := do
  Trace.tell (.args i)
  Trace.lift (a.set i p)

/-- The loop that follows `args[i] = strtok(..)`.  Without a guard it goes on behind the last slot;
what happens after that store is not defined. -/
def tokenLoop (guarded : Bool) : ℕ → Args → ℕ → Strtok → Trace Access (Args × ℕ × Strtok)
  | 0, a, i, t =>
    if a.slots[i]? = some none ∨ guarded then pure (a, i, t)
    else do
      let (p, _) ← Trace.lift (strtok t none [space])
      let _ ← set a (i + 1) p
      Trace.lift none
  | room + 1, a, i, t =>
    if a.slots[i]? = some none then pure (a, i, t)
    else do
      let (p, t) ← Trace.lift (strtok t none [space])
      let a ← set a (i + 1) p
      tokenLoop guarded room a (i + 1) t

/-- Lines 31–36 and 39–44. -/
def splitStage (a : Args) (cmd : Option ℕ) (t : Strtok) : Trace Access (Args × Strtok) := do
  let (p, t) ← Trace.lift (strtok t cmd [space])
  let a ← set a 0 p
  let (a, i, t) ← tokenLoop true (maxArgs - 1) a 0 t
  let a ← set a i none
  pure (a, t)

/-- Lines 75–81. -/
def splitLine (a : Args) (t : Strtok) : Trace Access (Option ℕ × Args × Strtok) := do
  let (cmd, t) ← Trace.lift (strtok t (some 0) [space])
  let a ← set a 0 cmd
  let (a, _, t) ← tokenLoop false (maxArgs - 1) a 0 t
  pure (cmd, a, t)

/-- `strcmp(cmd, ..)`: the string is read, so it must not be NULL. -/
def strcmp (cmd : Option ℕ) : Trace Access ℕ := do
  Trace.tell (.strcmp cmd)
  Trace.lift cmd

/-- `execvp(file, a)`. -/
def exec (m : Mem) (file : Option ℕ) (a : Args) : Trace Access Exec := do
  Trace.tell (.execvp file a)
  Trace.lift (Shell.exec m file a)

/-- Line 24; the index of an empty line, as an offset, is -1. -/
def chop (m : Mem) : Trace Access Mem := do
  let n ← Trace.lift (strlen m 0)
  Trace.tell (.line ((n : ℤ) - 1))
  Trace.lift (if n = 0 then none else store m (n - 1) 0)

/-- Lines 26–44 and 74–85. -/
def parse (a1 a2 : Args) (m : Mem) (saved : Option ℕ) :
    Trace Access (Command × Args × Args × Strtok) := do
  let (cmd1, t) ← Trace.lift (strtok ⟨m, saved⟩ (some 0) [bar])
  let (cmd2, t) ← Trace.lift (strtok t none [bar])
  if cmd2 = none then
    let (cmd, a1, t) ← splitLine a1 t
    let cmd ← strcmp cmd
    if str t.mem cmd = commandExit then pure (.exit, a1, a2, t)
    else
      let e ← exec t.mem (some cmd) a1
      pure (.single e, a1, a2, t)
  else
    let (a1, t) ← splitStage a1 cmd1 t
    let (a2, t) ← splitStage a2 cmd2 t
    let left ← exec t.mem (a1.slots.getD 0 none) a1
    let right ← exec t.mem (a2.slots.getD 0 none) a2
    pure (.piped left right, a1, a2, t)

/-- Lines 21–44 and 74–85: the variables are returned one by one. -/
def readCommand (l : Locals) (input : List UInt8) :
    Trace Access (Command × Args × Args × Strtok × List UInt8) :=
  match fgets l.line maxLine input with
  | none => pure (.eof, l.args1, l.args2, ⟨l.line, l.saved⟩, input)
  | some (m, rest) => do
    let m ← chop m
    let (c, a1, a2, t) ← parse l.args1 l.args2 m l.saved
    pure (c, a1, a2, t, rest)

/-! ### The values are those of the functions without events -/

section Values

@[simp] theorem value_set (a : Args) (i : ℕ) (p : Option ℕ) : (set a i p).value = a.set i p := rfl

@[simp] theorem value_tokenLoop (guarded : Bool) (room : ℕ) (a : Args) (i : ℕ) (t : Strtok) :
    (tokenLoop guarded room a i t).value = Shell.tokenLoop guarded room a i t := by
  induction room generalizing a i t with
  | zero =>
    rw [tokenLoop, Shell.tokenLoop]
    split_ifs
    · rfl
    · simp
  | succ room ih =>
    rw [tokenLoop, Shell.tokenLoop]
    split_ifs
    · rfl
    · simp [ih]

@[simp] theorem value_splitStage (a : Args) (cmd : Option ℕ) (t : Strtok) :
    (splitStage a cmd t).value = Shell.splitStage a cmd t := by
  simp [splitStage, Shell.splitStage, Option.map_eq_bind]

@[simp] theorem value_splitLine (a : Args) (t : Strtok) :
    (splitLine a t).value = Shell.splitLine a t := by
  simp [splitLine, Shell.splitLine, Option.map_eq_bind]

@[simp] theorem value_strcmp (cmd : Option ℕ) : (strcmp cmd).value = cmd := rfl

@[simp] theorem value_exec (m : Mem) (file : Option ℕ) (a : Args) :
    (exec m file a).value = Shell.exec m file a := rfl

@[simp] theorem value_chop (m : Mem) : (chop m).value = Shell.chop m := by
  simp [chop, Shell.chop]

@[simp] theorem value_parse (a1 a2 : Args) (m : Mem) (saved : Option ℕ) :
    (parse a1 a2 m saved).value = Shell.parse a1 a2 m saved := by
  simp [parse, Shell.parse, Option.map_eq_bind, apply_ite Trace.value]

/-- **The events do not change what is computed.** -/
theorem value_readCommand (l : Locals) (input : List UInt8) :
    (readCommand l input).value = (Shell.readCommand l input).map fun (c, l', rest) =>
      (c, l'.args1, l'.args2, ⟨l'.line, l'.saved⟩, rest) := by
  cases input with
  | nil => rfl
  | cons b input =>
    obtain ⟨⟨m, rest⟩, hf⟩ : ∃ r, fgets l.line maxLine (b :: input) = some r :=
      ⟨_, if_neg (List.cons_ne_nil b input)⟩
    rw [readCommand, hf]
    cases hc : Shell.chop m with
    | none =>
      rw [readCommand_chop_none hf hc]
      simp [hc]
    | some m' =>
      cases hp : Shell.parse l.args1 l.args2 m' l.saved with
      | none =>
        rw [readCommand_eq_none hf hc hp]
        simp [hc, hp]
      | some r =>
        obtain ⟨c, a1, a2, t⟩ := r
        obtain ⟨l', hl', rfl, rfl, hline, hsaved⟩ := readCommand_eq hf hc hp
        rw [hl']
        simp [hc, hp, hline, hsaved]

end Values

/-! ### The events of a line -/

section Events

variable {q : Access → Prop} {l : Locals} {input : List UInt8}

@[simp] theorem all_set {a : Args} {i : ℕ} {p : Option ℕ} : (set a i p).All q ↔ q (.args i) := by
  rw [set, Trace.all_tell_bind, and_iff_left Trace.all_lift]

@[simp] theorem all_strcmp {cmd : Option ℕ} : (strcmp cmd).All q ↔ q (.strcmp cmd) := by
  rw [strcmp, Trace.all_tell_bind, and_iff_left Trace.all_lift]

@[simp] theorem all_exec {m : Mem} {file : Option ℕ} {a : Args} :
    (exec m file a).All q ↔ q (.execvp file a) := by
  rw [exec, Trace.all_tell_bind, and_iff_left Trace.all_lift]

theorem all_chop {u : List UInt8} (post : Mem) (h0 : 0 ∉ u) :
    (chop (u ++ 0 :: post)).All q ↔ q (.line ((u.length : ℤ) - 1)) := by
  rw [chop, strlen_append h0, Trace.all_bind_of_some (Trace.value_lift _),
    and_iff_right Trace.all_lift, Trace.all_tell_bind, and_iff_left Trace.all_lift]

section Parse

variable {a1 a2 : Args} {m : Mem} {saved cmd1 : Option ℕ} {t t' : Strtok}

/-- The events of a line without a second stage. -/
theorem all_parse_single (h₁ : strtok ⟨m, saved⟩ (some 0) [bar] = some (cmd1, t))
    (h₂ : strtok t none [bar] = some (none, t')) :
    (parse a1 a2 m saved).All q ↔ (splitLine a1 t').All q ∧
      ∀ cmd a t₁, Shell.splitLine a1 t' = some (cmd, a, t₁) → q (.strcmp cmd) ∧
        ∀ p, cmd = some p → str t₁.mem p ≠ commandExit → q (.execvp (some p) a) := by
  rw [parse, h₁, Trace.all_bind_of_some (Trace.value_lift _), and_iff_right Trace.all_lift]
  dsimp only
  rw [h₂, Trace.all_bind_of_some (Trace.value_lift _), and_iff_right Trace.all_lift]
  dsimp only
  rw [if_pos rfl, Trace.all_bind, value_splitLine, Prod.forall]
  refine and_congr_right fun _ => forall_congr' fun cmd => ?_
  rw [Prod.forall]
  refine forall₂_congr fun a t₁ => imp_congr_right fun _ => ?_
  rw [Trace.all_bind, all_strcmp, value_strcmp]
  refine and_congr_right fun _ => forall₂_congr fun p _ => ?_
  split_ifs with hexit
  · exact iff_of_true Trace.all_pure fun h => absurd hexit h
  · rw [Trace.all_bind, all_exec, and_iff_left fun _ _ => Trace.all_pure]
    exact ⟨fun h _ => h, fun h => h hexit⟩

/-- The events of a line with two stages. -/
theorem all_parse_piped {p : ℕ} {r : Command × Args × Args × Strtok}
    (h₁ : strtok ⟨m, saved⟩ (some 0) [bar] = some (cmd1, t))
    (h₂ : strtok t none [bar] = some (some p, t'))
    (hp : Shell.parse a1 a2 m saved = some r) :
    ∃ b₁ t₁ b₂ t₂ left right, Shell.splitStage a1 cmd1 t' = some (b₁, t₁) ∧
      Shell.splitStage a2 (some p) t₁ = some (b₂, t₂) ∧
      Shell.exec t₂.mem (b₁.slots.getD 0 none) b₁ = some left ∧
      Shell.exec t₂.mem (b₂.slots.getD 0 none) b₂ = some right ∧ r.1 = .piped left right ∧
      ((parse a1 a2 m saved).All q ↔
        (splitStage a1 cmd1 t').All q ∧ (splitStage a2 (some p) t₁).All q ∧
          q (.execvp (b₁.slots.getD 0 none) b₁) ∧ q (.execvp (b₂.slots.getD 0 none) b₂)) := by
  simp only [Shell.parse, h₁, Option.bind_some, h₂, reduceCtorEq, if_false] at hp
  obtain ⟨⟨b₁, t₁⟩, hb₁, hp⟩ := Option.bind_eq_some_iff.1 hp
  obtain ⟨⟨b₂, t₂⟩, hb₂, hp⟩ := Option.bind_eq_some_iff.1 hp
  obtain ⟨left, hleft, hp⟩ := Option.bind_eq_some_iff.1 hp
  obtain ⟨right, hright, rfl⟩ := Option.map_eq_some_iff.1 hp
  refine ⟨b₁, t₁, b₂, t₂, left, right, hb₁, hb₂, hleft, hright, rfl, ?_⟩
  rw [parse, h₁, Trace.all_bind_of_some (Trace.value_lift _), and_iff_right Trace.all_lift]
  dsimp only
  rw [h₂, Trace.all_bind_of_some (Trace.value_lift _), and_iff_right Trace.all_lift]
  dsimp only
  rw [if_neg (by simp), Trace.all_bind_of_some ((value_splitStage _ _ _).trans hb₁),
    Trace.all_bind_of_some ((value_splitStage _ _ _).trans hb₂),
    Trace.all_bind_of_some ((value_exec _ _ _).trans hleft), all_exec, Trace.all_bind, all_exec,
    and_iff_left fun _ _ => Trace.all_pure]

end Parse

/-- The events of a line are those of its last byte and of its text; if it begins with a NUL, there
is none before it. -/
theorem all_readCommand (l : Locals) (hne : input ≠ []) :
    lineBytes input = [] ∧ ((readCommand l input).All q ↔ q (.line (-1))) ∨
      lineBytes input ≠ [] ∧ ∃ post, (readCommand l input).All q ↔
        q (.line (((lineBytes input).length : ℤ) - 1)) ∧
          (parse l.args1 l.args2 (lineText input ++ 0 :: post) l.saved).All q := by
  obtain ⟨post, hf⟩ := fgets_lineBytes l.line hne
  have h0 := nul_notMem_lineBytes input
  rw [readCommand, hf]
  by_cases hbytes : lineBytes input = []
  · refine .inl ⟨hbytes, ?_⟩
    rw [Trace.all_bind, all_chop post h0, hbytes]
    refine and_iff_left fun m hm => ?_
    rw [value_chop, List.nil_append, chop_nil] at hm
    cases hm
  · refine .inr ⟨hbytes, 0 :: post, ?_⟩
    have hc : (chop (lineBytes input ++ 0 :: post)).value = _ :=
      (value_chop _).trans (chop_append post hbytes h0)
    rw [Trace.all_bind_of_some hc, all_chop post h0, Trace.all_bind]
    refine and_congr_right fun _ => and_iff_left fun r _ => Trace.all_pure

end Events

end Traced
end Shell
end PosixHw
