import PosixHw.Shell.Traced
import PosixHw.SimpleShell.Reading

/-!
# The shell without pipes: what it stores and calls

The functions of this shell with their events, which are those of the shell with pipes.
-/

namespace PosixHw
namespace SimpleShell
namespace Traced

open CString Shell

/-- Lines 23–28. -/
def splitLine (a : Args) (t : Strtok) : Trace Access (Option ℕ × Args × Strtok) := do
  let (cmd, t) ← Trace.lift (strtok t (some 0) [space])
  let (p, t) ← Trace.lift (strtok t none [space])
  let a ← Shell.Traced.set a 0 p
  let (a, _, t) ← Shell.Traced.tokenLoop false (maxArgs - 1) a 0 t
  pure (cmd, a, t)

/-- Lines 22–35. -/
def parse (a : Args) (m : Mem) (saved : Option ℕ) : Trace Access (Command × Args × Strtok) := do
  let (cmd, a, t) ← splitLine a ⟨m, saved⟩
  let cmd ← Shell.Traced.strcmp cmd
  if str t.mem cmd = commandExit then pure (.exit, a, t)
  else
    let e ← Shell.Traced.exec t.mem (some cmd) a
    pure (.run e, a, t)

/-- Lines 19–35: the variables are returned one by one. -/
def readCommand (l : Locals) (input : List UInt8) :
    Trace Access (Command × Args × Strtok × List UInt8) := do
  let m ← Shell.Traced.chop (fgetsLine l.line input).1
  let (c, a, t) ← parse l.args m l.saved
  pure (c, a, t, (fgetsLine l.line input).2)

/-! ### The values are those of the functions without events -/

@[simp] theorem value_splitLine (a : Args) (t : Strtok) :
    (splitLine a t).value = SimpleShell.splitLine a t := by
  simp [splitLine, SimpleShell.splitLine, Option.map_eq_bind]

@[simp] theorem value_parse (a : Args) (m : Mem) (saved : Option ℕ) :
    (parse a m saved).value = SimpleShell.parse a m saved := by
  simp [parse, SimpleShell.parse, Option.map_eq_bind, apply_ite Trace.value]

/-- **The events do not change what is computed.** -/
theorem value_readCommand (l : Locals) (input : List UInt8) :
    (readCommand l input).value = (SimpleShell.readCommand l input).map fun (c, l', rest) =>
      (c, l'.args, ⟨l'.line, l'.saved⟩, rest) := by
  rw [readCommand]
  cases hc : Shell.chop (fgetsLine l.line input).1 with
  | none =>
    rw [readCommand_chop_none hc]
    simp [hc]
  | some m =>
    cases hp : SimpleShell.parse l.args m l.saved with
    | none =>
      rw [readCommand_eq_none hc hp]
      simp [hc, hp]
    | some r =>
      obtain ⟨c, a, t⟩ := r
      obtain ⟨l', hl', rfl, hline, hsaved⟩ := readCommand_eq hc hp
      rw [hl']
      simp [hc, hp, hline, hsaved]

/-! ### The events of a line -/

theorem all_parse {q : Access → Prop} {a : Args} {m : Mem} {saved : Option ℕ} :
    (parse a m saved).All q ↔ (splitLine a ⟨m, saved⟩).All q ∧
      ∀ cmd a' t, SimpleShell.splitLine a ⟨m, saved⟩ = some (cmd, a', t) → q (.strcmp cmd) ∧
        ∀ p, cmd = some p → str t.mem p ≠ commandExit → q (.execvp (some p) a') := by
  rw [parse, Trace.all_bind, value_splitLine, Prod.forall]
  refine and_congr_right fun _ => forall_congr' fun cmd => ?_
  rw [Prod.forall]
  refine forall₂_congr fun a' t => imp_congr_right fun _ => ?_
  rw [Trace.all_bind, Shell.Traced.all_strcmp, Shell.Traced.value_strcmp]
  refine and_congr_right fun _ => forall₂_congr fun p _ => ?_
  split_ifs with hexit
  · exact iff_of_true Trace.all_pure fun h => absurd hexit h
  · rw [Trace.all_bind, Shell.Traced.all_exec, and_iff_left fun _ _ => Trace.all_pure]
    exact ⟨fun h _ => h, fun h => h hexit⟩

/-- The events of a line are those of its last byte and of its text; if it begins with a NUL, there
is none before it. -/
theorem all_readCommand {q : Access → Prop} {input : List UInt8} (l : Locals) (hne : input ≠ []) :
    lineBytes input = [] ∧ ((readCommand l input).All q ↔ q (.line (-1))) ∨
      lineBytes input ≠ [] ∧ ∃ post, (readCommand l input).All q ↔
        q (.line (((lineBytes input).length : ℤ) - 1)) ∧
          (parse l.args (lineText input ++ 0 :: post) l.saved).All q := by
  obtain ⟨post, hf⟩ := fgets_lineBytes l.line hne
  have h0 := nul_notMem_lineBytes input
  have hline : fgetsLine l.line input = _ := congrArg (Option.getD · (l.line, input)) hf
  rw [Option.getD_some] at hline
  rw [readCommand, hline]
  by_cases hbytes : lineBytes input = []
  · refine .inl ⟨hbytes, ?_⟩
    rw [Trace.all_bind, Shell.Traced.all_chop post h0, hbytes]
    refine and_iff_left fun m hm => ?_
    rw [Shell.Traced.value_chop, List.nil_append, chop_nil] at hm
    cases hm
  · refine .inr ⟨hbytes, 0 :: post, ?_⟩
    have hc : (Shell.Traced.chop (lineBytes input ++ 0 :: post)).value = _ :=
      (Shell.Traced.value_chop _).trans (chop_append post hbytes h0)
    rw [Trace.all_bind_of_some hc, Shell.Traced.all_chop post h0, Trace.all_bind]
    exact and_congr_right fun _ => and_iff_left fun r _ => Trace.all_pure

end Traced
end SimpleShell
end PosixHw
