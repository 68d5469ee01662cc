import PosixHw.Shell.Grammar

/-!
# The shell without pipes: reading a command

The program `processes/task3.c` from the prompt to the call of `fork`.  It has the constants of the
shell with pipes (`maxArgs`, `maxLine`, `commandExit`), and it differs from that in three ways.

* The result of `fgets` is not looked at: at the end of the input the line is what is left of the
  one before.
* The first word goes to `cmd` alone; the vector starts with the second one.
* It knows no pipes.

As in the shell with pipes, what is undefined is `none`.
-/

namespace PosixHw
namespace SimpleShell

open CString Shell

/-- The variables of `main`, and the pointer that `strtok` keeps. -/
structure Locals where
  args : Args
  line : Mem
  saved : Option ℕ
  length_line : line.length = maxLine

instance : Inhabited Locals :=
  ⟨⟨default, (default : Shell.Locals).line, none, (default : Shell.Locals).length_line⟩⟩

/-- What `main` does with a line. -/
inductive Command
  | run (e : Exec)
  | exit
  deriving DecidableEq

/-- Lines 23–28: splits the line; also returns `cmd`. -/
def splitLine (a : Args) (t : Strtok) : Option (Option ℕ × Args × Strtok) :=
  (strtok t (some 0) [space]).bind fun (cmd, t) =>
    (strtok t none [space]).bind fun (p, t) =>
      (a.set 0 p).bind fun a =>
        (tokenLoop false (maxArgs - 1) a 0 t).map fun (a, _, t) => (cmd, a, t)

/-- Lines 22–35 on the line in memory. -/
def parse (a : Args) (m : Mem) (saved : Option ℕ) : Option (Command × Args × Strtok) :=
  (splitLine a ⟨m, saved⟩).bind fun (cmd, a, t) =>
    cmd.bind fun cmd =>
      if str t.mem cmd = commandExit then some (.exit, a, t)
      else (exec t.mem (some cmd) a).map fun e => (.run e, a, t)

theorem length_parse {a a' : Args} {m : Mem} {saved : Option ℕ} {c : Command} {t : Strtok}
    (h : parse a m saved = some (c, a', t)) : t.mem.length = m.length := by
  obtain ⟨⟨cmd, b, t₁⟩, hsplit, h⟩ := Option.bind_eq_some_iff.1 h
  obtain ⟨⟨p, t₂⟩, h₂, hsplit⟩ := Option.bind_eq_some_iff.1 hsplit
  obtain ⟨⟨q, t₃⟩, h₃, hsplit⟩ := Option.bind_eq_some_iff.1 hsplit
  obtain ⟨b₁, -, hsplit⟩ := Option.bind_eq_some_iff.1 hsplit
  obtain ⟨⟨b₂, i, t₄⟩, hloop, he⟩ := Option.map_eq_some_iff.1 hsplit
  cases he
  have hlen := (length_tokenLoop hloop).trans ((length_strtok h₃).trans (length_strtok h₂))
  obtain ⟨c', -, h⟩ := Option.bind_eq_some_iff.1 h
  split_ifs at h
  · cases h
    exact hlen
  · obtain ⟨e, -, he⟩ := Option.map_eq_some_iff.1 h
    cases he
    exact hlen

/-- Line 19: the line after `fgets`, and the bytes that remain. -/
def fgetsLine (m : Mem) (input : List UInt8) : Mem × List UInt8 :=
  (fgets m maxLine input).getD (m, input)

theorem length_fgetsLine {m : Mem} (hm : m.length = maxLine) (input : List UInt8) :
    (fgetsLine m input).1.length = maxLine := by
  rw [fgetsLine]
  cases hf : fgets m maxLine input with
  | none => exact hm
  | some r => exact (length_fgets hf (by decide) hm.ge).trans hm

/-- Lines 19–35: reads a line from the input and finds out what to do with it. -/
def readCommand (l : Locals) (input : List UInt8) : Option (Command × Locals × List UInt8) :=
  match hc : chop (fgetsLine l.line input).1 with
  | none => none
  | some m =>
    match hp : parse l.args m l.saved with
    | none => none
    | some (c, a, t) =>
      some (c, ⟨a, t.mem, t.saved, by
        rw [length_parse hp, length_chop hc, length_fgetsLine l.length_line]⟩,
        (fgetsLine l.line input).2)

/-- What a command comes from. -/
theorem readCommand_cases {l l' : Locals} {input rest : List UInt8} {c : Command}
    (h : readCommand l input = some (c, l', rest)) :
    ∃ m a t, chop (fgetsLine l.line input).1 = some m ∧
      parse l.args m l.saved = some (c, a, t) := by
  unfold readCommand at h
  split at h
  · cases h
  · rename_i m hc
    split at h
    · cases h
    · rename_i c' a t hp
      cases h
      exact ⟨m, a, t, hc, hp⟩

theorem readCommand_chop_none {l : Locals} {input : List UInt8}
    (hc : chop (fgetsLine l.line input).1 = none) : readCommand l input = none := by
  rw [Option.eq_none_iff_forall_ne_some]
  rintro ⟨c, l', rest⟩ h
  obtain ⟨m, a, t, hc', -⟩ := readCommand_cases h
  rw [hc] at hc'
  cases hc'

theorem readCommand_eq_none {l : Locals} {input : List UInt8} {m : Mem}
    (hc : chop (fgetsLine l.line input).1 = some m) (hp : parse l.args m l.saved = none) :
    readCommand l input = none := by
  rw [Option.eq_none_iff_forall_ne_some]
  rintro ⟨c, l', rest⟩ h
  obtain ⟨m', a, t, hc', hp'⟩ := readCommand_cases h
  rw [hc] at hc'
  cases hc'
  rw [hp] at hp'
  cases hp'

theorem readCommand_eq {l : Locals} {input : List UInt8} {m : Mem} {c : Command} {a : Args}
    {t : Strtok} (hc : chop (fgetsLine l.line input).1 = some m)
    (hp : parse l.args m l.saved = some (c, a, t)) :
    ∃ l', readCommand l input = some (c, l', (fgetsLine l.line input).2) ∧ l'.args = a ∧
      l'.line = t.mem ∧ l'.saved = t.saved := by
  unfold readCommand
  split
  · rename_i h
    rw [hc] at h
    cases h
  · rename_i h
    obtain rfl := Option.some.inj (hc.symm.trans h)
    split
    · rename_i h
      rw [hp] at h
      cases h
    · rename_i h
      rw [hp] at h
      cases h
      exact ⟨_, rfl, rfl, rfl, rfl⟩

/-- What is made of a line is what is made of its text, unless the line begins with a NUL. -/
theorem readCommand_lineText (l : Locals) {input : List UInt8} (hne : input ≠ []) :
    lineBytes input = [] ∧ readCommand l input = none ∨
      lineBytes input ≠ [] ∧ ∃ post, (readCommand l input).map Prod.fst
        = (parse l.args (lineText input ++ 0 :: post) l.saved).map Prod.fst := by
  obtain ⟨post, hf⟩ := fgets_lineBytes l.line hne
  have hline : fgetsLine l.line input = (lineBytes input ++ 0 :: post, readRest input) := by
    rw [fgetsLine, hf, Option.getD_some]
  by_cases hbytes : lineBytes input = []
  · refine .inl ⟨hbytes, readCommand_chop_none ?_⟩
    rw [hline, hbytes]
    exact chop_nil post
  · refine .inr ⟨hbytes, 0 :: post, ?_⟩
    have hc : chop (fgetsLine l.line input).1 = some (lineText input ++ 0 :: 0 :: post) := by
      rw [hline]
      exact chop_append post hbytes (nul_notMem_lineBytes input)
    cases hp : parse l.args (lineText input ++ 0 :: 0 :: post) l.saved with
    | none => rw [readCommand_eq_none hc hp, Option.map_none, Option.map_none]
    | some r =>
      obtain ⟨c, a, t⟩ := r
      obtain ⟨l', hl', -⟩ := readCommand_eq hc hp
      rw [hl', Option.map_some, Option.map_some]

/-! ### What is made of a text -/

section Text

variable {s : Mem} {w : List UInt8} {ws : List (List UInt8)}

/-- The vector is made of the words that are left after the first one. -/
theorem vector_written (pre post : Mem) (h : Written space ws s) (hw : ∀ v ∈ ws, IsWord space v)
    (hlen : ws.length < maxArgs) (a : Args) :
    ∃ s' r t a₁ a' i ps rest saved',
      strtok ⟨pre ++ s ++ 0 :: post, some pre.length⟩ none [space] = some (r, t) ∧
      a.set 0 r = some a₁ ∧
      tokenLoop false (maxArgs - 1) a₁ 0 t = some (a', i, ⟨pre ++ s' ++ 0 :: post, saved'⟩) ∧
      s'.length = s.length ∧ a'.slots = ps.map some ++ none :: rest ∧
      Points (pre ++ s' ++ 0 :: post) (pre ++ s').length ps ws := by
  cases ws with
  | nil =>
    obtain ⟨x, tail, hslots⟩ := exists_slot a
    obtain ⟨a₁, hset, ha₁⟩ := set_slot (show a.slots = [] ++ x :: tail from hslots) none
    exact ⟨s, none, _, a₁, a₁, 0, [], tail, _,
      (strtok_saved _ _ _).trans (scan_blank pre post (by decide) h), hset,
      tokenLoop_stop ha₁ _ _, rfl, ha₁, .nil⟩
  | cons w ws =>
    obtain ⟨s', p, ps, rest, saved', t, a₁, a', htok, hset, hloop, hlen', ha', hps⟩ :=
      tokens_written false pre post h hw hlen a none
    exact ⟨s', some p, t, a₁, a', _, p :: ps, rest, saved', htok, hset, hloop, hlen', ha', hps⟩

/-- A text of one to ten words: the first one is the command. -/
theorem splitLine_written (post : Mem) (h : Written space (w :: ws) s)
    (hw : ∀ v ∈ w :: ws, IsWord space v) (hlen : ws.length < maxArgs) (a : Args)
    (saved : Option ℕ) :
    ∃ p a' t n ps rest, splitLine a ⟨s ++ 0 :: post, saved⟩ = some (some p, a', t) ∧
      str t.mem p = w ∧ a'.slots = ps.map some ++ none :: rest ∧ Points t.mem n ps ws := by
  obtain ⟨u, s', p, hscan, hrest, -, hword⟩ :=
    scan_written [] post (by decide) h (hw w List.mem_cons_self)
  obtain ⟨s'', r, t, a₁, a', i, ps, rest, saved', htok, hset, hloop, hlen', ha', hps⟩ :=
    vector_written ([] ++ u) post hrest (fun v hv => hw v (List.mem_cons_of_mem _ hv)) hlen a
  have hstr := (hword s'' hlen').2
  refine ⟨p, a', ⟨[] ++ u ++ s'' ++ 0 :: post, saved'⟩, _, ps, rest, ?_, hstr, ha', hps⟩
  rw [List.nil_append, List.length_nil] at hscan
  simp only [splitLine, strtok_some, hscan, Option.bind_some, htok, hset, hloop, Option.map_some]

/-- A text without a word. -/
theorem splitLine_blank (post : Mem) (h : Written space [] s) (a : Args) (saved : Option ℕ) :
    ∃ a' t, splitLine a ⟨s ++ 0 :: post, saved⟩ = some (none, a', t) := by
  have hscan : scan (s ++ 0 :: post) 0 [space] = _ := scan_blank [] post (by decide) h
  obtain ⟨s', r, t, a₁, a', i, ps, rest, saved', htok, hset, hloop, -⟩ :=
    vector_written s post (.blank 0) (by simp) (Nat.succ_pos 9) a
  rw [List.replicate_zero, List.append_nil] at htok
  refine ⟨a', ⟨s ++ s' ++ 0 :: post, saved'⟩, ?_⟩
  simp only [splitLine, strtok_some, hscan, List.nil_append, Option.bind_some, htok, hset, hloop,
    Option.map_some]

/-- A text of more than ten words: the loop stores outside of the vector. -/
theorem splitLine_full (post : Mem) (h : Written space (w :: ws) s)
    (hw : ∀ v ∈ w :: ws, IsWord space v) (hlen : maxArgs ≤ ws.length) (a : Args)
    (saved : Option ℕ) : splitLine a ⟨s ++ 0 :: post, saved⟩ = none := by
  obtain ⟨u, s', p, hscan, hrest, -, -⟩ :=
    scan_written [] post (by decide) h (hw w List.mem_cons_self)
  obtain ⟨v, vs, rfl⟩ : ∃ v vs, ws = v :: vs := by
    refine List.exists_cons_of_ne_nil fun hnil => ?_
    rw [hnil] at hlen
    exact absurd hlen (by decide)
  obtain ⟨q, t, a₁, htok, hset, hloop⟩ := tokens_full ([] ++ u) post hrest
    (fun v hv => hw v (List.mem_cons_of_mem _ hv)) hlen a none
  have htok' : strtok ⟨[] ++ u ++ s' ++ 0 :: post, some ([] ++ u).length⟩ none [space]
      = some (some q, t) := htok
  rw [List.nil_append, List.length_nil] at hscan
  simp only [splitLine, strtok_some, hscan, Option.bind_some, htok', hset, hloop, Option.map_none]

/-- **What becomes of a text**, by the number of its words. -/
theorem splitLine_cases (post : Mem) (h0 : 0 ∉ s) (a : Args) (saved : Option ℕ) :
    (words space s = [] ∧ ∃ a' t, splitLine a ⟨s ++ 0 :: post, saved⟩ = some (none, a', t)) ∨
    (words space s ≠ [] ∧ (words space s).length ≤ maxArgs ∧
      ∃ p a' t, splitLine a ⟨s ++ 0 :: post, saved⟩ = some (some p, a', t)) ∨
    (maxArgs < (words space s).length ∧ splitLine a ⟨s ++ 0 :: post, saved⟩ = none) := by
  have hwritten := written_words space s
  have hword : ∀ w ∈ words space s, IsWord space w := fun w hw => isWord_of_mem_words h0 hw
  cases hws : words space s with
  | nil =>
    rw [hws] at hwritten
    exact .inl ⟨rfl, splitLine_blank post hwritten a saved⟩
  | cons w ws =>
    rw [hws] at hwritten hword
    rcases lt_or_ge ws.length maxArgs with hlen | hlen
    · obtain ⟨p, a', t, n, ps, rest, hsplit, -⟩ :=
        splitLine_written post hwritten hword hlen a saved
      exact .inr (.inl ⟨List.cons_ne_nil _ _, hlen, p, a', t, hsplit⟩)
    · exact .inr (.inr ⟨Nat.lt_succ_of_le hlen, splitLine_full post hwritten hword hlen a saved⟩)

/-- A text of one to ten words is a command. -/
theorem parse_written (post : Mem) (h : Written space (w :: ws) s)
    (hw : ∀ v ∈ w :: ws, IsWord space v) (hlen : ws.length < maxArgs) (a : Args)
    (saved : Option ℕ) :
    ∃ a' t, parse a (s ++ 0 :: post) saved
      = some (if w = commandExit then .exit else .run ⟨some w, ws⟩, a', t) := by
  obtain ⟨p, a', t, n, ps, rest, hsplit, hstr, ha', hps⟩ :=
    splitLine_written post h hw hlen a saved
  refine ⟨a', t, ?_⟩
  rw [parse, hsplit]
  simp only [Option.bind_some, hstr, exec, ha', argv_points hps, Option.map_some]
  split_ifs <;> rfl

/-- Without a word `strcmp` is called with NULL. -/
theorem parse_blank (post : Mem) (h : Written space [] s) (a : Args) (saved : Option ℕ) :
    parse a (s ++ 0 :: post) saved = none := by
  obtain ⟨a', t, hsplit⟩ := splitLine_blank post h a saved
  rw [parse, hsplit]
  rfl

theorem parse_full (post : Mem) (h : Written space (w :: ws) s)
    (hw : ∀ v ∈ w :: ws, IsWord space v) (hlen : maxArgs ≤ ws.length) (a : Args)
    (saved : Option ℕ) : parse a (s ++ 0 :: post) saved = none := by
  rw [parse, splitLine_full post h hw hlen a saved]
  rfl

end Text

end SimpleShell
end PosixHw
