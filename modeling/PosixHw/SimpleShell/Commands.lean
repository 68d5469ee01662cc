import PosixHw.SimpleShell.Parse

/-!
# The two shells on the same line

A line of one to nine words is run by the shell with pipes as it reads.  The shell without pipes
runs the same file, but with the vector of the other words only, so there is no line for which both
call `execvp` with the same arguments.

A line that does not fit into the array is cut, by both shells alike: its first 1022 bytes are again
a text of at most nine words.
-/

namespace PosixHw
namespace SimpleShell

open CString Shell

section Line

variable {s : List UInt8} {ws : List (List UInt8)}

/-- What stands in memory when the line is split. -/
theorem fgetsLine_line (m : Mem) (hs : newline ∉ s) (h0 : 0 ∉ s) (rest : List UInt8) :
    ∃ m' post, fgets m maxLine (s ++ newline :: rest)
        = some (m', readRest (s ++ newline :: rest)) ∧
      chop m' = some (s.take (maxLine - 2) ++ 0 :: post) := by
  obtain ⟨m', post, hf, hc⟩ := chop_fgets m (List.append_ne_nil_of_right_ne_nil s
    (List.cons_ne_nil _ _)) (nul_notMem_line hs rest h0)
  rw [readText_line hs] at hc
  exact ⟨m', post, hf, hc⟩

/-- The words of a line that has been cut. -/
theorem words_take (hs : Written space ws s) (hw : ∀ w ∈ ws, ShellWord w) (n : ℕ) :
    (words space (s.take n)).length ≤ ws.length ∧ ∀ v ∈ words space (s.take n), ShellWord v := by
  have hplain := plain_of_written hs hw
  have htake : ∀ b, b ∉ s → b ∉ s.take n := fun b hb h => hb (List.mem_of_mem_take h)
  constructor
  · have hle := length_words_le (c := space) (s.take n) (s.drop n)
    rwa [List.take_append_drop, hs.words_eq fun w h => ⟨(hw w h).1, (hw w h).2.1⟩] at hle
  · intro v hv
    have hword := isWord_of_mem_words (htake 0 hplain.1) hv
    have hsub := (written_words space (s.take n)).subset hv
    exact ⟨hword.ne_nil, hword.sep, hword.nul, fun h => htake _ hplain.2.1 (hsub h),
      fun h => htake _ hplain.2.2 (hsub h)⟩

/-- **The shells never run the same command**: for no line without a bar, made of at most nine words
with any spaces around them, do they call `execvp` with the same file and the same vector. -/
theorem commands_differ (hs : Written space ws s) (hw : ∀ w ∈ ws, ShellWord w)
    (hlen : ws.length ≤ 9) (l : Shell.Locals) (k : Locals) (rest : List UInt8) :
    ¬ ∃ e l' k' r r', Shell.readCommand l (s ++ newline :: rest) = some (.single e, l', r) ∧
      readCommand k (s ++ newline :: rest) = some (.run e, k', r') := by
  rintro ⟨e, l', k', r, r', hl, hk⟩
  obtain ⟨h0, hnl, -⟩ := plain_of_written hs hw
  obtain ⟨hle, hwords⟩ := words_take hs hw (maxLine - 2)
  obtain ⟨m, post, hf, hc⟩ := fgetsLine_line k.line hnl h0 rest
  have hkc : chop (fgetsLine k.line (s ++ newline :: rest)).1
      = some (s.take (maxLine - 2) ++ 0 :: post) := by
    rw [fgetsLine, hf]
    exact hc
  have hsplit := written_words space (s.take (maxLine - 2))
  cases hvs : words space (s.take (maxLine - 2)) with
  | nil =>
    rw [hvs] at hsplit
    rw [readCommand_eq_none hkc (parse_blank post hsplit k.args k.saved)] at hk
    cases hk
  | cons v vs =>
    rw [hvs] at hsplit hwords hle
    rw [List.length_cons] at hle
    obtain ⟨a', t, hp⟩ := parse_written post hsplit (fun u hu => (hwords u hu).isWord)
      (show vs.length < maxArgs by simp only [maxArgs]; omega) k.args k.saved
    obtain ⟨k'', hk'', -⟩ := readCommand_eq hkc hp
    rw [hk, Option.some_inj, Prod.mk.injEq] at hk''
    by_cases hv : v = commandExit
    · rw [if_pos hv] at hk''
      cases hk''.1
    · rw [if_neg hv, Command.run.injEq] at hk''
      -- the shell with pipes has the command itself in the vector
      obtain ⟨m', post', hf', hc'⟩ := fgetsLine_line l.line hnl h0 rest
      obtain ⟨a1', t', hp', -⟩ := parse_single post' hsplit hwords
        (show (v :: vs).length < maxArgs by simp only [maxArgs, List.length_cons]; omega) hv
        l.args1 l.args2 l.saved
      obtain ⟨l'', hl'', -, -⟩ := Shell.readCommand_eq hf' hc' hp'
      rw [hl, Option.some_inj, Prod.mk.injEq, Shell.Command.single.injEq] at hl''
      have hargv : vs = v :: vs := congrArg Exec.argv (hk''.1.symm.trans hl''.1)
      exact absurd (congrArg List.length hargv) (by simp)

end Line

/-- The line `ls -l` is run as `ls -l` by one shell and as `-l` by the other. -/
theorem commands_differ_ls :
    ¬ ∃ e l' k' r r', Shell.readCommand default ("ls -l".toUTF8.data.toList ++ newline :: [])
        = some (.single e, l', r) ∧
      readCommand default ("ls -l".toUTF8.data.toList ++ newline :: []) = some (.run e, k', r') :=
  commands_differ (.cons 0 "ls".toUTF8.data.toList (.last 0 "-l".toUTF8.data.toList)) (by decide)
    (by decide) default default []

/-- The vectors of the two shells for that line. -/
theorem command_missing :
    (Shell.readCommand default ("ls -l".toUTF8.data.toList ++ [newline])).map (fun r => r.1)
      = some (.single ⟨some "ls".toUTF8.data.toList,
          ["ls".toUTF8.data.toList, "-l".toUTF8.data.toList]⟩) ∧
    (readCommand default ("ls -l".toUTF8.data.toList ++ [newline])).map (fun r => r.1)
      = some (.run ⟨some "ls".toUTF8.data.toList, ["-l".toUTF8.data.toList]⟩) := by
  constructor
  · decide +kernel
  · decide +kernel

end SimpleShell
end PosixHw
