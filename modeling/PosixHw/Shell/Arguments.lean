import PosixHw.Shell.Traced

/-!
# The shell with pipes: its argument arrays

Where the loop over the words is guarded, it stores at most at the last index.  The loop without a
guard stores within the array as long as it ends, and it ends if there are fewer words than slots
(`argsSafe_splitLine`).

`argsSafe_readCommand` says for which lines every store is within an array, and every array that
`execvp` gets ends with NULL.
-/

namespace PosixHw
namespace Shell
namespace Traced

open CString

/-- The pointer that `strtok` keeps is before the NUL at `n`. -/
def Before (n : ℕ) (t : Strtok) : Prop := t.mem[n]? = some 0 ∧ ∃ q, t.saved = some q ∧ q ≤ n

section Loop

variable {guarded : Bool} {room n i i' : ℕ} {a a' : Args} {t t' : Strtok}

theorem strtok_first (s : List UInt8) (post : Mem) (saved : Option ℕ) :
    ∃ r t', strtok ⟨s ++ 0 :: post, saved⟩ (some 0) [space] = some (r, t') ∧
      Before s.length t' := by
  obtain ⟨r, q, m', hscan, hle, hn, -⟩ := scan_defined
    (getElem?_append_length : (s ++ 0 :: post)[s.length]? = some 0) (Nat.zero_le s.length)
    (by decide : (0 : UInt8) ∉ [space])
  exact ⟨r, ⟨m', some q⟩, hscan, hn, q, rfl, hle⟩

theorem strtok_before (ht : Before n t) :
    ∃ r t', strtok t none [space] = some (r, t') ∧ Before n t' := by
  obtain ⟨hn, q, hq, hle⟩ := ht
  obtain ⟨r, q', m', hscan, hle', hn', -⟩ :=
    scan_defined hn hle (by decide : (0 : UInt8) ∉ [space])
  refine ⟨r, ⟨m', some q'⟩, ?_, hn', q', rfl, hle'⟩
  rw [strtok, hq]
  exact hscan

/-- As long as the loop ends, it stores into the array. -/
theorem argsSafe_tokenLoop_of_value (hroom : i + room + 1 = maxArgs)
    (h : Shell.tokenLoop guarded room a i t = some (a', i', t')) :
    (tokenLoop guarded room a i t).All Access.ArgsSafe := by
  induction room generalizing a i t with
  | zero =>
    rw [Shell.tokenLoop] at h
    rw [tokenLoop]
    split_ifs at h ⊢
    exact Trace.all_pure
  | succ room ih =>
    rw [Shell.tokenLoop] at h
    rw [tokenLoop]
    split_ifs at h ⊢
    · exact Trace.all_pure
    · obtain ⟨⟨p, t₁⟩, ht, h⟩ := Option.bind_eq_some_iff.1 h
      obtain ⟨a₁, hset, h⟩ := Option.bind_eq_some_iff.1 h
      rw [ht, Trace.all_bind_of_some (Trace.value_lift _), and_iff_right Trace.all_lift,
        Trace.all_bind_of_some ((value_set a (i + 1) p).trans hset), all_set]
      refine ⟨?_, ih (by omega) h⟩
      show i + 1 < maxArgs
      omega

/-- As long as the loop stores into the array, it ends. -/
theorem exists_of_argsSafe_tokenLoop (hroom : i + room + 1 = maxArgs) (ht : Before n t)
    (h : (tokenLoop guarded room a i t).All Access.ArgsSafe) :
    ∃ r, Shell.tokenLoop guarded room a i t = some r := by
  induction room generalizing a i t with
  | zero =>
    rw [Shell.tokenLoop]
    rw [tokenLoop] at h
    split_ifs at h ⊢
    · exact ⟨_, rfl⟩
    · obtain ⟨p, t₁, hp, -⟩ := strtok_before ht
      rw [hp, Trace.all_bind_of_some (Trace.value_lift _), Trace.all_bind, all_set] at h
      have hlt : i + 1 < maxArgs := h.2.1
      omega
  | succ room ih =>
    rw [Shell.tokenLoop]
    rw [tokenLoop] at h
    split_ifs at h ⊢
    · exact ⟨_, rfl⟩
    · obtain ⟨p, t₁, hp, ht₁⟩ := strtok_before ht
      obtain ⟨a₁, hset⟩ : ∃ a₁, a.set (i + 1) p = some a₁ := ⟨_, if_pos (by omega)⟩
      rw [hp, Trace.all_bind_of_some (Trace.value_lift _),
        Trace.all_bind_of_some ((value_set a (i + 1) p).trans hset)] at h
      rw [hp, Option.bind_some]
      dsimp only
      rw [hset, Option.bind_some]
      exact ih (by omega) ht₁ h.2.2

/-- **The loop stores into the array exactly if it ends.** -/
theorem argsSafe_tokenLoop (hroom : i + room + 1 = maxArgs) (ht : Before n t) :
    (tokenLoop guarded room a i t).All Access.ArgsSafe ↔
      ∃ r, Shell.tokenLoop guarded room a i t = some r :=
  ⟨exists_of_argsSafe_tokenLoop hroom ht, fun ⟨_, h⟩ => argsSafe_tokenLoop_of_value hroom h⟩

/-- The guarded loop ends at one of the slots. -/
theorem tokenLoop_le (h : Shell.tokenLoop guarded room a i t = some (a', i', t')) :
    i' ≤ i + room := by
  induction room generalizing a i t with
  | zero =>
    rw [Shell.tokenLoop] at h
    split_ifs at h
    cases h
    exact le_rfl
  | succ room ih =>
    rw [Shell.tokenLoop] at h
    split_ifs at h
    · cases h
      exact Nat.le_add_right _ _
    · obtain ⟨⟨p, t₁⟩, -, h⟩ := Option.bind_eq_some_iff.1 h
      obtain ⟨a₁, -, h⟩ := Option.bind_eq_some_iff.1 h
      have hle := ih h
      omega

/-- The loop without a guard ends at a NULL. -/
theorem none_mem_of_tokenLoop (h : Shell.tokenLoop false room a i t = some (a', i', t')) :
    none ∈ a'.slots := by
  induction room generalizing a i t with
  | zero =>
    rw [Shell.tokenLoop] at h
    by_cases hstop : a.slots[i]? = some none
    · rw [if_pos (.inl hstop)] at h
      cases h
      exact List.mem_of_getElem? hstop
    · rw [if_neg (by simp [hstop])] at h
      cases h
  | succ room ih =>
    rw [Shell.tokenLoop] at h
    split_ifs at h with hstop
    · cases h
      exact List.mem_of_getElem? hstop
    · obtain ⟨⟨p, t₁⟩, -, h⟩ := Option.bind_eq_some_iff.1 h
      obtain ⟨a₁, -, h⟩ := Option.bind_eq_some_iff.1 h
      exact ih h

end Loop

/-! ### Stages and lines -/

section Split

variable {s : List UInt8} {a a' : Args} {cmd : Option ℕ} {t t' : Strtok}

theorem none_mem_of_set {i : ℕ} (h : a.set i none = some a') : none ∈ a'.slots := by
  unfold Args.set at h
  split_ifs at h with hi
  cases h
  exact List.mem_set (a.length_slots ▸ hi) none

theorem none_mem_of_splitStage (h : Shell.splitStage a cmd t = some (a', t')) :
    none ∈ a'.slots := by
  obtain ⟨⟨p, t₁⟩, -, h⟩ := Option.bind_eq_some_iff.1 h
  obtain ⟨a₁, -, h⟩ := Option.bind_eq_some_iff.1 h
  obtain ⟨⟨a₂, i, t₂⟩, -, h⟩ := Option.bind_eq_some_iff.1 h
  obtain ⟨a₃, hset, he⟩ := Option.map_eq_some_iff.1 h
  cases he
  exact none_mem_of_set hset

theorem none_mem_of_splitLine (h : Shell.splitLine a t = some (cmd, a', t')) :
    none ∈ a'.slots := by
  obtain ⟨⟨p, t₁⟩, -, h⟩ := Option.bind_eq_some_iff.1 h
  obtain ⟨a₁, -, h⟩ := Option.bind_eq_some_iff.1 h
  obtain ⟨⟨a₂, i, t₂⟩, hloop, he⟩ := Option.map_eq_some_iff.1 h
  cases he
  exact none_mem_of_tokenLoop hloop

/-- **A guarded stage**: every store is into the array. -/
theorem argsSafe_splitStage (h : Shell.splitStage a cmd t = some (a', t')) :
    (splitStage a cmd t).All Access.ArgsSafe := by
  obtain ⟨⟨p, t₁⟩, ht, h⟩ := Option.bind_eq_some_iff.1 h
  obtain ⟨a₁, hset, h⟩ := Option.bind_eq_some_iff.1 h
  obtain ⟨⟨a₂, i, t₂⟩, hloop, -⟩ := Option.bind_eq_some_iff.1 h
  have hle := tokenLoop_le hloop
  rw [splitStage, ht, Trace.all_bind_of_some (Trace.value_lift _), and_iff_right Trace.all_lift,
    Trace.all_bind_of_some ((value_set a 0 p).trans hset), all_set,
    Trace.all_bind_of_some ((value_tokenLoop _ _ _ _ _).trans hloop), Trace.all_bind, all_set]
  refine ⟨Nat.succ_pos 9, argsSafe_tokenLoop_of_value rfl hloop, ?_, fun _ _ => Trace.all_pure⟩
  show i < maxArgs
  rw [Nat.zero_add] at hle
  exact Nat.lt_of_le_pred (Nat.succ_pos 9) hle

theorem exists_set_zero (a : Args) (p : Option ℕ) : ∃ a₁, a.set 0 p = some a₁ :=
  ⟨_, if_pos (Nat.succ_pos 9)⟩

theorem argsSafe_zero : Access.ArgsSafe (.args 0) := Nat.succ_pos 9

/-- A line without a bar is split exactly if the stores are into the array. -/
theorem argsSafe_splitLine_iff (s : List UInt8) (post : Mem) (a : Args) (saved : Option ℕ) :
    (splitLine a ⟨s ++ 0 :: post, saved⟩).All Access.ArgsSafe ↔
      ∃ r, Shell.splitLine a ⟨s ++ 0 :: post, saved⟩ = some r := by
  obtain ⟨cmd, t, hcmd, ht⟩ := strtok_first s post saved
  obtain ⟨a₁, hset⟩ := exists_set_zero a cmd
  rw [splitLine, hcmd, Trace.all_bind_of_some (Trace.value_lift _), and_iff_right Trace.all_lift,
    Trace.all_bind_of_some ((value_set a 0 cmd).trans hset), all_set, Trace.all_bind,
    and_iff_right argsSafe_zero, argsSafe_tokenLoop rfl ht, and_iff_left fun _ _ => Trace.all_pure]
  simp only [Shell.splitLine, hcmd, Option.bind_some, hset, ← Option.isSome_iff_exists,
    Option.isSome_map]

/-- **A line without a bar**: the stores are into the array exactly if there are fewer words than
slots. -/
theorem argsSafe_splitLine (post : Mem) (h0 : 0 ∉ s) (a : Args) (saved : Option ℕ) :
    (splitLine a ⟨s ++ 0 :: post, saved⟩).All Access.ArgsSafe ↔
      (words space s).length < maxArgs := by
  rw [argsSafe_splitLine_iff]
  obtain ⟨hnil, a', t, h⟩ | ⟨-, hlt, p, a', t, h⟩ | ⟨hle, h⟩ := splitLine_cases post h0 a saved
  · rw [hnil]
    exact iff_of_true ⟨_, h⟩ (Nat.succ_pos 9)
  · exact iff_of_true ⟨_, h⟩ hlt
  · rw [h]
    exact iff_of_false (by simp) (Nat.not_lt.2 hle)

end Split

/-! ### A line -/

section Line

variable {s input : List UInt8} {a1 a2 : Args} {m : Mem} {saved cmd1 : Option ℕ} {t t' : Strtok}

/-- **Two stages**: both loops are guarded, so this is never unsafe. -/
theorem argsSafe_piped {r : Command × Args × Args × Strtok} {p : ℕ}
    (h₁ : strtok ⟨m, saved⟩ (some 0) [bar] = some (cmd1, t))
    (h₂ : strtok t none [bar] = some (some p, t'))
    (hp : Shell.parse a1 a2 m saved = some r) :
    (parse a1 a2 m saved).All Access.ArgsSafe := by
  obtain ⟨b₁, t₁, b₂, t₂, left, right, hb₁, hb₂, -, -, -, hall⟩ := all_parse_piped h₁ h₂ hp
  rw [hall]
  exact ⟨argsSafe_splitStage hb₁, argsSafe_splitStage hb₂, none_mem_of_splitStage hb₁,
    none_mem_of_splitStage hb₂⟩

/-- **One stage**: what is handed to `execvp` ends with NULL if the loop ends. -/
theorem argsSafe_single (h₁ : strtok ⟨m, saved⟩ (some 0) [bar] = some (cmd1, t))
    (h₂ : strtok t none [bar] = some (none, t')) :
    (parse a1 a2 m saved).All Access.ArgsSafe ↔ (splitLine a1 t').All Access.ArgsSafe := by
  rw [all_parse_single h₁ h₂]
  refine and_iff_left fun cmd a' t₁ hsplit => ⟨trivial, fun p _ _ => ?_⟩
  exact none_mem_of_splitLine hsplit

theorem argsSafe_parse (post : Mem) (a1 a2 : Args) (saved : Option ℕ) (h0 : 0 ∉ s) :
    (parse a1 a2 (s ++ 0 :: post) saved).All Access.ArgsSafe ↔
      2 ≤ (words bar s).length ∨ (words space (stem s)).length < maxArgs := by
  rcases lt_or_ge (words bar s).length 2 with hs | hs
  · obtain ⟨cmd1, t, post', saved', h₁, h₂⟩ := bars_single post saved h0 hs
    rw [argsSafe_single h₁ h₂, argsSafe_splitLine post' (nul_notMem_stem h0), or_iff_right]
    omega
  · obtain ⟨w₁, w₂, ws, htokens⟩ := Lists.exists_cons_cons hs
    obtain ⟨pre, k, post', saved', t, h₁, h₂⟩ := bars_tokens post saved h0 htokens
    obtain ⟨a1', a2', t', hparse, -⟩ := parse_tokens post a1 a2 saved h0 htokens
    exact iff_of_true (argsSafe_piped h₁ h₂ hparse) (.inl hs)

/-- **Which lines are safe for the arrays of the shell with pipes**: those of two stages, and those
with fewer words than slots. -/
theorem argsSafe_readCommand (l : Locals) (hne : input ≠ []) :
    (readCommand l input).All Access.ArgsSafe ↔
      2 ≤ (words bar (lineText input)).length ∨
        (words space (stem (lineText input))).length < maxArgs := by
  obtain ⟨hnil, hread⟩ | ⟨-, post, hread⟩ := all_readCommand l hne
  · rw [hread, lineText, hnil]
    exact iff_of_true trivial (.inr (by decide))
  · rw [hread, argsSafe_parse post l.args1 l.args2 l.saved (nul_notMem_lineText input)]
    exact and_iff_right trivial

end Line
end Traced
end Shell
end PosixHw
