import PosixHw.Shell.Process

/-!
# The shell with pipes: who runs, and who holds the pipe

* `Family f₀ q cs`: the process `q` is the shell and `cs` are its children.  `ShellOk` and `ChildOk`
  say which descriptors they have at each program counter, where `f₀` is the table at the start;
  `due` are the children that the shell may have, and `pending` how many of them.
* `inv_step`: every step keeps this; a child that fails in `execvp` ends, so it never gets into
  the part of the program that is the shell's.
* `shell_protocol`: at the prompt the shell is alone with the descriptors it had at start; while it
  waits for a pipeline, nobody but the left child, and the right one before its first `close`, can
  write to a pipe.
-/

namespace PosixHw
namespace Shell

open Run

/-! ### The invariant -/

/-- The program counters of the prompt loop. -/
def Pc.inLoop : Pc → Bool
  | .prompt | .pipe _ _ | .forkLeft _ _ _ _ | .forkRight _ _ _ | .closeRead _ _ | .closeWrite _
  | .wait1 | .wait2 | .fork _ | .wait => true
  | _ => false

/-- The children that the shell may have. -/
def due : Pc → List Origin
  | .forkRight _ _ _ => [.left]
  | .closeRead _ _ | .closeWrite _ | .wait1 | .wait2 => [.left, .right]
  | .wait => [.single]
  | _ => []

/-- How many of them it has at most. -/
def pending : Pc → ℕ
  | .forkRight _ _ _ | .wait | .wait2 => 1
  | .closeRead _ _ | .closeWrite _ | .wait1 => 2
  | _ => 0

/-- The descriptors of the shell. -/
def ShellOk (f₀ : Fds) (q : Proc) : Prop :=
  match q.pc with
  | .prompt | .pipe _ _ | .fork _ | .wait | .wait1 | .wait2 => q.fds = f₀
  | .forkLeft _ _ rd wr | .forkRight _ rd wr | .closeRead rd wr =>
    ∃ p, f₀.pipe rd wr p = some q.fds
  | .closeWrite wr => q.fds.close wr = f₀
  | .failed | .ended => True
  | _ => False

/-- The descriptors of a child.  The right one, and that of a single command, cannot write to a
pipe once they have closed what they do not need; the left one comes to `execvp` with the write end
as its standard output. -/
def ChildOk (f₀ : Fds) (q : Proc) : Prop :=
  match q.origin, q.pc with
  | .left, .leftCloseRead _ rd wr => ∃ p, f₀.pipe rd wr p = some q.fds
  | .left, .leftDup _ wr => wr ≠ 1 ∧ ∃ p, q.fds wr = some (.writeEnd p)
  | .left, .leftCloseWrite _ wr => wr ≠ 1 ∧ ∃ p, q.fds 1 = some (.writeEnd p)
  | .left, .exec _ => ∃ p, q.fds 1 = some (.writeEnd p)
  | .left, .failed | .left, .command _ | .left, .ended => True
  | .right, .rightCloseWrite _ rd wr => ∃ p, f₀.pipe rd wr p = some q.fds
  | .right, .rightDup _ _ | .right, .rightCloseRead _ _ => q.fds.NoWriteEnd
  | .right, .exec _ | .right, .failed | .right, .command _ | .right, .ended => q.fds.NoWriteEnd
  | .single, .exec _ | .single, .failed | .single, .command _ | .single, .ended =>
    q.fds.NoWriteEnd
  | _, _ => False

/-- The table that the shell is started with: the standard descriptors are open, and none on a
pipe of its own. -/
structure Standard (f₀ : Fds) : Prop where
  stdin : f₀ 0 ≠ none
  stdout : f₀ 1 ≠ none
  stderr : f₀ 2 ≠ none
  noWriteEnd : f₀.NoWriteEnd

/-- The shell `q` with its children `cs`. -/
structure Family (f₀ : Fds) (q : Proc) (cs : List Proc) : Prop where
  origin : q.origin = .shell
  shell : ShellOk f₀ q
  child : ∀ c ∈ cs, c.parent = q.pid ∧ ChildOk f₀ c
  origins : (cs.map Proc.origin).Sublist (due q.pc)
  count : cs.length ≤ pending q.pc

/-- There is no process but the shell and its children. -/
def Inv (f₀ : Fds) (s : State) : Prop := ∃ q cs, s.procs = q :: cs ∧ Family f₀ q cs

theorem inv_start (f₀ : Fds) (l : Locals) : Inv f₀ (start f₀ l) :=
  ⟨_, [], rfl, rfl, rfl, by simp, .slnil, le_rfl⟩

theorem ChildOk.inLoop {f₀ : Fds} {q : Proc} (h : ChildOk f₀ q) : q.pc.inLoop = false := by
  cases ho : q.origin <;> cases hpc : q.pc <;> first | rfl | (simp only [ChildOk, ho, hpc] at h)

theorem forks_inLoop {pc next child : Pc} {o : Origin} (h : pc.forks = some (next, child, o)) :
    pc.inLoop = true := by
  cases pc <;> first | rfl | cases h

theorem afterWait_inLoop {pc next : Pc} (h : pc.afterWait = some next) : pc.inLoop = true := by
  cases pc <;> first | rfl | cases h

/-! ### Steps of one process -/

/-- A step of the shell alone, and what it does to the bounds on its children. -/
theorem shell_own {f₀ : Fds} {q q' : Proc} {a : Own} (h : ShellOk f₀ q) (hs : q.own a = some q') :
    ShellOk f₀ q' ∧ (q'.pid = q.pid ∧ q'.origin = q.origin) ∧ (due q.pc).Sublist (due q'.pc) ∧
      pending q.pc ≤ pending q'.pc := by
  cases a with
  | read input =>
    simp only [Proc.own] at hs
    split at hs
    · rename_i hpc
      obtain ⟨⟨c, l, rest⟩, -, rfl⟩ := Option.map_eq_some_iff.1 hs
      simp only [ShellOk, hpc] at h
      rw [hpc]
      cases c with
      | piped left right => exact ⟨h, ⟨rfl, rfl⟩, .slnil, le_rfl⟩
      | single e => exact ⟨h, ⟨rfl, rfl⟩, .slnil, le_rfl⟩
      | exit => exact ⟨trivial, ⟨rfl, rfl⟩, .slnil, le_rfl⟩
      | eof => exact ⟨trivial, ⟨rfl, rfl⟩, .slnil, le_rfl⟩
    · cases hs
  | pipeFailed =>
    simp only [Proc.own] at hs
    split at hs <;> cases hs
    rename_i hpc
    rw [hpc]
    exact ⟨trivial, ⟨rfl, rfl⟩, .slnil, le_rfl⟩
  | forkFailed =>
    obtain ⟨⟨next, child, o⟩, hf, rfl⟩ := Option.map_eq_some_iff.1 hs
    cases hpc : q.pc <;> rw [hpc] at hf <;> cases hf <;> simp only [ShellOk, hpc] at h
    · exact ⟨h, ⟨rfl, rfl⟩, List.nil_sublist _, Nat.zero_le _⟩
    · exact ⟨h, ⟨rfl, rfl⟩, .cons_cons _ (List.nil_sublist _), Nat.le_succ 1⟩
    · exact ⟨h, ⟨rfl, rfl⟩, List.nil_sublist _, Nat.zero_le _⟩
  | close =>
    simp only [Proc.own] at hs
    split at hs <;> cases hs <;> rename_i hpc <;> simp only [ShellOk, hpc] at h <;> rw [hpc]
    · obtain ⟨p, hp⟩ := h
      exact ⟨Fds.close_close hp, ⟨rfl, rfl⟩, List.Sublist.refl _, le_rfl⟩
    · exact ⟨h, ⟨rfl, rfl⟩, List.Sublist.refl _, le_rfl⟩
  | exit =>
    simp only [Proc.own] at hs
    split at hs <;> cases hs <;> rename_i hpc <;> rw [hpc] <;>
      exact ⟨trivial, ⟨rfl, rfl⟩, .slnil, le_rfl⟩
  | dup2 | execvp | execFailed | command =>
    -- steps of a child, at none of the places of the shell
    simp only [Proc.own] at hs
    split at hs <;> cases hs
    all_goals rename_i hpc; simp only [ShellOk, hpc] at h

theorem noWriteEnd_apply {f : Fds} (h : f.NoWriteEnd) (op : FdOp) : (op.apply f).NoWriteEnd := by
  cases op with
  | close fd => exact h.close fd
  | dup2 a b => exact h.dup2 a b
  | opens fd n =>
    rintro p ⟨d, hd⟩
    simp only [FdOp.apply, Function.update_apply] at hd
    split_ifs at hd
    · cases hd
    · exact h p ⟨d, hd⟩

theorem noWriteEnd_nil : Fds.NoWriteEnd fun _ => none := by
  rintro p ⟨fd, hfd⟩
  cases hfd

/-- A step of a child alone. -/
theorem child_own {f₀ : Fds} {q q' : Proc} {a : Own} (h₀ : Standard f₀) (h : ChildOk f₀ q)
    (hs : q.own a = some q') :
    ChildOk f₀ q' ∧ q'.parent = q.parent ∧ q'.origin = q.origin := by
  have hloop := h.inLoop
  cases a with
  | read input =>
    simp only [Proc.own] at hs
    split at hs
    · rename_i hpc
      rw [hpc] at hloop
      cases hloop
    · cases hs
  | pipeFailed =>
    simp only [Proc.own] at hs
    split at hs <;> cases hs
    rename_i hpc
    rw [hpc] at hloop
    cases hloop
  | forkFailed =>
    obtain ⟨⟨next, child, o⟩, hf, -⟩ := Option.map_eq_some_iff.1 hs
    rw [forks_inLoop hf] at hloop
    cases hloop
  | close =>
    simp only [Proc.own] at hs
    split at hs <;> cases hs <;> rename_i hpc
    · rw [hpc] at hloop; cases hloop
    · rw [hpc] at hloop; cases hloop
    · cases ho : q.origin <;> simp only [ChildOk, ho, hpc] at h ⊢
      obtain ⟨p, hp⟩ := h
      -- the write end is not the standard output, which was open before
      have hne : ∀ {wr}, f₀ wr = none → wr ≠ 1 := fun hwr e => h₀.stdout (e ▸ hwr)
      refine ⟨⟨hne (Fds.pipe_cases hp).2.2.1, p, ?_⟩, trivial, trivial⟩
      rw [Fds.close_read hp, Function.update_self]
    · cases ho : q.origin <;> simp only [ChildOk, ho, hpc] at h ⊢
      obtain ⟨hne, p, hp⟩ := h
      refine ⟨⟨p, ?_⟩, trivial, trivial⟩
      rw [Fds.close, Function.update_of_ne hne.symm, hp]
    · cases ho : q.origin <;> simp only [ChildOk, ho, hpc] at h ⊢
      obtain ⟨p, hp⟩ := h
      exact ⟨Fds.noWriteEnd_close_write hp h₀.noWriteEnd, trivial, trivial⟩
    · cases ho : q.origin <;> simp only [ChildOk, ho, hpc] at h ⊢
      exact ⟨h.close _, trivial, trivial⟩
  | dup2 =>
    simp only [Proc.own] at hs
    split at hs <;> cases hs <;> rename_i hpc
    · cases ho : q.origin <;> simp only [ChildOk, ho, hpc] at h ⊢
      obtain ⟨hne, p, hp⟩ := h
      refine ⟨⟨hne, p, ?_⟩, trivial, trivial⟩
      simp only [Fds.dup2, hp, Function.update_self]
    · cases ho : q.origin <;> simp only [ChildOk, ho, hpc] at h ⊢
      exact ⟨h.dup2 _ _, trivial, trivial⟩
  | execvp | execFailed =>
    simp only [Proc.own] at hs
    split at hs <;> cases hs
    rename_i hpc
    cases ho : q.origin <;> simp only [ChildOk, ho, hpc] at h ⊢
    · exact ⟨trivial, trivial, trivial⟩
    · exact ⟨h, trivial, trivial⟩
    · exact ⟨h, trivial, trivial⟩
  | exit =>
    simp only [Proc.own] at hs
    split at hs <;> cases hs
    all_goals
      rename_i hpc
      cases ho : q.origin <;> simp only [ChildOk, Proc.exit, ho, hpc] at h ⊢
      · exact ⟨trivial, trivial, trivial⟩
      · exact ⟨noWriteEnd_nil, trivial, trivial⟩
      · exact ⟨noWriteEnd_nil, trivial, trivial⟩
  | command op =>
    simp only [Proc.own] at hs
    split at hs <;> cases hs
    rename_i hpc
    cases ho : q.origin <;> simp only [ChildOk, ho, hpc] at h ⊢
    · exact ⟨trivial, trivial, trivial⟩
    · exact ⟨noWriteEnd_apply h op, trivial, trivial⟩
    · exact ⟨noWriteEnd_apply h op, trivial, trivial⟩

/-! ### Steps of the family -/

section Family

variable {f₀ : Fds} {q q' c c' : Proc} {cs : List Proc} {a : Own}

/-- The shell goes on without a change to its children. -/
theorem Family.shellStep (h : Family f₀ q cs) (hok : ShellOk f₀ q')
    (hid : q'.pid = q.pid ∧ q'.origin = q.origin) (hdue : (due q.pc).Sublist (due q'.pc))
    (hle : pending q.pc ≤ pending q'.pc) : Family f₀ q' cs where
  origin := hid.2.trans h.origin
  shell := hok
  child c hc := by
    rw [hid.1]
    exact h.child c hc
  origins := h.origins.trans hdue
  count := h.count.trans hle

/-- A child goes on. -/
theorem Family.childStep {i : ℕ} (h : Family f₀ q cs) (hi : cs[i]? = some c)
    (hok : ChildOk f₀ c') (hparent : c'.parent = c.parent) (horigin : c'.origin = c.origin) :
    Family f₀ q (cs.set i c') where
  origin := h.origin
  shell := h.shell
  child d hd := by
    rcases List.mem_or_eq_of_mem_set hd with hd | rfl
    · exact h.child d hd
    · rw [hparent]
      exact ⟨(h.child c (List.mem_of_getElem? hi)).1, hok⟩
  origins := by
    obtain ⟨hlt, rfl⟩ := List.getElem?_eq_some_iff.1 hi
    have hlt' : i < (cs.map Proc.origin).length := by rwa [List.length_map]
    have hmap : (cs.map Proc.origin).set i (cs.map Proc.origin)[i] = cs.map Proc.origin :=
      List.set_getElem_self hlt'
    rw [List.getElem_map] at hmap
    rw [List.map_set, horigin, hmap]
    exact h.origins
  count := by
    rw [List.length_set]
    exact h.count

/-- A `fork` adds the child that is due next. -/
theorem Family.forkStep {next child : Pc} {o : Origin} (h₀ : Standard f₀) (h : Family f₀ q cs)
    (hf : q.pc.forks = some (next, child, o)) (pid : ℕ) :
    Family f₀ { q with pc := next } (cs ++ [⟨pid, q.pid, o, child, q.fds, q.locals⟩]) := by
  have hbounds : due next = due q.pc ++ [o] ∧ pending next = pending q.pc + 1 := by
    cases hpc : q.pc <;> rw [hpc] at hf <;> cases hf <;> exact ⟨rfl, rfl⟩
  have hok : ShellOk f₀ { q with pc := next } ∧
      ChildOk f₀ ⟨pid, q.pid, o, child, q.fds, q.locals⟩ := by
    have hok := h.shell
    cases hpc : q.pc <;> rw [hpc] at hf <;> cases hf <;> simp only [ShellOk, hpc] at hok
    · exact ⟨hok, hok⟩
    · exact ⟨hok, hok⟩
    · exact ⟨hok, by rw [hok]; exact h₀.noWriteEnd⟩
  refine ⟨h.origin, hok.1, fun c hc => ?_, ?_, ?_⟩
  · rcases List.mem_append.1 hc with hc | hc
    · exact h.child c hc
    · rw [List.mem_singleton.1 hc]
      exact ⟨rfl, hok.2⟩
  · rw [List.map_append, hbounds.1]
    exact h.origins.append (List.Sublist.refl _)
  · rw [List.length_append, hbounds.2]
    exact Nat.succ_le_succ h.count

/-- A `wait` returns when a child has been reaped or there is none. -/
theorem Family.waitStep {next : Pc} {cs' : List Proc} (h : Family f₀ q cs)
    (hw : q.pc.afterWait = some next) (hsub : cs'.Sublist cs)
    (hlen : cs'.length ≤ cs.length - 1) : Family f₀ { q with pc := next } cs' := by
  have hle : cs'.length ≤ pending q.pc - 1 := hlen.trans (Nat.sub_le_sub_right h.count 1)
  have hok := h.shell
  have horigins := (hsub.map Proc.origin).trans h.origins
  refine ⟨h.origin, ?_, fun c hc => h.child c (hsub.subset hc), ?_, ?_⟩
  · cases hpc : q.pc <;> rw [hpc] at hw <;> cases hw <;> simpa only [ShellOk, hpc] using hok
  · cases hpc : q.pc <;> rw [hpc] at hw hle horigins <;> cases hw
    · exact horigins
    · rw [List.eq_nil_of_length_eq_zero (Nat.le_zero.1 hle)]
      exact List.nil_sublist _
    · rw [List.eq_nil_of_length_eq_zero (Nat.le_zero.1 hle)]
      exact List.nil_sublist _
  · cases hpc : q.pc <;> rw [hpc] at hw hle <;> cases hw <;> exact hle

end Family

theorem inv_step {f₀ : Fds} (h₀ : Standard f₀) (s : State) (a : Action) (s' : State)
    (h : Inv f₀ s) (hs : step s a = some s') : Inv f₀ s' := by
  obtain ⟨q, cs, hp, hF⟩ := h
  -- a process at a program counter of the loop is the shell
  have hfirst : ∀ {i q₁}, s.procs[i]? = some q₁ → q₁.pc.inLoop = true → i = 0 ∧ q₁ = q := by
    intro i q₁ hi hl
    rw [hp] at hi
    cases i with
    | zero => exact ⟨rfl, (Option.some.inj hi).symm⟩
    | succ i =>
      rw [(hF.child q₁ (List.mem_of_getElem? hi)).2.inLoop] at hl
      cases hl
  cases a with
  | own i a =>
    obtain ⟨q₁, hi, hs⟩ := Option.bind_eq_some_iff.1 hs
    obtain ⟨q', hq', rfl⟩ := Option.map_eq_some_iff.1 hs
    rw [hp] at hi
    cases i with
    | zero =>
      obtain rfl := Option.some.inj hi
      obtain ⟨hok, hid, hdue, hle⟩ := shell_own hF.shell hq'
      exact ⟨q', cs, by rw [hp]; rfl, hF.shellStep hok hid hdue hle⟩
    | succ i =>
      have hi' : cs[i]? = some q₁ := hi
      obtain ⟨hok, hparent, horigin⟩ :=
        child_own h₀ (hF.child q₁ (List.mem_of_getElem? hi')).2 hq'
      exact ⟨q, cs.set i q', by rw [hp]; rfl, hF.childStep hi' hok hparent horigin⟩
  | pipe i rd wr =>
    obtain ⟨q₁, hi, hs⟩ := Option.bind_eq_some_iff.1 hs
    split at hs
    · rename_i l r hpc
      obtain ⟨f, hf, rfl⟩ := Option.map_eq_some_iff.1 hs
      obtain ⟨rfl, rfl⟩ := hfirst hi (by rw [hpc]; rfl)
      have hok := hF.shell
      simp only [ShellOk, hpc] at hok
      refine ⟨{ q₁ with fds := f, pc := .forkLeft l r rd wr }, cs, by rw [hp]; rfl,
        hF.shellStep ⟨s.nextPipe, ?_⟩ ⟨rfl, rfl⟩ ?_ ?_⟩
      · rwa [← hok]
      · rw [hpc]
        exact .slnil
      · rw [hpc]
        exact le_rfl
    · cases hs
  | fork i =>
    obtain ⟨q₁, hi, hs⟩ := Option.bind_eq_some_iff.1 hs
    obtain ⟨⟨next, child, o⟩, hf, rfl⟩ := Option.map_eq_some_iff.1 hs
    obtain ⟨rfl, rfl⟩ := hfirst hi (forks_inLoop hf)
    exact ⟨_, _, by rw [hp]; rfl, hF.forkStep h₀ hf s.nextPid⟩
  | reap i j =>
    obtain ⟨q₁, hi, hs⟩ := Option.bind_eq_some_iff.1 hs
    obtain ⟨z, hj, hs⟩ := Option.bind_eq_some_iff.1 hs
    obtain ⟨next, hw, hs⟩ := Option.bind_eq_some_iff.1 hs
    obtain ⟨rfl, rfl⟩ := hfirst hi (afterWait_inLoop hw)
    split at hs
    · rename_i hz
      split_ifs at hs
      cases hs
      rw [hp] at hj
      cases j with
      | zero =>
        obtain rfl := Option.some.inj hj
        rw [hz] at hw
        cases hw
      | succ j =>
        have hj' : cs[j]? = some z := hj
        have hlt := (List.getElem?_eq_some_iff.1 hj').1
        refine ⟨_, cs.eraseIdx j, by rw [hp]; rfl,
          hF.waitStep hw (List.eraseIdx_sublist cs j) ?_⟩
        rw [List.length_eraseIdx_of_lt hlt]
    · cases hs
  | noChild i =>
    obtain ⟨q₁, hi, hs⟩ := Option.bind_eq_some_iff.1 hs
    obtain ⟨next, hw, hs⟩ := Option.bind_eq_some_iff.1 hs
    obtain ⟨rfl, rfl⟩ := hfirst hi (afterWait_inLoop hw)
    split_ifs at hs with hno
    cases hs
    have hnil : cs = [] := by
      rw [List.eq_nil_iff_forall_not_mem]
      intro c hc
      exact hno c (by rw [hp]; exact List.mem_cons_of_mem _ hc) (hF.child c hc).1
    subst hnil
    exact ⟨_, [], by rw [hp]; rfl, hF.waitStep hw (List.Sublist.refl _) (Nat.zero_le _)⟩

/-! ### What a run keeps -/

/-- A child has got as far as `execvp`. -/
def Pc.reachedExec : Pc → Bool
  | .exec _ | .failed | .command _ | .ended => true
  | _ => false

/-- While the shell waits, it holds no write end, and the right child only before its first
`close`. -/
theorem Family.holds {f₀ : Fds} {q c : Proc} {cs : List Proc} {p : ℕ} (h₀ : Standard f₀)
    (h : Family f₀ q cs) (hq : q.pc = .wait1 ∨ q.pc = .wait2) (hc : c ∈ q :: cs)
    (hp : c.fds.Holds (.writeEnd p)) :
    c.origin = .left ∨ ∃ e rd wr, c.pc = .rightCloseWrite e rd wr := by
  rcases List.mem_cons.1 hc with rfl | hc
  · -- the shell has closed both ends
    have hok := h.shell
    have hfds : c.fds = f₀ := by rcases hq with hq | hq <;> simpa only [ShellOk, hq] using hok
    rw [hfds] at hp
    exact absurd hp (h₀.noWriteEnd p)
  · have hok := (h.child c hc).2
    cases ho : c.origin with
    | left => exact Or.inl rfl
    | _ =>
      cases hpc : c.pc <;> simp only [ChildOk, ho, hpc] at hok <;> first
        | exact absurd hp (hok p)
        | exact Or.inr ⟨_, _, _, rfl⟩

/-- The shell has at most one left child. -/
theorem Family.one_left {f₀ : Fds} {q : Proc} {cs : List Proc} (h : Family f₀ q cs) :
    ((q :: cs).filter fun c => c.origin = .left).length ≤ 1 := by
  have hq : (q :: cs).filter (fun c => c.origin = .left) = cs.filter fun c => c.origin = .left :=
    List.filter_cons_of_neg (by rw [h.origin]; decide)
  have hdue : ∀ pc, (due pc).count .left ≤ 1 := fun pc => by
    cases pc <;> exact Nat.le_of_ble_eq_true rfl
  rw [hq, ← List.countP_eq_length_filter]
  have hcount := (h.origins.count_le .left).trans (hdue q.pc)
  rwa [List.count, List.countP_map] at hcount

/-- **The process and descriptor protocol.**  After every run, with any lines, any interleaving and
any outcome of each `fork`, `pipe` and `execvp`:
* at the prompt, the shell is the only process and has the descriptors it had at start;
* while it waits for a pipeline, a write end is held only by the left child, of which there is at
  most one, and by a right child that has not made its first `close`;
* once the children have reached `execvp`, only the left child holds one;
* the left child calls `execvp` with a write end as its standard output. -/
theorem shell_protocol {f₀ : Fds} {l : Locals} {as : List Action} {s : State} (h₀ : Standard f₀)
    (h : run step (start f₀ l) as = some s) :
    (∀ q ∈ s.procs, q.pc = .prompt → s.procs = [q] ∧ q.fds = f₀) ∧
    (∀ q ∈ s.procs, q.pc = .wait1 ∨ q.pc = .wait2 →
      (s.procs.filter fun c => c.origin = .left).length ≤ 1 ∧
      (∀ c ∈ s.procs, ∀ p, c.fds.Holds (.writeEnd p) →
        c.origin = .left ∨ ∃ e rd wr, c.pc = .rightCloseWrite e rd wr) ∧
      ((∀ c ∈ s.procs, c.parent = q.pid → c.pc.reachedExec = true) →
        ∀ c ∈ s.procs, ∀ p, c.fds.Holds (.writeEnd p) → c.origin = .left)) ∧
    ∀ c ∈ s.procs, c.origin = .left → ∀ e, c.pc = .exec e → ∃ p, c.fds 1 = some (.writeEnd p) := by
  obtain ⟨q₀, cs, hp, hF⟩ := run_invariant (inv_step h₀) (inv_start f₀ l) h
  have hfirst : ∀ {q}, q ∈ s.procs → q.pc.inLoop = true → q = q₀ := by
    intro q hq hl
    rw [hp] at hq
    rcases List.mem_cons.1 hq with rfl | hq
    · rfl
    · rw [(hF.child q hq).2.inLoop] at hl
      cases hl
  refine ⟨fun q hq hpc => ?_, fun q hq hpc => ?_, fun c hc ho e hpc => ?_⟩
  · obtain rfl := hfirst hq (by rw [hpc]; rfl)
    have hcount := hF.count
    have hok := hF.shell
    rw [hpc] at hcount
    simp only [ShellOk, hpc] at hok
    rw [hp, List.eq_nil_of_length_eq_zero (Nat.le_zero.1 hcount)]
    exact ⟨rfl, hok⟩
  · obtain rfl := hfirst hq (by rcases hpc with hpc | hpc <;> rw [hpc] <;> rfl)
    rw [hp]
    refine ⟨hF.one_left, fun c hc p hh => hF.holds h₀ hpc hc hh, fun hexec c hc p hh => ?_⟩
    rcases hF.holds h₀ hpc hc hh with ho | ⟨e, rd, wr, hcpc⟩
    · exact ho
    · rcases List.mem_cons.1 hc with rfl | hc'
      · rcases hpc with hpc | hpc <;> rw [hpc] at hcpc <;> cases hcpc
      · have := hexec c hc (hF.child c hc').1
        rw [hcpc] at this
        cases this
  · rw [hp] at hc
    rcases List.mem_cons.1 hc with rfl | hc
    · rw [hF.origin] at ho
      cases ho
    · have hok := (hF.child c hc).2
      simpa only [ChildOk, ho, hpc] using hok

/-- The standard descriptors and no others. -/
def standardFds : Fds := fun fd => if fd < 3 then some (.other fd) else none

theorem standard_standardFds : Standard standardFds where
  stdin := by decide
  stdout := by decide
  stderr := by decide
  noWriteEnd := by
    rintro p ⟨fd, hfd⟩
    unfold standardFds at hfd
    split_ifs at hfd
    cases hfd

/-- The line `ls|wc`, where `execvp` fails in the left child. -/
def pipeline : List Action :=
  [.own 0 (.read [108, 115, 124, 119, 99, 10]), .pipe 0 3 4, .fork 0, .fork 0,
    .own 0 .close, .own 0 .close, .own 1 .close, .own 1 .dup2, .own 1 .close, .own 1 .execFailed,
    .own 1 .exit, .own 2 .close, .own 2 .dup2, .own 2 .close, .own 2 .execvp, .own 2 .exit,
    .reap 0 2, .reap 0 1]

theorem shell_protocol_pipeline :
    ∃ s q, run step (start standardFds default) pipeline = some s ∧ s.procs = [q] ∧
      q.pc = .prompt ∧ q.fds = standardFds := by
  obtain ⟨s, hs, hf⟩ := Option.map_eq_some_iff.1
    (show (run step (start standardFds default) pipeline).map (fun s => s.procs.map Proc.pc)
      = some [.prompt] by decide +kernel)
  obtain ⟨q, hq, hpc⟩ := List.map_eq_singleton_iff.1 hf
  have hmem : q ∈ s.procs := by rw [hq]; exact List.mem_singleton_self q
  obtain ⟨-, hfds⟩ := (shell_protocol standard_standardFds hs).1 q hmem hpc
  exact ⟨s, q, hs, hq, hpc, hfds⟩

end Shell
end PosixHw
