import PosixHw.Base.Run
import PosixHw.SimpleShell.Parse

/-!
# The shell without pipes: its processes

The program `processes/task3.c` with the processes that it forks, which make their steps in any
order.  A `fork` copies the variables and the program counter; nothing stands after `execvp`, so a
child whose `execvp` fails gets to the end of the loop body and back to the prompt.

As long as no `execvp` fails, there are the shell alone, or the shell in `wait` with one child
(`Shape`).  The first `execvp` that fails makes a second process that runs the loop.
-/

namespace PosixHw
namespace SimpleShell

open Run
open Shell (Exec)

/-- Where a process is. -/
inductive Pc
  /-- At the prompt, lines 16–33. -/
  | prompt
  /-- Lines 35 and 38. -/
  | fork (e : Exec)
  | wait
  /-- In `execvp`, line 36; in the command; ended. -/
  | exec (e : Exec)
  | command (e : Exec)
  | ended
  deriving DecidableEq

/-- A process. -/
structure Proc where
  pid : ℕ
  parent : ℕ
  pc : Pc
  locals : Locals

/-- All processes, and the number of the next one. -/
structure State where
  procs : List Proc
  nextPid : ℕ

/-- The shell alone, at its first prompt, with any variables. -/
def start (l : Locals) : State := ⟨[⟨1, 0, .prompt, l⟩], 2⟩

/-- A step of the process at the place `i` of the table. -/
inductive Action
  | read (i : ℕ) (input : List UInt8)
  | fork (i : ℕ)
  | forkFailed (i : ℕ)
  | execvp (i : ℕ)
  | execFailed (i : ℕ)
  /-- The command ends. -/
  | exit (i : ℕ)
  | reap (i j : ℕ)
  | noChild (i : ℕ)

/-- Where a command that has been read leads. -/
def Pc.afterRead : Command → Pc
  | .run e => .fork e
  | .exit => .ended

def State.put (s : State) (i : ℕ) (q : Proc) : State := { s with procs := s.procs.set i q }

/-- One step; `none` if it is not enabled. -/
def step (s : State) : Action → Option State
  | .read i input =>
    match s.procs[i]? with
    | some ⟨pid, parent, .prompt, l⟩ => (readCommand l input).map fun (c, l', _) =>
        s.put i ⟨pid, parent, Pc.afterRead c, l'⟩
    | _ => none
  | .fork i =>
    match s.procs[i]? with
    | some ⟨pid, parent, .fork e, l⟩ => some
        ⟨(s.put i ⟨pid, parent, .wait, l⟩).procs ++ [⟨s.nextPid, pid, .exec e, l⟩], s.nextPid + 1⟩
    | _ => none
  | .forkFailed i =>
    match s.procs[i]? with
    | some ⟨pid, parent, .fork _, l⟩ => some (s.put i ⟨pid, parent, .wait, l⟩)
    | _ => none
  | .execvp i =>
    match s.procs[i]? with
    | some ⟨pid, parent, .exec e, l⟩ => some (s.put i ⟨pid, parent, .command e, l⟩)
    | _ => none
  -- `execvp` has returned, and the child goes on with the loop
  | .execFailed i =>
    match s.procs[i]? with
    | some ⟨pid, parent, .exec _, l⟩ => some (s.put i ⟨pid, parent, .prompt, l⟩)
    | _ => none
  | .exit i =>
    match s.procs[i]? with
    | some ⟨pid, parent, .command _, l⟩ => some (s.put i ⟨pid, parent, .ended, l⟩)
    | _ => none
  -- `wait(NULL)` returns for any child that has ended
  | .reap i j =>
    match s.procs[i]?, s.procs[j]? with
    | some ⟨pid, parent, .wait, l⟩, some ⟨_, parent', .ended, _⟩ =>
      if parent' = pid then
        some { s with procs := (s.put i ⟨pid, parent, .prompt, l⟩).procs.eraseIdx j } else none
    | _, _ => none
  -- or at once, if there is none
  | .noChild i =>
    match s.procs[i]? with
    | some ⟨pid, parent, .wait, l⟩ =>
      if ∀ z ∈ s.procs, z.parent ≠ pid then some (s.put i ⟨pid, parent, .prompt, l⟩) else none
    | _ => none

/-- What a step does. -/
inductive Step (s : State) : Action → State → Prop
  | read {i pid parent l input c l' rest} (hi : s.procs[i]? = some ⟨pid, parent, .prompt, l⟩)
      (hr : readCommand l input = some (c, l', rest)) :
      Step s (.read i input) (s.put i ⟨pid, parent, Pc.afterRead c, l'⟩)
  | fork {i pid parent e l} (hi : s.procs[i]? = some ⟨pid, parent, .fork e, l⟩) :
      Step s (.fork i) ⟨(s.put i ⟨pid, parent, .wait, l⟩).procs ++ [⟨s.nextPid, pid, .exec e, l⟩],
        s.nextPid + 1⟩
  | forkFailed {i pid parent e l} (hi : s.procs[i]? = some ⟨pid, parent, .fork e, l⟩) :
      Step s (.forkFailed i) (s.put i ⟨pid, parent, .wait, l⟩)
  | execvp {i pid parent e l} (hi : s.procs[i]? = some ⟨pid, parent, .exec e, l⟩) :
      Step s (.execvp i) (s.put i ⟨pid, parent, .command e, l⟩)
  | execFailed {i pid parent e l} (hi : s.procs[i]? = some ⟨pid, parent, .exec e, l⟩) :
      Step s (.execFailed i) (s.put i ⟨pid, parent, .prompt, l⟩)
  | exit {i pid parent e l} (hi : s.procs[i]? = some ⟨pid, parent, .command e, l⟩) :
      Step s (.exit i) (s.put i ⟨pid, parent, .ended, l⟩)
  | reap {i j pid parent l pid' l'} (hi : s.procs[i]? = some ⟨pid, parent, .wait, l⟩)
      (hj : s.procs[j]? = some ⟨pid', pid, .ended, l'⟩) :
      Step s (.reap i j) { s with procs := (s.put i ⟨pid, parent, .prompt, l⟩).procs.eraseIdx j }
  | noChild {i pid parent l} (hi : s.procs[i]? = some ⟨pid, parent, .wait, l⟩)
      (hall : ∀ z ∈ s.procs, z.parent ≠ pid) :
      Step s (.noChild i) (s.put i ⟨pid, parent, .prompt, l⟩)

theorem step_cases {s s' : State} {a : Action} (h : step s a = some s') : Step s a s' := by
  cases a with
  | read i input =>
    simp only [step] at h
    split at h
    · obtain ⟨⟨c, l', rest⟩, hr, rfl⟩ := Option.map_eq_some_iff.1 h
      exact .read ‹_› hr
    · cases h
  | fork i =>
    simp only [step] at h
    split at h <;> cases h
    exact .fork ‹_›
  | forkFailed i =>
    simp only [step] at h
    split at h <;> cases h
    exact .forkFailed ‹_›
  | execvp i =>
    simp only [step] at h
    split at h <;> cases h
    exact .execvp ‹_›
  | execFailed i =>
    simp only [step] at h
    split at h <;> cases h
    exact .execFailed ‹_›
  | exit i =>
    simp only [step] at h
    split at h <;> cases h
    exact .exit ‹_›
  | reap i j =>
    simp only [step] at h
    split at h
    · split_ifs at h with hp
      cases h
      subst hp
      exact .reap ‹_› ‹_›
    · cases h
  | noChild i =>
    simp only [step] at h
    split at h
    · split_ifs at h with hall
      cases h
      exact .noChild ‹_› hall
    · cases h

/-! ### One shell -/

/-- The process runs the loop: it is at the prompt, forks or waits. -/
def Pc.inLoop : Pc → Bool
  | .prompt | .fork _ | .wait => true
  | .exec _ | .command _ | .ended => false

/-- How many processes run the loop. -/
def State.loops (s : State) : ℕ := s.procs.countP fun q => q.pc.inLoop

/-- The shell has ended: it is the first in the table, and nothing reaps it. -/
def State.exited (s : State) : Prop := s.procs.head?.map Proc.pc = some .ended

/-- One process runs the loop until the shell exits, and none from then on; a process at the prompt
has no child. -/
structure OneShell (s : State) : Prop where
  loops : s.loops = 1 ∧ ¬ s.exited ∨ s.loops = 0 ∧ s.exited
  reaped : ∀ q ∈ s.procs, q.pc = .prompt → ∀ z ∈ s.procs, z.parent ≠ q.pid

/-- The processes as long as no `execvp` fails: the shell alone, or waiting for one child that does
not run the loop. -/
inductive Shape : List Proc → Prop
  | alone {pc : Pc} (hpc : pc.inLoop = true ∨ pc = .ended) (l : Locals) : Shape [⟨1, 0, pc, l⟩]
  | child {pc : Pc} (hpc : pc.inLoop = false) (l : Locals) (pid : ℕ) (l' : Locals) :
      Shape [⟨1, 0, .wait, l⟩, ⟨pid, 1, pc, l'⟩]

/-- The `execvp` of no process fails. -/
def Action.execs : Action → Prop
  | .execFailed _ => False
  | _ => True

instance : DecidablePred Action.execs
  | .execFailed _ => inferInstanceAs (Decidable False)
  | .read _ _ | .fork _ | .forkFailed _ | .execvp _ | .exit _ | .reap _ _ | .noChild _ =>
    inferInstanceAs (Decidable True)

namespace Shape

variable {s s' : State} {a : Action} {ps : List Proc} {i : ℕ} {q : Proc}

theorem oneShell (h : Shape s.procs) : OneShell s := by
  obtain ⟨procs, n⟩ := s
  cases h with
  | @alone pc hpc l =>
    refine ⟨?_, by simp⟩
    rcases hpc with hpc | rfl
    · refine .inl ⟨List.countP_singleton.trans (if_pos hpc), fun h => ?_⟩
      obtain rfl : pc = .ended := Option.some.inj h
      cases hpc
    · exact .inr ⟨rfl, rfl⟩
  | @child pc hpc l pid l' =>
    refine ⟨.inl ⟨?_, by simp [State.exited]⟩, ?_⟩
    · show List.countP _ _ = 1
      rw [List.countP_cons_of_pos rfl, List.countP_singleton, if_neg (by simp [hpc])]
    · have hprompt : pc ≠ .prompt := by
        rintro rfl
        cases hpc
      simp [hprompt]

/-- A process that runs the loop and does not wait is alone. -/
theorem of_loop (h : Shape ps) (hi : ps[i]? = some q) (hq : q.pc.inLoop = true)
    (hwait : q.pc ≠ .wait) : ps = [q] ∧ i = 0 ∧ q.pid = 1 ∧ q.parent = 0 := by
  cases h with
  | alone hpc l =>
    obtain ⟨rfl, rfl⟩ : i = 0 ∧ _ = q := by simpa [List.getElem?_singleton] using hi
    exact ⟨rfl, rfl, rfl, rfl⟩
  | child hpc l pid l' =>
    rcases i with _ | _ | i
    · cases hi
      exact absurd rfl hwait
    · cases hi
      exact absurd hq (by simp [hpc])
    · cases hi

/-- One that does not run the loop is the child, or has ended. -/
theorem of_child (h : Shape ps) (hi : ps[i]? = some q) (hq : q.pc.inLoop = false)
    (hended : q.pc ≠ .ended) : (∃ l, ps = [⟨1, 0, .wait, l⟩, q]) ∧ i = 1 ∧ q.parent = 1 := by
  cases h with
  | alone hpc l =>
    obtain ⟨rfl, rfl⟩ : i = 0 ∧ _ = q := by simpa [List.getElem?_singleton] using hi
    rcases hpc with hpc | hpc
    · exact absurd hq (by simp [hpc])
    · exact absurd hpc hended
  | child hpc l pid l' =>
    rcases i with _ | _ | i
    · cases hi
      cases hq
    · cases hi
      exact ⟨⟨l, rfl⟩, rfl, rfl⟩
    · cases hi

/-- One that waits is the shell. -/
theorem of_wait (h : Shape ps) (hi : ps[i]? = some q) (hq : q.pc = .wait) :
    i = 0 ∧ q.pid = 1 ∧ q.parent = 0 ∧ (ps = [q] ∨ ∃ z, ps = [q, z] ∧ z.parent = 1) := by
  cases h with
  | alone hpc l =>
    obtain ⟨rfl, rfl⟩ : i = 0 ∧ _ = q := by simpa [List.getElem?_singleton] using hi
    exact ⟨rfl, rfl, rfl, .inl rfl⟩
  | child hpc l pid l' =>
    rcases i with _ | _ | i
    · cases hi
      exact ⟨rfl, rfl, rfl, .inr ⟨_, rfl, rfl⟩⟩
    · cases hi
      cases hq
      cases hpc
    · cases hi

theorem step (h : Shape s.procs) (ha : a.execs) (hs : SimpleShell.step s a = some s') :
    Shape s'.procs := by
  cases step_cases hs with
  | @read _ pid parent l input c l' rest hi hr =>
    obtain ⟨hps, rfl, rfl, rfl⟩ := h.of_loop hi rfl (by simp)
    simp only [State.put, hps, List.set_cons_zero]
    cases c with
    | run e => exact .alone (.inl rfl) l'
    | exit => exact .alone (.inr rfl) l'
  | fork hi =>
    obtain ⟨hps, rfl, rfl, rfl⟩ := h.of_loop hi rfl (by simp)
    simp only [State.put, hps, List.set_cons_zero]
    exact .child rfl _ _ _
  | forkFailed hi =>
    obtain ⟨hps, rfl, rfl, rfl⟩ := h.of_loop hi rfl (by simp)
    simp only [State.put, hps, List.set_cons_zero]
    exact .alone (.inl rfl) _
  | execvp hi =>
    obtain ⟨⟨l, hps⟩, rfl, rfl⟩ := h.of_child hi rfl (by simp)
    simp only [State.put, hps, List.set_cons_succ, List.set_cons_zero]
    exact .child rfl _ _ _
  | execFailed hi => cases ha
  | exit hi =>
    obtain ⟨⟨l, hps⟩, rfl, rfl⟩ := h.of_child hi rfl (by simp)
    simp only [State.put, hps, List.set_cons_succ, List.set_cons_zero]
    exact .child rfl _ _ _
  | @reap _ j _ _ _ _ _ hi hj =>
    obtain ⟨rfl, rfl, rfl, hps | ⟨z, hps, hz⟩⟩ := h.of_wait hi rfl
    · rw [hps, List.getElem?_singleton] at hj
      split_ifs at hj
      cases hj
    · simp only [State.put, hps, List.set_cons_zero]
      rw [hps] at hj
      rcases j with _ | _ | j
      · cases hj
      · exact .alone (.inl rfl) _
      · cases hj
  | noChild hi hall =>
    obtain ⟨rfl, rfl, rfl, hps | ⟨z, hps, hz⟩⟩ := h.of_wait hi rfl
    · simp only [State.put, hps, List.set_cons_zero]
      exact .alone (.inl rfl) _
    · exact absurd hz (hall z (by simp [hps]))

/-- The child of a failed `execvp` is a second shell. -/
theorem execFailed (h : Shape s.procs) (ha : ¬ a.execs) (hs : SimpleShell.step s a = some s') :
    s'.loops = 2 := by
  cases step_cases hs with
  | execFailed hi =>
    obtain ⟨⟨l, hps⟩, rfl, rfl⟩ := h.of_child hi rfl (by simp)
    simp only [State.loops, State.put, hps, List.set_cons_succ, List.set_cons_zero]
    rfl
  | read | fork | forkFailed | execvp | exit | reap | noChild => exact absurd trivial ha

end Shape

/-- **One shell at the prompt.** In all states of a run, one process runs the loop until the shell
exits and has no child when it prints the prompt, exactly if no `execvp` fails in it. -/
theorem oneShell_iff (l : Locals) {as : List Action} {s : State}
    (h : run step (start l) as = some s) :
    (∀ bs t, bs <+: as → run step (start l) bs = some t → OneShell t) ↔ ∀ a ∈ as, a.execs := by
  refine run_forall_iff (I := fun s => Shape s.procs) (fun _ => Shape.oneShell)
    (fun _ _ _ => Shape.step) (fun s a t hI ha hs hone => ?_) (.alone (.inl rfl) l) h
  have htwo := hI.execFailed ha hs
  rcases hone.loops with ⟨hloops, -⟩ | ⟨hloops, -⟩
  · omega
  · omega

/-- The session `ls` with a command that is found. -/
def runLs : List Action :=
  [.read 0 "ls\n".toUTF8.data.toList, .fork 0, .execvp 1, .exit 1, .reap 0 1]

theorem oneShell_iff_runLs :
    ∃ s, run step (start default) runLs = some s ∧
      ((∀ bs t, bs <+: runLs → run step (start default) bs = some t → OneShell t) ↔
        ∀ a ∈ runLs, a.execs) := by
  obtain ⟨s, hs⟩ := Option.isSome_iff_exists.1
    (show (run step (start default) runLs).isSome by decide +kernel)
  exact ⟨s, hs, oneShell_iff default hs⟩

/-- The session `sl`, which is not found, and then `ls`: the child reads the second line. -/
def mistype : List Action :=
  [.read 0 "sl\n".toUTF8.data.toList, .fork 0, .execFailed 1,
    .read 1 "ls\n".toUTF8.data.toList, .fork 1]

theorem two_shells :
    ∃ s, run step (start default) mistype = some s ∧ ¬ OneShell s ∧
      s.procs.map (fun q => (q.pid, q.parent, q.pc)) = [(1, 0, .wait), (2, 1, .wait),
        (3, 2, .exec ⟨some "ls".toUTF8.data.toList, []⟩)] := by
  obtain ⟨s, hs, hprocs⟩ := Option.map_eq_some_iff.1
    (show (run step (start default) mistype).map
        (fun s => s.procs.map fun q => (q.pid, q.parent, q.pc)) = some [(1, 0, .wait),
          (2, 1, .wait), (3, 2, .exec ⟨some "ls".toUTF8.data.toList, []⟩)] by decide +kernel)
  refine ⟨s, hs, fun hone => ?_, hprocs⟩
  have hloops : s.loops = ((s.procs.map fun q => (q.pid, q.parent, q.pc)).countP
      fun r => r.2.2.inLoop) := by
    rw [List.countP_map]
    rfl
  rw [hprocs] at hloops
  have htwo : s.loops = 2 := hloops
  rcases hone.loops with ⟨hone, -⟩ | ⟨hnone, -⟩
  · omega
  · omega

end SimpleShell
end PosixHw
