import PosixHw.Base.Fork

/-!
# Parents and children

The programs `processes/task1.c` and `processes/task2.c`, which fork, print who they are and wait
for their children.

Whatever the order in which the processes run, the same lines appear.  They are not the lines that
the calls of `printf` print where standard output is a file: what `Process1` has printed before it
forks is in the buffers of its children as well, and comes out three times.
-/

namespace PosixHw
namespace Processes

open Fork Run

/-- After `perror("fork failed")`. -/
def forkFailed {L : Type} : Prog L := .perror "fork failed" (.exit 1)

/-! ### One child -/

namespace Task1

/-- The lines of `printf`. -/
inductive Line
  | child (pid ppid : ℕ)
  | parent (pid child : ℕ)
  | childExited (status : ℕ)
  | childFailed
  deriving DecidableEq

/-- `main`. -/
def main : Prog Line :=
  .fork (.print (fun pid ppid => .child pid ppid) (.exit 0))
    (fun pid => .print (fun self _ => .parent self pid) (.waitpid pid fun status =>
      match status with
      | .exited code => .print (fun _ _ => .childExited code) (.exit 0)
      | .signaled _ => .print (fun _ _ => .childFailed) (.exit 0)))
    forkFailed

/-- A line without the identifiers of the processes. -/
inductive Kind
  | child
  | parent
  | childExited (status : ℕ)
  | childFailed
  deriving DecidableEq

def kind : Line → Kind
  | .child _ _ => .child
  | .parent _ _ => .parent
  | .childExited status => .childExited status
  | .childFailed => .childFailed

/-- The lines that are shown. -/
def lines : Multiset Kind := {.child, .parent, .childExited 0}

theorem behaves (mode : Mode) : Behaves kind mode [] 0 main lines 7 := by
  have hchild : Behaves kind mode [] 0 (.print (fun pid ppid => .child pid ppid) (.exit 0))
      {.child} 2 := by
    cases mode with
    | terminal => exact .shown rfl (fun _ _ => rfl) .exit
    | file => exact .buffered rfl (fun _ _ => rfl) .exit
  refine .fork (p := {.parent, .childExited 0}) (m := 4) hchild fun pid _ => ?_
  cases mode with
  | terminal =>
    refine .shown rfl (fun _ _ => rfl) (.wait List.mem_cons_self ?_)
    rw [List.erase_cons_head]
    exact .shown rfl (fun _ _ => rfl) .exit
  | file =>
    refine .buffered rfl (fun _ _ => rfl) (.wait List.mem_cons_self ?_)
    rw [List.erase_cons_head]
    exact .buffered rfl (fun _ _ => rfl) (.exit_of_eq (by decide))

theorem closes : Closes (fun _ _ => Line.childExited 0) main :=
  .fork fun _ => .print (.wait .last)

/-- **One child.** If no call fails, every run of the program ends after seven steps with the child
waited for; the three lines have then appeared once each, the status 0 last. -/
theorem task1_lines {env : Env} {pid : ℕ} {as : List Action} {s : State Line}
    (hrun : run (step env) (start pid main) as = some s) (has : ∀ a ∈ as, a.Succeeds) :
    as.length ≤ 7 ∧ s.NoOrphan ∧ (s.out.map kind : Multiset Kind) ≤ lines ∧
      ((∀ a, a.Succeeds → step env s a = none) → as.length = 7 ∧ s.Over ∧
        (s.out.map kind : Multiset Kind) = lines ∧
        s.out.getLast? = some (.childExited 0)) := by
  obtain ⟨hlength, horphan, hlines, hend⟩ := run_behaves (behaves env.mode) hrun has
  refine ⟨hlength, horphan, hlines, fun hstuck => ?_⟩
  obtain ⟨hn, hover, ho⟩ := hend hstuck
  obtain ⟨-, hlast⟩ := run_closes (behaves env.mode) closes hrun has hover
  exact ⟨hn, hover, ho, hlast⟩

/-- The parent prints first. -/
def sampleRun : List Action := [.fork 0 11, .run 0, .run 1, .run 1, .wait 0 1, .run 0, .run 0]

theorem task1_lines_sample :
    (run (step ⟨.terminal, 5⟩) (start 10 main) sampleRun).map State.out
        = some [.parent 10 11, .child 11 10, .childExited 0] ∧
      ∃ s, run (step ⟨.terminal, 5⟩) (start 10 main) sampleRun = some s ∧ s.NoOrphan := by
  have hout : (run (step ⟨.terminal, 5⟩) (start 10 main) sampleRun).map State.out
      = some [.parent 10 11, .child 11 10, .childExited 0] := rfl
  obtain ⟨s, hs, -⟩ := Option.map_eq_some_iff.1 hout
  exact ⟨hout, s, hs, (task1_lines hs (by decide)).2.1⟩

end Task1

/-! ### A tree of processes -/

namespace Task2

/-- The lines of `printf`. -/
inductive Line
  | process1 (pid ppid : ℕ)
  | process2 (pid ppid : ℕ)
  | child (pid ppid : ℕ)
  | childExited (pid status : ℕ)
  | childFailed (pid : ℕ)
  | parent (pid : ℕ)
  deriving DecidableEq

/-- `create_child_process`, with what comes after it. -/
def createChildProcess (next : Prog Line) : Prog Line :=
  .fork (.print (fun pid ppid => .child pid ppid) (.exit 0))
    (fun pid => .waitpid pid fun status =>
      match status with
      | .exited code => .print (fun _ _ => .childExited pid code) next
      | .signaled _ => .print (fun _ _ => .childFailed pid) next)
    forkFailed

/-- `main`; the last two calls of `waitpid` do not look at the status. -/
def main : Prog Line :=
  .fork (.print (fun pid ppid => .process1 pid ppid)
      (createChildProcess (createChildProcess (.exit 0))))
    (fun pid1 => .fork (.print (fun pid ppid => .process2 pid ppid) (createChildProcess (.exit 0)))
      (fun pid2 => .waitpid pid1 fun _ => .waitpid pid2 fun _ =>
        .print (fun pid _ => .parent pid) (.exit 0))
      forkFailed)
    forkFailed

/-- A line without the identifiers of the processes. -/
inductive Kind
  | process1
  | process2
  | child
  | childExited (status : ℕ)
  | childFailed
  | parent
  deriving DecidableEq

def kind : Line → Kind
  | .process1 _ _ => .process1
  | .process2 _ _ => .process2
  | .child _ _ => .child
  | .childExited _ status => .childExited status
  | .childFailed _ => .childFailed
  | .parent _ => .parent

/-- The lines that are shown: in a file those of a buffer stand once for each process that had a
copy of it. -/
def lines : Mode → Multiset Kind
  | .terminal => {.process1, .process2, .parent} + Multiset.replicate 3 .child
      + Multiset.replicate 3 (.childExited 0)
  | .file => {.parent} + Multiset.replicate 3 .process1 + Multiset.replicate 2 .process2
      + Multiset.replicate 3 .child + Multiset.replicate 4 (.childExited 0)

section Behaviour

variable {b o : Multiset Kind} {n : ℕ} {next : Prog Line}

theorem createChildProcess_terminal (h : Behaves kind .terminal [] b next o n) :
    Behaves kind .terminal [] b (createChildProcess next) (.child ::ₘ b + .childExited 0 ::ₘ o)
      (2 + (n + 1 + 1) + 1) := by
  refine .fork (.shown rfl (fun _ _ => rfl) .exit) fun pid _ => .wait List.mem_cons_self ?_
  rw [List.erase_cons_head]
  exact .shown rfl (fun _ _ => rfl) h

/-- The child shows what its parent has printed before. -/
theorem createChildProcess_file (h : Behaves kind .file [] (.childExited 0 ::ₘ b) next o n) :
    Behaves kind .file [] b (createChildProcess next) (.child ::ₘ b + o) (2 + (n + 1 + 1) + 1) := by
  refine .fork (.buffered rfl (fun _ _ => rfl) .exit) fun pid _ => .wait List.mem_cons_self ?_
  rw [List.erase_cons_head]
  exact .buffered rfl (fun _ _ => rfl) h

end Behaviour

/-- What is shown by the process with two children. -/
theorem behaves_process1 (mode : Mode) :
    ∃ o, Behaves kind mode [] 0 (.print (fun pid ppid => .process1 pid ppid)
        (createChildProcess (createChildProcess (.exit 0)))) o 12 ∧
      o = match mode with
        | .terminal => {.process1, .child, .child, .childExited 0, .childExited 0}
        | .file => Multiset.replicate 3 .process1 + Multiset.replicate 2 .child
            + Multiset.replicate 3 (.childExited 0) := by
  cases mode with
  | terminal =>
    exact ⟨_, .shown rfl (fun _ _ => rfl)
      (createChildProcess_terminal (createChildProcess_terminal .exit)), by decide⟩
  | file =>
    exact ⟨_, .buffered rfl (fun _ _ => rfl)
      (createChildProcess_file (createChildProcess_file .exit)), by decide⟩

/-- What is shown by the process with one child. -/
theorem behaves_process2 (mode : Mode) :
    ∃ o, Behaves kind mode [] 0 (.print (fun pid ppid => .process2 pid ppid)
        (createChildProcess (.exit 0))) o 7 ∧
      o = match mode with
        | .terminal => {.process2, .child, .childExited 0}
        | .file => {.process2, .process2, .child, .childExited 0} := by
  cases mode with
  | terminal =>
    exact ⟨_, .shown rfl (fun _ _ => rfl) (createChildProcess_terminal .exit), by decide⟩
  | file => exact ⟨_, .buffered rfl (fun _ _ => rfl) (createChildProcess_file .exit), by decide⟩

theorem behaves_parent (mode : Mode) {pid1 pid2 : ℕ} (h : pid2 ∉ [pid1]) :
    Behaves kind mode [pid2, pid1] 0 (.waitpid pid1 fun _ => .waitpid pid2 fun _ =>
      .print (fun pid _ => .parent pid) (.exit 0)) {.parent} 4 := by
  have hne : pid2 ≠ pid1 := fun he => h (List.mem_singleton.2 he)
  have herase : [pid2, pid1].erase pid1 = [pid2] := by
    rw [List.erase_cons_tail (by simpa using hne), List.erase_cons_head]
  refine .wait (List.mem_cons_of_mem _ List.mem_cons_self) ?_
  rw [herase]
  refine .wait List.mem_cons_self ?_
  rw [List.erase_cons_head]
  cases mode with
  | terminal => exact .shown rfl (fun _ _ => rfl) .exit
  | file => exact .buffered rfl (fun _ _ => rfl) .exit

theorem behaves (mode : Mode) : Behaves kind mode [] 0 main (lines mode) 25 := by
  obtain ⟨o₁, h₁, ho₁⟩ := behaves_process1 mode
  obtain ⟨o₂, h₂, ho₂⟩ := behaves_process2 mode
  have hlines : o₁ + (o₂ + {.parent}) = lines mode := by
    subst ho₁ ho₂
    cases mode <;> decide
  rw [← hlines]
  exact .fork (m := 12) h₁ fun pid1 _ => .fork (m := 4) h₂ fun pid2 hpid =>
    behaves_parent mode hpid

theorem closes : Closes (fun pid _ => Line.parent pid) main :=
  .fork fun _ => .fork fun _ => .wait (.wait .last)

/-- **The tree.** If no call fails, every run of the program ends after 25 steps with all five
processes waited for, and the line of the parent is the last one.  What has appeared is the same in
every order of the steps: each line once for each process that prints it where standard output is a
terminal, and once for each process that has a copy of it in its buffer where it is a file. -/
theorem task2_lines {env : Env} {pid : ℕ} {as : List Action} {s : State Line}
    (hrun : run (step env) (start pid main) as = some s) (has : ∀ a ∈ as, a.Succeeds) :
    as.length ≤ 25 ∧ s.NoOrphan ∧ (s.out.map kind : Multiset Kind) ≤ lines env.mode ∧
      ((∀ a, a.Succeeds → step env s a = none) → as.length = 25 ∧ s.Over ∧
        (s.out.map kind : Multiset Kind) = lines env.mode ∧
        ∃ pid, s.out.getLast? = some (.parent pid)) := by
  obtain ⟨hlength, horphan, hlines, hend⟩ := run_behaves (behaves env.mode) hrun has
  refine ⟨hlength, horphan, hlines, fun hstuck => ?_⟩
  obtain ⟨hn, hover, ho⟩ := hend hstuck
  exact ⟨hn, hover, ho, run_closes (behaves env.mode) closes hrun has hover⟩

/-- The first process with its first child, while nothing else happens. -/
def sampleRun : List Action :=
  [.fork 0 11, .run 1, .fork 1 12, .run 2, .run 2, .wait 1 2, .run 1, .fork 1 13]

theorem task2_lines_sample :
    (run (step ⟨.file, 5⟩) (start 10 main) sampleRun).map State.out
        = some [.process1 11 10, .child 12 11] ∧
      ∃ s, run (step ⟨.file, 5⟩) (start 10 main) sampleRun = some s ∧ s.NoOrphan := by
  have hout : (run (step ⟨.file, 5⟩) (start 10 main) sampleRun).map State.out
      = some [.process1 11 10, .child 12 11] := rfl
  obtain ⟨s, hs, -⟩ := Option.map_eq_some_iff.1 hout
  exact ⟨hout, s, hs, (task2_lines hs (by decide)).2.1⟩

end Task2
end Processes
end PosixHw
