import PosixHw.Base.Descriptors
import PosixHw.Base.Run
import PosixHw.Shell.Parse

/-!
# The shell with pipes: its processes and their descriptors

The program `pipes/task3.c` from the prompt on, with the processes that it forks.  Every process has
the same program counters, a copy of the descriptors and of the variables that its parent had at the
`fork`, and makes its steps in any order with the others; a process that got back to the prompt
would read the next line.

* Steps of one process alone are `Own`: reading a line, `close`, `dup2`, `execvp`, `exit`, a call
  that fails, and what the command does after `execvp` with its descriptors.  That a command forks
  is not modelled.
* `fork`, `pipe` and `wait` involve the others: `Action`.
* `exit` closes all descriptors; the process stays in the table until its parent reaps it.
* `origin` records which `fork` made a process; no step reads it.
-/

namespace PosixHw
namespace Shell

open Run

/-- Which `fork` made a process: none, or that of line 52, 61 or 87. -/
inductive Origin
  | shell
  | left
  | right
  | single
  deriving DecidableEq

/-- Where a process is. -/
inductive Pc
  /-- At the prompt, lines 18–44 and 74–85. -/
  | prompt
  /-- Line 47. -/
  | pipe (left right : Exec)
  /-- Lines 52 and 61. -/
  | forkLeft (left right : Exec) (rd wr : ℕ)
  | forkRight (right : Exec) (rd wr : ℕ)
  /-- Lines 70–73. -/
  | closeRead (rd wr : ℕ)
  | closeWrite (wr : ℕ)
  | wait1
  | wait2
  /-- Lines 87 and 92. -/
  | fork (e : Exec)
  | wait
  /-- Lines 53–55. -/
  | leftCloseRead (e : Exec) (rd wr : ℕ)
  | leftDup (e : Exec) (wr : ℕ)
  | leftCloseWrite (e : Exec) (wr : ℕ)
  /-- Lines 62–64. -/
  | rightCloseWrite (e : Exec) (rd wr : ℕ)
  | rightDup (e : Exec) (rd : ℕ)
  | rightCloseRead (e : Exec) (rd : ℕ)
  /-- In `execvp`, at the `perror` with the `exit` after it, in the command, ended. -/
  | exec (e : Exec)
  | failed
  | command (e : Exec)
  | ended
  deriving DecidableEq

/-- A process. -/
structure Proc where
  pid : ℕ
  parent : ℕ
  origin : Origin
  pc : Pc
  fds : Fds
  locals : Locals

/-- What a command may do with its descriptors.  It is a program of its own, not one of those here;
it is taken to be one process, which does not fork. -/
inductive FdOp
  | close (fd : ℕ)
  | dup2 (a b : ℕ)
  | opens (fd n : ℕ)

/-- The table after the operation. -/
def FdOp.apply (f : Fds) : FdOp → Fds
  | .close fd => f.close fd
  | .dup2 a b => f.dup2 a b
  | .opens fd n => Function.update f fd (some (.other n))

/-- The steps of one process alone. -/
inductive Own
  | read (input : List UInt8)
  | pipeFailed
  | forkFailed
  | close
  | dup2
  | execvp
  | execFailed
  | exit
  | command (op : FdOp)

/-- The process ends. -/
def Proc.exit (q : Proc) : Proc := { q with pc := .ended, fds := fun _ => none }

/-- Where a `fork` leads the parent and the child. -/
def Pc.forks : Pc → Option (Pc × Pc × Origin)
  | .forkLeft l r rd wr => some (.forkRight r rd wr, .leftCloseRead l rd wr, .left)
  | .forkRight r rd wr => some (.closeRead rd wr, .rightCloseWrite r rd wr, .right)
  | .fork e => some (.wait, .exec e, .single)
  | _ => none

/-- Where a `wait` leads. -/
def Pc.afterWait : Pc → Option Pc
  | .wait1 => some .wait2
  | .wait2 => some .prompt
  | .wait => some .prompt
  | _ => none

/-- After a line has been read. -/
def Proc.afterRead (q : Proc) (l : Locals) : Command → Proc
  | .piped left right => { q with locals := l, pc := .pipe left right }
  | .single e => { q with locals := l, pc := .fork e }
  | .exit => { q with locals := l }.exit
  | .eof => { q with locals := l }.exit

/-- A step of one process alone; `none` if it is not enabled. -/
def Proc.own (q : Proc) : Own → Option Proc
  | .read input =>
    match q.pc with
    | .prompt => (readCommand q.locals input).map fun (c, l, _) => q.afterRead l c
    | _ => none
  | .pipeFailed =>
    match q.pc with
    | .pipe _ _ => some { q with pc := .failed }
    | _ => none
  | .forkFailed => q.pc.forks.map fun (next, _, _) => { q with pc := next }
  | .close =>
    match q.pc with
    | .closeRead rd wr => some { q with fds := q.fds.close rd, pc := .closeWrite wr }
    | .closeWrite wr => some { q with fds := q.fds.close wr, pc := .wait1 }
    | .leftCloseRead e rd wr => some { q with fds := q.fds.close rd, pc := .leftDup e wr }
    | .leftCloseWrite e wr => some { q with fds := q.fds.close wr, pc := .exec e }
    | .rightCloseWrite e rd wr => some { q with fds := q.fds.close wr, pc := .rightDup e rd }
    | .rightCloseRead e rd => some { q with fds := q.fds.close rd, pc := .exec e }
    | _ => none
  | .dup2 =>
    match q.pc with
    | .leftDup e wr => some { q with fds := q.fds.dup2 wr 1, pc := .leftCloseWrite e wr }
    | .rightDup e rd => some { q with fds := q.fds.dup2 rd 0, pc := .rightCloseRead e rd }
    | _ => none
  | .execvp =>
    match q.pc with
    | .exec e => some { q with pc := .command e }
    | _ => none
  | .execFailed =>
    match q.pc with
    | .exec _ => some { q with pc := .failed }
    | _ => none
  | .exit =>
    match q.pc with
    | .failed => some q.exit
    | .command _ => some q.exit
    | _ => none
  | .command op =>
    match q.pc with
    | .command _ => some { q with fds := op.apply q.fds }
    | _ => none

/-- All processes, the number of the next one and that of the next pipe. -/
structure State where
  procs : List Proc
  nextPid : ℕ
  nextPipe : ℕ

/-- The shell alone, at its first prompt, with the descriptors `fds` and any variables. -/
def start (fds : Fds) (l : Locals) : State where
  procs := [⟨1, 0, .shell, .prompt, fds, l⟩]
  nextPid := 2
  nextPipe := 0

/-- A step of the process at the place `i` of the table. -/
inductive Action
  | own (i : ℕ) (a : Own)
  | pipe (i rd wr : ℕ)
  | fork (i : ℕ)
  | reap (i j : ℕ)
  | noChild (i : ℕ)

/-- One step; `none` if it is not enabled. -/
def step (s : State) : Action → Option State
  | .own i a =>
    (s.procs[i]?).bind fun q => (q.own a).map fun q' => { s with procs := s.procs.set i q' }
  | .pipe i rd wr =>
    (s.procs[i]?).bind fun q =>
      match q.pc with
      | .pipe l r => (q.fds.pipe rd wr s.nextPipe).map fun f => { s with
          procs := s.procs.set i { q with fds := f, pc := .forkLeft l r rd wr }
          nextPipe := s.nextPipe + 1 }
      | _ => none
  | .fork i =>
    (s.procs[i]?).bind fun q => q.pc.forks.map fun (next, child, origin) => { s with
      procs := s.procs.set i { q with pc := next }
        ++ [⟨s.nextPid, q.pid, origin, child, q.fds, q.locals⟩]
      nextPid := s.nextPid + 1 }
  | .reap i j =>
    (s.procs[i]?).bind fun q => (s.procs[j]?).bind fun z => q.pc.afterWait.bind fun next =>
      match z.pc with
      | .ended => if z.parent = q.pid then
          some { s with procs := (s.procs.set i { q with pc := next }).eraseIdx j } else none
      | _ => none
  | .noChild i =>
    (s.procs[i]?).bind fun q => q.pc.afterWait.bind fun next =>
      if ∀ z ∈ s.procs, z.parent ≠ q.pid then
        some { s with procs := s.procs.set i { q with pc := next } } else none

end Shell
end PosixHw
