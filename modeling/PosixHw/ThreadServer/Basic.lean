import PosixHw.Base.Ending
import PosixHw.Base.Heap
import PosixHw.Base.Socket

/-!
# The server with one thread per connection

The program `sockets/hw2/pserver/server.c`.  `main` allocates a cell, stores what `accept` returns
there and starts a thread that runs `handle_client` with the address of the cell.  The thread reads
the cell, frees it, echoes what it reads from the socket and closes that.

* A step is a system call or an access to a cell; the accesses of `main` that follow a system call
  belong to it.
* Workers are numbered in the order in which they are created.
* What is echoed is left out.  Nobody looks at the result of `send`, so one that fails does nothing;
  but it may raise SIGPIPE, and the `printf` may run out of the array, which is not initialised.
  `step` says what the threads do before that, and `process` adds the end of the server.
* `malloc` succeeds.
* A worker's `accepted` is the connection that `accept` returned in the iteration of `main` that
  created the worker, and `lost` records the descriptors that `main` forgets.  No step reads either.
-/

namespace PosixHw
namespace ThreadServer

open Run Ending

/-- The threads of the process. -/
inductive Thr
  | main
  | worker (i : ℕ)
  deriving DecidableEq

/-- Where a worker is in `handle_client`: lines 12, 13, 17–20, 22–23, returned. -/
inductive WorkerPc
  | load
  | free (sock : Option ℕ)
  | serve (sock : Option ℕ)
  | ret
  | done
  deriving DecidableEq

/-- A worker with its argument. -/
structure Worker where
  clientSocket : ℕ
  accepted : Option ℕ
  pc : WorkerPc
  deriving DecidableEq

/-- Where `main` is in its loop: lines 59, 60 and 68. -/
inductive MainPc
  | malloc
  | accept (clientSocket : ℕ)
  | create (clientSocket : ℕ) (accepted : Option ℕ)
  deriving DecidableEq

/-- The whole system.  In a cell, `none` stands for a negative number. -/
structure State where
  main : MainPc
  workers : List Worker
  heap : Heap (Option ℕ)
  sockets : Sockets
  lost : List (Option ℕ)

/-- The state at line 58; the heap holds `junk`. -/
def start (junk : ℕ → Option ℕ) : State where
  main := .malloc
  workers := []
  heap := Heap.init junk
  sockets := Sockets.init
  lost := []

/-- What may happen: a client connects, `main` makes a step, or the worker `i` does.  In an `echo` a
worker reads a piece, prints it and passes it to `send`, which may fail. -/
inductive Action
  | connect
  | malloc (p : ℕ)
  | accept (fd : ℕ)
  | acceptFailed
  | create
  | createFailed
  | load (i : ℕ)
  | free (i : ℕ)
  | echo (i : ℕ)
  | close (i : ℕ)
  | ret (i : ℕ)
  deriving DecidableEq

/-- The worker `i` goes on as `w`. -/
def State.put (s : State) (i : ℕ) (w : Worker) : State := { s with workers := s.workers.set i w }

/-- `close(sock)`, which fails for a negative number. -/
def closeSock (S : Sockets) (sock : Option ℕ) : Sockets := sock.elim S S.close

/-- One step; `none` if the action is not enabled. -/
def step (s : State) : Action → Option State
  | .connect => some { s with sockets := s.sockets.connect }
  | .malloc p =>
    match s.main with
    | .malloc => (s.heap.malloc p).map fun H => { s with heap := H, main := .accept p }
    | _ => none
  | .accept fd =>
    match s.main with
    | .accept p => (s.sockets.accept fd).map fun S => { s with
        sockets := S
        heap := s.heap.store p (some fd)
        main := .create p (S.conn fd) }
    | _ => none
  | .acceptFailed =>
    match s.main with
    | .accept p => some { s with heap := (s.heap.store p none).free p, main := .malloc }
    | _ => none
  | .create =>
    match s.main with
    | .create p c => some { s with workers := s.workers ++ [⟨p, c, .load⟩], main := .malloc }
    | _ => none
  | .createFailed =>
    match s.main with
    | .create p _ => some { s with
        heap := s.heap.free p
        main := .malloc
        lost := s.lost ++ [s.heap.content p] }
    | _ => none
  | .load i =>
    match s.workers[i]? with
    | some ⟨p, c, .load⟩ =>
      some { s.put i ⟨p, c, .free (s.heap.content p)⟩ with heap := s.heap.access p }
    | _ => none
  | .free i =>
    match s.workers[i]? with
    | some ⟨p, c, .free sock⟩ => some { s.put i ⟨p, c, .serve sock⟩ with heap := s.heap.free p }
    | _ => none
  | .echo i =>
    match s.workers[i]? with
    | some ⟨_, _, .serve _⟩ => some s
    | _ => none
  | .close i =>
    match s.workers[i]? with
    | some ⟨p, c, .serve sock⟩ =>
      some { s.put i ⟨p, c, .ret⟩ with sockets := closeSock s.sockets sock }
    | _ => none
  | .ret i =>
    match s.workers[i]? with
    | some ⟨p, c, .ret⟩ => some (s.put i ⟨p, c, .done⟩)
    | _ => none

/-- In the loop of `handle_client`, `printf` may find no NUL in the array, and `send` raises SIGPIPE
if the client is gone.  Either is the end of the server. -/
def fatal (s : State) : ℕ × Cause → Bool
  | (i, _) =>
    match s.workers[i]? with
    | some ⟨_, _, .serve _⟩ => true
    | _ => false

/-- The server, which may end in this way. -/
def process : Process State (ℕ × Cause) → Event Action (ℕ × Cause) →
    Option (Process State (ℕ × Cause)) :=
  Ending.step step fatal

/-- What each action does, where it is enabled. -/
inductive Step (s : State) : Action → State → Prop
  | connect : Step s .connect { s with sockets := s.sockets.connect }
  | malloc {p H} (hm : s.main = .malloc) (hH : s.heap.malloc p = some H) :
      Step s (.malloc p) { s with heap := H, main := .accept p }
  | accept {p fd S} (hm : s.main = .accept p) (hS : s.sockets.accept fd = some S) :
      Step s (.accept fd) { s with
        sockets := S
        heap := s.heap.store p (some fd)
        main := .create p (S.conn fd) }
  | acceptFailed {p} (hm : s.main = .accept p) :
      Step s .acceptFailed { s with heap := (s.heap.store p none).free p, main := .malloc }
  | create {p c} (hm : s.main = .create p c) :
      Step s .create { s with workers := s.workers ++ [⟨p, c, .load⟩], main := .malloc }
  | createFailed {p c} (hm : s.main = .create p c) :
      Step s .createFailed { s with
        heap := s.heap.free p
        main := .malloc
        lost := s.lost ++ [s.heap.content p] }
  | load {i p c} (hi : s.workers[i]? = some ⟨p, c, .load⟩) :
      Step s (.load i)
        { s.put i ⟨p, c, .free (s.heap.content p)⟩ with heap := s.heap.access p }
  | free {i p c sock} (hi : s.workers[i]? = some ⟨p, c, .free sock⟩) :
      Step s (.free i) { s.put i ⟨p, c, .serve sock⟩ with heap := s.heap.free p }
  | echo {i p c sock} (hi : s.workers[i]? = some ⟨p, c, .serve sock⟩) : Step s (.echo i) s
  | close {i p c sock} (hi : s.workers[i]? = some ⟨p, c, .serve sock⟩) :
      Step s (.close i) { s.put i ⟨p, c, .ret⟩ with sockets := closeSock s.sockets sock }
  | ret {i p c} (hi : s.workers[i]? = some ⟨p, c, .ret⟩) :
      Step s (.ret i) (s.put i ⟨p, c, .done⟩)

theorem step_cases {s s' : State} {a : Action} (h : step s a = some s') : Step s a s' := by
  cases a with
  | connect => cases h; exact .connect
  | malloc p =>
    simp only [step] at h
    split at h
    · obtain ⟨H, hH, rfl⟩ := Option.map_eq_some_iff.1 h
      exact .malloc ‹_› hH
    · cases h
  | accept fd =>
    simp only [step] at h
    split at h
    · obtain ⟨S, hS, rfl⟩ := Option.map_eq_some_iff.1 h
      exact .accept ‹_› hS
    · cases h
  | acceptFailed =>
    simp only [step] at h
    split at h <;> cases h
    exact .acceptFailed ‹_›
  | create =>
    simp only [step] at h
    split at h <;> cases h
    exact .create ‹_›
  | createFailed =>
    simp only [step] at h
    split at h <;> cases h
    exact .createFailed ‹_›
  | load i =>
    simp only [step] at h
    split at h <;> cases h
    exact .load ‹_›
  | free i =>
    simp only [step] at h
    split at h <;> cases h
    exact .free ‹_›
  | echo i =>
    simp only [step] at h
    split at h <;> cases h
    exact .echo ‹_›
  | close i =>
    simp only [step] at h
    split at h <;> cases h
    exact .close ‹_›
  | ret i =>
    simp only [step] at h
    split at h <;> cases h
    exact .ret ‹_›

end ThreadServer
end PosixHw
