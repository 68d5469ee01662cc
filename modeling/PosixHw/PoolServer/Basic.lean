import PosixHw.Base.Ending
import PosixHw.Base.Lists
import PosixHw.Base.Monitor
import PosixHw.Base.Socket

/-!
# The thread-pool server: a stack of slot numbers and a pipe

The program `sockets/hw2/pserver pool/server.c`.  `main` accepts a connection, pops a slot number
off `available_threads`, starts a worker that runs `handle_client` with the socket and the number,
then reads a number from the pipe and pushes it.  A worker echoes what it reads, closes its socket
and writes its number to the pipe under the mutex.

* A step is a system call, a lock, an evaluation of the `while` condition with the wait that it may
  lead to, an access to the stack, or an unlock.  `main` takes `MainPc` in this order; on the
  branch of a failed `pthread_create` it closes the socket and goes back to `accept`.
* Workers are numbered in the order in which they are created.
* What is echoed is left out.  Nobody looks at the result of `send`, so one that fails does nothing;
  but it may raise SIGPIPE, and the `printf` may run out of the array, which is not initialised.
  `step` says what the threads do before that, and `process` adds the end of the server.
* `dropped` records the slot numbers that `main` forgets; no step reads it.
-/

namespace PosixHw
namespace PoolServer

open Run Ending

/-- `MAX_THREADS`. -/
def maxThreads : ℕ := 5

/-- The threads of the process. -/
inductive Thr
  | main
  | worker (i : ℕ)
  deriving DecidableEq

/-- Where a worker is in `handle_client`: at the loop of lines 31–34, at the lock (the socket is
closed), at the `write`, at the unlock, at `free`, returned. -/
inductive WorkerPc
  | serve
  | lock
  | write
  | unlock
  | free
  | done
  deriving DecidableEq

/-- A worker with its `thread_arg`. -/
structure Worker where
  clientSocket : ℕ
  id : ℤ
  pc : WorkerPc
  deriving DecidableEq

/-- Where `main` is in its loop: lines 86, 93, 94, 95 (in the wait), 98, 99, 101–105, 106–109,
113, 115, 116–117 and 118. -/
inductive MainPc
  | accept
  | lock (newSocket : ℕ)
  | test (newSocket : ℕ)
  | wait (newSocket : ℕ)
  | take (newSocket : ℕ)
  | unlock (newSocket : ℕ) (threadId : ℤ)
  | create (newSocket : ℕ) (threadId : ℤ)
  | failed (newSocket : ℕ) (threadId : ℤ)
  | read
  | lockReturn (finishedThreadId : ℤ)
  | put (finishedThreadId : ℤ)
  | unlockReturn
  deriving DecidableEq

/-- The whole system. -/
structure State where
  availableThreads : ℤ → ℤ
  threadCount : ℤ
  mutex : Option Thr
  cond : Cond Thr
  pipe : List ℤ
  main : MainPc
  workers : List Worker
  sockets : Sockets
  dropped : List ℤ

/-- The state at line 85: `available_threads[i] = i`, the pipe empty, no worker. -/
def start : State where
  availableThreads i := i
  threadCount := maxThreads
  mutex := none
  cond := Cond.init
  pipe := []
  main := .accept
  workers := []
  sockets := Sockets.init
  dropped := []

/-- What may happen: a client connects, `main` makes a step, or the worker `i` does.  In an `echo` a
worker reads a piece, prints it and passes it to `send`, which may fail. -/
inductive Action
  | connect
  | accept (fd : ℕ)
  | acceptFailed
  | lock
  | test
  | wake
  | relock
  | take
  | unlock
  | create
  | createFailed
  | abandon
  | read
  | lockReturn
  | put (woken : Option Thr)
  | unlockReturn
  | echo (i : ℕ)
  | close (i : ℕ)
  | workerLock (i : ℕ)
  | write (i : ℕ)
  | workerUnlock (i : ℕ)
  | free (i : ℕ)
  deriving DecidableEq

/-- The worker `i` goes from `p` to `p'`; `none` if it is not at `p`. -/
def State.move (s : State) (i : ℕ) (p p' : WorkerPc) : Option State :=
  match s.workers[i]? with
  | some w => if w.pc = p then some { s with workers := s.workers.set i { w with pc := p' } }
    else none
  | none => none

/-- One step; `none` if the action is not enabled. -/
def step (s : State) : Action → Option State
  | .connect => some { s with sockets := s.sockets.connect }
  | .accept fd =>
    match s.main with
    | .accept => (s.sockets.accept fd).map fun S => { s with sockets := S, main := .lock fd }
    | _ => none
  | .acceptFailed =>
    match s.main with
    | .accept => some s
    | _ => none
  | .lock =>
    match s.main with
    | .lock fd =>
      if s.mutex = none then some { s with mutex := some .main, main := .test fd } else none
    | _ => none
  | .test =>
    match s.main with
    | .test fd =>
      if s.threadCount = 0 then
        some { s with mutex := none, cond := s.cond.wait .main, main := .wait fd }
      else some { s with main := .take fd }
    | _ => none
  | .wake =>
    if .main ∈ s.cond.sleeping then some { s with cond := s.cond.wake .main } else none
  | .relock =>
    match s.main with
    | .wait fd =>
      if .main ∈ s.cond.woken ∧ s.mutex = none then
        some { s with mutex := some .main, cond := s.cond.reacquire .main, main := .test fd }
      else none
    | _ => none
  | .take =>
    match s.main with
    | .take fd => some { s with
        threadCount := s.threadCount - 1
        main := .unlock fd (s.availableThreads (s.threadCount - 1)) }
    | _ => none
  | .unlock =>
    match s.main with
    | .unlock fd id => some { s with mutex := none, main := .create fd id }
    | _ => none
  | .create =>
    match s.main with
    | .create fd id => some { s with workers := s.workers ++ [⟨fd, id, .serve⟩], main := .read }
    | _ => none
  | .createFailed =>
    match s.main with
    | .create fd id => some { s with main := .failed fd id }
    | _ => none
  | .abandon =>
    match s.main with
    | .failed fd id => some { s with
        sockets := s.sockets.close fd
        main := .accept
        dropped := s.dropped ++ [id] }
    | _ => none
  | .read =>
    match s.main, s.pipe with
    | .read, id :: rest => some { s with pipe := rest, main := .lockReturn id }
    | _, _ => none
  | .lockReturn =>
    match s.main with
    | .lockReturn id =>
      if s.mutex = none then some { s with mutex := some .main, main := .put id } else none
    | _ => none
  | .put woken =>
    match s.main with
    | .put id => (s.cond.signal woken).map fun c => { s with
        availableThreads := Function.update s.availableThreads s.threadCount id
        threadCount := s.threadCount + 1
        cond := c
        main := .unlockReturn }
    | _ => none
  | .unlockReturn =>
    match s.main with
    | .unlockReturn => some { s with mutex := none, main := .accept }
    | _ => none
  | .echo i => s.move i .serve .serve
  | .close i =>
    match s.workers[i]? with
    | some w => (s.move i .serve .lock).map fun s' =>
        { s' with sockets := s.sockets.close w.clientSocket }
    | none => none
  | .workerLock i =>
    if s.mutex = none then
      (s.move i .lock .write).map fun s' => { s' with mutex := some (.worker i) }
    else none
  | .write i =>
    match s.workers[i]? with
    | some w => (s.move i .write .unlock).map fun s' => { s' with pipe := s.pipe ++ [w.id] }
    | none => none
  | .workerUnlock i => (s.move i .unlock .free).map fun s' => { s' with mutex := none }
  | .free i => s.move i .free .done

/-- In the loop of `handle_client`, `printf` may find no NUL in the array, and `send` raises SIGPIPE
if the client is gone; and `main` stores through a null pointer if its `malloc` fails.  The server
comes to its end with each of them. -/
def fatal (s : State) : Thr × Cause → Bool
  | (.worker i, _) => (s.workers[i]?).any fun w => w.pc == .serve
  | (.main, .undefined) =>
    match s.main with
    | .create _ _ => true
    | _ => false
  | (.main, .sigpipe) => false

/-- The server, which may end in this way. -/
def process : Process State (Thr × Cause) → Event Action (Thr × Cause) →
    Option (Process State (Thr × Cause)) :=
  Ending.step step fatal

/-- What each action does, where it is enabled. -/
inductive Step (s : State) : Action → State → Prop
  | connect : Step s .connect { s with sockets := s.sockets.connect }
  | accept {fd S} (hm : s.main = .accept) (hS : s.sockets.accept fd = some S) :
      Step s (.accept fd) { s with sockets := S, main := .lock fd }
  | acceptFailed : Step s .acceptFailed s
  | lock {fd} (hm : s.main = .lock fd) (hx : s.mutex = none) :
      Step s .lock { s with mutex := some .main, main := .test fd }
  | wait {fd} (hm : s.main = .test fd) (hc : s.threadCount = 0) :
      Step s .test { s with mutex := none, cond := s.cond.wait .main, main := .wait fd }
  | enter {fd} (hm : s.main = .test fd) (hc : s.threadCount ≠ 0) :
      Step s .test { s with main := .take fd }
  | wake (hw : .main ∈ s.cond.sleeping) : Step s .wake { s with cond := s.cond.wake .main }
  | relock {fd} (hm : s.main = .wait fd) (hw : .main ∈ s.cond.woken) (hx : s.mutex = none) :
      Step s .relock
        { s with mutex := some .main, cond := s.cond.reacquire .main, main := .test fd }
  | take {fd} (hm : s.main = .take fd) :
      Step s .take { s with
        threadCount := s.threadCount - 1
        main := .unlock fd (s.availableThreads (s.threadCount - 1)) }
  | unlock {fd id} (hm : s.main = .unlock fd id) :
      Step s .unlock { s with mutex := none, main := .create fd id }
  | create {fd id} (hm : s.main = .create fd id) :
      Step s .create { s with workers := s.workers ++ [⟨fd, id, .serve⟩], main := .read }
  | createFailed {fd id} (hm : s.main = .create fd id) :
      Step s .createFailed { s with main := .failed fd id }
  | abandon {fd id} (hm : s.main = .failed fd id) :
      Step s .abandon { s with
        sockets := s.sockets.close fd
        main := .accept
        dropped := s.dropped ++ [id] }
  | read {id rest} (hm : s.main = .read) (hp : s.pipe = id :: rest) :
      Step s .read { s with pipe := rest, main := .lockReturn id }
  | lockReturn {id} (hm : s.main = .lockReturn id) (hx : s.mutex = none) :
      Step s .lockReturn { s with mutex := some .main, main := .put id }
  | put {id w c} (hm : s.main = .put id) (hc : s.cond.signal w = some c) :
      Step s (.put w) { s with
        availableThreads := Function.update s.availableThreads s.threadCount id
        threadCount := s.threadCount + 1
        cond := c
        main := .unlockReturn }
  | unlockReturn (hm : s.main = .unlockReturn) :
      Step s .unlockReturn { s with mutex := none, main := .accept }
  | echo {i w} (hi : s.workers[i]? = some w) (hw : w.pc = .serve) : Step s (.echo i) s
  | close {i w} (hi : s.workers[i]? = some w) (hw : w.pc = .serve) :
      Step s (.close i) { s with
        workers := s.workers.set i { w with pc := .lock }
        sockets := s.sockets.close w.clientSocket }
  | workerLock {i w} (hi : s.workers[i]? = some w) (hw : w.pc = .lock) (hx : s.mutex = none) :
      Step s (.workerLock i) { s with
        workers := s.workers.set i { w with pc := .write }
        mutex := some (.worker i) }
  | write {i w} (hi : s.workers[i]? = some w) (hw : w.pc = .write) :
      Step s (.write i) { s with
        workers := s.workers.set i { w with pc := .unlock }
        pipe := s.pipe ++ [w.id] }
  | workerUnlock {i w} (hi : s.workers[i]? = some w) (hw : w.pc = .unlock) :
      Step s (.workerUnlock i) { s with
        workers := s.workers.set i { w with pc := .free }
        mutex := none }
  | free {i w} (hi : s.workers[i]? = some w) (hw : w.pc = .free) :
      Step s (.free i) { s with workers := s.workers.set i { w with pc := .done } }

theorem move_cases {s s' : State} {i : ℕ} {p p' : WorkerPc} (h : s.move i p p' = some s') :
    ∃ w, s.workers[i]? = some w ∧ w.pc = p ∧
      s' = { s with workers := s.workers.set i { w with pc := p' } } := by
  unfold State.move at h
  split at h
  · rename_i w hw
    split_ifs at h with hp
    cases h
    exact ⟨w, hw, hp, rfl⟩
  · cases h

/-- The worker is the one that stands there. -/
theorem move_of_worker {s s' : State} {i : ℕ} {p p' : WorkerPc} {w : Worker}
    (hi : s.workers[i]? = some w) (h : s.move i p p' = some s') :
    w.pc = p ∧ s' = { s with workers := s.workers.set i { w with pc := p' } } := by
  obtain ⟨w', hi', hw, rfl⟩ := move_cases h
  obtain rfl : w = w' := Option.some.inj (hi.symm.trans hi')
  exact ⟨hw, rfl⟩

theorem step_cases {s s' : State} {a : Action} (h : step s a = some s') : Step s a s' := by
  cases a with
  | connect => cases h; exact .connect
  | accept fd =>
    simp only [step] at h
    split at h
    · obtain ⟨S, hS, rfl⟩ := Option.map_eq_some_iff.1 h
      exact .accept ‹_› hS
    · cases h
  | put w =>
    simp only [step] at h
    split at h
    · obtain ⟨c, hc, rfl⟩ := Option.map_eq_some_iff.1 h
      exact .put ‹_› hc
    · cases h
  | test =>
    simp only [step] at h
    split at h
    · split_ifs at h with hc <;> cases h
      · exact .wait ‹_› hc
      · exact .enter ‹_› hc
    · cases h
  | wake =>
    simp only [step] at h
    split_ifs at h with hw
    cases h
    exact .wake hw
  | relock =>
    simp only [step] at h
    split at h
    · split_ifs at h with hc
      cases h
      exact .relock ‹_› hc.1 hc.2
    · cases h
  | read =>
    simp only [step] at h
    split at h
    · cases h
      exact .read ‹_› ‹_›
    · cases h
  | echo i =>
    obtain ⟨w, hi, hw, rfl⟩ := move_cases h
    have : s.workers.set i { w with pc := .serve } = s.workers := by
      obtain ⟨hlt, he⟩ := List.getElem?_eq_some_iff.1 hi
      rw [← hw, ← he]
      exact List.set_getElem_self hlt
    rw [this]
    exact .echo hi hw
  | close i =>
    simp only [step] at h
    split at h
    · rename_i w hi
      obtain ⟨s₁, h₁, rfl⟩ := Option.map_eq_some_iff.1 h
      obtain ⟨hw, rfl⟩ := move_of_worker hi h₁
      exact .close hi hw
    · cases h
  | workerLock i =>
    simp only [step] at h
    split_ifs at h with hx
    obtain ⟨s₁, h₁, rfl⟩ := Option.map_eq_some_iff.1 h
    obtain ⟨w, hi, hw, rfl⟩ := move_cases h₁
    exact .workerLock hi hw hx
  | write i =>
    simp only [step] at h
    split at h
    · rename_i w hi
      obtain ⟨s₁, h₁, rfl⟩ := Option.map_eq_some_iff.1 h
      obtain ⟨hw, rfl⟩ := move_of_worker hi h₁
      exact .write hi hw
    · cases h
  | workerUnlock i =>
    obtain ⟨s₁, h₁, rfl⟩ := Option.map_eq_some_iff.1 h
    obtain ⟨w, hi, hw, rfl⟩ := move_cases h₁
    exact .workerUnlock hi hw
  | free i =>
    obtain ⟨w, hi, hw, rfl⟩ := move_cases h
    exact .free hi hw
  | acceptFailed =>
    simp only [step] at h
    split at h <;> cases h
    exact .acceptFailed
  | lock =>
    simp only [step] at h
    split at h
    · split_ifs at h with hx
      cases h
      exact .lock ‹_› hx
    · cases h
  | lockReturn =>
    simp only [step] at h
    split at h
    · split_ifs at h with hx
      cases h
      exact .lockReturn ‹_› hx
    · cases h
  | take =>
    simp only [step] at h
    split at h <;> cases h
    exact .take ‹_›
  | unlock =>
    simp only [step] at h
    split at h <;> cases h
    exact .unlock ‹_›
  | create =>
    simp only [step] at h
    split at h <;> cases h
    exact .create ‹_›
  | createFailed =>
    simp only [step] at h
    split at h <;> cases h
    exact .createFailed ‹_›
  | abandon =>
    simp only [step] at h
    split at h <;> cases h
    exact .abandon ‹_›
  | unlockReturn =>
    simp only [step] at h
    split at h <;> cases h
    exact .unlockReturn ‹_›

end PoolServer
end PosixHw
