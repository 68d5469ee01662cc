import PosixHw.Base.Ending
import PosixHw.Base.Ring
import PosixHw.Base.Monitor
import PosixHw.Base.Socket

/-!
# The queue server: threads around a bounded queue of sockets

The program `sockets/hw2/server queue/server.c`.  `main` accepts connections and hands their
sockets to `add_to_queue`; the workers run `handle_client`, which takes a socket from
`remove_from_queue`, echoes what it reads and closes it.

* Any thread may do either: an idle thread may return from `accept` with a socket, which it then
  adds, or call `remove_from_queue`, after which it serves the socket and closes it.  `main` is a
  thread that does only the first, a worker one that does only the second.
* A step is a lock, an evaluation of the `while` condition together with the wait that it may lead
  to, the rest of the critical section with its signal, an unlock, or a return from the wait.
* Sockets are descriptors, which the kernel reuses; `Sockets` knows the connection behind each.
* What is echoed is left out.  Nobody looks at the result of `send`, so one that fails does nothing;
  but it may raise SIGPIPE, and the `printf` may run out of the array, which is not initialised.
  `step` says what the threads do before that, and `process` adds the end of the server.
* `stored`, `returned`, `removedBy` and `closedBy` record history and are never read by a step.
-/

namespace PosixHw
namespace QueueServer

open Run Ending

/-- `QUEUE_SIZE`. -/
def queueSize : ℕ := 10

/-- The two condition variables of the queue. -/
inductive CondVar
  | notEmpty
  | notFull
  deriving DecidableEq

/-- `client_queue_t`; `queue i` is `queue[i].client_socket`. -/
structure ClientQueue (T : Type*) where
  queue : ℕ → ℕ
  front : ℕ
  rear : ℕ
  count : ℕ
  mutex : Option T
  cond : CondVar → Cond T

/-- A call of `add_to_queue` or of `remove_from_queue`. -/
inductive Call
  | add (clientSocket : ℕ)
  | remove
  deriving DecidableEq

/-- Where a thread is: outside the two operations, at the lock, at the `while`, in the wait, past
the `while`, at the unlock (with the socket it will return), or in `handle_client` with a socket. -/
inductive Pc
  | idle
  | lock (c : Call)
  | test (c : Call)
  | wait (c : Call)
  | body (c : Call)
  | unlock (ret : Option ℕ)
  | serve (clientSocket : ℕ)
  deriving DecidableEq

/-- Where a thread goes on after its call has returned: `handle_client` with the socket it got from
`remove_from_queue`, or back to the start after `add_to_queue`. -/
def Pc.after : Option ℕ → Pc
  | some fd => .serve fd
  | none => .idle

section Queue

variable {T : Type*}

/-- `init_queue`. -/
def initQueue (q : ClientQueue T) : ClientQueue T :=
  { q with front := 0, rear := 0, count := 0, mutex := none, cond := fun _ => Cond.init }

/-- The zeroed global `client_queue`. -/
def emptyQueue : ClientQueue T := initQueue ⟨fun _ => 0, 0, 0, 0, none, fun _ => Cond.init⟩

/-- `add_to_queue`, lines 44–46. -/
def ClientQueue.store (q : ClientQueue T) (clientSocket : ℕ) : ClientQueue T :=
  { q with
    queue := Function.update q.queue q.rear clientSocket
    rear := (q.rear + 1) % queueSize
    count := q.count + 1 }

/-- `remove_from_queue`, lines 57–58; the socket returned is `q.queue q.front`. -/
def ClientQueue.take (q : ClientQueue T) : ClientQueue T :=
  { q with front := (q.front + 1) % queueSize, count := q.count - 1 }

/-- The live cells of the queue, oldest first. -/
def ClientQueue.live (q : ClientQueue T) : List ℕ :=
  Ring.window q.queue queueSize q.front q.count

end Queue

/-- The condition of the `while` loop. -/
def Call.blocked {T : Type*} (q : ClientQueue T) : Call → Bool
  | .add _ => q.count == queueSize
  | .remove => q.count == 0

/-- The condition variable that a call waits on. -/
def Call.waitsOn : Call → CondVar
  | .add _ => .notFull
  | .remove => .notEmpty

/-- The condition variable that a call signals. -/
def Call.signals : Call → CondVar
  | .add _ => .notEmpty
  | .remove => .notFull

/-- The whole system. -/
structure State (T : Type*) where
  q : ClientQueue T
  pc : T → Pc
  sockets : Sockets
  stored : List ℕ
  returned : List ℕ
  removedBy : List (T × ℕ)
  closedBy : List (T × ℕ)

/-- The state in which `main` has called `init_queue` and every thread is about to begin. -/
def start {T : Type*} (q : ClientQueue T) : State T where
  q := initQueue q
  pc _ := .idle
  sockets := Sockets.init
  stored := []
  returned := []
  removedBy := []
  closedBy := []

/-- What may happen: a client connects, or a thread makes a step.  In an `echo` a thread reads a
piece, prints it and passes it to `send`, which may fail. -/
inductive Action (T : Type*)
  | connect
  | accept (t : T) (fd : ℕ)
  | acceptFailed (t : T)
  | callRemove (t : T)
  | lock (t : T)
  | test (t : T)
  | wake (t : T)
  | relock (t : T)
  | body (t : T) (woken : Option T)
  | unlock (t : T)
  | echo (t : T)
  | close (t : T)

variable {T : Type*} [DecidableEq T]

/-- `t` goes to `p`. -/
def State.goto (s : State T) (t : T) (p : Pc) : State T :=
  { s with pc := Function.update s.pc t p }

/-- The connection behind a socket, paired with the thread that handles it. -/
def State.tag (s : State T) (t : T) (fd : ℕ) : List (T × ℕ) :=
  (s.sockets.conn fd).toList.map fun c => (t, c)

/-- `t`, at the `while`, waits: it sleeps and gives up the mutex. -/
def State.wait (s : State T) (t : T) (c : Call) : State T :=
  { s.goto t (.wait c) with
    q := { s.q with
      mutex := none
      cond := Function.update s.q.cond c.waitsOn ((s.q.cond c.waitsOn).wait t) } }

/-- `t`, past the `while`, does the rest of its critical section, after which the condition
variable it signals has the waiters `d`. -/
def State.body (s : State T) (t : T) (d : Cond T) : Call → State T
  | .add fd =>
    { s.goto t (.unlock none) with
      q := { s.q.store fd with cond := Function.update s.q.cond .notEmpty d }
      stored := s.stored ++ [fd] }
  | .remove =>
    { s.goto t (.unlock (some (s.q.queue s.q.front))) with
      q := { s.q.take with cond := Function.update s.q.cond .notFull d }
      returned := s.returned ++ [s.q.queue s.q.front]
      removedBy := s.removedBy ++ s.tag t (s.q.queue s.q.front) }

/-- One step; `none` if the action is not enabled. -/
def step (s : State T) : Action T → Option (State T)
  | .connect => some { s with sockets := s.sockets.connect }
  | .accept t fd =>
    if s.pc t = .idle then
      (s.sockets.accept fd).map fun S => { s.goto t (.lock (.add fd)) with sockets := S }
    else none
  | .acceptFailed t => if s.pc t = .idle then some s else none
  | .callRemove t => if s.pc t = .idle then some (s.goto t (.lock .remove)) else none
  | .lock t =>
    match s.pc t with
    | .lock c =>
      if s.q.mutex = none then
        some { s.goto t (.test c) with q := { s.q with mutex := some t } }
      else none
    | _ => none
  | .test t =>
    match s.pc t with
    | .test c => some (if c.blocked s.q then s.wait t c else s.goto t (.body c))
    | _ => none
  | .wake t =>
    match s.pc t with
    | .wait c =>
      if t ∈ (s.q.cond c.waitsOn).sleeping then
        some { s with q := { s.q with
          cond := Function.update s.q.cond c.waitsOn ((s.q.cond c.waitsOn).wake t) } }
      else none
    | _ => none
  | .relock t =>
    match s.pc t with
    | .wait c =>
      if t ∈ (s.q.cond c.waitsOn).woken ∧ s.q.mutex = none then
        some { s.goto t (.test c) with q := { s.q with
          mutex := some t
          cond := Function.update s.q.cond c.waitsOn ((s.q.cond c.waitsOn).reacquire t) } }
      else none
    | _ => none
  | .body t woken =>
    match s.pc t with
    | .body c => ((s.q.cond c.signals).signal woken).map fun d => s.body t d c
    | _ => none
  | .unlock t =>
    match s.pc t with
    | .unlock ret =>
      some { s.goto t (Pc.after ret) with q := { s.q with mutex := none } }
    | _ => none
  | .echo t =>
    match s.pc t with
    | .serve _ => some s
    | _ => none
  | .close t =>
    match s.pc t with
    | .serve fd =>
      some { s.goto t .idle with
        sockets := s.sockets.close fd
        closedBy := s.closedBy ++ s.tag t fd }
    | _ => none

/-- In the loop of `handle_client`, `printf` may find no NUL in the array, and `send` raises SIGPIPE
if the client is gone.  Either is the end of the server. -/
def fatal (s : State T) : T × Cause → Bool
  | (t, _) =>
    match s.pc t with
    | .serve _ => true
    | _ => false

/-- The server, which may end in this way. -/
def process : Process (State T) (T × Cause) → Event (Action T) (T × Cause) →
    Option (Process (State T) (T × Cause)) :=
  Ending.step step fatal

/-- What each action does, where it is enabled. -/
inductive Step (s : State T) : Action T → State T → Prop
  | connect : Step s .connect { s with sockets := s.sockets.connect }
  | accept {t fd S} (hpc : s.pc t = .idle) (hS : s.sockets.accept fd = some S) :
      Step s (.accept t fd) { s.goto t (.lock (.add fd)) with sockets := S }
  | acceptFailed {t} : Step s (.acceptFailed t) s
  | callRemove {t} (hpc : s.pc t = .idle) : Step s (.callRemove t) (s.goto t (.lock .remove))
  | lock {t c} (hpc : s.pc t = .lock c) (hm : s.q.mutex = none) :
      Step s (.lock t) { s.goto t (.test c) with q := { s.q with mutex := some t } }
  | wait {t c} (hpc : s.pc t = .test c) (hb : c.blocked s.q = true) : Step s (.test t) (s.wait t c)
  | enter {t c} (hpc : s.pc t = .test c) (hb : c.blocked s.q = false) :
      Step s (.test t) (s.goto t (.body c))
  | wake {t c} (hpc : s.pc t = .wait c) (ht : t ∈ (s.q.cond c.waitsOn).sleeping) :
      Step s (.wake t) { s with q := { s.q with
        cond := Function.update s.q.cond c.waitsOn ((s.q.cond c.waitsOn).wake t) } }
  | relock {t c} (hpc : s.pc t = .wait c) (ht : t ∈ (s.q.cond c.waitsOn).woken)
      (hm : s.q.mutex = none) :
      Step s (.relock t) { s.goto t (.test c) with q := { s.q with
        mutex := some t
        cond := Function.update s.q.cond c.waitsOn ((s.q.cond c.waitsOn).reacquire t) } }
  | body {t c d w} (hpc : s.pc t = .body c) (hd : (s.q.cond c.signals).signal w = some d) :
      Step s (.body t w) (s.body t d c)
  | unlock {t ret} (hpc : s.pc t = .unlock ret) :
      Step s (.unlock t) { s.goto t (Pc.after ret) with q := { s.q with mutex := none } }
  | echo {t} : Step s (.echo t) s
  | close {t fd} (hpc : s.pc t = .serve fd) :
      Step s (.close t) { s.goto t .idle with
        sockets := s.sockets.close fd
        closedBy := s.closedBy ++ s.tag t fd }

theorem step_cases {s s' : State T} {a : Action T} (h : step s a = some s') : Step s a s' := by
  cases a with
  | connect => cases h; exact .connect
  | accept t fd =>
    simp only [step] at h
    split_ifs at h with hpc
    obtain ⟨S, hS, rfl⟩ := Option.map_eq_some_iff.1 h
    exact .accept hpc hS
  | acceptFailed t =>
    simp only [step] at h
    split_ifs at h
    cases h; exact .acceptFailed
  | callRemove t =>
    simp only [step] at h
    split_ifs at h with hpc
    cases h; exact .callRemove hpc
  | lock t =>
    simp only [step] at h
    split at h
    · split_ifs at h with hm
      cases h; exact .lock ‹_› hm
    · cases h
  | test t =>
    simp only [step] at h
    split at h
    · rename_i c hpc
      cases hb : c.blocked s.q <;> rw [hb] at h <;> cases h
      · exact .enter hpc hb
      · exact .wait hpc hb
    · cases h
  | wake t =>
    simp only [step] at h
    split at h
    · split_ifs at h with ht
      cases h; exact .wake ‹_› ht
    · cases h
  | relock t =>
    simp only [step] at h
    split at h
    · split_ifs at h with ht
      cases h; exact .relock ‹_› ht.1 ht.2
    · cases h
  | body t w =>
    simp only [step] at h
    split at h
    · obtain ⟨d, hd, rfl⟩ := Option.map_eq_some_iff.1 h
      exact .body ‹_› hd
    · cases h
  | unlock t =>
    simp only [step] at h
    split at h
    · cases h; exact .unlock ‹_›
    · cases h
  | echo t =>
    simp only [step] at h
    split at h
    · cases h; exact .echo
    · cases h
  | close t =>
    simp only [step] at h
    split at h
    · cases h; exact .close ‹_›
    · cases h

/-! ### Mutual exclusion -/

/-- Between the lock and the unlock, outside the wait. -/
def Pc.holding : Pc → Bool
  | .test _ | .body _ | .unlock _ => true
  | _ => false

/-- The thread that holds the mutex is the one in a critical section; the condition variables hold
the threads in the wait; a thread past the `while` still finds its condition false. -/
structure Excl (s : State T) : Prop where
  holder : ∀ t, s.q.mutex = some t ↔ (s.pc t).holding = true
  waiters : ∀ v t, t ∈ (s.q.cond v).sleeping ∪ (s.q.cond v).woken ↔
    ∃ c, s.pc t = .wait c ∧ c.waitsOn = v
  entered : ∀ t c, s.pc t = .body c → c.blocked s.q = false

theorem goto_pc_self (s : State T) (t : T) (p : Pc) : (s.goto t p).pc t = p :=
  Function.update_self ..

theorem goto_pc_of_ne (s : State T) {t u : T} (p : Pc) (h : u ≠ t) : (s.goto t p).pc u = s.pc u :=
  Function.update_of_ne h ..

/-- What holds of `t` at `p`, and of every other thread where it is, holds of all threads after the
move. -/
theorem goto_forall {s : State T} {t : T} {p : Pc} {P : T → Pc → Prop} (ht : P t p)
    (hother : ∀ u, u ≠ t → P u (s.pc u)) (u : T) : P u ((s.goto t p).pc u) :=
  (Function.forall_update_iff s.pc P).2 ⟨ht, hother⟩ u

theorem excl_start (q : ClientQueue T) : Excl (start q) where
  holder t := by simp [start, initQueue, Pc.holding]
  waiters v t := by simp [start, initQueue]
  entered t c h := by cases h

/-- Only the queue and the places of the threads are read. -/
theorem Excl.frame {s s' : State T} (h : Excl s) (hq : s'.q = s.q) (hpc : s'.pc = s.pc) :
    Excl s' := by
  constructor
  · rw [hq, hpc]
    exact h.holder
  · rw [hq, hpc]
    exact h.waiters
  · rw [hq, hpc]
    exact h.entered

/-- Two threads are never both in a critical section. -/
theorem Excl.unique {s : State T} (h : Excl s) {t u : T} (ht : (s.pc t).holding = true)
    (hu : (s.pc u).holding = true) : t = u := by
  have h₁ := (h.holder t).2 ht
  have h₂ := (h.holder u).2 hu
  rw [h₁] at h₂
  exact Option.some.inj h₂

/-- A thread in no wait is no waiter. -/
theorem Excl.notMem {s : State T} (h : Excl s) {t : T} (ht : ∀ c, s.pc t ≠ .wait c) (v : CondVar) :
    t ∉ (s.q.cond v).sleeping ∪ (s.q.cond v).woken := fun hm => by
  obtain ⟨c, hc, -⟩ := (h.waiters v t).1 hm
  exact ht c hc

section Fields

variable {s : State T} {t : T} {p : Pc}

/-- A move that takes or gives up no mutex keeps the first field. -/
theorem Excl.holder_goto (h : Excl s) (hold : p.holding = (s.pc t).holding) (u : T) :
    s.q.mutex = some u ↔ ((s.goto t p).pc u).holding = true := by
  apply goto_forall (P := fun u p => s.q.mutex = some u ↔ p.holding = true)
  · rw [hold]
    exact h.holder t
  · intro u _
    exact h.holder u

/-- Taking the free mutex keeps the first field. -/
theorem Excl.holder_lock (h : Excl s) (hm : s.q.mutex = none) (hold : p.holding = true) (u : T) :
    some t = some u ↔ ((s.goto t p).pc u).holding = true := by
  apply goto_forall (P := fun u p => some t = some u ↔ p.holding = true)
  · simp [hold]
  · intro u hu
    rw [← h.holder u, hm]
    simp [Ne.symm hu]

/-- Giving up the mutex keeps the first field. -/
theorem Excl.holder_release (h : Excl s) (ht : (s.pc t).holding = true)
    (hold : p.holding = false) (u : T) :
    (none : Option T) = some u ↔ ((s.goto t p).pc u).holding = true := by
  apply goto_forall (P := fun u p => (none : Option T) = some u ↔ p.holding = true)
  · simp [hold]
  · intro u hu
    exact iff_of_false (by simp) fun hu' => hu (h.unique hu' ht)

/-- A move into and out of no wait keeps the second field. -/
theorem Excl.waiters_goto (h : Excl s) (hwait : ∀ c, s.pc t ≠ .wait c) (hwait' : ∀ c, p ≠ .wait c)
    (v : CondVar) (u : T) : u ∈ (s.q.cond v).sleeping ∪ (s.q.cond v).woken ↔
      ∃ c, (s.goto t p).pc u = .wait c ∧ c.waitsOn = v := by
  apply goto_forall (P := fun u p => u ∈ (s.q.cond v).sleeping ∪ (s.q.cond v).woken ↔
    ∃ c, p = .wait c ∧ c.waitsOn = v)
  · exact iff_of_false (h.notMem hwait v) fun ⟨c, hc, _⟩ => hwait' c hc
  · intro u _
    exact h.waiters v u

/-- A move that does not go past the `while` keeps the third field, as long as the count stays. -/
theorem Excl.entered_goto (h : Excl s) (hbody : ∀ c, p ≠ .body c) (u : T) (c : Call)
    (hu : (s.goto t p).pc u = .body c) : c.blocked s.q = false := by
  revert hu
  apply goto_forall (P := fun _ p => p = .body c → c.blocked s.q = false)
  · intro hp
    exact absurd hp (hbody c)
  · intro u _ hu
    exact h.entered u c hu

/-- A move between places outside the queue operations. -/
theorem Excl.goto (h : Excl s) (hold : p.holding = (s.pc t).holding)
    (hwait : ∀ c, s.pc t ≠ .wait c) (hwait' : ∀ c, p ≠ .wait c) (hbody : ∀ c, p ≠ .body c) :
    Excl (s.goto t p) :=
  ⟨h.holder_goto hold, h.waiters_goto hwait hwait', h.entered_goto hbody⟩

end Fields

/-- Going to sleep. -/
theorem Excl.wait {s : State T} {t : T} {c : Call} (h : Excl s) (hpc : s.pc t = .test c) :
    Excl (s.wait t c) where
  holder := h.holder_release (by rw [hpc]; rfl) rfl
  waiters v u := by
    have hnot := h.notMem (t := t) (fun c' => by rw [hpc]; exact nofun) v
    by_cases ev : v = c.waitsOn <;> by_cases eu : u = t
    · subst ev eu
      simp [State.wait, goto_pc_self]
    · subst ev
      simp only [State.wait, Function.update_self, goto_pc_of_ne s _ eu, Cond.wait_sleeping,
        Cond.wait_woken, Finset.mem_union, Finset.mem_insert, Finset.mem_erase]
      rw [← h.waiters, Finset.mem_union]
      tauto
    · subst eu
      simp only [State.wait, Function.update_of_ne ev, goto_pc_self]
      refine iff_of_false hnot ?_
      rintro ⟨c', hc', rfl⟩
      cases hc'
      exact ev rfl
    · simp only [State.wait, Function.update_of_ne ev, goto_pc_of_ne s _ eu]
      exact h.waiters v u
  entered := h.entered_goto nofun

/-- Returning from the wait. -/
theorem Excl.relock {s : State T} {t : T} {c : Call} (h : Excl s) (hpc : s.pc t = .wait c)
    (ht : t ∈ (s.q.cond c.waitsOn).woken) (hm : s.q.mutex = none) :
    Excl { s.goto t (.test c) with q := { s.q with
      mutex := some t
      cond := Function.update s.q.cond c.waitsOn ((s.q.cond c.waitsOn).reacquire t) } } where
  holder := h.holder_lock hm rfl
  waiters v u := by
    have hs : t ∉ (s.q.cond c.waitsOn).sleeping := fun h' => Cond.notMem_woken h' ht
    by_cases ev : v = c.waitsOn <;> by_cases eu : u = t
    · subst ev eu
      simp [goto_pc_self, hs]
    · subst ev
      simp only [Function.update_self, goto_pc_of_ne s _ eu, Cond.reacquire_sleeping,
        Cond.reacquire_woken, Finset.mem_union, Finset.mem_erase]
      rw [← h.waiters, Finset.mem_union]
      tauto
    · subst eu
      simp only [Function.update_of_ne ev, goto_pc_self]
      refine iff_of_false (fun h' => ?_) nofun
      obtain ⟨c', hc', hv⟩ := (h.waiters v u).1 h'
      rw [hpc] at hc'
      cases hc'
      exact ev hv.symm
    · simp only [Function.update_of_ne ev, goto_pc_of_ne s _ eu]
      exact h.waiters v u
  entered := h.entered_goto nofun

/-- Replacing the waiters of one condition variable by the same set of threads. -/
theorem waiters_update {cond : CondVar → Cond T} {v : CondVar} {d : Cond T}
    (h : d.sleeping ∪ d.woken = (cond v).sleeping ∪ (cond v).woken) (w : CondVar) :
    (Function.update cond v d w).sleeping ∪ (Function.update cond v d w).woken
      = (cond w).sleeping ∪ (cond w).woken := by
  by_cases e : w = v
  · subst e; rw [Function.update_self, h]
  · rw [Function.update_of_ne e]

/-- The rest of a critical section. -/
theorem Excl.body {s : State T} {t : T} {c : Call} {d : Cond T} {w : Option T} (h : Excl s)
    (hpc : s.pc t = .body c) (hd : (s.q.cond c.signals).signal w = some d) :
    Excl (s.body t d c) := by
  have hold : (s.pc t).holding = true := by rw [hpc]; rfl
  have hwait : ∀ c', s.pc t ≠ .wait c' := fun c' => by rw [hpc]; exact nofun
  -- nobody else is past the `while`, so the count may change
  have hother : ∀ u c' (p : Pc), p.holding = true → (∀ c', p ≠ .body c') →
      (s.goto t p).pc u ≠ .body c' := by
    intro u c' p hp hb
    apply goto_forall (P := fun _ p => p ≠ .body c')
    · exact hb c'
    · intro u hne hu
      exact hne (h.unique (by rw [hu]; rfl) hold)
  cases c with
  | add fd =>
    refine ⟨h.holder_goto (by rw [hold]; rfl), fun v u => ?_, fun u c' hu => ?_⟩
    · simp only [State.body]
      rw [waiters_update (v := .notEmpty) (Cond.signal_waiters hd)]
      exact h.waiters_goto (p := .unlock none) hwait nofun v u
    · exact absurd hu (hother u c' _ rfl nofun)
  | remove =>
    refine ⟨h.holder_goto (by rw [hold]; rfl), fun v u => ?_, fun u c' hu => ?_⟩
    · simp only [State.body]
      rw [waiters_update (v := .notFull) (Cond.signal_waiters hd)]
      exact h.waiters_goto (p := .unlock (some _)) hwait nofun v u
    · exact absurd hu (hother u c' _ rfl nofun)

/-- **The mutex excludes**: every step keeps `Excl`. -/
theorem excl_step (s : State T) (a : Action T) (s' : State T) (h : Excl s)
    (hs : step s a = some s') : Excl s' := by
  cases step_cases hs with
  | connect => exact h.frame rfl rfl
  | @accept t fd S hpc hS =>
    have hmove := h.goto (p := .lock (.add fd)) (by rw [hpc]; rfl) (by rw [hpc]; exact nofun)
      nofun nofun
    exact hmove.frame rfl rfl
  | acceptFailed => exact h
  | callRemove hpc => exact h.goto (by rw [hpc]; rfl) (by rw [hpc]; exact nofun) nofun nofun
  | lock hpc hm =>
    exact ⟨h.holder_lock hm rfl, h.waiters_goto (by rw [hpc]; exact nofun) nofun,
      h.entered_goto nofun⟩
  | wait hpc hb => exact h.wait hpc
  | @enter t c hpc hb =>
    refine ⟨h.holder_goto (by rw [hpc]; rfl), h.waiters_goto (by rw [hpc]; exact nofun) nofun,
      fun u c' => ?_⟩
    -- the thread has just seen its condition false
    apply goto_forall (P := fun _ p => p = .body c' → c'.blocked s.q = false)
    · intro hp
      cases hp
      exact hb
    · intro u _ hu
      exact h.entered u c' hu
  | wake hpc ht =>
    refine ⟨h.holder, fun v u => ?_, h.entered⟩
    rw [waiters_update (Cond.wake_waiters ht)]
    exact h.waiters v u
  | relock hpc ht hm => exact h.relock hpc ht hm
  | body hpc hd => exact h.body hpc hd
  | @unlock t ret hpc =>
    have hw : ∀ c, Pc.after ret ≠ .wait c := by cases ret <;> exact nofun
    have hb : ∀ c, Pc.after ret ≠ .body c := by cases ret <;> exact nofun
    exact ⟨h.holder_release (by rw [hpc]; rfl) (by cases ret <;> rfl),
      h.waiters_goto (by rw [hpc]; exact nofun) hw, h.entered_goto hb⟩
  | echo => exact h
  | @close t fd hpc =>
    have hmove := h.goto (p := .idle) (by rw [hpc]; rfl) (by rw [hpc]; exact nofun) nofun nofun
    exact hmove.frame rfl rfl

end QueueServer
end PosixHw
