import PosixHw.Base.Lists
import PosixHw.ThreadServer.Basic

/-!
# The server with one thread per connection: who owns what

A descriptor and the cell that it travels in belong to `main` in the iteration that obtained them,
then to the worker.  When `pthread_create` fails, `main` frees the cell and forgets the descriptor.

`Sound` is what the program should keep; `sound_iff_noneFailed` says when it does.  In the invariant
`Inv` the forgotten descriptors are owners of their own, so that it holds in every run.
-/

namespace PosixHw
namespace ThreadServer

open Run Lists

/-! ### Owners -/

/-- The descriptor that `main` has accepted in this iteration. -/
def MainPc.socket (content : ℕ → Option ℕ) : MainPc → Option ℕ
  | .create p _ => content p
  | _ => none

/-- The cell of this iteration. -/
def MainPc.cell : MainPc → Option ℕ
  | .accept p | .create p _ => some p
  | .malloc => none

/-- The descriptor that a worker has to close; it stands in the cell until the worker has read
it. -/
def Worker.socket (content : ℕ → Option ℕ) (w : Worker) : Option ℕ :=
  match w.pc with
  | .load => content w.clientSocket
  | .free sock | .serve sock => sock
  | _ => none

/-- The cell that a worker has to free. -/
def Worker.cell (w : Worker) : Option ℕ :=
  match w.pc with
  | .load | .free _ => some w.clientSocket
  | _ => none

/-- The descriptor that belongs to a thread, or that has been forgotten. -/
def holds (s : State) : Thr ⊕ ℕ → Option ℕ
  | .inl .main => s.main.socket s.heap.content
  | .inl (.worker i) => s.workers[i]?.bind (Worker.socket s.heap.content)
  | .inr i => s.lost[i]?.bind id

/-- The cell that belongs to a thread. -/
def cell (s : State) : Thr → Option ℕ
  | .main => s.main.cell
  | .worker i => s.workers[i]?.bind Worker.cell

/-- The connection that was accepted for a thread. -/
def accepted (s : State) : Thr → Option ℕ
  | .main =>
    match s.main with
    | .create _ c => c
    | _ => none
  | .worker i => s.workers[i]?.bind Worker.accepted

/-- What the program should keep: every accepted connection and every allocated cell has one owner
or has been given back once, no cell is used when it is not live, and a worker has the connection
that was accepted for it. -/
structure Sound (s : State) : Prop where
  connections : ∀ c < s.sockets.next, c ∉ s.sockets.pending →
    (∃ fd, s.sockets.conn fd = some c ∧ c ∉ s.sockets.closed ∧ ∃! t, holds s (.inl t) = some fd) ∨
      s.sockets.closed.count c = 1 ∧ ∀ t fd, holds s (.inl t) = some fd →
        s.sockets.conn fd ≠ some c
  cells : ∀ n < s.heap.next,
    (∃ p, s.heap.live p = some n ∧ n ∉ s.heap.freed ∧ ∃! t, cell s t = some p) ∨
      s.heap.freed.count n = 1 ∧ ∀ t p, cell s t = some p → s.heap.live p ≠ some n
  accesses : s.heap.sound = true
  own : ∀ t fd, holds s (.inl t) = some fd →
    ∃ c, s.sockets.conn fd = some c ∧ accepted s t = some c

/-- The invariant of all runs. -/
structure Inv (s : State) : Prop where
  sockets : Custody s.sockets (holds s)
  cells : Ownership s.heap.live (cell s)
  accesses : s.heap.sound = true
  ready : ∀ p c, s.main = .create p c → ∃ fd, s.heap.content p = some fd
  own : ∀ t fd, holds s (.inl t) = some fd → s.sockets.conn fd = accepted s t
  forgotten : ∀ sock ∈ s.lost, ∃ fd, sock = some fd

theorem inv_start (junk : ℕ → Option ℕ) : Inv (start junk) := by
  have hholds : holds (start junk) = fun _ => none := by
    funext o
    rcases o with (_ | _) | _ <;> rfl
  have hcell : cell (start junk) = fun _ => none := by
    funext t
    cases t <;> rfl
  constructor
  · rw [hholds]
    exact Custody.init
  · rw [hcell]
    exact Ownership.init
  · rfl
  · intro p c hm
    cases hm
  · intro t fd ht
    rw [hholds] at ht
    cases ht
  · intro sock h
    cases h

/-! ### What a step does to the owners -/

section Steps

variable {s s' : State} {i p fd : ℕ} {c r : Option ℕ} {w w' : Worker}

theorem main_ne_worker (i : ℕ) : Thr.main ≠ .worker i := by simp

/-- `main` goes on with the descriptor `r`, and the cells of the workers are as before. -/
theorem holds_main (hm : s'.main.socket s'.heap.content = r) (hw : s'.workers = s.workers)
    (hl : s'.lost = s.lost)
    (hc : ∀ i p, cell s (.worker i) = some p → s'.heap.content p = s.heap.content p) :
    holds s' = Function.update (holds s) (.inl .main) r := by
  funext o
  rcases o with (_ | i) | i
  · rw [Function.update_self]
    exact hm
  -- a worker that has not loaded its descriptor finds it in its own cell
  · rw [Function.update_of_ne (by simp)]
    simp only [holds, hw]
    refine Option.bind_congr fun w hi => ?_
    obtain ⟨p, c, pc⟩ := w
    cases pc with
    | load => exact hc i p (by rw [cell, hi]; rfl)
    | free | serve | ret | done => rfl
  · rw [Function.update_of_ne (by simp)]
    simp only [holds, hl]

/-- `main` goes on without a descriptor, as before. -/
theorem holds_idle (hnone : holds s (.inl .main) = none)
    (hm : s'.main.socket s'.heap.content = none) (hw : s'.workers = s.workers)
    (hl : s'.lost = s.lost)
    (hc : ∀ i p, cell s (.worker i) = some p → s'.heap.content p = s.heap.content p) :
    holds s' = holds s :=
  (holds_main hm hw hl hc).trans (Function.update_eq_self_iff.2 hnone.symm)

/-- `main` leaves its descriptor to a new worker `w'`. -/
theorem holds_create (hw : s'.workers = s.workers ++ [w']) (hm : s'.main = .malloc)
    (hl : s'.lost = s.lost) (hc : s'.heap.content = s.heap.content) :
    holds s' = Function.update (Function.update (holds s) (.inl .main) none)
      (.inl (.worker s.workers.length)) (w'.socket s.heap.content) := by
  funext o
  rcases o with (_ | j) | j
  · rw [Function.update_of_ne (by simp), Function.update_self]
    simp only [holds, hm, MainPc.socket]
  · have := congrFun (bind_concat (l := s.workers) (f := Worker.socket s.heap.content) (b := w')) j
    simp only [Function.update_apply] at this
    simp only [holds, hw, hc, this, Function.update_apply, Sum.inl.injEq, Thr.worker.injEq,
      reduceCtorEq, if_false]
  · rw [Function.update_of_ne (by simp), Function.update_of_ne (by simp)]
    simp only [holds, hl]

/-- `main` forgets the descriptor `r`. -/
theorem holds_createFailed (hw : s'.workers = s.workers) (hm : s'.main = .malloc)
    (hl : s'.lost = s.lost ++ [r]) (hc : s'.heap.content = s.heap.content) :
    holds s' = Function.update (Function.update (holds s) (.inl .main) none)
      (.inr s.lost.length) r := by
  funext o
  rcases o with (_ | j) | j
  · rw [Function.update_of_ne (by simp), Function.update_self]
    simp only [holds, hm, MainPc.socket]
  · rw [Function.update_of_ne (by simp), Function.update_of_ne (by simp)]
    simp only [holds, hw, hc]
  · have := congrFun (bind_concat (l := s.lost) (f := id) (b := r)) j
    simp only [Function.update_apply] at this
    simp only [holds, hl, this, Function.update_apply, Sum.inr.injEq, reduceCtorEq, if_false]
    rfl

/-- The worker `i` goes on as `w'`. -/
theorem holds_worker (hi : s.workers[i]? = some w) (hw : s'.workers = s.workers.set i w')
    (hm : s'.main = s.main) (hl : s'.lost = s.lost) (hc : s'.heap.content = s.heap.content) :
    holds s' = Function.update (holds s) (.inl (.worker i)) (w'.socket s.heap.content) := by
  funext o
  rcases o with (_ | j) | j
  · rw [Function.update_of_ne (by simp)]
    simp only [holds, hm, hc]
  · have := congrFun (bind_set (f := Worker.socket s.heap.content) (b := w') hi) j
    simp only [Function.update_apply] at this
    simp only [holds, hw, hc, this, Function.update_apply, Sum.inl.injEq, Thr.worker.injEq]
  · rw [Function.update_of_ne (by simp)]
    simp only [holds, hl]

/-- `main` goes on with the cell `r`. -/
theorem cell_main (hm : s'.main.cell = r) (hw : s'.workers = s.workers) :
    cell s' = Function.update (cell s) .main r := by
  funext t
  cases t with
  | main =>
    rw [Function.update_self]
    exact hm
  | worker i =>
    rw [Function.update_of_ne (main_ne_worker i).symm]
    simp only [cell, hw]

/-- `main` leaves its cell to a new worker `w'`. -/
theorem cell_create (hw : s'.workers = s.workers ++ [w']) (hm : s'.main = .malloc) :
    cell s' = Function.update (Function.update (cell s) .main none)
      (.worker s.workers.length) w'.cell := by
  funext t
  cases t with
  | main =>
    rw [Function.update_of_ne (main_ne_worker _), Function.update_self]
    simp only [cell, hm, MainPc.cell]
  | worker j =>
    have := congrFun (bind_concat (l := s.workers) (f := Worker.cell) (b := w')) j
    simp only [Function.update_apply] at this
    simp only [cell, hw, this, Function.update_apply, Thr.worker.injEq, reduceCtorEq, if_false]

theorem cell_worker (hi : s.workers[i]? = some w) (hw : s'.workers = s.workers.set i w')
    (hm : s'.main = s.main) : cell s' = Function.update (cell s) (.worker i) w'.cell := by
  funext t
  cases t with
  | main =>
    rw [Function.update_of_ne (main_ne_worker i)]
    simp only [cell, hm]
  | worker j =>
    have := congrFun (bind_set (f := Worker.cell) (b := w') hi) j
    simp only [Function.update_apply] at this
    simp only [cell, hw, this, Function.update_apply, Thr.worker.injEq]

theorem accepted_worker (hi : s.workers[i]? = some w) (hw : s'.workers = s.workers.set i w')
    (hm : s'.main = s.main) (hc : w'.accepted = w.accepted) : accepted s' = accepted s := by
  funext t
  cases t with
  | main => simp only [accepted, hm]
  | worker j =>
    have := congrFun (bind_set (f := Worker.accepted) (b := w') hi) j
    simp only [accepted, hw, this, Function.update_apply]
    split_ifs with hj
    · rw [hj, hi, Option.bind_some, hc]
    · rfl

theorem accepted_create (hw : s'.workers = s.workers ++ [w']) :
    (fun i => accepted s' (.worker i))
      = Function.update (fun i => accepted s (.worker i)) s.workers.length w'.accepted := by
  have hset := bind_concat (l := s.workers) (f := Worker.accepted) (b := w')
  rw [← hw] at hset
  exact hset

/-- Only the thread `t` has a connection to be compared anew. -/
theorem own_update {S : Sockets} {t : Thr} (h : Inv s)
    (hholds : ∀ t' ≠ t, holds s' (.inl t') = holds s (.inl t'))
    (haccepted : ∀ t' ≠ t, accepted s' t' = accepted s t')
    (hconn : ∀ t' ≠ t, ∀ fd, holds s (.inl t') = some fd → S.conn fd = s.sockets.conn fd)
    (ht : ∀ fd, holds s' (.inl t) = some fd → S.conn fd = accepted s' t) :
    ∀ t fd, holds s' (.inl t) = some fd → S.conn fd = accepted s' t := by
  intro t' fd hfd
  -- the other threads keep their connections
  by_cases e : t' = t
  · subst e
    exact ht fd hfd
  · rw [hholds t' e] at hfd
    rw [hconn t' e fd hfd, haccepted t' e]
    exact h.own t' fd hfd

/-- A `main` without a descriptor has no connection to be compared. -/
theorem own_idle (h : Inv s) (hnone : holds s (.inl .main) = none) (hholds : holds s' = holds s)
    (hw : s'.workers = s.workers) :
    ∀ t fd, holds s' (.inl t) = some fd → s.sockets.conn fd = accepted s' t := by
  intro t fd ht
  rw [hholds] at ht
  cases t with
  | main =>
    rw [hnone] at ht
    cases ht
  | worker i =>
    have hown := h.own (.worker i) fd ht
    simp only [accepted, hw] at hown ⊢
    exact hown

/-- A worker that goes on with the same descriptor and the same cell. -/
theorem Inv.worker (h : Inv s) (hi : s.workers[i]? = some w) (hs : s' = s.put i w')
    (hsocket : w'.socket s.heap.content = w.socket s.heap.content) (hcell : w'.cell = w.cell)
    (hc : w'.accepted = w.accepted) : Inv s' := by
  subst hs
  have hholds : holds (s.put i w') = holds s := by
    have hw : holds s (.inl (.worker i)) = w'.socket s.heap.content := by
      rw [holds, hi, Option.bind_some, hsocket]
    have hset : holds (s.put i w')
        = Function.update (holds s) (.inl (.worker i)) (w'.socket s.heap.content) :=
      holds_worker hi rfl rfl rfl rfl
    exact hset.trans (Function.update_eq_self_iff.2 hw.symm)
  have hcell' : cell (s.put i w') = cell s := by
    have hw : cell s (.worker i) = w'.cell := by rw [cell, hi, Option.bind_some, hcell]
    have hset : cell (s.put i w') = Function.update (cell s) (.worker i) w'.cell :=
      cell_worker hi rfl rfl
    exact hset.trans (Function.update_eq_self_iff.2 hw.symm)
  have haccepted : accepted (s.put i w') = accepted s := accepted_worker hi rfl rfl hc
  constructor
  · rw [hholds]
    exact h.sockets
  · rw [hcell']
    exact h.cells
  · exact h.accesses
  · exact h.ready
  · rw [hholds, haccepted]
    exact h.own
  · exact h.forgotten

theorem inv_malloc {H : Heap (Option ℕ)} (h : Inv s) (hm : s.main = .malloc)
    (hH : s.heap.malloc p = some H) : Inv { s with heap := H, main := .accept p } := by
  obtain ⟨hp, hlive, hcontent, hsound⟩ := Heap.malloc_cases hH
  have hnone : holds s (.inl .main) = none := by rw [holds, hm]; rfl
  have hholds : holds { s with heap := H, main := .accept p } = holds s :=
    holds_idle hnone rfl rfl rfl fun _ q _ => congrFun hcontent q
  have hcell : cell { s with heap := H, main := .accept p }
      = Function.update (cell s) .main (some p) := cell_main rfl rfl
  constructor
  · rw [hholds]
    exact h.sockets
  · rw [hcell]
    exact h.cells.acquire (by rw [cell, hm]; rfl) hp hlive
  · exact hsound.trans h.accesses
  · intro q c hq
    cases hq
  · exact own_idle (s := s) h hnone hholds rfl
  · exact h.forgotten

/-- What is stored in the cell of `main` is of no consequence to the workers. -/
theorem content_worker {v : Option ℕ} (h : Inv s) (hp : s.main.cell = some p) {q : ℕ}
    (hq : cell s (.worker i) = some q) :
    Function.update s.heap.content p v q = s.heap.content q := by
  refine Function.update_of_ne ?_ _ _
  rintro rfl
  have hmain : cell s .main = some q := hp
  exact main_ne_worker i (h.cells.inj hmain hq)

theorem inv_accept {S : Sockets} (h : Inv s) (hm : s.main = .accept p)
    (hS : s.sockets.accept fd = some S) :
    Inv { s with
      sockets := S
      heap := s.heap.store p (some fd)
      main := .create p (S.conn fd) } := by
  have hp : s.main.cell = some p := by rw [hm]; rfl
  have hmain : cell s .main = some p := hp
  have hnone : holds s (.inl .main) = none := by rw [holds, hm]; rfl
  obtain ⟨n, hn⟩ := h.cells.isLive hmain
  obtain ⟨c, -, hfd, hconn, -⟩ := Sockets.accept_cases hS
  set s' : State := { s with
    sockets := S
    heap := s.heap.store p (some fd)
    main := .create p (S.conn fd) }
  have hholds : holds s' = Function.update (holds s) (.inl .main) (some fd) := by
    refine holds_main ?_ rfl rfl fun i q hq => content_worker h hp hq
    exact Function.update_self ..
  have hset : cell s' = Function.update (cell s) .main (some p) := cell_main rfl rfl
  have hcell : cell s' = cell s := hset.trans (Function.update_eq_self_iff.2 hmain.symm)
  constructor
  · rw [hholds]
    exact Custody.accept h.sockets hnone hfd hconn
  · rw [hcell]
    exact h.cells
  · exact Heap.sound_access h.accesses hn
  · intro q d hq
    cases hq
    exact ⟨fd, Function.update_self ..⟩
  · refine own_update (t := .main) h ?_ ?_ ?_ ?_
    · intro t ht
      rw [hholds, Function.update_of_ne (by simpa using ht)]
    · intro t ht
      cases t with
      | main => exact absurd rfl ht
      | worker i => rfl
    · intro t _ fd' hfd'
      obtain ⟨d, hd⟩ := h.sockets.isOpen hfd'
      show S.conn fd' = _
      rw [hconn, Function.update_of_ne]
      rintro rfl
      rw [hfd] at hd
      cases hd
    · intro fd' hfd'
      rw [hholds, Function.update_self, Option.some_inj] at hfd'
      rw [← hfd']
      rfl
  · exact h.forgotten

theorem inv_acceptFailed (h : Inv s) (hm : s.main = .accept p) :
    Inv { s with heap := (s.heap.store p none).free p, main := .malloc } := by
  have hp : s.main.cell = some p := by rw [hm]; rfl
  have hmain : cell s .main = some p := hp
  have hnone : holds s (.inl .main) = none := by rw [holds, hm]; rfl
  obtain ⟨n, hn⟩ := h.cells.isLive hmain
  obtain ⟨hlive, -, hcontent, hsound⟩ := Heap.free_of_live (H := s.heap.store p none) hn
  set s' : State := { s with heap := (s.heap.store p none).free p, main := .malloc }
  have hholds : holds s' = holds s :=
    holds_idle hnone rfl rfl rfl fun i q hq => (congrFun hcontent q).trans (content_worker h hp hq)
  have hcell : cell s' = Function.update (cell s) .main none := cell_main rfl rfl
  constructor
  · rw [hholds]
    exact h.sockets
  · rw [hcell]
    exact h.cells.release hmain hlive
  · exact hsound.trans (Heap.sound_access h.accesses hn)
  · intro q c hq
    cases hq
  · exact own_idle (s := s) h hnone hholds rfl
  · exact h.forgotten

theorem inv_create (h : Inv s) (hm : s.main = .create p c) :
    Inv { s with workers := s.workers ++ [⟨p, c, .load⟩], main := .malloc } := by
  obtain ⟨fd, hfd⟩ := h.ready p c hm
  have hmain : cell s .main = some p := by rw [cell, hm]; rfl
  have hsocket : holds s (.inl .main) = some fd := by rw [holds, hm]; exact hfd
  set s' : State := { s with workers := s.workers ++ [⟨p, c, .load⟩], main := .malloc }
  have hnew : s.workers[s.workers.length]? = none := List.getElem?_eq_none le_rfl
  have hholds : holds s' = Function.update (Function.update (holds s) (.inl .main) none)
      (.inl (.worker s.workers.length)) (some fd) := by
    have hload : Worker.socket s.heap.content ⟨p, c, .load⟩ = some fd := hfd
    rw [← hload]
    exact holds_create rfl rfl rfl rfl
  have hcell : cell s' = Function.update (Function.update (cell s) .main none)
      (.worker s.workers.length) (Worker.cell ⟨p, c, .load⟩) := cell_create rfl rfl
  have haccepted : (fun i => accepted s' (.worker i))
      = Function.update (fun i => accepted s (.worker i)) s.workers.length
        (Worker.accepted ⟨p, c, .load⟩) := accepted_create rfl
  constructor
  · rw [hholds]
    exact Custody.transfer h.sockets hsocket (by rw [holds, hnew, Option.bind_none]) rfl
  · rw [hcell]
    exact h.cells.transfer hmain (by rw [cell, hnew, Option.bind_none])
  · exact h.accesses
  · intro q d hq
    cases hq
  · intro t fd' hfd'
    rw [hholds] at hfd'
    cases t with
    | main =>
      rw [Function.update_of_ne (by simp), Function.update_self] at hfd'
      cases hfd'
    | worker j =>
      have haccepted := congrFun haccepted j
      by_cases hj : j = s.workers.length
      · subst hj
        rw [Function.update_self, Option.some_inj] at hfd'
        rw [Function.update_self] at haccepted
        have hown := h.own .main fd hsocket
        rw [accepted, hm] at hown
        rw [haccepted, ← hfd']
        exact hown
      · rw [Function.update_of_ne (by simpa using hj), Function.update_of_ne (by simp)] at hfd'
        rw [Function.update_of_ne hj] at haccepted
        rw [haccepted]
        exact h.own (.worker j) fd' hfd'
  · exact h.forgotten

theorem inv_createFailed (h : Inv s) (hm : s.main = .create p c) :
    Inv { s with
      heap := s.heap.free p
      main := .malloc
      lost := s.lost ++ [s.heap.content p] } := by
  obtain ⟨fd, hfd⟩ := h.ready p c hm
  have hp : s.main.cell = some p := by rw [hm]; rfl
  have hmain : cell s .main = some p := hp
  have hsocket : holds s (.inl .main) = some fd := by rw [holds, hm]; exact hfd
  obtain ⟨n, hn⟩ := h.cells.isLive hmain
  obtain ⟨hlive, -, hcontent, hsound⟩ := Heap.free_of_live hn
  set s' : State := { s with
    heap := s.heap.free p
    main := .malloc
    lost := s.lost ++ [s.heap.content p] }
  have hnew : s.lost[s.lost.length]? = none := List.getElem?_eq_none le_rfl
  have hholds : holds s' = Function.update (Function.update (holds s) (.inl .main) none)
      (.inr s.lost.length) (some fd) := by
    rw [← hfd]
    exact holds_createFailed rfl rfl rfl hcontent
  have hcell : cell s' = Function.update (cell s) .main none := cell_main rfl rfl
  constructor
  · rw [hholds]
    exact Custody.transfer h.sockets hsocket (by rw [holds, hnew, Option.bind_none]) rfl
  · rw [hcell]
    exact h.cells.release hmain hlive
  · exact hsound.trans h.accesses
  · intro q d hq
    cases hq
  · intro t fd' hfd'
    cases t with
    | main =>
      rw [hholds, Function.update_of_ne (by simp), Function.update_self] at hfd'
      cases hfd'
    | worker j =>
      rw [hholds, Function.update_of_ne (by simp), Function.update_of_ne (by simp)] at hfd'
      exact h.own (.worker j) fd' hfd'
  · intro sock hsock
    rcases List.mem_append.1 hsock with hsock | hsock
    · exact h.forgotten sock hsock
    · exact ⟨fd, (List.mem_singleton.1 hsock).trans hfd⟩

theorem inv_load (h : Inv s) (hi : s.workers[i]? = some ⟨p, c, .load⟩) :
    Inv { s.put i ⟨p, c, .free (s.heap.content p)⟩ with heap := s.heap.access p } := by
  have hput : Inv (s.put i ⟨p, c, .free (s.heap.content p)⟩) := h.worker hi rfl rfl rfl rfl
  have hcell : cell s (.worker i) = some p := by rw [cell, hi]; rfl
  obtain ⟨n, hn⟩ := h.cells.isLive hcell
  exact ⟨hput.sockets, hput.cells, Heap.sound_access h.accesses hn, hput.ready, hput.own,
    hput.forgotten⟩

theorem inv_free {sock : Option ℕ} (h : Inv s) (hi : s.workers[i]? = some ⟨p, c, .free sock⟩) :
    Inv { s.put i ⟨p, c, .serve sock⟩ with heap := s.heap.free p } := by
  have hcell : cell s (.worker i) = some p := by rw [cell, hi]; rfl
  have hsocket : holds s (.inl (.worker i)) = sock := by rw [holds, hi]; rfl
  obtain ⟨n, hn⟩ := h.cells.isLive hcell
  obtain ⟨hlive, -, hcontent, hsound⟩ := Heap.free_of_live hn
  set s' : State := { s.put i ⟨p, c, .serve sock⟩ with heap := s.heap.free p }
  have hset : holds s' = Function.update (holds s) (.inl (.worker i))
      (Worker.socket s.heap.content ⟨p, c, .serve sock⟩) := holds_worker hi rfl rfl rfl hcontent
  have hholds : holds s' = holds s := hset.trans (Function.update_eq_self_iff.2 hsocket.symm)
  have hcells : cell s' = Function.update (cell s) (.worker i) (Worker.cell ⟨p, c, .serve sock⟩) :=
    cell_worker hi rfl rfl
  have haccepted : accepted s' = accepted s := accepted_worker hi rfl rfl rfl
  constructor
  · rw [hholds]
    exact h.sockets
  · rw [hcells]
    exact h.cells.release hcell hlive
  · exact hsound.trans h.accesses
  · intro q d hq
    obtain ⟨fd, hfd⟩ := h.ready q d hq
    exact ⟨fd, (congrFun hcontent q).trans hfd⟩
  · rw [hholds, haccepted]
    exact h.own
  · exact h.forgotten

theorem inv_close {sock : Option ℕ} (h : Inv s)
    (hi : s.workers[i]? = some ⟨p, c, .serve sock⟩) :
    Inv { s.put i ⟨p, c, .ret⟩ with sockets := closeSock s.sockets sock } := by
  have hsocket : holds s (.inl (.worker i)) = sock := by rw [holds, hi]; rfl
  cases sock with
  | none => exact h.worker hi rfl rfl rfl rfl
  | some fd =>
    obtain ⟨d, hd⟩ := h.sockets.isOpen hsocket
    obtain ⟨hconn, -, -⟩ := Sockets.close_of_conn hd
    set s' : State :=
      { s.put i ⟨p, c, .ret⟩ with sockets := closeSock s.sockets (some fd) }
    have hholds : holds s' = Function.update (holds s) (.inl (.worker i))
        (Worker.socket s.heap.content ⟨p, c, .ret⟩) := holds_worker hi rfl rfl rfl rfl
    have hcell : cell s (.worker i) = none := by rw [cell, hi]; rfl
    have hset : cell s' = Function.update (cell s) (.worker i) (Worker.cell ⟨p, c, .ret⟩) :=
      cell_worker hi rfl rfl
    have haccepted : accepted s' = accepted s := accepted_worker hi rfl rfl rfl
    constructor
    · rw [hholds]
      exact Custody.close h.sockets hsocket hconn
    · rw [hset.trans (Function.update_eq_self_iff.2 hcell.symm)]
      exact h.cells
    · exact h.accesses
    · exact h.ready
    · refine own_update (t := .worker i) h ?_ ?_ ?_ ?_
      · intro t ht
        rw [hholds, Function.update_of_ne (by simpa using ht)]
      · intro t _
        rw [haccepted]
      · intro t ht fd' hfd'
        show (s.sockets.close fd).conn fd' = _
        rw [hconn, Function.update_of_ne]
        rintro rfl
        exact ht (Sum.inl_injective (h.sockets.inj hfd' hsocket))
      · intro fd' hfd'
        rw [hholds, Function.update_self] at hfd'
        cases hfd'
    · exact h.forgotten

end Steps

theorem inv_step (s : State) (a : Action) (s' : State) (h : Inv s) (hs : step s a = some s') :
    Inv s' := by
  cases step_cases hs with
  | connect =>
    exact ⟨Custody.congr h.sockets rfl, h.cells, h.accesses, h.ready, h.own, h.forgotten⟩
  | malloc hm hH => exact inv_malloc h hm hH
  | accept hm hS => exact inv_accept h hm hS
  | acceptFailed hm => exact inv_acceptFailed h hm
  | create hm => exact inv_create h hm
  | createFailed hm => exact inv_createFailed h hm
  | load hi => exact inv_load h hi
  | free hi => exact inv_free h hi
  | echo hi => exact h
  | close hi => exact inv_close h hi
  | ret hi => exact h.worker hi rfl rfl rfl rfl

theorem inv_of_run {junk : ℕ → Option ℕ} {as : List Action} {s : State}
    (h : run step (start junk) as = some s) : Inv s :=
  run_invariant inv_step (inv_start junk) h

/-- `main` forgets one descriptor each time `pthread_create` fails. -/
theorem lost_step {s s' : State} {a : Action} (hs : step s a = some s') :
    s'.lost.length = s.lost.length + [a].countP (· == .createFailed) := by
  cases step_cases hs with
  | createFailed hm => simp
  | _ => simp [State.put]

/-! ### Soundness -/

/-- The program keeps what it should exactly while `main` has forgotten no descriptor. -/
theorem Inv.sound_iff {s : State} (h : Inv s) : Sound s ↔ s.lost = [] := by
  constructor
  · intro hsound
    by_contra hne
    obtain ⟨sock, lost, hlost⟩ := List.exists_cons_of_ne_nil hne
    obtain ⟨fd, rfl⟩ := h.forgotten sock (hlost ▸ List.mem_cons_self)
    have hheld : holds s (.inr 0) = some fd := by rw [holds, hlost]; rfl
    obtain ⟨c, hc⟩ := h.sockets.isOpen hheld
    have hlt : c < s.sockets.next := (s.sockets.lt_next c).2 (.inr (.inr ⟨fd, hc⟩))
    rcases hsound.connections c hlt (s.sockets.conn_pending hc) with
      ⟨fd', hfd', -, t, ht, -⟩ | ⟨hclosed, -⟩
    · obtain rfl := s.sockets.conn_inj hc hfd'
      exact Sum.inl_ne_inr (h.sockets.inj ht hheld)
    · exact s.sockets.conn_closed hc (List.count_pos_iff.1 (by omega))
  · intro hlost
    have hnone : ∀ i fd, holds s (.inr i) ≠ some fd := by
      intro i fd hfd
      rw [holds, hlost, List.getElem?_nil] at hfd
      cases hfd
    constructor
    · intro c hc hp
      rcases (s.sockets.lt_next c).1 hc with hp' | hclosed | ⟨fd, hfd⟩
      · exact absurd hp' hp
      · refine .inr ⟨List.count_eq_one_of_mem s.sockets.closed_nodup hclosed, ?_⟩
        intro t fd _ hfd
        exact s.sockets.conn_closed hfd hclosed
      · obtain ⟨t | i, ht, hunique⟩ := h.sockets.existsUnique hfd
        · refine .inl ⟨fd, hfd, s.sockets.conn_closed hfd, t, ht, fun t' ht' => ?_⟩
          exact Sum.inl_injective (hunique _ ht')
        · exact absurd ht (hnone i fd)
    · intro n hn
      exact Heap.accounted h.cells hn
    · exact h.accesses
    · intro t fd hfd
      obtain ⟨c, hc⟩ := h.sockets.isOpen hfd
      exact ⟨c, hc, (h.own t fd hfd).symm.trans hc⟩

/-- **When the program keeps what it should**: in every run, as long as no `pthread_create` has
failed, and never after that. -/
theorem sound_iff_noneFailed {junk : ℕ → Option ℕ} {as : List Action} {s : State}
    (h : run step (start junk) as = some s) : Sound s ↔ .createFailed ∉ as := by
  have hcount : s.lost.length = as.count .createFailed := by
    have hrun := run_countP (f := fun s => s.lost.length) (fun _ _ _ => lost_step) h
    rwa [start, List.length_nil, Nat.zero_add] at hrun
  rw [(inv_of_run h).sound_iff, ← List.length_eq_zero_iff, hcount, List.count_eq_zero]

/-- One client from its connection to the end of its thread. -/
def serveOne (fd i : ℕ) : List Action :=
  [.connect, .malloc 0, .accept fd, .create, .load i, .free i, .echo i, .close i, .ret i]

theorem sound_iff_serveOne :
    ∃ s, run step (start fun _ => none) (serveOne 4 0) = some s ∧ s.sockets.closed = [0] ∧
      s.heap.freed = [0] ∧ (Sound s ↔ .createFailed ∉ serveOne 4 0) := by
  obtain ⟨s, hs, hf⟩ := Option.map_eq_some_iff.1
    (show (run step (start fun _ => none) (serveOne 4 0)).map
      (fun s => (s.sockets.closed, s.heap.freed)) = some ([0], [0]) by decide)
  rw [Prod.mk.injEq] at hf
  exact ⟨s, hs, hf.1, hf.2, sound_iff_noneFailed hs⟩

/-- The connection of a thread that could not be created stays open, and nobody has it. -/
theorem connection_lost :
    ¬ ∀ as s, run step (start fun _ => none) as = some s → Sound s := by
  intro hall
  obtain ⟨s, hs, hf⟩ := Option.map_eq_some_iff.1
    (show (run step (start fun _ => none) [.connect, .malloc 0, .accept 4, .createFailed]).map
      (fun s => s.lost) = some [some 4] by decide)
  have hlost := (inv_of_run hs).sound_iff.1 (hall _ s hs)
  rw [hf] at hlost
  cases hlost

end ThreadServer
end PosixHw
