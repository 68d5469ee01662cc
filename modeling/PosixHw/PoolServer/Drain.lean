import PosixHw.Base.Leads
import PosixHw.PoolServer.Exclusive
import PosixHw.PoolServer.Progress

/-!
# The thread-pool server: when can everybody be served?

Each failure of `pthread_create` costs a slot number for good.  As long as one is left and the
server has not ended, whatever has happened, the threads can go on until every connection has been
accepted, served and closed.  When all five are lost, `main` will wait for ever with the next
connection in its hands.

* `State.effort` is what is left to do: some step of `Action.drains` makes it smaller, until there
  is nothing left (`Sane.exists_drain`);
* `Enough`: a slot number is left, or no connection needs one.  These steps neither bring it about
  nor spoil it (`Sane.enough_iff`), and at the end there is enough;
* `pool_serves_iff` puts the two together.
-/

namespace PosixHw
namespace PoolServer

open Run Ending

/-- The steps of the threads whose system calls succeed; nobody is woken without a signal. -/
def Action.drains : Action → Bool
  | .accept _ | .lock | .test | .relock | .take | .unlock | .create | .abandon | .read | .lockReturn
  | .put _ | .unlockReturn | .close _ | .workerLock _ | .write _ | .workerUnlock _ | .free _ => true
  | .connect | .acceptFailed | .createFailed | .wake | .echo _ => false

def drain (s : State) (a : Action) : Option State := if a.drains then step s a else none

/-- Nothing is left to do: `main` waits for connections, and none is pending or open. -/
structure Served (s : State) : Prop where
  main : s.main = .accept
  pending : s.sockets.pending = []
  workers : ∀ w ∈ s.workers, w.pc = .done
  closed : ∀ fd, s.sockets.conn fd = none

/-- `main` has a connection for which it needs a worker. -/
def MainPc.wants : MainPc → Bool
  | .lock _ | .test _ | .wait _ | .take _ | .unlock _ _ | .create _ _ => true
  | .accept | .failed _ _ | .read | .lockReturn _ | .put _ | .unlockReturn => false

/-- The slot numbers that are lost, or will be: `main` forgets its number on its way from a failure
of `pthread_create`. -/
def MainPc.lost : MainPc → ℕ
  | .failed _ _ => 1
  | .accept | .lock _ | .test _ | .wait _ | .take _ | .unlock _ _ | .create _ _ | .read
  | .lockReturn _ | .put _ | .unlockReturn => 0
def State.lost (s : State) : ℕ := s.dropped.length + s.main.lost

/-- What is left to do. -/
def MainPc.effort : MainPc → ℕ
  | .accept => 0
  | .unlockReturn | .failed _ _ => 1
  | .put _ => 2
  | .lockReturn _ => 3
  | .read => 4
  | .create _ _ => 10
  | .unlock _ _ => 11
  | .take _ => 12
  | .test _ => 13
  | .lock _ | .wait _ => 14
def WorkerPc.effort : WorkerPc → ℕ
  | .serve => 5
  | .lock => 4
  | .write => 3
  | .unlock => 2
  | .free => 1
  | .done => 0
def State.effort (s : State) : ℕ :=
  15 * s.sockets.pending.length + s.main.effort + (s.workers.map fun w => w.pc.effort).sum

/-! ### The numbers that are lost -/

theorem lost_step {s t : State} {a : Action} (hs : step s a = some t) :
    t.lost = s.lost + [a].countP (· == .createFailed) := by
  cases step_cases hs with
  | abandon hm => simp [State.lost, MainPc.lost, hm]
  | accept hm | lock hm | wait hm | enter hm | relock hm | take hm | unlock hm | create hm
  | createFailed hm | read hm | lockReturn hm | put hm | unlockReturn hm =>
    simp [State.lost, MainPc.lost, hm]
  | connect | acceptFailed | wake | echo | close | workerLock | write | workerUnlock | free =>
    simp [State.lost]

theorem lost_of_run {as : List Action} {s : State} (h : run step start as = some s) :
    s.lost = as.count .createFailed := by
  rw [run_countP (f := State.lost) (fun _ _ _ => lost_step) h]
  exact Nat.zero_add _

/-! ### What holds in every reachable state -/

/-- A worker that has locked the mutex is between its lock and its unlock. -/
def Known (s : State) : Prop :=
  ∀ i, s.mutex = some (.worker i) → ∃ w, s.workers[i]? = some w ∧ w.pc.holding = true

section Known

variable {s t : State} {i : ℕ} {w : Worker} {p : WorkerPc}

/-- A step of `main`, which may take the mutex or give it up. -/
theorem Known.main (h : Known s)
    (hw : ∀ (i : ℕ) w, s.workers[i]? = some w → t.workers[i]? = some w)
    (hx : ∀ i, t.mutex = some (.worker i) → s.mutex = some (.worker i)) : Known t := by
  intro i hi
  obtain ⟨w, hw', hp⟩ := h i (hx i hi)
  exact ⟨w, hw i w hw', hp⟩

/-- A step of the worker `i`. -/
theorem Known.worker (h : Known s) (hi : s.workers[i]? = some w)
    (hw : t.workers = s.workers.set i { w with pc := p })
    (hself : t.mutex = some (.worker i) → p.holding = true)
    (hother : ∀ j, j ≠ i → t.mutex = some (.worker j) → s.mutex = some (.worker j)) :
    Known t := by
  intro j hj
  rw [hw]
  by_cases e : j = i
  · subst e
    obtain ⟨hlt, -⟩ := List.getElem?_eq_some_iff.1 hi
    exact ⟨_, List.getElem?_set_self hlt, hself hj⟩
  · obtain ⟨w', hw', hp⟩ := h j (hother j e hj)
    exact ⟨w', by rwa [List.getElem?_set_ne (Ne.symm e)], hp⟩

theorem known_step (s : State) (a : Action) (t : State) (h : Known s) (hs : step s a = some t) :
    Known t := by
  cases step_cases hs with
  | connect | acceptFailed | wake | echo | accept | enter | take | createFailed | abandon | read
  | put => exact h.main (fun _ _ hw => hw) fun _ hx => hx
  | lock | relock | lockReturn | wait | unlock | unlockReturn =>
    exact h.main (fun _ _ hw => hw) fun _ hx => by cases hx
  | create =>
    refine h.main (fun i w hw => ?_) fun _ hx => hx
    have hlt := (List.getElem?_eq_some_iff.1 hw).1
    exact (List.getElem?_append_left hlt).trans hw
  | @close i w hi hw | @free i w hi hw =>
    refine h.worker hi rfl (fun hx => ?_) fun _ _ hx => hx
    obtain ⟨w', hw', hp⟩ := h i hx
    rw [hi, Option.some.injEq] at hw'
    subst hw'
    rw [hw] at hp
    cases hp
  | write hi => exact h.worker hi rfl (fun _ => rfl) fun _ _ hx => hx
  | workerLock hi =>
    refine h.worker hi rfl (fun _ => rfl) fun j hj hx => ?_
    cases hx
    exact absurd rfl hj
  | workerUnlock hi =>
    exact h.worker hi rfl (fun hx => by cases hx) fun _ _ hx => by cases hx

end Known

/-- What holds in every reachable state. -/
structure Sane (s : State) : Prop where
  slots : Slots s
  locks : Locks s
  held : Held s
  known : Known s

theorem sane_step (s : State) (a : Action) (t : State) (h : Sane s) (hs : step s a = some t) :
    Sane t :=
  ⟨slots_step s a t h.slots hs, locks_step s a t h.locks hs, held_step s a t h.held hs,
    known_step s a t h.known hs⟩

theorem sane_of_run {as : List Action} {s : State} (h : run step start as = some s) : Sane s :=
  run_invariant sane_step ⟨slots_start, locks_start, held_start, fun _ hx => by cases hx⟩ h

/-! ### The steps that are left -/

/-- There is a slot number, or none is needed. -/
def Enough (s : State) : Prop :=
  s.lost < maxThreads ∨ s.sockets.pending = [] ∧ s.main.wants = false

section Progress

variable {s t : State} {a : Action} {i fd : ℕ} {w : Worker}

theorem drain_eq (ha : a.drains = true) (hs : step s a = some t) : drain s a = some t :=
  (if_pos ha).trans hs

theorem step_of_drain (h : drain s a = some t) : a.drains = true ∧ step s a = some t :=
  Option.ite_none_right_eq_some.1 h

/-- At the test and in the wait there is a number on the stack, if any is left. -/
theorem Sane.threadCount_ne (h : Sane s) (he : Enough s)
    (hm : s.main = .test fd ∨ s.main = .wait fd) : s.threadCount ≠ 0 := by
  have htotal := h.slots.total
  have hphase := h.slots.phase
  unfold Enough State.lost at he
  rcases hm with hm | hm
  all_goals
    rw [hm] at he htotal hphase
    rw [if_neg (fun h => by cases h)] at hphase
    rw [hphase] at htotal
    simp only [MainPc.ids, MainPc.lost, MainPc.wants, List.length_nil] at htotal he
    rcases he with hlt | ⟨-, hno⟩
    · omega
    · cases hno

/-- The steps of `main` other than `accept` make its own effort smaller. -/
theorem effort_main (hpending : t.sockets.pending = s.sockets.pending) (hw : t.workers = s.workers)
    (hm : t.main.effort < s.main.effort) : t.effort < s.effort := by
  rw [State.effort, State.effort, hpending, hw]
  omega

theorem effort_worker (hi : s.workers[i]? = some w) {p : WorkerPc}
    (hpending : t.sockets.pending = s.sockets.pending) (hm : t.main = s.main)
    (hw : t.workers = s.workers.set i { w with pc := p }) (hp : p.effort < w.pc.effort) :
    t.effort < s.effort := by
  -- one term of the sum changes
  have hsum := Lists.sum_map_set (w := fun w : Worker => w.pc.effort) (b := { w with pc := p }) hi
  simp only at hsum
  rw [State.effort, State.effort, hpending, hm, hw]
  omega

/-- A worker that has not returned can go on, if it does not have to wait for the mutex. -/
theorem exists_drain_worker (hi : s.workers[i]? = some w) (hw : w.pc ≠ .done)
    (hx : w.pc = .lock → s.mutex = none) : ∃ a t, drain s a = some t ∧ t.effort < s.effort := by
  have hmove : ∀ p, s.move i w.pc p
      = some { s with workers := s.workers.set i { w with pc := p } } := fun p => by
    simp only [State.move, hi, if_true]
  cases hp : w.pc with
  | serve =>
    rw [hp] at hmove
    refine ⟨.close i, _, drain_eq rfl (by simp only [step, hi, hmove, Option.map_some]; rfl), ?_⟩
    exact effort_worker hi (Sockets.close_pending _) rfl rfl (by rw [hp]; decide)
  | lock =>
    rw [hp] at hmove
    refine ⟨.workerLock i, _,
      drain_eq rfl (by simp only [step, hx hp, hmove, if_true, Option.map_some]; rfl), ?_⟩
    exact effort_worker hi rfl rfl rfl (by rw [hp]; decide)
  | write =>
    rw [hp] at hmove
    refine ⟨.write i, _, drain_eq rfl (by simp only [step, hi, hmove, Option.map_some]; rfl), ?_⟩
    exact effort_worker hi rfl rfl rfl (by rw [hp]; decide)
  | unlock =>
    rw [hp] at hmove
    refine ⟨.workerUnlock i, _, drain_eq rfl (by simp only [step, hmove, Option.map_some]; rfl), ?_⟩
    exact effort_worker hi rfl rfl rfl (by rw [hp]; decide)
  | free =>
    rw [hp] at hmove
    refine ⟨.free i, _, drain_eq rfl (by simp only [step, hmove]; rfl), ?_⟩
    exact effort_worker hi rfl rfl rfl (by rw [hp]; decide)
  | done => exact absurd hp hw

/-- With `main` at `accept` and all workers gone, no connection is open. -/
theorem Sane.closed (h : Sane s) (hm : s.main = .accept) (hw : ∀ w ∈ s.workers, w.pc = .done)
    (fd : ℕ) : s.sockets.conn fd = none := by
  cases hconn : s.sockets.conn fd with
  | none => rfl
  | some c =>
    obtain ⟨o, ho⟩ := Custody.held h.held hconn
    cases o with
    | main =>
      simp only [holds, hm, MainPc.socket] at ho
      cases ho
    | worker i =>
      obtain ⟨w, hi, hsocket⟩ := Option.bind_eq_some_iff.1 ho
      rw [Worker.socket, hw w (List.mem_of_getElem? hi)] at hsocket
      cases hsocket

/-- In its critical section `main` can go on. -/
theorem Sane.exists_drain_main (h : Sane s) (he : Enough s) (hx : s.mutex = some .main) :
    ∃ a t, drain s a = some t ∧ t.effort < s.effort := by
  have hold := h.locks.main.1 hx
  cases hm : s.main with
  | test fd =>
    have hcount := h.threadCount_ne he (.inl hm)
    refine ⟨.test, { s with main := .take fd }, drain_eq rfl ?_, ?_⟩
    · simp only [step, hm, hcount, if_false]
    · exact effort_main rfl rfl (by rw [hm]; exact Nat.lt_succ_self _)
  | take fd =>
    refine ⟨.take, _, drain_eq rfl (by simp only [step, hm]; rfl), ?_⟩
    exact effort_main rfl rfl (by rw [hm]; exact Nat.lt_succ_self _)
  | unlock fd id =>
    refine ⟨.unlock, _, drain_eq rfl (by simp only [step, hm]; rfl), ?_⟩
    exact effort_main rfl rfl (by rw [hm]; exact Nat.lt_succ_self _)
  | put id =>
    obtain ⟨v, c, hc⟩ := Cond.exists_signal s.cond
    refine ⟨.put v, _, drain_eq rfl (by simp only [step, hm, hc, Option.map_some]; rfl), ?_⟩
    exact effort_main rfl rfl (by rw [hm]; exact Nat.lt_succ_self _)
  | unlockReturn =>
    refine ⟨.unlockReturn, _, drain_eq rfl (by simp only [step, hm]; rfl), ?_⟩
    exact effort_main rfl rfl (by rw [hm]; exact Nat.lt_succ_self _)
  | accept | lock fd | wait fd | create fd id | failed fd id | read | lockReturn id =>
    rw [hm] at hold
    cases hold

/-- With the mutex free, `main` can go on, or a worker that it waits for, or any worker, when
nothing is left for `main` to do. -/
theorem Sane.exists_drain_free (h : Sane s) (he : Enough s) (hnot : ¬ Served s)
    (hx : s.mutex = none) : ∃ a t, drain s a = some t ∧ t.effort < s.effort := by
  have hmain : s.main.holding ≠ true := fun hold => by
    rw [h.locks.main.2 hold] at hx
    cases hx
  cases hm : s.main with
  | accept =>
    cases hp : s.sockets.pending with
    | cons c rest =>
      obtain ⟨fd, S, hS, -⟩ := Sockets.exists_accept hp
      obtain ⟨d, hd, -⟩ := Sockets.accept_cases hS
      refine ⟨.accept fd, { s with sockets := S, main := .lock fd },
        drain_eq rfl (by simp only [step, hm, hS, Option.map_some]), ?_⟩
      rw [State.effort, State.effort, hd, hm, List.length_cons]
      simp only [MainPc.effort]
      omega
    | nil =>
      by_cases hw : ∀ w ∈ s.workers, w.pc = .done
      · exact absurd ⟨hm, hp, hw, h.closed hm hw⟩ hnot
      · push Not at hw
        obtain ⟨w, hmem, hne⟩ := hw
        obtain ⟨i, hi⟩ := List.mem_iff_getElem?.1 hmem
        exact exists_drain_worker hi hne fun _ => hx
  | lock fd =>
    refine ⟨.lock, _, drain_eq rfl (by simp only [step, hm, hx, if_true]; rfl), ?_⟩
    exact effort_main rfl rfl (by rw [hm]; exact Nat.lt_succ_self _)
  | wait fd => exact absurd (h.slots.waiting fd hm) (h.threadCount_ne he (.inr hm))
  | create fd id =>
    refine ⟨.create, _, drain_eq rfl (by simp only [step, hm]; rfl), ?_⟩
    simp only [State.effort, hm, MainPc.effort, List.map_append, List.map_singleton,
      List.sum_append, List.sum_singleton, WorkerPc.effort]
    omega
  | failed fd id =>
    refine ⟨.abandon, _, drain_eq rfl (by simp only [step, hm]; rfl), ?_⟩
    exact effort_main (Sockets.close_pending _) rfl (by rw [hm]; exact Nat.lt_succ_self _)
  | read =>
    cases hpipe : s.pipe with
    | cons id rest =>
      refine ⟨.read, _, drain_eq rfl (by simp only [step, hm, hpipe]; rfl), ?_⟩
      exact effort_main rfl rfl (by rw [hm]; exact Nat.lt_succ_self _)
    | nil =>
      -- the worker has not written its number yet
      have hphase := h.slots.phase
      rw [hm, if_pos rfl, hpipe, List.append_nil] at hphase
      obtain ⟨id, hid⟩ := List.exists_mem_of_length_pos (by rw [hphase]; exact Nat.one_pos)
      obtain ⟨w, hmem, hw⟩ := List.mem_filterMap.1 hid
      obtain ⟨i, hi⟩ := List.mem_iff_getElem?.1 hmem
      refine exists_drain_worker hi (fun hp => ?_) fun _ => hx
      rw [Worker.unwritten, hp] at hw
      cases hw
  | lockReturn id =>
    refine ⟨.lockReturn, _, drain_eq rfl (by simp only [step, hm, hx, if_true]; rfl), ?_⟩
    exact effort_main rfl rfl (by rw [hm]; exact Nat.lt_succ_self _)
  | test fd | take fd | unlock fd id | put id | unlockReturn =>
    rw [hm] at hmain
    exact absurd rfl hmain

/-- **Some step is possible until there is nothing left to do.** -/
theorem Sane.exists_drain (h : Sane s) (he : Enough s) (hnot : ¬ Served s) :
    ∃ a t, drain s a = some t ∧ t.effort < s.effort := by
  cases hx : s.mutex with
  | none => exact h.exists_drain_free he hnot hx
  | some o =>
    cases o with
    | main => exact h.exists_drain_main he hx
    | worker i =>
      -- the worker in its critical section
      obtain ⟨w, hi, hold⟩ := h.known i hx
      refine exists_drain_worker hi (fun hp => ?_) fun hp => ?_
      · rw [hp] at hold
        cases hold
      · rw [hp] at hold
        cases hold

theorem Sane.drain (h : Sane s) (hs : drain s a = some t) : Sane t :=
  sane_step s a t h (step_of_drain hs).2

theorem lost_drain (hs : drain s a = some t) : t.lost = s.lost := by
  obtain ⟨ha, hs⟩ := step_of_drain hs
  have hne : a ≠ .createFailed := fun h => by
    rw [h] at ha
    cases ha
  rw [lost_step hs, List.countP_singleton, if_neg (by simpa using hne), Nat.add_zero]

/-- Nothing is created without a slot number. -/
theorem Sane.lost_lt (h : Sane s) {id : ℤ} (hm : s.main = .create fd id) : s.lost < maxThreads := by
  have htotal := h.slots.total
  have hnonneg := h.slots.nonneg
  rw [hm] at htotal
  simp only [MainPc.ids, List.length_singleton] at htotal
  rw [State.lost, hm, MainPc.lost]
  omega

/-- **The step lemma**: whether there is enough does not change. -/
theorem Sane.enough_iff (h : Sane s) (hs : PoolServer.drain s a = some t) :
    Enough t ↔ Enough s := by
  have hlost := lost_drain hs
  obtain ⟨ha, hs⟩ := step_of_drain hs
  unfold Enough
  rw [hlost]
  cases step_cases hs with
  | connect | acceptFailed | createFailed | wake | echo => cases ha
  | accept hm hS =>
    -- a pending connection becomes one in the hands of `main`
    obtain ⟨d, hd, -⟩ := Sockets.accept_cases hS
    rw [hd, hm]
    simp [MainPc.wants]
  | create hm => exact iff_of_true (.inl (h.lost_lt hm)) (.inl (h.lost_lt hm))
  | abandon hm =>
    rw [hm]
    exact or_congr_right (and_congr_left' (by rw [Sockets.close_pending]))
  | close => exact or_congr_right (and_congr_left' (by rw [Sockets.close_pending]))
  | lock hm | wait hm | enter hm | relock hm | take hm | unlock hm | read hm | lockReturn hm
  | put hm | unlockReturn hm =>
    rw [hm]
    exact Iff.rfl
  | workerLock | write | workerUnlock | free => exact Iff.rfl

/-- The run lemma. -/
theorem Sane.enough_of_reachable (h : Sane s) (hr : Reachable PoolServer.drain s t) :
    Enough t ↔ Enough s :=
  (hr.invariant (I := fun u => Sane u ∧ (Enough u ↔ Enough s))
    (fun _ _ _ hI hs => ⟨hI.1.drain hs, (hI.1.enough_iff hs).trans hI.2⟩) ⟨h, Iff.rfl⟩).2

theorem Served.enough (h : Served s) : Enough s := .inr ⟨h.pending, by rw [h.main]; rfl⟩

end Progress

theorem leads_served : Leads drain (fun s => Sane s ∧ Enough s) Served := by
  apply Leads.of_measure State.effort
  intro s hs hnot
  -- one step is a round
  obtain ⟨a, t, hstep, hlt⟩ := hs.1.exists_drain hs.2 hnot
  exact ⟨t, (Reachable.refl s).tail hstep, ⟨hs.1.drain hstep, (hs.1.enough_iff hstep).2 hs.2⟩, hlt⟩

/-- What ends the server happens to a worker that is serving, or to `main` before it starts one. -/
theorem Served.not_fatal {s : State} (h : Served s) (e : Thr × Cause) : fatal s e = false := by
  obtain ⟨_ | i, cause⟩ := e
  · cases cause with
    | sigpipe => rfl
    | undefined => rw [fatal, h.main]
  · rw [fatal, Option.any_eq_false]
    intro w hw
    rw [h.workers w (List.mem_of_getElem? hw)]
    rfl

theorem Sane.serves_iff {s : State} (hsane : Sane s) :
    (∃ t, Reachable PoolServer.drain s t ∧ Served t) ↔ Enough s := by
  constructor
  · rintro ⟨t, hr, ht⟩
    exact (hsane.enough_of_reachable hr).1 ht.enough
  · intro he
    obtain ⟨t, hr, -, ht⟩ := leads_served s ⟨hsane, he⟩
    exact ⟨t, hr, ht⟩

/-- **When everybody can be served.**  After every run, the threads can go on by steps of their own
to a state in which each connection has been accepted, served and closed exactly if the server has
not ended, and fewer than `MAX_THREADS` calls of `pthread_create` have failed or nobody waits for a
worker. -/
theorem pool_serves_iff {es : List (Event Action (Thr × Cause))} {p : Process State (Thr × Cause)}
    (h : run process (.init start) es = some p) :
    (∃ q, Reachable (alive drain) p q ∧ Served q.state) ↔
      p.ended = none ∧ (es.count (.act .createFailed) < maxThreads ∨
        p.state.sockets.pending = [] ∧ p.state.main.wants = false) := by
  obtain ⟨hrun, hfatal⟩ := run_spec h
  have hnot : ∀ e, p.ended = some e → ¬ Served p.state := fun e he hserved =>
    Bool.false_ne_true ((hserved.not_fatal e).symm.trans (hfatal e he))
  rw [reaches_iff hnot, (sane_of_run hrun).serves_iff, Enough, lost_of_run hrun, count_action]

/-- A client connects after `n` failures of `pthread_create`. -/
def connectAfter (n : ℕ) : List Action := (List.replicate n (failOne 5)).flatten ++ [.connect]

/-- A worker has begun to serve. -/
def oneServing : List Action := [.connect, .accept 5, .lock, .test, .take, .unlock, .create]

/-- The next connection can be served after one failure of `pthread_create`, not after five, and not
if the `printf` of a worker has run out of its array. -/
theorem pool_serves_iff_failures :
    (∃ p, run process (.init start) ((connectAfter 1).map .act) = some p ∧
      ∃ q, Reachable (alive drain) p q ∧ Served q.state) ∧
    (∃ p, run process (.init start) ((connectAfter 5).map .act) = some p ∧
      ¬ ∃ q, Reachable (alive drain) p q ∧ Served q.state) ∧
    ∃ p, run process (.init start)
        (oneServing.map .act ++ [.ends (.worker 0, .undefined)]) = some p ∧
      ¬ ∃ q, Reachable (alive drain) p q ∧ Served q.state := by
  refine ⟨?_, ?_, ?_⟩
  · obtain ⟨p, hp, hended⟩ := Option.map_eq_some_iff.1
      (show (run process (.init start) ((connectAfter 1).map .act)).map (fun p => p.ended)
        = some none by decide)
    exact ⟨p, hp, (pool_serves_iff hp).2 ⟨hended, .inl (by decide)⟩⟩
  · obtain ⟨p, hp, hpending⟩ := Option.map_eq_some_iff.1
      (show (run process (.init start) ((connectAfter 5).map .act)).map
        (fun p => p.state.sockets.pending) = some [5] by decide)
    refine ⟨p, hp, fun hserved => ?_⟩
    rcases ((pool_serves_iff hp).1 hserved).2 with hlt | ⟨hnil, -⟩
    · exact absurd hlt (by decide)
    · rw [hpending] at hnil
      cases hnil
  · obtain ⟨p, hp, hended⟩ := Option.map_eq_some_iff.1
      (show (run process (.init start)
          (oneServing.map .act ++ [.ends (.worker 0, .undefined)])).map (fun p => p.ended)
        = some (some (.worker 0, .undefined)) by decide)
    refine ⟨p, hp, fun hserved => ?_⟩
    rw [((pool_serves_iff hp).1 hserved).1] at hended
    cases hended

end PoolServer
end PosixHw
