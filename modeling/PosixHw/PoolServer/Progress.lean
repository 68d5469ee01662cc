import PosixHw.PoolServer.Slots

/-!
# The thread-pool server: when does main hand a pending connection on?

After each `pthread_create` the loop of `main` reads a number from the pipe, so it goes back to
`accept` only after the worker has finished: with one slow client every other connection waits,
however many slots are free.

* `Action.own`: the steps of `main` whose system calls succeed, and the returns of its wait;
* `Free s c`: the connection `c` is the oldest one pending and `main` is on its way to `accept`,
  not held up by the mutex or the pipe, with a number on the stack once it gets there;
* `handed_iff_free`: `main` alone can hand `c` to a new worker exactly if `Free s c`.
-/

namespace PosixHw
namespace PoolServer

open Run

/-! ### The mutex -/

/-- `main` is between a lock and its unlock. -/
def MainPc.holding : MainPc → Bool
  | .test _ | .take _ | .unlock _ _ | .put _ | .unlockReturn => true
  | _ => false

/-- A worker is between its lock and its unlock. -/
def WorkerPc.holding : WorkerPc → Bool
  | .write | .unlock => true
  | _ => false

/-- Whoever is in a critical section holds the mutex. -/
structure Locks (s : State) : Prop where
  main : s.mutex = some .main ↔ s.main.holding = true
  worker : ∀ i w, s.workers[i]? = some w → w.pc.holding = true → s.mutex = some (.worker i)

theorem locks_start : Locks start where
  main := by decide
  worker i w h := by cases h

section Locks

variable {s : State} {i : ℕ} {w : Worker} {p : WorkerPc} {m : MainPc}

/-- A step of `main` that takes no mutex and gives none up. -/
theorem Locks.goto {s' : State} (h : Locks s) (hx : s'.mutex = s.mutex)
    (hw : s'.workers = s.workers) (hm : s'.main.holding = s.main.holding) : Locks s' where
  main := by rw [hx, hm]; exact h.main
  worker := by rw [hx, hw]; exact h.worker

/-- `main` takes the mutex. -/
theorem Locks.lock {s' : State} (h : Locks s) (hx : s.mutex = none)
    (hx' : s'.mutex = some .main) (hw : s'.workers = s.workers) (hm : s'.main.holding = true) :
    Locks s' where
  main := by rw [hx', hm]; simp
  worker i w hi hp := by
    rw [hw] at hi
    have := h.worker i w hi hp
    rw [hx] at this; cases this

/-- `main` gives the mutex up. -/
theorem Locks.unlock {s' : State} (h : Locks s) (hm : s.main.holding = true)
    (hx' : s'.mutex = none) (hw : s'.workers = s.workers) (hm' : s'.main.holding = false) :
    Locks s' where
  main := by rw [hx', hm']; simp
  worker i w hi hp := by
    rw [hw] at hi
    have := h.worker i w hi hp
    rw [h.main.2 hm] at this; cases this

/-- The worker `i` goes on; the others keep the mutex if they had it. -/
theorem Locks.move {s' : State} (h : Locks s) (hi : s.workers[i]? = some w)
    (hw : s'.workers = s.workers.set i { w with pc := p })
    (hm : s'.mutex = some .main ↔ s'.main.holding = true)
    (hself : p.holding = true → s'.mutex = some (.worker i))
    (hother : ∀ j, j ≠ i → s.mutex = some (.worker j) → s'.mutex = some (.worker j)) :
    Locks s' where
  main := hm
  worker j w' hj hp := by
    rw [hw] at hj
    by_cases e : j = i
    · subst e
      obtain ⟨hlt, -⟩ := List.getElem?_eq_some_iff.1 hi
      rw [List.getElem?_set_self hlt, Option.some.injEq] at hj
      subst hj
      exact hself hp
    · rw [List.getElem?_set_ne (Ne.symm e)] at hj
      exact hother j e (h.worker j w' hj hp)

end Locks

theorem locks_step (s : State) (a : Action) (s' : State) (h : Locks s) (hs : step s a = some s') :
    Locks s' := by
  cases step_cases hs with
  | connect => exact ⟨h.main, h.worker⟩
  | acceptFailed => exact h
  | echo hi hw => exact h
  | wake hw => exact ⟨h.main, h.worker⟩
  | lock hm hx => exact h.lock hx rfl rfl rfl
  | relock hm hw hx => exact h.lock hx rfl rfl rfl
  | lockReturn hm hx => exact h.lock hx rfl rfl rfl
  | wait hm hc => exact h.unlock (by rw [hm]; rfl) rfl rfl rfl
  | unlock hm => exact h.unlock (by rw [hm]; rfl) rfl rfl rfl
  | unlockReturn hm => exact h.unlock (by rw [hm]; rfl) rfl rfl rfl
  | accept hm hS => exact h.goto rfl rfl (by rw [hm]; rfl)
  | enter hm hc => exact h.goto rfl rfl (by rw [hm]; rfl)
  | take hm => exact h.goto rfl rfl (by rw [hm]; rfl)
  | createFailed hm => exact h.goto rfl rfl (by rw [hm]; rfl)
  | abandon hm => exact h.goto rfl rfl (by rw [hm]; rfl)
  | read hm hp => exact h.goto rfl rfl (by rw [hm]; rfl)
  | put hm hc => exact h.goto rfl rfl (by rw [hm]; rfl)
  | @create fd id hm =>
    refine ⟨by rw [h.main, hm]; exact Iff.rfl, fun i w hi hp => ?_⟩
    by_cases hlt : i < s.workers.length
    · exact h.worker i w (by rwa [List.getElem?_append_left hlt] at hi) hp
    · -- the new worker is still outside its critical section
      rw [List.getElem?_append_right (by omega)] at hi
      have hw := List.mem_of_getElem? hi
      rw [List.mem_singleton] at hw
      subst hw
      cases hp
  | close hi hw =>
    exact h.move (p := .lock) hi rfl h.main (fun hp => by cases hp) (fun _ _ hx => hx)
  | free hi hw =>
    exact h.move (p := .done) hi rfl h.main (fun hp => by cases hp) (fun _ _ hx => hx)
  | write hi hw =>
    have hx := h.worker _ _ hi (by rw [hw]; rfl)
    exact h.move (p := .unlock) hi rfl h.main (fun _ => hx) (fun _ _ hx => hx)
  | workerLock hi hw hx =>
    refine h.move (p := .write) hi rfl ?_ (fun _ => rfl) fun j _ hj => ?_
    · have hm := h.main
      rw [hx] at hm
      simpa using hm
    · rw [hx] at hj; cases hj
  | @workerUnlock i w hi hw =>
    have hx := h.worker i w hi (by rw [hw]; rfl)
    refine h.move (p := .free) hi rfl ?_ (fun hp => by cases hp) fun j e hj => ?_
    · have hm := h.main
      rw [hx] at hm
      simpa using hm
    · rw [hx, Option.some.injEq, Thr.worker.injEq] at hj
      exact absurd hj.symm e

theorem locks_of_run {as : List Action} {s : State} (h : run step start as = some s) : Locks s :=
  run_invariant locks_step locks_start h

/-! ### What main can do alone -/

/-- A step of `main` in which no system call fails. -/
def Action.own : Action → Bool
  | .accept _ | .lock | .test | .wake | .relock | .take | .unlock | .create | .abandon | .read
  | .lockReturn | .put _ | .unlockReturn => true
  | _ => false

/-- The connection `c` is with a worker that was created after the first `n`. -/
def Handed (n c : ℕ) (s : State) : Prop :=
  ∃ i w, n ≤ i ∧ s.workers[i]? = some w ∧ w.pc = .serve ∧
    s.sockets.conn w.clientSocket = some c

/-- Steps of `main` alone hand `c` to such a worker. -/
def HandsOver (n c : ℕ) (s : State) : Prop :=
  ∃ as s', (∀ a ∈ as, a.own = true) ∧ run step s as = some s' ∧ Handed n c s'

/-- `main` gets to `accept` without waiting for a worker to finish, and then finds a number. -/
def State.clear (s : State) : Prop :=
  match s.main with
  | .accept | .failed _ _ | .unlockReturn => 0 < s.threadCount
  | .read => s.pipe ≠ []
  | .lockReturn _ | .put _ => True
  | _ => False

/-- The connection `c` is the oldest one pending, no worker is in its critical section, and `main`
is on its way to `accept`. -/
def Free (s : State) (c : ℕ) : Prop :=
  s.sockets.pending.head? = some c ∧ (∀ i, s.mutex ≠ some (.worker i)) ∧ s.clear

/-! ### A connection that can be handed on -/

section Free

variable {s t : State} {a : Action} {n c : ℕ} {rest : List ℕ} {id : ℤ}

theorem HandsOver.prepend (ha : a.own = true) (hs : step s a = some t) (h : HandsOver n c t) :
    HandsOver n c s := by
  obtain ⟨as, s', has, hrun, hh⟩ := h
  refine ⟨a :: as, s', fun b hb => ?_, run_cons_eq_some.2 ⟨t, hs, hrun⟩, hh⟩
  rcases List.mem_cons.1 hb with rfl | hb
  · exact ha
  · exact has b hb

/-- From `accept`, with a number on the stack, `main` comes to `pthread_create`. -/
theorem handsOver_accept (hm : s.main = .accept) (hx : s.mutex = none) (hpos : 0 < s.threadCount)
    (hp : s.sockets.pending = c :: rest) : HandsOver s.workers.length c s := by
  obtain ⟨fd, S, hS, hfd⟩ := Sockets.exists_accept hp
  refine .prepend (a := .accept fd) (t := { s with sockets := S, main := .lock fd }) rfl
    (by simp only [step, hm, hS, Option.map_some]) ?_
  refine .prepend (a := .lock)
    (t := { s with sockets := S, mutex := some .main, main := .test fd }) rfl
    (by simp only [step, hx, if_true]) ?_
  refine .prepend (a := .test)
    (t := { s with sockets := S, mutex := some .main, main := .take fd }) rfl
    (by simp only [step, hpos.ne', if_false]) ?_
  refine .prepend (a := .take) rfl rfl ?_
  refine .prepend (a := .unlock) rfl rfl ?_
  refine .prepend (a := .create) rfl rfl ?_
  exact ⟨[], _, by simp, rfl, s.workers.length,
    ⟨fd, s.availableThreads (s.threadCount - 1), .serve⟩, le_rfl, List.getElem?_concat_length,
    rfl, hfd⟩

theorem handsOver_unlockReturn (hm : s.main = .unlockReturn) (hpos : 0 < s.threadCount)
    (hp : s.sockets.pending = c :: rest) : HandsOver s.workers.length c s := by
  refine .prepend (a := .unlockReturn) (t := { s with mutex := none, main := .accept }) rfl
    (by simp only [step, hm]) ?_
  exact handsOver_accept rfl rfl hpos hp

theorem handsOver_put (h : Slots s) (hm : s.main = .put id)
    (hp : s.sockets.pending = c :: rest) : HandsOver s.workers.length c s := by
  -- nobody sleeps: only `main` ever does
  have hsl : s.cond.sleeping = ∅ := by
    rw [Finset.eq_empty_iff_forall_notMem]
    intro t ht
    obtain rfl := h.onlyMain t ht
    obtain ⟨fd, hfd⟩ := h.asleep.1 (Finset.mem_union_left _ ht)
    rw [hm] at hfd; cases hfd
  have hpos := h.nonneg
  refine .prepend (a := .put none) (t := { s with
      availableThreads := Function.update s.availableThreads s.threadCount id
      threadCount := s.threadCount + 1
      main := .unlockReturn }) rfl
    (by simp only [step, hm, Cond.signal, hsl, if_true, Option.map_some]) ?_
  exact handsOver_unlockReturn rfl (show 0 < s.threadCount + 1 by omega) hp

theorem handsOver_lockReturn (h : Slots s) (hm : s.main = .lockReturn id) (hx : s.mutex = none)
    (hp : s.sockets.pending = c :: rest) : HandsOver s.workers.length c s := by
  have hs : step s .lockReturn = some { s with mutex := some .main, main := .put id } := by
    simp only [step, hm, hx, if_true]
  exact .prepend rfl hs (handsOver_put (slots_step s _ _ h hs) rfl hp)

theorem handsOver_of_free (h : Slots s) (hl : Locks s) (hf : Free s c) :
    HandsOver s.workers.length c s := by
  obtain ⟨hc, hw, hclear⟩ := hf
  obtain ⟨rest, hp⟩ := List.head?_eq_some_iff.1 hc
  have hx : s.main.holding = false → s.mutex = none := by
    intro hm
    cases hx : s.mutex with
    | none => rfl
    | some t =>
      cases t with
      | main => rw [hl.main.1 hx] at hm; cases hm
      | worker i => exact absurd hx (hw i)
  unfold State.clear at hclear
  split at hclear
  · exact handsOver_accept ‹_› (hx (by rw [‹s.main = _›]; rfl)) hclear hp
  · rename_i fd id hm
    refine .prepend (a := .abandon) rfl (by simp only [step, hm]; rfl) ?_
    exact handsOver_accept rfl (hx (by rw [hm]; rfl)) hclear
      ((Sockets.close_pending fd).trans hp)
  · exact handsOver_unlockReturn ‹_› hclear hp
  · rename_i hm
    obtain ⟨id, ids, hpipe⟩ := List.exists_cons_of_ne_nil hclear
    have hs : step s .read = some { s with pipe := ids, main := .lockReturn id } := by
      simp only [step, hm, hpipe]
    exact .prepend rfl hs (handsOver_lockReturn (slots_step s _ _ h hs) rfl
      (hx (by rw [hm]; rfl)) hp)
  · exact handsOver_lockReturn h ‹_› (hx (by rw [‹s.main = _›]; rfl)) hp
  · exact handsOver_put h ‹_› hp
  · exact hclear.elim

end Free

/-! ### A connection that is stuck -/

/-- `main` has a connection of its own to serve first, or waits for the worker that does. -/
def MainPc.busy : MainPc → Bool
  | .lock _ | .test _ | .wait _ | .take _ | .unlock _ _ | .create _ _ | .read => true
  | _ => false

/-- `main` comes to `accept` before it comes to `pthread_create`. -/
def MainPc.returning : MainPc → Bool
  | .accept | .failed _ _ | .read | .lockReturn _ | .put _ | .unlockReturn => true
  | _ => false

theorem MainPc.busy_of_not_returning {m : MainPc} (h : ¬ m.returning = true) :
    m.busy = true ∧ m ≠ .read := by
  cases m with
  | lock | test | wait | take | unlock | create => exact ⟨rfl, nofun⟩
  | _ => exact absurd rfl h

/-- `main` needs the mutex before it comes to `pthread_create`. -/
def MainPc.outside : MainPc → Bool
  | .accept | .failed _ _ | .lock _ | .wait _ | .read | .lockReturn _ => true
  | _ => false

/-- `main` tests `thread_count` before it changes it. -/
def MainPc.testing : MainPc → Bool
  | .accept | .failed _ _ | .lock _ | .test _ | .wait _ | .unlockReturn => true
  | _ => false

/-- The four ways in which `main` cannot hand `c` on by itself: it will wait for the worker of
another connection, before or after it has accepted that one; it cannot get the mutex; the stack
is empty. -/
inductive Stuck (n c : ℕ) (s : State) : Prop
  | busy (hc : c ∈ s.sockets.pending) (hp : s.pipe = []) (hm : s.main.busy = true)
  | behind (hc : c ∈ s.sockets.pending) (hh : s.sockets.pending.head? ≠ some c)
      (hp : s.pipe.length ≤ if s.main = .read then 1 else 0) (hm : s.main.returning = true)
  | held {i : ℕ} (hn : s.workers.length ≤ n) (hx : s.mutex = some (.worker i))
      (hm : s.main.outside = true)
  | drained (hn : s.workers.length ≤ n) (ht : s.threadCount = 0) (hm : s.main.testing = true)

section Stuck

variable {s t : State} {a : Action} {n c : ℕ}

theorem Stuck.step (h : Stuck n c s) (ha : a.own = true) (hs : step s a = some t) :
    Stuck n c t := by
  cases h with
  | busy hc hp hm =>
    cases step_cases hs with
    | read hm' hp' => rw [hp] at hp'; cases hp'
    | wake hw => exact .busy hc hp hm
    | _ =>
      -- no step of `main`, a step from elsewhere, or one that keeps it busy
      first
      | exact absurd ha Bool.false_ne_true
      | (rw [‹s.main = _›] at hm; exact absurd hm Bool.false_ne_true)
      | exact .busy hc hp rfl
  | behind hc hh hp hm =>
    cases step_cases hs with
    | accept hm' hS =>
      obtain ⟨d, hd, -, -, -⟩ := Sockets.accept_cases hS
      rw [hm', if_neg nofun] at hp
      rw [hd, List.head?_cons, ne_eq, Option.some.injEq] at hh
      rw [hd] at hc
      refine .busy ((List.mem_cons.1 hc).resolve_left (Ne.symm hh)) ?_ rfl
      exact List.eq_nil_of_length_eq_zero (Nat.le_zero.1 hp)
    | abandon hm' =>
      rw [hm', if_neg nofun] at hp
      exact .behind (by rwa [Sockets.close_pending]) (by rwa [Sockets.close_pending]) hp rfl
    | read hm' hp' =>
      rw [hm', if_pos rfl, hp', List.length_cons] at hp
      exact .behind hc hh (by simpa using hp) rfl
    | lockReturn hm' hx => rw [hm', if_neg nofun] at hp; exact .behind hc hh hp rfl
    | put hm' hc' => rw [hm', if_neg nofun] at hp; exact .behind hc hh hp rfl
    | unlockReturn hm' => rw [hm', if_neg nofun] at hp; exact .behind hc hh hp rfl
    | wake hw => exact .behind hc hh hp hm
    | _ =>
      first
      | exact absurd ha Bool.false_ne_true
      | (rw [‹s.main = _›] at hm; exact absurd hm Bool.false_ne_true)
  | held hn hx hm =>
    cases step_cases hs with
    | wake hw => exact .held hn hx hm
    | _ =>
      -- no step of `main`, a step that takes the mutex, one from elsewhere, or one up to the lock
      first
      | exact absurd ha Bool.false_ne_true
      | (rw [‹s.mutex = none›] at hx; cases hx)
      | (rw [‹s.main = _›] at hm; exact absurd hm Bool.false_ne_true)
      | exact .held hn hx rfl
  | drained hn ht hm =>
    cases step_cases hs with
    | enter hm' hc => exact absurd ht hc
    | wake hw => exact .drained hn ht hm
    | _ =>
      first
      | exact absurd ha Bool.false_ne_true
      | (rw [‹s.main = _›] at hm; exact absurd hm Bool.false_ne_true)
      | exact .drained hn ht rfl

/-- A connection that is pending, or that no new worker can have, has not been handed on. -/
theorem Stuck.not_handed (h : Stuck n c s) : ¬ Handed n c s := by
  rintro ⟨i, w, hi, hw, -, hconn⟩
  have hlt := (List.getElem?_eq_some_iff.1 hw).1
  cases h with
  | busy hc hp hm => exact s.sockets.conn_pending hconn hc
  | behind hc hh hp hm => exact s.sockets.conn_pending hconn hc
  | held hn hx hm => omega
  | drained hn ht hm => omega

theorem Stuck.not_handsOver (h : Stuck n c s) : ¬ HandsOver n c s := by
  rintro ⟨as, s', has, hrun, hh⟩
  have hstuck : Stuck n c s' :=
    run_invariant_along (fun _ a _ hs ha ht => hs.step (a := a) ha ht) h (Along.of_forall has) hrun
  exact hstuck.not_handed hh

theorem stuck_of_not_free (h : Slots s) (hl : Locks s) (hc : c ∈ s.sockets.pending)
    (hf : ¬ Free s c) : Stuck s.workers.length c s := by
  have hpipe : s.pipe.length ≤ if s.main = .read then 1 else 0 := by
    rw [← h.phase, List.length_append]
    omega
  have hempty : s.main ≠ .read → s.pipe = [] := fun hm => by
    rw [if_neg hm] at hpipe
    exact List.eq_nil_of_length_eq_zero (Nat.le_zero.1 hpipe)
  by_cases hbusy : s.main.busy = true ∧ s.pipe = []
  · exact .busy hc hbusy.2 hbusy.1
  have hret : s.main.returning = true := by
    by_contra hr
    obtain ⟨hb, hread⟩ := MainPc.busy_of_not_returning hr
    exact hbusy ⟨hb, hempty hread⟩
  by_cases hh : s.sockets.pending.head? = some c
  swap
  · exact .behind hc hh hpipe hret
  by_cases hw : ∀ i, s.mutex ≠ some (.worker i)
  · -- the stack must be empty
    have hclear : ¬ s.clear := fun hcl => hf ⟨hh, hw, hcl⟩
    have hn := h.nonneg
    unfold State.clear at hclear
    cases hm : s.main <;> rw [hm] at hclear hret hbusy <;> first
      | exact absurd hret Bool.false_ne_true
      | exact absurd trivial hclear
      | exact .drained le_rfl (by omega) (by rw [hm]; rfl)
      | exact absurd ⟨rfl, not_not.1 hclear⟩ hbusy
  · obtain ⟨i, hi⟩ := not_forall_not.1 hw
    refine .held le_rfl hi ?_
    have hnot : s.main.holding ≠ true := fun hm => by
      rw [hl.main.2 hm] at hi; cases hi
    cases hm : s.main <;> rw [hm] at hret hnot <;> first
      | rfl | exact absurd hret Bool.false_ne_true | exact absurd rfl hnot

end Stuck

/-- **When a slow client does not hold up the others.**  In every reachable state, a pending
connection can be handed to a new worker by steps of `main` alone exactly if it is the oldest one,
no worker is in its critical section and `main` is on its way to `accept`. -/
theorem handed_iff_free {as : List Action} {s : State} (h : run step start as = some s) {c : ℕ}
    (hc : c ∈ s.sockets.pending) : HandsOver s.workers.length c s ↔ Free s c := by
  refine ⟨fun hh => ?_, handsOver_of_free (slots_of_run h) (locks_of_run h)⟩
  by_contra hf
  exact (stuck_of_not_free (slots_of_run h) (locks_of_run h) hc hf).not_handsOver hh

theorem handed_iff_free_first : ∃ s, run step start [.connect] = some s ∧ HandsOver 0 0 s :=
  have h : run step start [.connect] = some { start with sockets := start.sockets.connect } := rfl
  ⟨_, h, (handed_iff_free h (List.mem_singleton_self 0)).2
    ⟨rfl, fun _ => nofun, show 0 < start.threadCount by decide⟩⟩

/-- The first client sends nothing; the second one connects and waits, with four numbers on the
stack. -/
theorem second_client_blocked :
    ∃ s, run step start [.connect, .accept 5, .lock, .test, .take, .unlock, .create, .connect]
        = some s ∧ s.unfinished.length < maxThreads ∧ s.threadCount = 4 ∧
      1 ∈ s.sockets.pending ∧ ¬ HandsOver s.workers.length 1 s := by
  obtain ⟨s, hs, hf⟩ := Option.map_eq_some_iff.1
    (show (run step start
        [.connect, .accept 5, .lock, .test, .take, .unlock, .create, .connect]).map
        (fun s => (s.unfinished, s.threadCount, s.sockets.pending, s.pipe, s.main))
          = some ([4], 4, [1], [], .read) by decide)
  simp only [Prod.mk.injEq] at hf
  obtain ⟨hu, ht, hp, hpipe, hm⟩ := hf
  have hc : 1 ∈ s.sockets.pending := by rw [hp]; exact List.mem_singleton_self 1
  exact ⟨s, hs, by rw [hu]; decide, ht, hc,
    (Stuck.busy hc hpipe (by rw [hm]; rfl)).not_handsOver⟩

end PoolServer
end PosixHw
