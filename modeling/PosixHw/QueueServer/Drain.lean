import PosixHw.Base.Leads
import PosixHw.QueueServer.Fifo
import PosixHw.QueueServer.Wakeup

/-!
# The queue server can serve everybody until it ends

Whatever has happened, the threads can go on, without new connections, until every connection that
`main` has accepted has been taken from the queue, served and closed, as long as no `send` and no
`printf` has been the end of the server (`queue_drains`).

* Each step other than a call of `remove_from_queue` lessens what is left to do, `State.effort`; a
  thread that is woken has more to do, but less than the thread that wakes it has done.  So the
  threads come to rest: each is outside of the operations or asleep.
* If there is a socket in the queue then, no worker is asleep, as `Counted` says, and one of them
  takes it.
-/

namespace PosixHw
namespace QueueServer

open Run Ending Finset

variable {T : Type*}

/-- The steps of the threads on what has been accepted; nobody is woken without a signal. -/
def Action.drains : Action T → Bool
  | .callRemove _ | .lock _ | .test _ | .relock _ | .body _ _ | .unlock _ | .close _ => true
  | .connect | .accept _ _ | .acceptFailed _ | .wake _ | .echo _ => false

/-! ### What is left to do -/

/-- A socket that is yet to be stored will have to be taken. -/
def Call.effort : Call → ℕ
  | .add _ => 5
  | .remove => 0

def Pc.effort : Pc → ℕ
  | .idle => 0
  | .serve _ => 1
  | .unlock _ => 2
  | .wait c | .body c => 5 + c.effort
  | .test c => 6 + c.effort
  | .lock c => 7 + c.effort

/-- The threads that have been woken and are still in their waits. -/
def woken (cond : CondVar → Cond T) : ℕ :=
  (cond .notEmpty).woken.card + (cond .notFull).woken.card

def State.effort [Fintype T] (s : State T) : ℕ :=
  5 * s.q.count + ∑ t, (s.pc t).effort + 2 * woken s.q.cond

theorem woken_update (cond : CondVar → Cond T) (v : CondVar) (d : Cond T) :
    woken (Function.update cond v d) + (cond v).woken.card = woken cond + d.woken.card := by
  cases v with
  | notEmpty => simp [woken]; omega
  | notFull => simp [woken]; omega

variable [DecidableEq T]

section Effort

variable [Fintype T] {s u : State T} {t : T} {p r : Pc}

theorem sum_goto (hpc : s.pc t = p) :
    ∑ v, ((s.goto t r).pc v).effort + p.effort = ∑ v, (s.pc v).effort + r.effort := by
  subst hpc
  have hupdate : (fun v => ((s.goto t r).pc v).effort)
      = Function.update (fun v => (s.pc v).effort) t r.effort := by
    funext v
    exact Function.apply_update (fun _ => Pc.effort) s.pc t r v
  rw [hupdate, sum_update_of_mem (mem_univ t),
    sum_eq_add_sum_sdiff_singleton_of_mem (mem_univ t) fun v => (s.pc v).effort]
  omega

/-- What a move of one thread, from `p` to `r`, does to the effort. -/
theorem effort_move (hpc : s.pc t = p) (hpc' : u.pc = (s.goto t r).pc) :
    u.effort + p.effort + 5 * s.q.count + 2 * woken s.q.cond
      = s.effort + r.effort + 5 * u.q.count + 2 * woken u.q.cond := by
  have hsum := sum_goto (r := r) hpc
  rw [State.effort, State.effort, hpc']
  omega

/-- A move that neither changes the queue nor wakes anybody. -/
theorem effort_lt (hpc : s.pc t = p) (hpc' : u.pc = (s.goto t r).pc)
    (hcount : u.q.count = s.q.count) (hwoken : woken u.q.cond ≤ woken s.q.cond)
    (hp : r.effort < p.effort) : u.effort < s.effort := by
  have hmove := effort_move hpc hpc'
  rw [hcount] at hmove
  omega

theorem effort_callRemove (hpc : s.pc t = .idle) :
    (s.goto t (.lock .remove)).effort = s.effort + 7 := by
  have hmove := effort_move (u := s.goto t (.lock .remove)) hpc rfl
  change _ + 0 + 5 * s.q.count + 2 * woken s.q.cond
    = _ + 7 + 5 * s.q.count + 2 * woken s.q.cond at hmove
  omega

omit [Fintype T] in
theorem woken_wait (c : Call) : woken (s.wait t c).q.cond ≤ woken s.q.cond := by
  have hwoken := woken_update s.q.cond c.waitsOn ((s.q.cond c.waitsOn).wait t)
  have hcard : ((s.q.cond c.waitsOn).wait t).woken.card ≤ (s.q.cond c.waitsOn).woken.card :=
    card_erase_le
  show woken (Function.update s.q.cond c.waitsOn _) ≤ _
  omega

theorem effort_relock {c : Call} (hpc : s.pc t = .wait c) (ht : t ∈ (s.q.cond c.waitsOn).woken)
    (hpc' : u.pc = (s.goto t (.test c)).pc) (hcount : u.q.count = s.q.count)
    (hcond : u.q.cond = Function.update s.q.cond c.waitsOn ((s.q.cond c.waitsOn).reacquire t)) :
    u.effort < s.effort := by
  have hmove := effort_move hpc hpc'
  have hwoken := woken_update s.q.cond c.waitsOn ((s.q.cond c.waitsOn).reacquire t)
  have hcard := Cond.card_reacquire ht
  rw [hcount, hcond] at hmove
  change _ + (5 + c.effort) + _ + _ = _ + (6 + c.effort) + _ + _ at hmove
  omega

/-- A socket that is stored is one more in the queue, and one that is taken is one less. -/
theorem effort_body {c : Call} {d : Cond T} {w : Option T} (h : Excl s) (hpc : s.pc t = .body c)
    (hd : (s.q.cond c.signals).signal w = some d) :
    (s.body t d c).effort + 6 ≤ s.effort + c.effort := by
  have hwoken := woken_update s.q.cond c.signals d
  have hcard := Cond.card_signal hd
  have hfree := h.entered t c hpc
  cases c with
  | add fd =>
    have hmove := effort_move (u := s.body t d (.add fd)) hpc rfl
    change _ + 10 + 5 * s.q.count + _ = _ + 2 + 5 * (s.q.count + 1) + 2 * woken
      (Function.update s.q.cond .notEmpty d) at hmove
    change _ + 6 ≤ _ + 5
    simp only [Call.signals] at hwoken hcard
    omega
  | remove =>
    have hmove := effort_move (u := s.body t d .remove) hpc rfl
    change _ + 5 + 5 * s.q.count + _ = _ + 2 + 5 * (s.q.count - 1) + 2 * woken
      (Function.update s.q.cond .notFull d) at hmove
    have hpos : s.q.count ≠ 0 := by simpa [Call.blocked] using hfree
    change _ + 6 ≤ _ + 0
    simp only [Call.signals] at hwoken hcard
    omega

theorem effort_after (ret : Option ℕ) : (Pc.after ret).effort < (Pc.unlock ret).effort := by
  cases ret with
  | none => exact Nat.zero_lt_two
  | some fd => exact Nat.one_lt_two

end Effort

/-! ### The threads come to rest -/

/-- Each thread is outside of the operations, or asleep. -/
def Resting (s : State T) : Prop :=
  ∀ t, s.pc t = .idle ∨ ∃ c, s.pc t = .wait c ∧ t ∈ (s.q.cond c.waitsOn).sleeping

/-- The steps of `Action.drains`. -/
def drain (s : State T) (a : Action T) : Option (State T) := if a.drains then step s a else none

section Rest

variable {s s' : State T} {t : T}

theorem step_of_drain {a : Action T} (h : drain s a = some s') :
    a.drains = true ∧ step s a = some s' :=
  Option.ite_none_right_eq_some.1 h

theorem drain_eq {a : Action T} (ha : a.drains = true) (hs : step s a = some s') :
    drain s a = some s' :=
  (if_pos ha).trans hs

theorem Excl.mutex_of_resting (h : Excl s) (hrest : Resting s) : s.q.mutex = none := by
  cases hm : s.q.mutex with
  | none => rfl
  | some t =>
    have hold := (h.holder t).1 hm
    rcases hrest t with hpc | ⟨c, hpc, -⟩
    · rw [hpc] at hold
      cases hold
    · rw [hpc] at hold
      cases hold

theorem Excl.woken_of_resting (h : Excl s) (hrest : Resting s) (v : CondVar) :
    (s.q.cond v).woken = ∅ := by
  rw [eq_empty_iff_forall_notMem]
  intro t ht
  obtain ⟨c, hpc, rfl⟩ := (h.waiters v t).1 (mem_union_right _ ht)
  rcases hrest t with hidle | ⟨c', hpc', hsleep⟩
  · rw [hpc] at hidle
    cases hidle
  · rw [hpc] at hpc'
    cases hpc'
    exact Cond.notMem_woken hsleep ht

/-- While the threads rest, nobody sleeps who could go on. -/
theorem Excl.room_of_resting (h : Excl s) (hc : Counted s) (hrest : Resting s) {v : CondVar}
    (hv : (s.q.cond v).sleeping ≠ ∅) : v.room s.q = 0 := by
  have hle := hc v hv
  rw [h.woken_of_resting hrest, retrying_of_free (h.mutex_of_resting hrest), card_empty] at hle
  exact Nat.le_zero.1 hle

/-- A thread that does not rest, or the one that it waits for, can make a step. -/
theorem Excl.exists_drain [Fintype T] (h : Excl s) (hrest : ¬ Resting s) :
    ∃ a s', drain s a = some s' ∧ s'.effort < s.effort := by
  cases hm : s.q.mutex with
  | some t =>
    have hold := (h.holder t).1 hm
    cases hpc : s.pc t with
    | test c =>
      cases hb : c.blocked s.q with
      | true =>
        refine ⟨.test t, s.wait t c, drain_eq rfl (by simp [step, hpc, hb]), ?_⟩
        exact effort_lt hpc rfl rfl (woken_wait c) (by simp [Pc.effort])
      | false =>
        refine ⟨.test t, s.goto t (.body c), drain_eq rfl (by simp [step, hpc, hb]), ?_⟩
        exact effort_lt hpc rfl rfl le_rfl (by simp [Pc.effort])
    | body c =>
      obtain ⟨w, d, hd⟩ := Cond.exists_signal (s.q.cond c.signals)
      refine ⟨.body t w, s.body t d c, drain_eq rfl (by simp [step, hpc, hd]), ?_⟩
      have hbody := effort_body h hpc hd
      have hle : c.effort ≤ 5 := by
        cases c with
        | add fd => exact le_rfl
        | remove => exact Nat.zero_le 5
      omega
    | unlock ret =>
      refine ⟨.unlock t, _, drain_eq rfl (by rw [step, hpc]), ?_⟩
      exact effort_lt hpc rfl rfl le_rfl (effort_after ret)
    | idle | lock c | wait c | serve fd =>
      rw [hpc] at hold
      cases hold
  | none =>
    unfold Resting at hrest
    push Not at hrest
    obtain ⟨t, hidle, hawake⟩ := hrest
    have hnot : (s.pc t).holding ≠ true := fun hold => by
      rw [(h.holder t).2 hold] at hm
      cases hm
    cases hpc : s.pc t with
    | idle => exact absurd hpc hidle
    | lock c =>
      refine ⟨.lock t, _, drain_eq rfl (by rw [step, hpc]; exact if_pos hm), ?_⟩
      exact effort_lt hpc rfl rfl le_rfl (by simp [Pc.effort])
    | wait c =>
      have ht : t ∈ (s.q.cond c.waitsOn).woken := by
        have hmem := (h.waiters c.waitsOn t).2 ⟨c, hpc, rfl⟩
        exact (mem_union.1 hmem).resolve_left (hawake c hpc)
      refine ⟨.relock t, _, drain_eq rfl (by rw [step, hpc]; exact if_pos ⟨ht, hm⟩), ?_⟩
      exact effort_relock hpc ht rfl rfl rfl
    | serve fd =>
      refine ⟨.close t, _, drain_eq rfl (by rw [step, hpc]), ?_⟩
      exact effort_lt hpc rfl rfl le_rfl (by simp [Pc.effort])
    | test c | body c | unlock ret =>
      rw [hpc] at hnot
      exact absurd rfl hnot

end Rest

/-! ### A run of the server -/

/-- Only `main` calls `accept`. -/
def Action.Accepts (main : T) (a : Action T) : Prop := ∀ t fd, a = .accept t fd → t = main

/-- What holds in every state of a run in which only `main` calls `accept`. -/
structure Sane (main : T) (s : State T) : Prop where
  excl : Excl s
  ordered : Ordered s
  owned : Owned s
  counted : Counted s
  adding : ∀ t, (s.pc t).adding = true → t = main

section Sane

variable {main t : T} {s s' : State T}

theorem sane_start (main : T) (q : ClientQueue T) : Sane main (start q) :=
  ⟨excl_start q, ordered_start q, owned_start q, counted_start q, fun _ h => by cases h⟩

theorem Sane.step (h : Sane main s) {a : Action T} (ha : a.Accepts main)
    (hs : step s a = some s') : Sane main s' := by
  refine ⟨excl_step s a s' h.excl hs, ordered_step s a s' h.excl h.ordered hs,
    owned_step s a s' h.excl h.ordered h.owned hs, counted_step s a s' h.excl h.counted hs, ?_⟩
  have hgoto : ∀ t p, (p.adding = true → t = main) →
      ∀ u, ((s.goto t p).pc u).adding = true → u = main := fun t p ht =>
    goto_forall (P := fun u p => p.adding = true → u = main) ht fun u _ => h.adding u
  have hsame : ∀ {t p p'}, s.pc t = p → (p'.adding = true → p.adding = true) →
      ∀ u, ((s.goto t p').pc u).adding = true → u = main := fun {t p p'} hpc himp =>
    hgoto t p' fun hp' => h.adding t (by rw [hpc]; exact himp hp')
  cases step_cases hs with
  | connect | acceptFailed | wake | echo => exact h.adding
  | @accept t fd S => exact hgoto t _ fun _ => ha t fd rfl
  | callRemove | close => exact hgoto _ _ fun h => by cases h
  | @lock t c hpc | @wait t c hpc | @enter t c hpc | @relock t c hpc =>
    exact hsame hpc (by cases c <;> exact id)
  | @body t c d w hpc =>
    cases c with
    | add fd => exact hsame hpc id
    | remove => exact hsame hpc id
  | @unlock t ret hpc => exact hgoto t _ fun h => by cases ret <;> cases h

theorem Sane.drain (h : Sane main s) {a : Action T} (hs : drain s a = some s') : Sane main s' := by
  obtain ⟨ha, hs⟩ := step_of_drain hs
  refine h.step (fun t fd hacc => ?_) hs
  rw [hacc] at ha
  cases ha

theorem Sane.reaches (h : Sane main s) (hs : Reachable QueueServer.drain s s') : Sane main s' :=
  hs.invariant (fun _ _ _ hI hs => hI.drain hs) h

/-- While the threads rest and there is a socket in the queue, the workers are idle. -/
theorem Sane.idle (h : Sane main s) (hrest : Resting s) (hcount : s.q.count ≠ 0) (ht : t ≠ main) :
    s.pc t = .idle := by
  rcases hrest t with hidle | ⟨c, hpc, hsleep⟩
  · exact hidle
  · have hroom := h.excl.room_of_resting h.counted hrest (ne_empty_of_mem hsleep)
    cases c with
    | add fd => exact absurd (h.adding t (by rw [hpc]; rfl)) ht
    | remove => exact absurd hroom hcount

/-- **A round**: an idle worker takes a socket. -/
theorem Sane.take [Fintype T] (h : Sane main s) (hrest : Resting s) (hcount : s.q.count ≠ 0)
    (ht : t ≠ main) : ∃ s', Reachable QueueServer.drain s s' ∧ s'.effort < s.effort := by
  have hidle := h.idle hrest hcount ht
  have hmutex := h.excl.mutex_of_resting hrest
  -- the call, the lock, the test and the body, one after the other
  let s₁ := s.goto t (.lock .remove)
  let s₂ : State T := { s₁.goto t (.test .remove) with q := { s₁.q with mutex := some t } }
  let s₃ := s₂.goto t (.body .remove)
  have hpc₁ : s₁.pc t = .lock .remove := goto_pc_self s t _
  have hpc₂ : s₂.pc t = .test .remove := goto_pc_self s₁ t _
  have hpc₃ : s₃.pc t = .body .remove := goto_pc_self s₂ t _
  have hb : Call.remove.blocked s₂.q = false := beq_eq_false_iff_ne.2 hcount
  have h₁ : QueueServer.drain s (.callRemove t) = some s₁ := drain_eq rfl (if_pos hidle)
  have h₂ : QueueServer.drain s₁ (.lock t) = some s₂ :=
    drain_eq rfl (by rw [QueueServer.step, hpc₁]; exact if_pos hmutex)
  have h₃ : QueueServer.drain s₂ (.test t) = some s₃ :=
    drain_eq rfl (by
      rw [QueueServer.step, hpc₂]
      exact congrArg some (if_neg (hb ▸ Bool.false_ne_true)))
  have hsane : Sane main s₃ := ((h.drain h₁).drain h₂).drain h₃
  obtain ⟨w, d, hd⟩ := Cond.exists_signal (s₃.q.cond .notFull)
  have h₄ : QueueServer.drain s₃ (.body t w) = some (s₃.body t d .remove) :=
    drain_eq rfl (by rw [QueueServer.step, hpc₃]; exact congrArg (Option.map _) hd)
  refine ⟨s₃.body t d .remove,
    ((((Reachable.refl s).tail h₁).tail h₂).tail h₃).tail h₄, ?_⟩
  have e₁ : s₁.effort = s.effort + 7 := effort_callRemove hidle
  have e₂ : s₂.effort < s₁.effort := effort_lt hpc₁ rfl rfl le_rfl (Nat.lt_succ_self _)
  have e₃ : s₃.effort < s₂.effort := effort_lt hpc₂ rfl rfl le_rfl (Nat.lt_succ_self _)
  have e₄ := effort_body (c := .remove) hsane.excl hpc₃ hd
  change _ + 6 ≤ _ + 0 at e₄
  omega

/-- The threads come to rest with nothing in the queue. -/
theorem leads_drained [Fintype T] {w : T} (hw : w ≠ main) :
    Leads QueueServer.drain (Sane main) fun s => Resting s ∧ s.q.count = 0 := by
  apply Leads.of_measure State.effort
  intro s hs hnot
  by_cases hrest : Resting s
  · obtain ⟨s', hreach, hlt⟩ := hs.take hrest (fun hcount => hnot ⟨hrest, hcount⟩) hw
    exact ⟨s', hreach, hs.reaches hreach, hlt⟩
  · obtain ⟨a, s', hstep, hlt⟩ := hs.excl.exists_drain hrest
    exact ⟨s', (Reachable.refl s).tail hstep, hs.drain hstep, hlt⟩

/-- With nothing in the queue, only workers sleep. -/
theorem Sane.place (h : Sane main s) (hrest : Resting s) (hcount : s.q.count = 0) (t : T) :
    s.pc t = .idle ∨ s.pc t = .wait .remove := by
  rcases hrest t with hidle | ⟨c, hpc, hsleep⟩
  · exact .inl hidle
  · cases c with
    | add fd =>
      have hroom := h.excl.room_of_resting h.counted hrest (ne_empty_of_mem hsleep)
      change queueSize - s.q.count = 0 at hroom
      rw [hcount] at hroom
      cases hroom
    | remove => exact .inr hpc

/-- No connection is open then. -/
theorem Sane.closed (h : Sane main s) (hrest : Resting s) (hcount : s.q.count = 0) (fd : ℕ) :
    s.sockets.conn fd = none := by
  cases hconn : s.sockets.conn fd with
  | none => rfl
  | some c =>
    obtain ⟨o, ho⟩ := h.owned.custody.held hconn
    rcases o with t | k
    · change (s.pc t).socket = some fd at ho
      rcases h.place hrest hcount t with hpc | hpc
      · rw [hpc] at ho
        cases ho
      · rw [hpc] at ho
        cases ho
    · have hstored := h.ordered.stored_eq
      rw [ClientQueue.live, hcount] at hstored
      have hnil : s.stored = s.returned := hstored.trans (List.append_nil _)
      simp only [holds, hnil] at ho
      split_ifs at ho with hk
      rw [List.getElem?_eq_none (not_lt.1 hk)] at ho
      cases ho

/-- No connection is made or accepted meanwhile. -/
theorem drain_sockets {a : Action T} (hs : QueueServer.drain s a = some s') :
    s'.sockets.pending = s.sockets.pending ∧ s'.sockets.next = s.sockets.next := by
  obtain ⟨ha, hs⟩ := step_of_drain hs
  cases step_cases hs with
  | connect | accept | acceptFailed | wake | echo => cases ha
  | callRemove | lock | wait | enter | relock | unlock => exact ⟨rfl, rfl⟩
  | @body t c d w =>
    cases c with
    | add fd => exact ⟨rfl, rfl⟩
    | remove => exact ⟨rfl, rfl⟩
  | @close t fd => exact ⟨s.sockets.close_pending fd, s.sockets.close_next fd⟩

end Sane

/-- What the connections that had been accepted in `s` have come to in `t`: all are closed,
everything stored in the queue has been returned from it, and each thread is outside of the
operations or waits for a connection. -/
structure Drained (s t : State T) : Prop where
  threads : ∀ u, t.pc u = .idle ∨ t.pc u = .wait .remove
  count : t.q.count = 0
  returned : t.returned = t.stored
  pending : t.sockets.pending = s.sockets.pending
  closed : ∀ c, c < s.sockets.next → c ∉ s.sockets.pending → c ∈ t.sockets.closed

omit [DecidableEq T] in
/-- What ends the server happens to a thread that is serving. -/
theorem Drained.not_fatal {s t : State T} (h : Drained s t) (e : T × Cause) :
    fatal t e = false := by
  obtain ⟨u, c⟩ := e
  rcases h.threads u with hpc | hpc
  · rw [fatal, hpc]
  · rw [fatal, hpc]

/-- The threads bring this about. -/
theorem Sane.drains [Fintype T] {main w : T} {s : State T} (hsane : Sane main s) (hw : w ≠ main) :
    ∃ s', Reachable QueueServer.drain s s' ∧ Drained s s' := by
  obtain ⟨s', hreach, hs', hrest, hcount⟩ := leads_drained hw s hsane
  obtain ⟨hpending, hnext⟩ : s'.sockets.pending = s.sockets.pending ∧
      s'.sockets.next = s.sockets.next :=
    hreach.invariant (I := fun u => u.sockets.pending = s.sockets.pending ∧
        u.sockets.next = s.sockets.next)
      (fun u a v hI hs => by rwa [(drain_sockets hs).1, (drain_sockets hs).2]) ⟨rfl, rfl⟩
  refine ⟨s', hreach, hs'.place hrest hcount, hcount, ?_, hpending, fun c hc hnot => ?_⟩
  · have hstored := hs'.ordered.stored_eq
    rw [ClientQueue.live, hcount] at hstored
    exact (hstored.trans (List.append_nil _)).symm
  · rw [← hnext] at hc
    rw [← hpending] at hnot
    rcases (s'.sockets.lt_next c).1 hc with hp | hclosed | ⟨fd, hfd⟩
    · exact absurd hp hnot
    · exact hclosed
    · rw [hs'.closed hrest hcount fd] at hfd
      cases hfd

/-- **The server can serve everybody until it ends.**  After any run in which only `main` calls
`accept`, and with one worker at least, the threads can go on, without accepting anything more or
waking without a signal, until what had been accepted is served and closed, exactly if no `send` has
raised SIGPIPE and no `printf` has run out of its array. -/
theorem queue_drains [Fintype T] {q : ClientQueue T} {main w : T}
    {es : List (Event (Action T) (T × Cause))} {p : Process (State T) (T × Cause)} (hw : w ≠ main)
    (has : ∀ a, .act a ∈ es → a.Accepts main) (h : run process (.init (start q)) es = some p) :
    (∃ p', Reachable (alive drain) p p' ∧ Drained p.state p'.state) ↔ p.ended = none := by
  obtain ⟨hrun, hfatal⟩ := run_spec h
  have hmain : ∀ a ∈ es.filterMap Event.action, a.Accepts main := fun a ha =>
    has a (mem_action.1 ha)
  have hsane : Sane main p.state :=
    run_invariant_along (P := fun _ a => a.Accepts main) (fun _ _ _ hI ha hs => hI.step ha hs)
      (sane_start main q) (Along.of_forall hmain) hrun
  have hnot : ∀ e, p.ended = some e → ¬ Drained p.state p.state := fun e he hd =>
    Bool.false_ne_true ((hd.not_fatal e).symm.trans (hfatal e he))
  rw [reaches_iff hnot]
  exact and_iff_left (hsane.drains hw)

/-- A worker that has been woken takes a socket. -/
def taking {T : Type*} (w : T) : List (Action T) :=
  [.relock w, .test w, .body w none, .unlock w]

/-- The first connection of `twoWaitOneStored` is still to be served.  If its client is gone when
the worker echoes, nobody is served any more. -/
theorem queue_drains_twoWaitOneStored :
    (∃ p p', run process (.init (start emptyQueue)) (twoWaitOneStored.map .act) = some p ∧
      p.state.sockets.closed = [] ∧ Reachable (alive drain) p p' ∧ 0 ∈ p'.state.sockets.closed) ∧
    ∃ p, run process (.init (start emptyQueue))
        ((twoWaitOneStored ++ taking 0).map .act ++ [.ends (0, .sigpipe)]) = some p ∧
      ¬ ∃ p', Reachable (alive drain) p p' ∧ Drained p.state p'.state := by
  have hw : (0 : Fin 3) ≠ 2 := by decide
  constructor
  · have hends : (run process (.init (start emptyQueue)) (twoWaitOneStored.map .act)).map
        (fun p => (p.ended, p.state.sockets.closed, p.state.sockets.next, p.state.sockets.pending))
          = some (none, [], 1, []) := by
      decide
    obtain ⟨p, hp, hends⟩ := Option.map_eq_some_iff.1 hends
    obtain ⟨hended, hends⟩ := Prod.mk.inj hends
    obtain ⟨hclosed, hends⟩ := Prod.mk.inj hends
    obtain ⟨hnext, hpending⟩ := Prod.mk.inj hends
    have hmain : ∀ a, .act a ∈ (twoWaitOneStored.map .act : List (Event _ (Fin 3 × Cause))) →
        a.Accepts 2 := by
      simp [twoWaitOneStored, Action.Accepts]
    obtain ⟨p', hreach, hdrained⟩ := (queue_drains hw hmain hp).2 hended
    refine ⟨p, p', hp, hclosed, hreach, hdrained.closed 0 ?_ ?_⟩
    · rw [hnext]
      exact Nat.one_pos
    · rw [hpending]
      exact List.not_mem_nil
  · obtain ⟨p, hp, hended⟩ := Option.map_eq_some_iff.1
      (show (run process (.init (start (T := Fin 3) emptyQueue))
          ((twoWaitOneStored ++ taking 0).map .act ++ [.ends (0, .sigpipe)])).map (fun p => p.ended)
            = some (some (0, .sigpipe)) by decide)
    have hmain : ∀ a, .act a ∈ ((twoWaitOneStored ++ taking 0).map .act ++ [.ends (0, .sigpipe)] :
        List (Event _ (Fin 3 × Cause))) → a.Accepts 2 := by
      simp [taking, twoWaitOneStored, Action.Accepts]
    refine ⟨p, hp, fun hdrains => ?_⟩
    rw [(queue_drains hw hmain hp).1 hdrains] at hended
    cases hended

end QueueServer
end PosixHw
