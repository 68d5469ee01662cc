import PosixHw.QueueServer.Basic

/-!
# The queue server loses no wakeup

Each operation signals one waiter only, and a thread that never slept may take the cell for which
a sleeper was woken.  What survives every interleaving is a count: as long as somebody sleeps on
`v`, the queue has room for at most as many waiters of `v` as were woken and have not yet
re-acquired the mutex, plus one if the holder of the mutex is about to retry such a call
(`Counted`).  `no_lost_wakeup` reads off what this says when the mutex is free.
-/

namespace PosixHw
namespace QueueServer

open Run

variable {T : Type*}

/-- How many waiters of `v` the queue can let through: cells to take, or free cells to fill. -/
def CondVar.room (q : ClientQueue T) : CondVar → ℕ
  | .notEmpty => q.count
  | .notFull => queueSize - q.count

/-- `1` for a thread that is about to make use of the room for the waiters of `v`. -/
def Pc.retries (v : CondVar) : Pc → ℕ
  | .test c | .body c => if c.waitsOn = v then 1 else 0
  | _ => 0

/-- `1` if the holder of the mutex is about to make use of the room for the waiters of `v`. -/
def State.retrying (s : State T) (v : CondVar) : ℕ :=
  match s.q.mutex with
  | some t => (s.pc t).retries v
  | none => 0

/-- The counting invariant. -/
def Counted (s : State T) : Prop :=
  ∀ v, (s.q.cond v).sleeping ≠ ∅ → v.room s.q ≤ (s.q.cond v).woken.card + s.retrying v

theorem waitsOn_ne_signals (c : Call) : c.waitsOn ≠ c.signals := by cases c <;> exact nofun

theorem eq_waitsOn_or_eq_signals (v : CondVar) (c : Call) : v = c.waitsOn ∨ v = c.signals := by
  cases v <;> cases c <;> simp [Call.waitsOn, Call.signals]

theorem room_of_blocked {q : ClientQueue T} {c : Call} (h : c.blocked q = true) :
    c.waitsOn.room q = 0 := by
  cases c with
  | add fd =>
    have : q.count = queueSize := by simpa [Call.blocked] using h
    simp [Call.waitsOn, CondVar.room, this]
  | remove => simpa [Call.blocked, Call.waitsOn, CondVar.room] using h

theorem retries_le (v : CondVar) {c : Call} (h : c.waitsOn ≠ v) : (Pc.test c).retries v = 0 :=
  if_neg h

variable [DecidableEq T] {s : State T} {t : T} {p : Pc}

/-- A thread that does not hold the mutex moves without a trace. -/
theorem retrying_goto (h : Excl s) (ht : (s.pc t).holding = false) (v : CondVar) :
    (s.goto t p).retrying v = s.retrying v := by
  change (match s.q.mutex with | some u => ((s.goto t p).pc u).retries v | none => 0)
    = match s.q.mutex with | some u => (s.pc u).retries v | none => 0
  cases hm : s.q.mutex with
  | none => rfl
  | some u =>
    have hu : u ≠ t := by
      rintro rfl
      rw [(h.holder u).1 hm] at ht
      cases ht
    simp only [goto_pc_of_ne s p hu]

/-- What the holder of the mutex contributes. -/
theorem retrying_of_holding (h : Excl s) (ht : (s.pc t).holding = true) (v : CondVar) :
    s.retrying v = (s.pc t).retries v := by
  unfold State.retrying
  rw [(h.holder t).2 ht]

omit [DecidableEq T] in
theorem retrying_of_free (hm : s.q.mutex = none) (v : CondVar) : s.retrying v = 0 := by
  unfold State.retrying
  rw [hm]

theorem counted_wait {c : Call} (h : Excl s) (hc : Counted s) (hpc : s.pc t = .test c)
    (hb : c.blocked s.q = true) : Counted (s.wait t c) := by
  intro v hv
  by_cases e : v = c.waitsOn
  · -- the thread waits because there is no room at all
    subst e
    have hr : c.waitsOn.room (s.wait t c).q = c.waitsOn.room s.q := by cases c <;> rfl
    rw [hr, room_of_blocked hb]
    exact Nat.zero_le _
  · have hr : v.room (s.wait t c).q = v.room s.q := by cases v <;> rfl
    have hcond : (s.wait t c).q.cond v = s.q.cond v := Function.update_of_ne e ..
    rw [hcond] at hv ⊢
    have := hc v hv
    rw [retrying_of_holding h (t := t) (by rw [hpc]; rfl), hpc, retries_le v (Ne.symm e)] at this
    rw [hr]
    omega

theorem counted_wake {c : Call} (hc : Counted s)
    (ht : t ∈ (s.q.cond c.waitsOn).sleeping) :
    Counted { s with q := { s.q with
      cond := Function.update s.q.cond c.waitsOn ((s.q.cond c.waitsOn).wake t) } } := by
  intro v hv
  by_cases e : v = c.waitsOn
  · subst e
    have := hc c.waitsOn (Finset.ne_empty_of_mem ht)
    have hcard := Cond.card_wake ht
    simp only [Function.update_self]
    change c.waitsOn.room s.q ≤ ((s.q.cond c.waitsOn).wake t).woken.card + s.retrying c.waitsOn
    omega
  · simp only [Function.update_of_ne e] at hv ⊢
    exact hc v hv

theorem counted_relock {c : Call} (hc : Counted s) (ht : t ∈ (s.q.cond c.waitsOn).woken)
    (hm : s.q.mutex = none) :
    Counted { s.goto t (.test c) with q := { s.q with
      mutex := some t
      cond := Function.update s.q.cond c.waitsOn ((s.q.cond c.waitsOn).reacquire t) } } := by
  intro v hv
  by_cases e : v = c.waitsOn
  · -- the woken thread now counts as the one that retries
    subst e
    simp only [Function.update_self, Cond.reacquire_sleeping] at hv ⊢
    have := hc c.waitsOn hv
    rw [retrying_of_free hm] at this
    have hcard := Cond.card_reacquire ht
    simp only [State.retrying, goto_pc_self, Pc.retries, if_true]
    change c.waitsOn.room s.q ≤ _
    omega
  · simp only [Function.update_of_ne e] at hv ⊢
    have := hc v hv
    rw [retrying_of_free hm] at this
    exact this.trans (Nat.le_add_right _ _)

/-- What a body does to the room: it uses up one place for the waiters like itself and makes at
most one for those that it signals. -/
theorem room_body (d : Cond T) (c : Call) :
    c.waitsOn.room (s.body t d c).q = c.waitsOn.room s.q - 1 ∧
      c.signals.room (s.body t d c).q ≤ c.signals.room s.q + 1 := by
  cases c with
  | add fd =>
    change queueSize - (s.q.count + 1) = queueSize - s.q.count - 1 ∧ s.q.count + 1 ≤ s.q.count + 1
    omega
  | remove =>
    change s.q.count - 1 = s.q.count - 1 ∧ queueSize - (s.q.count - 1) ≤ queueSize - s.q.count + 1
    omega

theorem body_cond (d : Cond T) (c : Call) :
    (s.body t d c).q.cond = Function.update s.q.cond c.signals d := by
  cases c <;> rfl

theorem body_retrying (h : Excl s) {c : Call} (d : Cond T) (hpc : s.pc t = .body c) (v : CondVar) :
    (s.body t d c).retrying v = 0 := by
  have hm : s.q.mutex = some t := (h.holder t).2 (by rw [hpc]; rfl)
  cases c <;> simp [State.retrying, State.body, ClientQueue.store, ClientQueue.take, hm,
    goto_pc_self, Pc.retries]

theorem counted_body {c : Call} {d : Cond T} {w : Option T} (h : Excl s) (hc : Counted s)
    (hpc : s.pc t = .body c) (hd : (s.q.cond c.signals).signal w = some d) :
    Counted (s.body t d c) := by
  have hret : ∀ v, s.retrying v = if c.waitsOn = v then 1 else 0 := fun v => by
    rw [retrying_of_holding h (t := t) (by rw [hpc]; rfl), hpc]; rfl
  obtain ⟨hroom, hroom'⟩ := room_body (s := s) (t := t) d c
  intro v hv
  rw [body_retrying h d hpc]
  rw [body_cond] at hv ⊢
  rcases eq_waitsOn_or_eq_signals v c with rfl | rfl
  · -- the place it uses up was the one that it counted for
    rw [Function.update_of_ne (waitsOn_ne_signals c)] at hv ⊢
    have := hc _ hv
    rw [hret, if_pos rfl] at this
    omega
  · rw [Function.update_self] at hv ⊢
    rcases Cond.signal_cases hd with ⟨-, hnone, rfl⟩ | ⟨u, -, hu, rfl⟩
    · exact absurd hnone hv
    · -- the place it makes goes to the thread that it wakes
      have := hc _ (Finset.ne_empty_of_mem hu)
      rw [hret, if_neg (waitsOn_ne_signals c)] at this
      have hcard := Cond.card_wake hu
      omega

omit [DecidableEq T] in
theorem counted_start (q : ClientQueue T) : Counted (start q) := fun _ hv => absurd rfl hv

theorem counted_step (s : State T) (a : Action T) (s' : State T) (h : Excl s) (hc : Counted s)
    (hs : step s a = some s') : Counted s' := by
  have hgoto : ∀ t p, (s.pc t).holding = false → Counted (s.goto t p) := fun t p ht v hv => by
    rw [retrying_goto h ht]; exact hc v hv
  cases step_cases hs with
  | connect => exact hc
  | @accept t fd S hpc hS => exact hgoto t (.lock (.add fd)) (by rw [hpc]; rfl)
  | acceptFailed => exact hc
  | @callRemove t hpc => exact hgoto t _ (by rw [hpc]; rfl)
  | lock hpc hm =>
    intro v hv
    have := hc v hv
    rw [retrying_of_free hm] at this
    exact this.trans (Nat.le_add_right _ _)
  | wait hpc hb => exact counted_wait h hc hpc hb
  | @enter t c hpc hb =>
    intro v hv
    have hm : s.q.mutex = some t := (h.holder t).2 (by rw [hpc]; rfl)
    have hret : (s.goto t (.body c)).retrying v = s.retrying v := by
      rw [retrying_of_holding h (t := t) (by rw [hpc]; rfl), hpc]
      change (match s.q.mutex with | some u => ((s.goto t _).pc u).retries v | none => 0) = _
      rw [hm]
      simp only [goto_pc_self]
      rfl
    rw [hret]
    exact hc v hv
  | wake hpc ht => exact counted_wake hc ht
  | relock hpc ht hm => exact counted_relock hc ht hm
  | body hpc hd => exact counted_body h hc hpc hd
  | @unlock t ret hpc =>
    intro v hv
    have := hc v hv
    rw [retrying_of_holding h (t := t) (by rw [hpc]; rfl), hpc] at this
    exact this
  | echo => exact hc
  | @close t fd hpc => exact hgoto t .idle (by rw [hpc]; rfl)

/-- `Excl` and `Counted` hold in every reachable state. -/
theorem counted_of_reachable {q : ClientQueue T} (h : Reachable step (start q) s) :
    Excl s ∧ Counted s :=
  h.invariant (I := fun s => Excl s ∧ Counted s)
    (fun s a s' hI hs => ⟨excl_step s a s' hI.1 hs, counted_step s a s' hI.1 hI.2 hs⟩)
    ⟨excl_start q, counted_start q⟩

/-- Inside a call of `remove_from_queue`. -/
def Pc.removing : Pc → Bool
  | .lock .remove | .test .remove | .wait .remove | .body .remove | .unlock (some _) => true
  | _ => false

/-- Inside a call of `add_to_queue`. -/
def Pc.adding : Pc → Bool
  | .lock (.add _) | .test (.add _) | .wait (.add _) | .body (.add _) | .unlock none => true
  | _ => false

/-- Whoever waits on `not_empty` is in `remove_from_queue`. -/
theorem Excl.waits_notEmpty (h : Excl s) (t : T) :
    t ∈ (s.q.cond .notEmpty).sleeping ∪ (s.q.cond .notEmpty).woken ↔ s.pc t = .wait .remove := by
  rw [h.waiters]
  constructor
  · rintro ⟨c, hc, hv⟩
    cases c with
    | add fd => cases hv
    | remove => exact hc
  · exact fun hc => ⟨_, hc, rfl⟩

/-- Whoever waits on `not_full` is in `add_to_queue`. -/
theorem Excl.waits_notFull (h : Excl s) (t : T) :
    t ∈ (s.q.cond .notFull).sleeping ∪ (s.q.cond .notFull).woken ↔
      ∃ fd, s.pc t = .wait (.add fd) := by
  rw [h.waiters]
  constructor
  · rintro ⟨c, hc, hv⟩
    cases c with
    | add fd => exact ⟨fd, hc⟩
    | remove => cases hv
  · exact fun ⟨fd, hc⟩ => ⟨_, hc, rfl⟩

/-- As long as the queue has room for a waiter of `v`, some thread that would use it is awake:
one of the waiters was woken, or the holder of the mutex is about to retry. -/
theorem exists_awake (h : Excl s) (hc : Counted s) (v : CondVar) (hroom : 0 < v.room s.q)
    (hv : (s.q.cond v).sleeping ≠ ∅) :
    ∃ u c, u ∉ (s.q.cond v).sleeping ∧ c.waitsOn = v ∧
      (s.pc u = .wait c ∨ s.pc u = .test c ∨ s.pc u = .body c) := by
  have hle := hc v hv
  by_cases hw : (s.q.cond v).woken = ∅
  · -- then the holder of the mutex counts
    have hret : 0 < s.retrying v := by rw [hw, Finset.card_empty] at hle; omega
    cases hm : s.q.mutex with
    | none => rw [retrying_of_free hm] at hret; omega
    | some u =>
      have hold := (h.holder u).1 hm
      rw [retrying_of_holding h hold] at hret
      have hnot : u ∉ (s.q.cond v).sleeping := fun hu => by
        refine h.notMem (t := u) (fun c hpc => ?_) v (Finset.mem_union_left _ hu)
        rw [hpc] at hold; cases hold
      cases hpc : s.pc u <;> rw [hpc] at hret <;> simp only [Pc.retries] at hret
      case test c =>
        split_ifs at hret with e
        · exact ⟨u, c, hnot, e, Or.inr (Or.inl hpc)⟩
        · omega
      case body c =>
        split_ifs at hret with e
        · exact ⟨u, c, hnot, e, Or.inr (Or.inr hpc)⟩
        · omega
      all_goals omega
  · obtain ⟨u, hu⟩ := Finset.nonempty_iff_ne_empty.2 hw
    obtain ⟨c, hpc, e⟩ := (h.waiters v u).1 (Finset.mem_union_right _ hu)
    exact ⟨u, c, fun hs => Cond.notMem_woken hs hu, e, Or.inl hpc⟩

/-- **No wakeup is lost.**  The waiters of `not_empty` are removers, those of `not_full` adders.
With the mutex free, sleepers on `not_empty` mean that every stored socket has a woken remover on
its way to it, and sleepers on `not_full` that every free cell has a woken adder.  In no state are
all the removers asleep while the queue holds a socket, or all the adders while it has a free
cell. -/
theorem no_lost_wakeup {q : ClientQueue T} {s : State T} (h : Reachable step (start q) s) :
    (∀ t, t ∈ (s.q.cond .notEmpty).sleeping ∪ (s.q.cond .notEmpty).woken ↔
      s.pc t = .wait .remove) ∧
    (∀ t, t ∈ (s.q.cond .notFull).sleeping ∪ (s.q.cond .notFull).woken ↔
      ∃ fd, s.pc t = .wait (.add fd)) ∧
    (s.q.mutex = none →
      ((s.q.cond .notEmpty).sleeping ≠ ∅ → s.q.count ≤ (s.q.cond .notEmpty).woken.card) ∧
      ((s.q.cond .notFull).sleeping ≠ ∅ →
        queueSize - s.q.count ≤ (s.q.cond .notFull).woken.card)) ∧
    (0 < s.q.count → (∃ t, (s.pc t).removing = true) →
      ∃ t, (s.pc t).removing = true ∧ t ∉ (s.q.cond .notEmpty).sleeping) ∧
    (s.q.count < queueSize → (∃ t, (s.pc t).adding = true) →
      ∃ t, (s.pc t).adding = true ∧ t ∉ (s.q.cond .notFull).sleeping) := by
  obtain ⟨hE, hC⟩ := counted_of_reachable h
  refine ⟨hE.waits_notEmpty, hE.waits_notFull, fun hm => ⟨fun hv => ?_, fun hv => ?_⟩,
    fun hcount => ?_, fun hcount => ?_⟩
  · have := hC .notEmpty hv
    rwa [retrying_of_free hm] at this
  · have := hC .notFull hv
    rwa [retrying_of_free hm] at this
  · rintro ⟨t, ht⟩
    by_cases hs : t ∈ (s.q.cond .notEmpty).sleeping
    · obtain ⟨u, c, hu, e, hpc⟩ := exists_awake hE hC .notEmpty hcount (Finset.ne_empty_of_mem hs)
      refine ⟨u, ?_, hu⟩
      cases c with
      | add fd => cases e
      | remove => rcases hpc with hpc | hpc | hpc <;> rw [hpc] <;> rfl
    · exact ⟨t, ht, hs⟩
  · rintro ⟨t, ht⟩
    by_cases hs : t ∈ (s.q.cond .notFull).sleeping
    · have hroom : 0 < CondVar.notFull.room s.q := by simp only [CondVar.room]; omega
      obtain ⟨u, c, hu, e, hpc⟩ := exists_awake hE hC .notFull hroom (Finset.ne_empty_of_mem hs)
      refine ⟨u, ?_, hu⟩
      cases c with
      | add fd => rcases hpc with hpc | hpc | hpc <;> rw [hpc] <;> rfl
      | remove => cases e
    · exact ⟨t, ht, hs⟩

/-- Two workers wait; the acceptor stores a socket and wakes the first of them. -/
def twoWaitOneStored : List (Action (Fin 3)) :=
  [.callRemove 0, .lock 0, .test 0, .callRemove 1, .lock 1, .test 1, .connect, .accept 2 4, .lock 2,
    .test 2, .body 2 (some 0), .unlock 2]

theorem no_lost_wakeup_two_waiting :
    ∃ s, run step (start emptyQueue) twoWaitOneStored = some s ∧
      s.q.mutex = none ∧ (s.q.cond .notEmpty).sleeping = {1} ∧ s.q.count = 1 ∧
      s.q.count ≤ (s.q.cond .notEmpty).woken.card := by
  obtain ⟨s, hs, hf⟩ := Option.map_eq_some_iff.1
    (show (run step (start emptyQueue) twoWaitOneStored).map
        (fun s => (s.q.mutex, (s.q.cond .notEmpty).sleeping, s.q.count)) = some (none, {1}, 1) by
      decide)
  simp only [Prod.mk.injEq] at hf
  obtain ⟨hm, hsleep, hcount⟩ := hf
  have hv : (s.q.cond .notEmpty).sleeping ≠ ∅ := by rw [hsleep]; decide
  exact ⟨s, hs, hm, hsleep, hcount, ((no_lost_wakeup ⟨_, hs⟩).2.2.1 hm).1 hv⟩

end QueueServer
end PosixHw
