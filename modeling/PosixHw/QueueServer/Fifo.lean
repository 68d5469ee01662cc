import PosixHw.QueueServer.Basic

/-!
# The queue server hands every connection on once, in order

* `Ordered`: what was stored is what was returned followed by the live window of the ring, and
  `rear` is the cell behind the window.  With `Excl` this is kept by every step.
* `holds` says which thread, or which stored position that is not yet taken, has a socket in hand;
  `Owned` says that every open connection has exactly one such owner, and that only the worker
  which took a connection from the queue closes it.
-/

namespace PosixHw
namespace QueueServer

open Run

variable {T : Type*}

/-! ### The ring -/

/-- The ring buffer is the sequence of the sockets stored and not yet returned. -/
structure Ordered (s : State T) : Prop where
  front_lt : s.q.front < queueSize
  rear_eq : s.q.rear = (s.q.front + s.q.count) % queueSize
  count_le : s.q.count ≤ queueSize
  stored_eq : s.stored = s.returned ++ s.q.live

theorem ordered_start (q : ClientQueue T) : Ordered (start q) where
  front_lt := Nat.succ_pos 9
  rear_eq := rfl
  count_le := Nat.zero_le _
  stored_eq := rfl

theorem live_store {q : ClientQueue T} (hrear : q.rear = (q.front + q.count) % queueSize)
    (hlt : q.count < queueSize) (fd : ℕ) : (q.store fd).live = q.live ++ [fd] := by
  simp only [ClientQueue.live, ClientQueue.store, hrear]
  exact Ring.window_push q.queue queueSize q.front q.count hlt fd

theorem live_take {q : ClientQueue T} (hfront : q.front < queueSize) (hpos : 0 < q.count) :
    q.live = q.queue q.front :: q.take.live := by
  obtain ⟨n, hn⟩ : ∃ n, q.count = n + 1 := ⟨q.count - 1, by omega⟩
  simp only [ClientQueue.live, ClientQueue.take, hn, Nat.add_sub_cancel]
  rw [Ring.window_pop, Nat.mod_eq_of_lt hfront]

variable [DecidableEq T]

theorem ordered_body {s : State T} {t : T} {c : Call} {d : Cond T} (hE : Excl s) (h : Ordered s)
    (hpc : s.pc t = .body c) : Ordered (s.body t d c) := by
  have hb := hE.entered t c hpc
  have hrear := h.rear_eq
  have hle := h.count_le
  cases c with
  | add fd =>
    have hlt : s.q.count < queueSize := by
      have : s.q.count ≠ queueSize := by simpa [Call.blocked] using hb
      omega
    refine ⟨h.front_lt, ?_, hlt, ?_⟩
    · simp only [State.body, ClientQueue.store, hrear, Nat.mod_add_mod, Nat.add_assoc]
    · change s.stored ++ [fd] = s.returned ++ (s.q.store fd).live
      rw [live_store hrear hlt, h.stored_eq, List.append_assoc]
  | remove =>
    have hpos : 0 < s.q.count := by
      have : s.q.count ≠ 0 := by simpa [Call.blocked] using hb
      omega
    refine ⟨Nat.mod_lt _ (by decide), ?_, ?_, ?_⟩
    · change s.q.rear = ((s.q.front + 1) % queueSize + (s.q.count - 1)) % queueSize
      rw [hrear, Nat.mod_add_mod]
      congr 1
      omega
    · change s.q.count - 1 ≤ queueSize
      omega
    · change s.stored = (s.returned ++ [s.q.queue s.q.front]) ++ s.q.take.live
      rw [h.stored_eq, live_take h.front_lt hpos, List.append_assoc, List.singleton_append]

theorem ordered_step (s : State T) (a : Action T) (s' : State T) (hE : Excl s) (h : Ordered s)
    (hs : step s a = some s') : Ordered s' := by
  cases step_cases hs with
  | body hpc hd => exact ordered_body hE h hpc
  | _ => exact ⟨h.front_lt, h.rear_eq, h.count_le, h.stored_eq⟩

/-! ### The owners of the open connections -/

/-- The socket that a thread has in hand. -/
def Pc.socket : Pc → Option ℕ
  | .lock (.add fd) | .test (.add fd) | .wait (.add fd) | .body (.add fd) => some fd
  | .unlock ret => ret
  | .serve fd => some fd
  | _ => none

/-- The socket that a worker got from the queue and has not closed. -/
def Pc.serving : Pc → Option ℕ
  | .unlock ret => ret
  | .serve fd => some fd
  | _ => none

/-- The socket in hand of a thread, or in the `k`-th stored position while it is not returned. -/
def holds (s : State T) : T ⊕ ℕ → Option ℕ
  | .inl t => (s.pc t).socket
  | .inr k => if k < s.returned.length then none else s.stored[k]?

/-- Every open connection has one owner; the connections taken from the queue are all different,
and each is closed or still with the worker that took it. -/
structure Owned (s : State T) : Prop where
  custody : Custody s.sockets (holds s)
  taken : ∀ t c, (t, c) ∈ s.removedBy ↔
    (t, c) ∈ s.closedBy ∨ ∃ fd, (s.pc t).serving = some fd ∧ s.sockets.conn fd = some c
  closed_eq : s.closedBy.map Prod.snd = s.sockets.closed
  removed_nodup : (s.removedBy.map Prod.snd).Nodup

theorem socket_of_serving {p : Pc} {fd : ℕ} (h : p.serving = some fd) : p.socket = some fd := by
  cases p with
  | unlock ret => exact h
  | serve fd' => exact h
  | _ => cases h

omit [DecidableEq T] in
theorem owned_start (q : ClientQueue T) : Owned (start q) where
  custody := by
    have : holds (start q) = fun _ => none := by
      funext o
      rcases o with t | k
      · rfl
      · simp [holds, start]
    rw [this]
    exact Custody.init
  taken t c := by simp [start, Pc.serving]
  closed_eq := rfl
  removed_nodup := List.nodup_nil

section Steps

variable {s : State T} {t : T} {p : Pc} {fd c : ℕ}

/-- A move after which `t` has another socket in hand, or none. -/
theorem holds_goto_update :
    holds (s.goto t p) = Function.update (holds s) (.inl t) p.socket := by
  funext o
  rcases o with u | k
  · by_cases e : u = t
    · subst e; simp only [holds, goto_pc_self, Function.update_self]
    · rw [Function.update_of_ne (by simpa using e)]
      simp only [holds, goto_pc_of_ne s p e]
  · rw [Function.update_of_ne Sum.inr_ne_inl]; rfl

/-- A move with the same socket in hand. -/
theorem holds_goto (hp : p.socket = (s.pc t).socket) : holds (s.goto t p) = holds s := by
  have hself : p.socket = holds s (.inl t) := hp
  rw [holds_goto_update, hself, Function.update_eq_self]

theorem serving_goto (hp : p.serving = (s.pc t).serving) (u : T) :
    ((s.goto t p).pc u).serving = (s.pc u).serving := by
  apply goto_forall (P := fun u p => p.serving = (s.pc u).serving)
  · exact hp
  · intro u _
    rfl

theorem Owned.goto (h : Owned s) (hp : p.socket = (s.pc t).socket)
    (hp' : p.serving = (s.pc t).serving) : Owned (s.goto t p) where
  custody := by rw [holds_goto hp]; exact h.custody
  taken u c := by rw [serving_goto hp' u]; exact h.taken u c
  closed_eq := h.closed_eq
  removed_nodup := h.removed_nodup

omit [DecidableEq T] in
/-- The queue itself is not read. -/
theorem Owned.frame (h : Owned s) (q : ClientQueue T) : Owned { s with q := q } :=
  ⟨h.custody, h.taken, h.closed_eq, h.removed_nodup⟩

omit [DecidableEq T] in
/-- A worker's socket is open. -/
theorem Owned.conn_of_serving (h : Owned s) (hfd : (s.pc t).serving = some fd) :
    ∃ c, s.sockets.conn fd = some c :=
  h.custody.isOpen (o := .inl t) (socket_of_serving hfd)

theorem owned_accept {S : Sockets} (h : Owned s) (hpc : s.pc t = .idle)
    (hS : s.sockets.accept fd = some S) :
    Owned { s.goto t (.lock (.add fd)) with sockets := S } := by
  obtain ⟨c, -, hfd, hconn, hclosed⟩ := Sockets.accept_cases hS
  refine ⟨?_, fun u d => ?_, ?_, h.removed_nodup⟩
  · have hh : holds { s.goto t (.lock (.add fd)) with sockets := S }
        = Function.update (holds s) (.inl t) (some fd) := holds_goto_update
    rw [hh]
    exact h.custody.accept (by simp only [holds, hpc, Pc.socket]) hfd hconn
  · -- nobody serves the descriptor that `accept` returns, since it was not open
    have hne : ∀ fd', (s.pc u).serving = some fd' → fd' ≠ fd := by
      rintro fd' hs rfl
      obtain ⟨e, he⟩ := h.conn_of_serving hs
      rw [hfd] at he; cases he
    change (u, d) ∈ s.removedBy ↔ (u, d) ∈ s.closedBy ∨
      ∃ fd', ((s.goto t (.lock (.add fd))).pc u).serving = some fd' ∧ S.conn fd' = some d
    rw [h.taken u d]
    refine or_congr_right (exists_congr fun fd' => ?_)
    rw [serving_goto (by rw [hpc]; rfl), hconn]
    refine and_congr_right fun hs => ?_
    rw [Function.update_of_ne (hne fd' hs)]
  · change s.closedBy.map Prod.snd = S.closed
    rw [hclosed, h.closed_eq]

theorem holds_store (hO : Ordered s) (d : Cond T) :
    holds (s.body t d (.add fd))
      = Function.update (Function.update (holds s) (.inl t) none) (.inr s.stored.length)
          (some fd) := by
  have hlen : s.returned.length ≤ s.stored.length := by
    rw [hO.stored_eq, List.length_append]; omega
  funext o
  rcases o with u | k
  · have hmove : holds (s.goto t (.unlock none)) (.inl u)
        = Function.update (holds s) (.inl t) none (.inl u) := congrFun holds_goto_update _
    rw [Function.update_of_ne Sum.inl_ne_inr, ← hmove]
    rfl
  · change (if k < s.returned.length then none else (s.stored ++ [fd])[k]?) = _
    by_cases e : k = s.stored.length
    · subst e
      rw [Function.update_self, if_neg (by omega), List.getElem?_concat_length]
    · rw [Function.update_of_ne (by simpa using e), Function.update_of_ne Sum.inr_ne_inl]
      simp only [holds]
      congr 1
      by_cases hk : k < s.stored.length
      · rw [List.getElem?_append_left hk]
      · rw [List.getElem?_eq_none (by simp; omega), List.getElem?_eq_none (by omega)]

theorem owned_store {d : Cond T} (hO : Ordered s) (h : Owned s)
    (hpc : s.pc t = .body (.add fd)) : Owned (s.body t d (.add fd)) where
  custody := by
    rw [holds_store hO]
    refine h.custody.transfer (by simp only [holds, hpc, Pc.socket]) ?_ rfl
    simp only [holds, List.getElem?_eq_none le_rfl, ite_self]
  taken u c := by
    change (u, c) ∈ s.removedBy ↔ (u, c) ∈ s.closedBy ∨
      ∃ fd', ((s.goto t (.unlock none)).pc u).serving = some fd' ∧ s.sockets.conn fd' = some c
    rw [serving_goto (by rw [hpc]; rfl)]
    exact h.taken u c
  closed_eq := h.closed_eq
  removed_nodup := h.removed_nodup

theorem holds_take (hO : Ordered s) (hpos : 0 < s.q.count) (d : Cond T) :
    holds s (.inr s.returned.length) = some (s.q.queue s.q.front) ∧
    holds (s.body t d .remove)
      = Function.update (Function.update (holds s) (.inr s.returned.length) none) (.inl t)
          (some (s.q.queue s.q.front)) := by
  have hstored := hO.stored_eq
  rw [live_take hO.front_lt hpos] at hstored
  refine ⟨?_, ?_⟩
  · simp [holds, hstored]
  funext o
  rcases o with u | k
  · have hmove : holds (s.goto t (.unlock (some (s.q.queue s.q.front)))) (.inl u)
        = Function.update (holds s) (.inl t) (some (s.q.queue s.q.front)) (.inl u) :=
      congrFun holds_goto_update _
    rw [Function.update_comm Sum.inr_ne_inl, Function.update_of_ne Sum.inl_ne_inr, ← hmove]
    rfl
  · rw [Function.update_of_ne Sum.inr_ne_inl]
    change (if k < (s.returned ++ [s.q.queue s.q.front]).length then none else s.stored[k]?) = _
    rw [List.length_append, List.length_singleton]
    by_cases e : k = s.returned.length
    · subst e
      rw [Function.update_self, if_pos (Nat.lt_succ_self _)]
    · rw [Function.update_of_ne (by simpa using e)]
      simp only [holds]
      split_ifs <;> first | rfl | omega

theorem owned_take {d : Cond T} (hE : Excl s) (hO : Ordered s) (h : Owned s)
    (hpc : s.pc t = .body .remove) : Owned (s.body t d .remove) := by
  have hpos : 0 < s.q.count := by
    have : s.q.count ≠ 0 := by simpa [Call.blocked] using hE.entered t .remove hpc
    omega
  obtain ⟨hcell, hholds⟩ := holds_take (t := t) hO hpos d
  obtain ⟨c, hc⟩ := h.custody.isOpen hcell
  have htag : s.tag t (s.q.queue s.q.front) = [(t, c)] := by simp [State.tag, hc]
  refine ⟨?_, fun u c' => ?_, h.closed_eq, ?_⟩
  · rw [hholds]
    exact h.custody.transfer hcell (by simp only [holds, hpc, Pc.socket]) rfl
  · change (u, c') ∈ s.removedBy ++ s.tag t (s.q.queue s.q.front) ↔ (u, c') ∈ s.closedBy ∨
      ∃ fd', ((s.goto t (.unlock (some (s.q.queue s.q.front)))).pc u).serving = some fd' ∧
        s.sockets.conn fd' = some c'
    rw [htag, List.mem_append, List.mem_singleton, Prod.mk.injEq, h.taken u c', or_assoc]
    refine or_congr_right ?_
    by_cases e : u = t
    · subst e
      rw [goto_pc_self, hpc]
      simp [Pc.serving, hc, eq_comm]
    · rw [goto_pc_of_ne s _ e]
      simp [e]
  · change ((s.removedBy ++ s.tag t (s.q.queue s.q.front)).map Prod.snd).Nodup
    rw [htag, List.map_append]
    refine List.nodup_append.2 ⟨h.removed_nodup, List.nodup_singleton _, ?_⟩
    rintro a ha b hb rfl
    obtain ⟨⟨u, c'⟩, hmem, rfl⟩ := List.mem_map.1 ha
    obtain rfl : c' = c := by simpa using hb
    -- an open connection that was taken before would have two owners
    rcases (h.taken u c').1 hmem with hcl | ⟨fd', hs, hc'⟩
    · refine s.sockets.conn_closed hc ?_
      rw [← h.closed_eq]
      exact List.mem_map.2 ⟨_, hcl, rfl⟩
    · obtain rfl := s.sockets.conn_inj hc' hc
      have := h.custody.inj (o := .inl u) (socket_of_serving hs) hcell
      cases this

theorem owned_close (h : Owned s) (hpc : s.pc t = .serve fd) :
    Owned { s.goto t .idle with
      sockets := s.sockets.close fd
      closedBy := s.closedBy ++ s.tag t fd } := by
  have hs : (s.pc t).serving = some fd := by rw [hpc]; rfl
  obtain ⟨c, hc⟩ := h.conn_of_serving hs
  obtain ⟨hconn, hclosed, -⟩ := Sockets.close_of_conn hc
  have htag : s.tag t fd = [(t, c)] := by simp [State.tag, hc]
  refine ⟨?_, fun u c' => ?_, ?_, h.removed_nodup⟩
  · have hh : holds { s.goto t .idle with
        sockets := s.sockets.close fd
        closedBy := s.closedBy ++ s.tag t fd } = Function.update (holds s) (.inl t) none :=
      holds_goto_update
    rw [hh]
    exact h.custody.close (socket_of_serving hs) hconn
  · change (u, c') ∈ s.removedBy ↔ (u, c') ∈ s.closedBy ++ s.tag t fd ∨
      ∃ fd', ((s.goto t .idle).pc u).serving = some fd' ∧ (s.sockets.close fd).conn fd' = some c'
    rw [htag, List.mem_append, List.mem_singleton, Prod.mk.injEq, h.taken u c', hconn, or_assoc]
    refine or_congr_right ?_
    by_cases e : u = t
    · subst e
      rw [goto_pc_self, hpc]
      simp [Pc.serving, hc, eq_comm]
    · -- another worker serves another descriptor
      rw [goto_pc_of_ne s _ e]
      simp only [e, false_and, false_or]
      refine exists_congr fun fd' => and_congr_right fun hs' => ?_
      rw [Function.update_of_ne]
      rintro rfl
      have : (Sum.inl u : T ⊕ ℕ) = Sum.inl t :=
        h.custody.inj (socket_of_serving hs') (socket_of_serving hs)
      exact e (Sum.inl.inj this)
  · change (s.closedBy ++ s.tag t fd).map Prod.snd = (s.sockets.close fd).closed
    rw [htag, hclosed, List.map_append, h.closed_eq]
    rfl

end Steps

theorem owned_step (s : State T) (a : Action T) (s' : State T) (hE : Excl s) (hO : Ordered s)
    (h : Owned s) (hs : step s a = some s') : Owned s' := by
  cases step_cases hs with
  | connect => exact ⟨h.custody.congr rfl, h.taken, h.closed_eq, h.removed_nodup⟩
  | accept hpc hS => exact owned_accept h hpc hS
  | acceptFailed => exact h
  | callRemove hpc => exact h.goto (by rw [hpc]; rfl) (by rw [hpc]; rfl)
  | @lock t c hpc hm =>
    exact (h.goto (p := .test c) (by rw [hpc]; cases c <;> rfl) (by rw [hpc]; rfl)).frame _
  | @wait t c hpc hb =>
    exact (h.goto (p := .wait c) (by rw [hpc]; cases c <;> rfl) (by rw [hpc]; rfl)).frame _
  | @enter t c hpc hb => exact h.goto (by rw [hpc]; cases c <;> rfl) (by rw [hpc]; rfl)
  | wake hpc ht => exact h.frame _
  | @relock t c hpc ht hm =>
    exact (h.goto (p := .test c) (by rw [hpc]; cases c <;> rfl) (by rw [hpc]; rfl)).frame _
  | @body t c d w hpc hd =>
    cases c with
    | add fd => exact owned_store hO h hpc
    | remove => exact owned_take hE hO h hpc
  | @unlock t ret hpc =>
    exact (h.goto (p := Pc.after ret) (by rw [hpc]; cases ret <;> rfl)
      (by rw [hpc]; cases ret <;> rfl)).frame _
  | echo => exact h
  | close hpc => exact owned_close h hpc

/-! ### Every reachable state -/

theorem invariants {q : ClientQueue T} {s : State T} (h : Reachable step (start q) s) :
    Excl s ∧ Ordered s ∧ Owned s :=
  h.invariant (I := fun s => Excl s ∧ Ordered s ∧ Owned s)
    (fun s a s' hI hs => ⟨excl_step s a s' hI.1 hs, ordered_step s a s' hI.1 hI.2.1 hs,
      owned_step s a s' hI.1 hI.2.1 hI.2.2 hs⟩)
    ⟨excl_start q, ordered_start q, owned_start q⟩

/-- **The queue server is first-in first-out and exclusive.**  The sockets returned are a prefix
of those stored and the rest is the live window of the ring; critical sections end in the order in
which their bodies run, since the mutex is held in between.  Every connection that was accepted is
closed or open with exactly one owner, no connection is taken from the queue twice, and a
connection is closed at most once, by the worker that took it. -/
theorem queue_fifo {q : ClientQueue T} {s : State T} (h : Reachable step (start q) s) :
    s.returned <+: s.stored ∧
    s.stored.drop s.returned.length = Ring.window s.q.queue queueSize s.q.front s.q.count ∧
    s.q.front < queueSize ∧ s.q.rear < queueSize ∧ s.q.count ≤ queueSize ∧
    (∀ c, c < s.sockets.next → c ∉ s.sockets.pending →
      c ∈ s.sockets.closed ∨ ∃ fd, s.sockets.conn fd = some c ∧ ∃! o, holds s o = some fd) ∧
    (s.removedBy.map Prod.snd).Nodup ∧
    s.closedBy.map Prod.snd = s.sockets.closed ∧ s.sockets.closed.Nodup ∧
    (∀ p ∈ s.closedBy, p ∈ s.removedBy) := by
  obtain ⟨-, hO, hW⟩ := invariants h
  refine ⟨⟨s.q.live, hO.stored_eq.symm⟩, ?_, hO.front_lt, ?_, hO.count_le, fun c hc hp => ?_,
    hW.removed_nodup, hW.closed_eq, s.sockets.closed_nodup, fun ⟨t, c⟩ hp => ?_⟩
  · rw [hO.stored_eq, List.drop_left]; rfl
  · rw [hO.rear_eq]; exact Nat.mod_lt _ (by decide)
  · rcases (s.sockets.lt_next c).1 hc with hp' | hcl | ⟨fd, hfd⟩
    · exact absurd hp' hp
    · exact Or.inl hcl
    · exact Or.inr ⟨fd, hfd, hW.custody.existsUnique hfd⟩
  · exact (hW.taken t c).2 (Or.inl hp)

/-- The thread `true` accepts two connections; the thread `false` takes the first and closes it. -/
def twoAddedOneServed : List (Action Bool) :=
  [.connect, .connect, .accept true 4, .lock true, .test true, .body true none, .unlock true,
    .accept true 5, .lock true, .test true, .body true none, .unlock true, .callRemove false,
    .lock false, .test false, .body false none, .unlock false, .echo false, .close false]

theorem queue_fifo_two_added :
    ∃ s, run step (start emptyQueue) twoAddedOneServed = some s ∧ s.returned = [4] ∧
      s.stored = [4, 5] ∧ s.sockets.closed = [0] ∧
      s.stored.drop s.returned.length = Ring.window s.q.queue queueSize s.q.front s.q.count := by
  obtain ⟨s, hs, hf⟩ := Option.map_eq_some_iff.1
    (show (run step (start emptyQueue) twoAddedOneServed).map
        (fun s => (s.returned, s.stored, s.sockets.closed)) = some ([4], [4, 5], [0]) by decide)
  simp only [Prod.mk.injEq] at hf
  obtain ⟨hr, hst, hcl⟩ := hf
  exact ⟨s, hs, hr, hst, hcl, (queue_fifo ⟨_, hs⟩).2.1⟩

end QueueServer
end PosixHw
