import PosixHw.Base.Lists
import PosixHw.PoolServer.Slots
import PosixHw.ThreadServer.Basic

/-!
# Threads that have returned

A thread that has returned keeps its stack and its identifier until another thread joins it, unless
it is detached.  Neither the server with one thread per connection nor the one with a pool joins or
detaches any: their threads are created joinable, and the variable with the identifier is written
over when the next one is created.  So the dead threads are counted by the returns, and the number
of slots bounds the threads that are running, not those.
-/

namespace PosixHw

open Run Lists

namespace ThreadServer

def Worker.returned (w : Worker) : Bool := w.pc == .done

/-- The threads that have returned; none of them has been joined or detached. -/
def State.dead (s : State) : ℕ := s.workers.countP Worker.returned

/-- A worker returns. -/
def Action.returns : Action → Bool
  | .ret _ => true
  | _ => false

theorem dead_step (s : State) (a : Action) (s' : State) (hs : step s a = some s') :
    s'.dead = s.dead + [a].countP Action.returns := by
  cases step_cases hs with
  | create hm => exact List.countP_append
  | load hi | free hi | close hi => exact countP_set_of_not hi rfl
  | ret hi => exact countP_set_of_not hi rfl
  | connect | malloc | accept | acceptFailed | createFailed | echo => rfl

/-- `main` is about to allocate a cell, and the first address is free. -/
structure Idle (s : State) : Prop where
  main : s.main = .malloc
  live : s.heap.live 0 = none

/-- Another client may come and go. -/
theorem Idle.serve {s : State} (h : Idle s) :
    ∃ as s', run step s as = some s' ∧ Idle s' ∧ s'.dead = s.dead + 1 := by
  obtain ⟨hmain, hlive⟩ := h
  obtain ⟨c, rest, hp⟩ : ∃ c rest, s.sockets.connect.pending = c :: rest :=
    List.exists_cons_of_ne_nil (List.append_ne_nil_of_right_ne_nil _ (List.cons_ne_nil _ _))
  obtain ⟨fd, S, hS, -⟩ := Sockets.exists_accept hp
  obtain ⟨H, hH⟩ : ∃ H, s.heap.malloc 0 = some H := ⟨_, dif_pos hlive⟩
  obtain ⟨-, hlive', -, -⟩ := Heap.malloc_cases hH
  set n := s.workers.length with hn
  let t : State :=
    { main := .malloc
      workers := s.workers ++ [⟨0, S.conn fd, .done⟩]
      heap := ((H.store 0 (some fd)).access 0).free 0
      sockets := S.close fd
      lost := s.lost }
  have hrun : run step s [.connect, .malloc 0, .accept fd, .create, .load n, .free n, .close n,
      .ret n] = some t := by
    simp [run, step, State.put, closeSock, hmain, hS, hH, hn, t]
  refine ⟨_, t, hrun, ⟨rfl, ?_⟩, ?_⟩
  · have hcell : ((H.store 0 (some fd)).access 0).live 0 = some s.heap.next := by
      show H.live 0 = _
      rw [hlive', Function.update_self]
    show (((H.store 0 (some fd)).access 0).free 0).live 0 = none
    rw [(Heap.free_of_live hcell).1, Function.update_self]
  · exact run_countP dead_step hrun

/-- There is no bound for all runs. -/
theorem dead_unbounded (n : ℕ) :
    ∃ as s, run step (start fun _ => none) as = some s ∧ Idle s ∧ s.dead = n := by
  induction n with
  | zero => exact ⟨[], _, rfl, ⟨rfl, rfl⟩, rfl⟩
  | succ n ih =>
    obtain ⟨as, s, hs, hidle, hdead⟩ := ih
    obtain ⟨bs, t, ht, hidle', hdead'⟩ := hidle.serve
    exact ⟨as ++ bs, t, run_append_eq_some.2 ⟨s, hs, ht⟩, hidle', by rw [hdead', hdead]⟩

end ThreadServer

namespace PoolServer

def Worker.returned (w : Worker) : Bool := w.pc == .done

/-- The threads that have returned; none of them has been joined or detached. -/
def State.dead (s : State) : ℕ := s.workers.countP Worker.returned

/-- A worker returns. -/
def Action.returns : Action → Bool
  | .free _ => true
  | _ => false

theorem dead_step (s : State) (a : Action) (s' : State) (hs : step s a = some s') :
    s'.dead = s.dead + [a].countP Action.returns := by
  cases step_cases hs with
  | create hm => exact List.countP_append
  | close hi hw | workerLock hi hw | write hi hw | workerUnlock hi hw | free hi hw =>
    exact countP_set_of_not hi (by rw [Worker.returned, hw]; rfl)
  | _ => rfl

end PoolServer

/-- **How many dead threads there are.** In a run of either server there are at most `k` of them at
all times exactly if at most `k` threads have returned, that is, as long as no more than `k`
connections have been served. -/
theorem dead_le_iff (k : ℕ) :
    (∀ junk as s, run ThreadServer.step (ThreadServer.start junk) as = some s →
      ((∀ bs t, bs <+: as → run ThreadServer.step (ThreadServer.start junk) bs = some t →
        t.dead ≤ k) ↔ as.countP ThreadServer.Action.returns ≤ k)) ∧
    ∀ as s, run PoolServer.step PoolServer.start as = some s →
      ((∀ bs t, bs <+: as → run PoolServer.step PoolServer.start bs = some t → t.dead ≤ k) ↔
        as.countP PoolServer.Action.returns ≤ k) := by
  constructor
  · intro junk as s h
    have hiff := run_countP_le_iff (k := k) ThreadServer.dead_step h
    have hnone : (ThreadServer.start junk).dead = 0 := rfl
    rwa [hnone, Nat.zero_add] at hiff
  · intro as s h
    have hiff := run_countP_le_iff (k := k) PoolServer.dead_step h
    have hnone : PoolServer.start.dead = 0 := rfl
    rwa [hnone, Nat.zero_add] at hiff

/-- Six clients of the pool, one after the other. -/
def serveSix : List PoolServer.Action :=
  (List.range 6).flatMap fun i => [.connect, .accept 5, .lock, .test, .take, .unlock, .create,
    .close i, .workerLock i, .write i, .workerUnlock i, .free i, .read, .lockReturn, .put none,
    .unlockReturn]

theorem dead_serveSix :
    ∃ s, run PoolServer.step PoolServer.start serveSix = some s ∧ s.dead = 6 :=
  Option.map_eq_some_iff.1
    (show (run PoolServer.step PoolServer.start serveSix).map (fun s => s.dead) = some 6 by
      decide +kernel)

theorem dead_le_iff_serveSix :
    ∃ s, run PoolServer.step PoolServer.start serveSix = some s ∧ s.dead = 6 ∧
      ((∀ bs t, bs <+: serveSix → run PoolServer.step PoolServer.start bs = some t → t.dead ≤ 6) ↔
        serveSix.countP PoolServer.Action.returns ≤ 6) := by
  obtain ⟨s, hs, hf⟩ := dead_serveSix
  exact ⟨s, hs, hf, (dead_le_iff 6).2 _ s hs⟩

/-- No number bounds the dead threads of the first server, and after six clients the pool has more
of them than it has slots. -/
theorem dead_accumulate :
    (¬ ∃ k, ∀ as s, run ThreadServer.step (ThreadServer.start fun _ => none) as = some s →
      s.dead ≤ k) ∧
    ¬ ∀ as s, run PoolServer.step PoolServer.start as = some s →
      s.dead ≤ PoolServer.maxThreads := by
  constructor
  · rintro ⟨k, hk⟩
    obtain ⟨as, s, hs, -, hdead⟩ := ThreadServer.dead_unbounded (k + 1)
    have hle := hk as s hs
    omega
  · intro hall
    obtain ⟨s, hs, hf⟩ := dead_serveSix
    have hle := hall serveSix s hs
    rw [hf] at hle
    exact absurd hle (by decide)

end PosixHw
