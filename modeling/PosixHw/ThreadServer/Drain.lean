import PosixHw.Base.Leads
import PosixHw.ThreadServer.Owners

/-!
# The server with one thread per connection: what is left open

Until this server ends, nothing stops it: whatever has happened, the threads can go on until every
client has been served (`leads_drained`).  But `main` forgets a descriptor each time
`pthread_create` fails, and no step closes it any more.  `open_iff_lost` says that these are the
only ones that are left: when all threads have returned and nobody is waiting, the open connections
are the forgotten ones, and the only live cell is the one that `main` has allocated for the next
client.
-/

namespace PosixHw
namespace ThreadServer

open Run Ending

/-- The steps of the threads whose system calls succeed. -/
def Action.drains : Action → Bool
  | .malloc _ | .accept _ | .create | .load _ | .free _ | .close _ | .ret _ => true
  | .connect | .acceptFailed | .createFailed | .echo _ => false

def drain (s : State) (a : Action) : Option State := if a.drains then step s a else none

/-- `main` waits for a client, and there is none; all threads have returned. -/
structure Drained (s : State) : Prop where
  main : ∃ p, s.main = .accept p
  pending : s.sockets.pending = []
  workers : ∀ w ∈ s.workers, w.pc = .done

/-- What is left to do. -/
def MainPc.effort : MainPc → ℕ
  | .accept _ => 0
  | .malloc => 1
  | .create _ _ => 6
def WorkerPc.effort : WorkerPc → ℕ
  | .load => 4
  | .free _ => 3
  | .serve _ => 2
  | .ret => 1
  | .done => 0
def State.effort (s : State) : ℕ :=
  7 * s.sockets.pending.length + s.main.effort + (s.workers.map fun w => w.pc.effort).sum

section Drain

variable {s t : State} {a : Action} {i : ℕ} {w : Worker}

theorem drain_eq (ha : a.drains = true) (hs : step s a = some t) : drain s a = some t :=
  (if_pos ha).trans hs

theorem step_of_drain (h : drain s a = some t) : a.drains = true ∧ step s a = some t :=
  Option.ite_none_right_eq_some.1 h

/-- No descriptor is forgotten meanwhile. -/
theorem lost_drain (h : drain s a = some t) : t.lost = s.lost := by
  obtain ⟨ha, hs⟩ := step_of_drain h
  cases step_cases hs with
  | createFailed => cases ha
  | connect | malloc | accept | acceptFailed | create | load | free | echo | close | ret => rfl

theorem closeSock_pending (S : Sockets) (sock : Option ℕ) :
    (closeSock S sock).pending = S.pending := by
  cases sock with
  | none => rfl
  | some fd => exact Sockets.close_pending fd

theorem effort_worker {p : WorkerPc} (hi : s.workers[i]? = some w)
    (hpending : t.sockets.pending = s.sockets.pending) (hm : t.main = s.main)
    (hw : t.workers = s.workers.set i { w with pc := p }) (hp : p.effort < w.pc.effort) :
    t.effort < s.effort := by
  have hsum := Lists.sum_map_set (w := fun w : Worker => w.pc.effort) (b := { w with pc := p }) hi
  simp only at hsum
  rw [State.effort, State.effort, hpending, hm, hw]
  omega

/-- A worker that has not returned can go on. -/
theorem exists_drain_worker (hi : s.workers[i]? = some w) (hw : w.pc ≠ .done) :
    ∃ a t, drain s a = some t ∧ t.effort < s.effort := by
  obtain ⟨p, c, pc⟩ := w
  cases pc with
  | load =>
    refine ⟨.load i, _, drain_eq rfl (by simp only [step, hi]; rfl), ?_⟩
    exact effort_worker hi rfl rfl rfl (Nat.lt_succ_self 3)
  | free sock =>
    refine ⟨.free i, { s.put i ⟨p, c, .serve sock⟩ with heap := s.heap.free p },
      drain_eq rfl (by simp only [step, hi]), ?_⟩
    exact effort_worker hi rfl rfl rfl (Nat.lt_succ_self 2)
  | serve sock =>
    refine ⟨.close i, _, drain_eq rfl (by simp only [step, hi]; rfl), ?_⟩
    exact effort_worker hi (closeSock_pending _ _) rfl rfl (Nat.lt_succ_self 1)
  | ret =>
    refine ⟨.ret i, _, drain_eq rfl (by simp only [step, hi]; rfl), ?_⟩
    exact effort_worker hi rfl rfl rfl (Nat.lt_succ_self 0)
  | done => exact absurd rfl hw

/-- **Some step is possible until there is nothing left to do.** -/
theorem exists_drain (hnot : ¬ Drained s) : ∃ a t, drain s a = some t ∧ t.effort < s.effort := by
  cases hm : s.main with
  | malloc =>
    obtain ⟨p, H, hH⟩ := s.heap.exists_malloc
    refine ⟨.malloc p, { s with heap := H, main := .accept p },
      drain_eq rfl (by simp only [step, hm, hH, Option.map_some]), ?_⟩
    simp only [State.effort, hm, MainPc.effort]
    omega
  | create p c =>
    refine ⟨.create, _, drain_eq rfl (by simp only [step, hm]; rfl), ?_⟩
    simp only [State.effort, hm, MainPc.effort, List.map_append, List.map_singleton,
      List.sum_append, List.sum_singleton, WorkerPc.effort]
    omega
  | accept p =>
    cases hp : s.sockets.pending with
    | cons c rest =>
      obtain ⟨fd, S, hS, -⟩ := Sockets.exists_accept hp
      obtain ⟨d, hd, -⟩ := Sockets.accept_cases hS
      refine ⟨.accept fd, _, drain_eq rfl (by simp only [step, hm, hS, Option.map_some]; rfl), ?_⟩
      rw [State.effort, State.effort, hd, hm, List.length_cons]
      simp only [MainPc.effort]
      omega
    | nil =>
      -- `main` waits for clients; the threads come to their end
      by_cases hw : ∀ w ∈ s.workers, w.pc = .done
      · exact absurd ⟨⟨p, hm⟩, hp, hw⟩ hnot
      · push Not at hw
        obtain ⟨w, hmem, hne⟩ := hw
        obtain ⟨i, hi⟩ := List.mem_iff_getElem?.1 hmem
        exact exists_drain_worker hi hne

end Drain

theorem leads_drained : Leads drain (fun _ => True) Drained := by
  apply Leads.of_measure State.effort
  intro s _ hnot
  obtain ⟨a, t, hstep, hlt⟩ := exists_drain hnot
  exact ⟨t, (Reachable.refl s).tail hstep, trivial, hlt⟩

/-! ### What is left -/

section Drained

variable {s : State} {fd q : ℕ}

/-- Nobody but the list of the forgotten holds a descriptor. -/
theorem Drained.holds_iff (hd : Drained s) (h : Inv s) :
    (∃ c, s.sockets.conn fd = some c) ↔ some fd ∈ s.lost := by
  obtain ⟨p, hm⟩ := hd.main
  constructor
  · rintro ⟨c, hc⟩
    obtain ⟨o, ho⟩ := h.sockets.held hc
    rcases o with (_ | i) | i
    · rw [holds, hm] at ho
      cases ho
    · obtain ⟨w, hi, hsocket⟩ := Option.bind_eq_some_iff.1 ho
      rw [Worker.socket, hd.workers w (List.mem_of_getElem? hi)] at hsocket
      cases hsocket
    · obtain ⟨sock, hi, rfl⟩ := Option.bind_eq_some_iff.1 ho
      exact List.mem_of_getElem? hi
  · intro hmem
    obtain ⟨i, hi⟩ := List.mem_iff_getElem?.1 hmem
    exact h.sockets.isOpen (o := .inr i) (by rw [holds, hi]; rfl)

/-- No descriptor has been forgotten twice: it is still open. -/
theorem Inv.lost_nodup (h : Inv s) : s.lost.Nodup := by
  rw [List.nodup_iff_getElem?_ne_getElem?]
  intro i j hij hj heq
  obtain ⟨sock, hsock⟩ : ∃ sock, s.lost[j]? = some sock := ⟨_, List.getElem?_eq_getElem hj⟩
  obtain ⟨fd, rfl⟩ := h.forgotten sock (List.mem_of_getElem? hsock)
  have hi : holds s (.inr i) = some fd := by rw [holds, heq, hsock]; rfl
  have hj : holds s (.inr j) = some fd := by rw [holds, hsock]; rfl
  exact hij.ne (Sum.inr_injective (h.sockets.inj hi hj))

/-- Only `main` has a cell. -/
theorem Drained.cell_iff (hd : Drained s) (h : Inv s) :
    (∃ n, s.heap.live q = some n) ↔ s.main = .accept q := by
  obtain ⟨p, hm⟩ := hd.main
  constructor
  · rintro ⟨n, hn⟩
    obtain ⟨o, ho⟩ := h.cells.held hn
    cases o with
    | main =>
      rw [cell, hm] at ho
      cases ho
      exact hm
    | worker i =>
      obtain ⟨w, hi, hcell⟩ := Option.bind_eq_some_iff.1 ho
      rw [Worker.cell, hd.workers w (List.mem_of_getElem? hi)] at hcell
      cases hcell
  · intro hq
    exact h.cells.isLive (o := .main) (by rw [cell, hq]; rfl)

end Drained

/-- What ends the server happens to a thread that is serving. -/
theorem Drained.not_fatal {s : State} (h : Drained s) (e : ℕ × Cause) : fatal s e = false := by
  cases hfatal : fatal s e with
  | false => rfl
  | true =>
    simp only [fatal] at hfatal
    split at hfatal
    · rename_i hi
      cases h.workers _ (List.mem_of_getElem? hi)
    · cases hfatal

/-- **What is left open.**  After every run the threads can go on, by steps of their own, until
every client has been served, exactly if the server has not ended.  Whenever they have done so, the
connections that are open are those that `main` has forgotten, one for each failure of
`pthread_create`; and the only cell that is live is the one for the next client. -/
theorem open_iff_lost {junk : ℕ → Option ℕ} {es : List (Event Action (ℕ × Cause))}
    {p : Process State (ℕ × Cause)} (h : run process (.init (start junk)) es = some p) :
    ((∃ t, Reachable (alive drain) p t ∧ Drained t.state) ↔ p.ended = none) ∧
      ∀ t, Reachable (alive drain) p t → Drained t.state →
        (∀ fd, (∃ c, t.state.sockets.conn fd = some c) ↔ some fd ∈ t.state.lost) ∧
          t.state.lost.Nodup ∧ t.state.lost.length = es.count (.act .createFailed) ∧
          ∀ q, (∃ n, t.state.heap.live q = some n) ↔ t.state.main = .accept q := by
  obtain ⟨hrun, hfatal⟩ := run_spec h
  constructor
  · have hnot : ∀ e, p.ended = some e → ¬ Drained p.state := fun e he hd =>
      Bool.false_ne_true ((hd.not_fatal e).symm.trans (hfatal e he))
    rw [reaches_iff hnot]
    obtain ⟨t, hr, -, ht⟩ := leads_drained p.state trivial
    exact and_iff_left ⟨t, hr, ht⟩
  · intro t hr hd
    obtain ⟨hinv, hlost⟩ : Inv t.state ∧ t.state.lost = p.state.lost :=
      (reachable_state hr).invariant (I := fun u => Inv u ∧ u.lost = p.state.lost)
        (fun u a v hu hs =>
          ⟨inv_step u a v hu.1 (step_of_drain hs).2, (lost_drain hs).trans hu.2⟩)
        ⟨inv_of_run hrun, rfl⟩
    have hcount : p.state.lost.length = es.count (.act .createFailed) := by
      rw [run_countP (f := fun s => s.lost.length) (fun _ _ _ => lost_step) hrun, ← count_action]
      exact Nat.zero_add _
    exact ⟨fun fd => hd.holds_iff hinv, hinv.lost_nodup, hlost ▸ hcount,
      fun q => hd.cell_iff hinv⟩

/-- A client for whom there is no thread, and another one. -/
def failFirst : List Action := [.connect, .connect, .malloc 0, .accept 5, .createFailed]

theorem open_iff_lost_failFirst :
    ∃ p t, run process (.init (start fun _ => none)) (failFirst.map .act) = some p ∧
      Reachable (alive drain) p t ∧ Drained t.state ∧ t.state.lost.length = 1 := by
  obtain ⟨p, hp, hended⟩ := Option.map_eq_some_iff.1
    (show (run process (.init (start fun _ => none)) (failFirst.map .act)).map
      (fun p => p.ended) = some none by decide)
  obtain ⟨hiff, hall⟩ := open_iff_lost hp
  obtain ⟨t, hr, hd⟩ := hiff.2 hended
  exact ⟨p, t, hp, hr, hd, (hall t hr hd).2.2.1⟩

end ThreadServer
end PosixHw
