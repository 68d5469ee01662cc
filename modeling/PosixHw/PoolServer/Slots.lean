import PosixHw.PoolServer.Basic

/-!
# The thread-pool server: where the slot numbers are

Each slot number is in the stack, held by `main`, held by a worker that has not yet written it, in
the pipe, or dropped (`Slots.tally`).  Nothing but the failure branch of `pthread_create` drops a
number: `slots_conserved` says that the first four places hold every number exactly once for as
long as that branch has not been left, and that from then on they never do again.

`pool_exclusive` holds of every run, failures included: no slot number is in use twice, all array
indices are in range, and every open connection has exactly one owner.
-/

namespace PosixHw
namespace PoolServer

open Run

/-- The slot numbers `0, …, MAX_THREADS - 1`. -/
def slotIds : List ℤ := (List.range maxThreads).map Int.ofNat

/-- The live part of the stack, `available_threads[0..thread_count)`. -/
def State.avail (s : State) : List ℤ :=
  (List.range s.threadCount.toNat).map fun i : ℕ => s.availableThreads i

/-- The slot number that `main` holds. -/
def MainPc.ids : MainPc → List ℤ
  | .unlock _ id | .create _ id | .failed _ id | .lockReturn id | .put id => [id]
  | _ => []

/-- The slot number of a worker that has not yet written it to the pipe. -/
def Worker.unwritten (w : Worker) : Option ℤ :=
  match w.pc with
  | .serve | .lock | .write => some w.id
  | _ => none

/-- The slot numbers of the unfinished workers. -/
def State.unfinished (s : State) : List ℤ := s.workers.filterMap Worker.unwritten

/-- Everything that is in one of the four places. -/
def State.places (s : State) : List ℤ := s.avail ++ s.main.ids ++ s.unfinished ++ s.pipe

/-- The bookkeeping of the slot numbers. -/
structure Slots (s : State) : Prop where
  tally : ∀ id, s.places.count id + s.dropped.count id = slotIds.count id
  nonneg : 0 ≤ s.threadCount
  taking : ∀ fd, s.main = .take fd → s.threadCount ≠ 0
  waiting : ∀ fd, s.main = .wait fd → s.threadCount = 0
  phase : (s.unfinished ++ s.pipe).length = if s.main = .read then 1 else 0
  asleep : .main ∈ s.cond.sleeping ∪ s.cond.woken ↔ ∃ fd, s.main = .wait fd
  onlyMain : ∀ t ∈ s.cond.sleeping, t = .main

theorem slots_start : Slots start where
  tally id := by
    have : start.places = slotIds := by decide
    rw [this]
    rfl
  nonneg := by decide
  taking fd h := by cases h
  waiting fd h := by cases h
  phase := rfl
  asleep := by simp [start]
  onlyMain := by simp [start]

/-! ### The stack -/

theorem avail_take {s : State} (hpos : 0 < s.threadCount) (m : MainPc) :
    s.avail = { s with threadCount := s.threadCount - 1, main := m }.avail
      ++ [s.availableThreads (s.threadCount - 1)] := by
  obtain ⟨n, hn⟩ : ∃ n : ℕ, s.threadCount = n + 1 := ⟨(s.threadCount - 1).toNat, by omega⟩
  have h₁ : ((n : ℤ) + 1).toNat = n + 1 := by omega
  simp only [State.avail, hn, h₁, add_sub_cancel_right, Int.toNat_natCast, List.range_succ,
    List.map_append, List.map_singleton]

theorem avail_put {s : State} (hpos : 0 ≤ s.threadCount) (id : ℤ) (c : Cond Thr) (m : MainPc) :
    { s with
      availableThreads := Function.update s.availableThreads s.threadCount id
      threadCount := s.threadCount + 1
      cond := c
      main := m }.avail = s.avail ++ [id] := by
  obtain ⟨n, hn⟩ : ∃ n : ℕ, s.threadCount = n := ⟨s.threadCount.toNat, by omega⟩
  have h₁ : ((n : ℤ) + 1).toNat = n + 1 := by omega
  simp only [State.avail, hn, h₁, Int.toNat_natCast, List.range_succ, List.map_append,
    List.map_singleton, Function.update_self]
  congr 1
  refine List.map_congr_left fun i hi => ?_
  have : i < n := List.mem_range.1 hi
  rw [Function.update_of_ne]
  omega

/-! ### The workers -/

theorem slots_write {s : State} {i : ℕ} {w : Worker} (h : Slots s)
    (hi : s.workers[i]? = some w) (hw : w.pc = .write) :
    Slots { s with
      workers := s.workers.set i { w with pc := .unlock }
      pipe := s.pipe ++ [w.id] } := by
  have hperm : s.unfinished.Perm
      (w.id :: (s.workers.set i { w with pc := .unlock }).filterMap Worker.unwritten) :=
    Lists.filterMap_set_none hi (by simp [Worker.unwritten, hw]) rfl
  refine ⟨fun id => ?_, h.nonneg, h.taking, h.waiting, ?_, h.asleep, h.onlyMain⟩
  · have ht := h.tally id
    have hc := hperm.count_eq id
    simp only [State.places, List.count_append, List.count_cons, List.count_nil, State.unfinished,
      State.avail] at ht hc ⊢
    omega
  · have hp := h.phase
    have hl := hperm.length_eq
    simp only [State.unfinished, List.length_append, List.length_cons, List.length_nil] at hp hl ⊢
    rw [← hp]
    omega

/-- A step of a worker that keeps its number, or has none to keep. -/
theorem Slots.setWorker {s : State} {i : ℕ} {w : Worker} {p : WorkerPc} {x : Option Thr}
    {S : Sockets} (h : Slots s) (hi : s.workers[i]? = some w)
    (hp : Worker.unwritten { w with pc := p } = w.unwritten) :
    Slots { s with
      workers := s.workers.set i { w with pc := p }
      mutex := x
      sockets := S } := by
  have hu : (s.workers.set i { w with pc := p }).filterMap Worker.unwritten = s.unfinished :=
    Lists.filterMap_set_of_eq hi hp
  refine ⟨fun id => ?_, h.nonneg, h.taking, h.waiting, ?_, h.asleep, h.onlyMain⟩
  · have := h.tally id
    simp only [State.places, State.unfinished, hu] at this ⊢
    exact this
  · simp only [State.unfinished, hu]
    exact h.phase

/-! ### The steps of main -/

section Main

variable {s : State} {fd : ℕ} {id : ℤ}

theorem Slots.notAsleep (h : Slots s) (hm : ∀ fd, s.main ≠ .wait fd) :
    .main ∉ s.cond.sleeping ∪ s.cond.woken := fun ha => by
  obtain ⟨fd, hfd⟩ := h.asleep.1 ha
  exact hm fd hfd

/-- `main` neither waits nor is about to read the pipe. -/
def MainPc.plain : MainPc → Bool
  | .read | .wait _ => false
  | _ => true

theorem MainPc.plain_spec {m : MainPc} (h : m.plain = true) : m ≠ .read ∧ ∀ fd, m ≠ .wait fd := by
  cases m <;> simp_all [MainPc.plain]

/-- A step of `main` that is no part of a wait and adds no worker: what is left is the bookkeeping
and the count. -/
theorem Slots.plain {s' : State} (h : Slots s) (hm : s.main.plain = true)
    (hm' : s'.main.plain = true) (hpend : s'.unfinished ++ s'.pipe = s.unfinished ++ s.pipe)
    (hcond : s'.cond.sleeping ∪ s'.cond.woken = s.cond.sleeping ∪ s.cond.woken)
    (hsleep : s'.cond.sleeping ⊆ s.cond.sleeping)
    (htally : ∀ id, s'.places.count id + s'.dropped.count id = slotIds.count id)
    (hnonneg : 0 ≤ s'.threadCount) (htake : ∀ fd, s'.main = .take fd → s'.threadCount ≠ 0) :
    Slots s' where
  tally := htally
  nonneg := hnonneg
  taking := htake
  waiting fd hw := absurd hw ((MainPc.plain_spec hm').2 fd)
  phase := by
    have hph := h.phase
    rw [if_neg (MainPc.plain_spec hm).1] at hph
    rw [if_neg (MainPc.plain_spec hm').1, hpend, hph]
  asleep := by
    rw [hcond]
    apply iff_of_false
    · exact h.notAsleep (MainPc.plain_spec hm).2
    · rintro ⟨fd, hw⟩
      exact (MainPc.plain_spec hm').2 fd hw
  onlyMain t ht := h.onlyMain t (hsleep ht)

/-- A step of `main` that keeps its number, or has none to keep, and is no part of a wait. -/
theorem Slots.goto {m : MainPc} {x : Option Thr} {S : Sockets} (h : Slots s)
    (hids : m.ids = s.main.ids) (hm : m.plain = true) (hm' : s.main.plain = true)
    (htake : ∀ fd, m = .take fd → s.threadCount ≠ 0) :
    Slots { s with main := m, mutex := x, sockets := S } := by
  refine h.plain hm' hm rfl rfl (Finset.Subset.refl _) (fun id => ?_) h.nonneg htake
  have ht := h.tally id
  simp only [State.places, State.avail, hids] at ht ⊢
  exact ht

theorem slots_wait (h : Slots s) (hm : s.main = .test fd) (hc : s.threadCount = 0) :
    Slots { s with mutex := none, cond := s.cond.wait .main, main := .wait fd } where
  tally id := by
    have := h.tally id
    simp only [State.places, State.avail, hm] at this ⊢
    exact this
  nonneg := h.nonneg
  taking fd' h' := by cases h'
  waiting _ _ := hc
  phase := by
    have := h.phase
    rw [hm] at this
    exact this
  asleep := iff_of_true (by simp) ⟨fd, rfl⟩
  onlyMain t ht := by
    rcases Finset.mem_insert.1 ht with rfl | ht
    · rfl
    · exact h.onlyMain t ht

theorem slots_relock (h : Slots s) (hm : s.main = .wait fd) (hw : .main ∈ s.cond.woken) :
    Slots { s with mutex := some .main, cond := s.cond.reacquire .main, main := .test fd } where
  tally id := by
    have := h.tally id
    simp only [State.places, State.avail, hm] at this ⊢
    exact this
  nonneg := h.nonneg
  taking fd' h' := by cases h'
  waiting fd' h' := by cases h'
  phase := by
    have := h.phase
    rw [hm] at this
    exact this
  asleep := by
    refine iff_of_false ?_ nofun
    have : Thr.main ∉ s.cond.sleeping := fun h' => Cond.notMem_woken h' hw
    simp [this]
  onlyMain := h.onlyMain

theorem slots_take (h : Slots s) (hm : s.main = .take fd) :
    Slots { s with
      threadCount := s.threadCount - 1
      main := .unlock fd (s.availableThreads (s.threadCount - 1)) } := by
  have hpos : 0 < s.threadCount := by
    have htake := h.taking fd hm
    have hnonneg := h.nonneg
    omega
  refine h.plain (by rw [hm]; rfl) rfl rfl rfl (Finset.Subset.refl _) (fun id => ?_)
    (Int.sub_nonneg_of_le hpos) nofun
  have ht := h.tally id
  simp only [State.places] at ht ⊢
  rw [avail_take hpos (.unlock fd (s.availableThreads (s.threadCount - 1))), hm] at ht
  simp only [List.count_append, MainPc.ids, List.append_nil] at ht ⊢
  exact ht

theorem slots_create (h : Slots s) (hm : s.main = .create fd id) :
    Slots { s with workers := s.workers ++ [⟨fd, id, .serve⟩], main := .read } where
  tally id' := by
    have := h.tally id'
    simp only [State.places, State.avail, State.unfinished, hm, MainPc.ids, List.count_append,
      List.filterMap_append] at this ⊢
    simp only [List.filterMap_cons, Worker.unwritten, List.filterMap_nil, List.count_nil]
    omega
  nonneg := h.nonneg
  taking fd' h' := by cases h'
  waiting fd' h' := by cases h'
  phase := by
    have := h.phase
    rw [hm, if_neg nofun] at this
    simp only [State.unfinished, List.filterMap_append, List.length_append] at this ⊢
    simp only [List.filterMap_cons, Worker.unwritten, List.filterMap_nil, List.length_singleton,
      if_true]
    omega
  asleep := iff_of_false (h.notAsleep (by rw [hm]; exact nofun)) nofun
  onlyMain := h.onlyMain

theorem slots_abandon (h : Slots s) (hm : s.main = .failed fd id) :
    Slots { s with
      sockets := s.sockets.close fd
      main := .accept
      dropped := s.dropped ++ [id] } := by
  refine h.plain (by rw [hm]; rfl) rfl rfl rfl (Finset.Subset.refl _) (fun id' => ?_) h.nonneg nofun
  have ht := h.tally id'
  simp only [State.places, State.avail, State.unfinished, hm, MainPc.ids, List.count_append,
    List.count_nil] at ht ⊢
  omega

theorem slots_read {rest : List ℤ} (h : Slots s) (hm : s.main = .read) (hp : s.pipe = id :: rest) :
    Slots { s with pipe := rest, main := .lockReturn id } where
  tally id' := by
    have := h.tally id'
    simp only [State.places, State.avail, State.unfinished, hm, hp, MainPc.ids, List.count_append,
      List.count_nil, List.count_cons] at this ⊢
    omega
  nonneg := h.nonneg
  taking fd' h' := by cases h'
  waiting fd' h' := by cases h'
  phase := by
    have := h.phase
    rw [if_pos hm, hp, List.length_append, List.length_cons] at this
    rw [if_neg nofun]
    simp only [State.unfinished, List.length_append] at this ⊢
    omega
  asleep := iff_of_false (h.notAsleep (by rw [hm]; exact nofun)) nofun
  onlyMain := h.onlyMain

theorem slots_put {c : Cond Thr} {w : Option Thr} (h : Slots s) (hm : s.main = .put id)
    (hc : s.cond.signal w = some c) :
    Slots { s with
      availableThreads := Function.update s.availableThreads s.threadCount id
      threadCount := s.threadCount + 1
      cond := c
      main := .unlockReturn } := by
  have hsleep : c.sleeping ⊆ s.cond.sleeping := by
    rcases Cond.signal_cases hc with ⟨-, -, rfl⟩ | ⟨u, -, hu, rfl⟩
    · exact Finset.Subset.refl _
    · exact Finset.erase_subset _ _
  refine h.plain (by rw [hm]; rfl) rfl rfl (Cond.signal_waiters hc) hsleep (fun id' => ?_)
    (Int.add_nonneg h.nonneg (by decide)) nofun
  have ht := h.tally id'
  simp only [State.places] at ht ⊢
  rw [avail_put h.nonneg]
  simp only [State.unfinished, hm, MainPc.ids, List.count_append, List.count_nil] at ht ⊢
  omega

end Main

theorem slots_step (s : State) (a : Action) (s' : State) (h : Slots s) (hs : step s a = some s') :
    Slots s' := by
  cases step_cases hs with
  | connect => exact ⟨h.tally, h.nonneg, h.taking, h.waiting, h.phase, h.asleep, h.onlyMain⟩
  | accept hm hS => exact h.goto (by rw [hm]; rfl) rfl (by rw [hm]; rfl) nofun
  | acceptFailed => exact h
  | lock hm hx => exact h.goto (by rw [hm]; rfl) rfl (by rw [hm]; rfl) nofun
  | wait hm hc => exact slots_wait h hm hc
  | enter hm hc => exact h.goto (by rw [hm]; rfl) rfl (by rw [hm]; rfl) (fun _ _ => hc)
  | wake hw =>
    refine ⟨h.tally, h.nonneg, h.taking, h.waiting, h.phase, ?_, fun t ht => ?_⟩
    · dsimp only
      rw [Cond.wake_waiters hw]
      exact h.asleep
    · exact h.onlyMain t (Finset.mem_of_mem_erase ht)
  | relock hm hw hx => exact slots_relock h hm hw
  | take hm => exact slots_take h hm
  | unlock hm => exact h.goto (by rw [hm]; rfl) rfl (by rw [hm]; rfl) nofun
  | create hm => exact slots_create h hm
  | createFailed hm => exact h.goto (by rw [hm]; rfl) rfl (by rw [hm]; rfl) nofun
  | abandon hm => exact slots_abandon h hm
  | read hm hp => exact slots_read h hm hp
  | lockReturn hm hx => exact h.goto (by rw [hm]; rfl) rfl (by rw [hm]; rfl) nofun
  | put hm hc => exact slots_put h hm hc
  | unlockReturn hm => exact h.goto (by rw [hm]; rfl) rfl (by rw [hm]; rfl) nofun
  | echo hi hw => exact h
  | close hi hw => exact h.setWorker hi (by simp [Worker.unwritten, hw])
  | workerLock hi hw hx => exact h.setWorker hi (by simp [Worker.unwritten, hw])
  | write hi hw => exact slots_write h hi hw
  | workerUnlock hi hw => exact h.setWorker hi (by simp [Worker.unwritten, hw])
  | free hi hw => exact h.setWorker hi (by simp [Worker.unwritten, hw])

/-! ### Dropped numbers -/

theorem dropped_step {s s' : State} {a : Action} (hs : step s a = some s') :
    s'.dropped.length = s.dropped.length + [a].count .abandon := by
  cases step_cases hs with
  | abandon hm => simp
  | _ => simp

/-- `main` has dropped one number each time it left the failure branch. -/
theorem dropped_run {as : List Action} {s s' : State} (hs : run step s as = some s') :
    s'.dropped.length = s.dropped.length + as.count .abandon :=
  run_countP (f := fun s => s.dropped.length) (fun _ _ _ => dropped_step) hs

theorem slots_of_run {as : List Action} {s : State} (h : run step start as = some s) : Slots s :=
  run_invariant slots_step slots_start h

theorem dropped_of_run {as : List Action} {s : State} (h : run step start as = some s) :
    s.dropped = [] ↔ .abandon ∉ as := by
  rw [← List.length_eq_zero_iff, dropped_run h, ← List.count_eq_zero]
  simp [start]

/-! ### Conservation -/

theorem Slots.perm {s : State} (h : Slots s) : (s.places ++ s.dropped).Perm slotIds :=
  List.perm_iff_count.2 fun id => by rw [List.count_append]; exact h.tally id

/-- The five kinds of places together have five numbers. -/
theorem Slots.total {s : State} (h : Slots s) :
    s.threadCount + s.main.ids.length + (s.unfinished ++ s.pipe).length + s.dropped.length
      = maxThreads := by
  have hl := h.perm.length_eq
  have hn := h.nonneg
  have hmax : slotIds.length = maxThreads := rfl
  simp only [State.places, State.avail, List.length_append, List.length_map, List.length_range,
    hmax] at hl ⊢
  omega

theorem count_slotIds {id : ℤ} (h0 : 0 ≤ id) (hlt : id < maxThreads) : slotIds.count id = 1 := by
  have : id = 0 ∨ id = 1 ∨ id = 2 ∨ id = 3 ∨ id = 4 := by
    simp only [maxThreads] at hlt
    omega
  rcases this with rfl | rfl | rfl | rfl | rfl <;> rfl

theorem mem_slotIds {id : ℤ} (h : id ∈ slotIds) : 0 ≤ id ∧ id < maxThreads := by
  obtain ⟨n, hn, rfl⟩ := List.mem_map.1 h
  exact ⟨Int.natCast_nonneg n, Int.ofNat_lt.2 (List.mem_range.1 hn)⟩

/-- Every slot number is in exactly one of the stack, `main`, an unfinished worker and the pipe. -/
def Conserved (s : State) : Prop :=
  ∀ id : ℤ, 0 ≤ id → id < maxThreads → s.places.count id = 1

theorem conserved_iff {s : State} (h : Slots s) : Conserved s ↔ s.dropped = [] := by
  constructor
  · intro hc
    rw [List.eq_nil_iff_forall_not_mem]
    intro id hid
    have hmem : id ∈ slotIds := h.perm.mem_iff.1 (List.mem_append_right _ hid)
    obtain ⟨h0, hlt⟩ := mem_slotIds hmem
    have := h.tally id
    rw [hc id h0 hlt, count_slotIds h0 hlt] at this
    have := List.count_pos_iff.2 hid
    omega
  · intro hd id h0 hlt
    have := h.tally id
    rwa [hd, List.count_nil, Nat.add_zero, count_slotIds h0 hlt] at this

/-- An action of a worker. -/
def Action.ofWorker : Action → Bool
  | .echo _ | .close _ | .workerLock _ | .write _ | .workerUnlock _ | .free _ => true
  | _ => false

/-- `main` sleeps in `pthread_cond_wait` and no worker can do anything that wakes it. -/
def Stranded (s : State) : Prop :=
  .main ∈ s.cond.sleeping ∧
    ∀ as s', (∀ a ∈ as, a.ofWorker = true) → run step s as = some s' → .main ∈ s'.cond.sleeping

/-- The workers never signal, so `main` is stranded as soon as it sleeps. -/
theorem stranded_iff (s : State) : Stranded s ↔ .main ∈ s.cond.sleeping := by
  refine ⟨fun h => h.1, fun h => ⟨h, fun as s' has hrun => ?_⟩⟩
  refine run_invariant_along (I := fun t => .main ∈ t.cond.sleeping) (fun t a u h ha hu => ?_) h
    (Along.of_forall has) hrun
  cases step_cases hu <;> first | exact h | cases ha

/-- While no number has been dropped, `main` never sleeps. -/
theorem not_asleep_of_dropped {s : State} (h : Slots s) (hd : s.dropped = []) :
    .main ∉ s.cond.sleeping := fun hs => by
  obtain ⟨fd, hm⟩ := h.asleep.1 (Finset.mem_union_left _ hs)
  have htot := h.total
  have hph := h.phase
  rw [hm, if_neg nofun] at hph
  rw [hph, hm, hd, h.waiting fd hm] at htot
  cases htot

/-- **Conservation of the slot numbers.**  At the end of every run, the three statements hold
together exactly if the run has not left the failure branch of `pthread_create`: every number is
in one place, `main` finds the stack full when it is back at `accept` and no worker is unfinished,
and `main` does not sleep with nobody to wake it. -/
theorem slots_conserved {as : List Action} {s : State} (h : run step start as = some s) :
    (Conserved s ∧ (s.main = .accept → s.unfinished = [] → s.threadCount = maxThreads) ∧
      ¬ Stranded s) ↔ .abandon ∉ as := by
  have hI := slots_of_run h
  rw [← dropped_of_run h, ← conserved_iff hI]
  refine ⟨fun hc => hc.1, fun hc => ⟨hc, fun hm hu => ?_, ?_⟩⟩
  · have htot := hI.total
    have hph := hI.phase
    rw [hm, if_neg nofun] at hph
    rw [hph, hm, (conserved_iff hI).1 hc] at htot
    simpa [MainPc.ids] using htot
  · rw [stranded_iff]
    exact not_asleep_of_dropped hI ((conserved_iff hI).1 hc)

/-- One connection is served and the number of its worker comes back. -/
def serveOne : List Action :=
  [.connect, .accept 5, .lock, .test, .take, .unlock, .create, .echo 0, .close 0, .workerLock 0,
    .write 0, .workerUnlock 0, .free 0, .read, .lockReturn, .put none, .unlockReturn]

theorem slots_conserved_serveOne :
    ∃ s, run step start serveOne = some s ∧ s.main = .accept ∧ s.threadCount = 5 ∧
      Conserved s := by
  obtain ⟨s, hs, hf⟩ := Option.map_eq_some_iff.1
    (show (run step start serveOne).map (fun s => (s.main, s.threadCount)) = some (.accept, 5) by
      decide)
  rw [Prod.mk.injEq] at hf
  exact ⟨s, hs, hf.1, hf.2, ((slots_conserved hs).2 (by decide)).1⟩

/-- A connection for which `pthread_create` fails. -/
def failOne (fd : ℕ) : List Action :=
  [.connect, .accept fd, .lock, .test, .take, .unlock, .createFailed, .abandon]

/-- After one failure of `pthread_create` the number `4` is nowhere, and the stack is not full
although `main` is back at `accept` with no worker; after five, the next connection puts `main`
to sleep for good. -/
theorem slots_lost :
    (∃ s, run step start (failOne 5) = some s ∧ s.main = .accept ∧ s.unfinished = [] ∧
      s.places.count 4 = 0 ∧ s.threadCount = 4 ∧ ¬ Conserved s) ∧
    ∃ s, run step start ((List.replicate 5 (failOne 5)).flatten ++
      [.connect, .accept 5, .lock, .test]) = some s ∧ Stranded s := by
  constructor
  · obtain ⟨s, hs, hf⟩ := Option.map_eq_some_iff.1
      (show (run step start (failOne 5)).map
          (fun s => (s.main, s.unfinished, s.places.count 4, s.threadCount))
            = some (.accept, [], 0, 4) by decide)
    simp only [Prod.mk.injEq] at hf
    obtain ⟨hm, hu, hp, ht⟩ := hf
    refine ⟨s, hs, hm, hu, hp, ht, fun hc => ?_⟩
    rw [hc 4 (by decide) (by decide)] at hp
    cases hp
  · obtain ⟨s, hs, hf⟩ := Option.map_eq_some_iff.1
      (show (run step start ((List.replicate 5 (failOne 5)).flatten ++
          [.connect, .accept 5, .lock, .test])).map (fun s => s.cond.sleeping)
            = some {.main} by decide)
    exact ⟨s, hs, (stranded_iff s).2 (by rw [hf]; exact Finset.mem_singleton_self _)⟩

end PoolServer
end PosixHw
