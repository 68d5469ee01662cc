import PosixHw.Base.Mutex
import PosixHw.Base.Run

/-!
# The shared counter

The program `pthread/task2.c`: `main` creates threads that increment a counter under a mutex, joins
them and prints the counter.

* A step is an evaluation of a loop condition, a lock, a read or a write of `counter`, an unlock, or
  a step of `main`; any thread may make the next one.
* The numbers of threads and of increments are parameters.
* Every call of `pthread_create` is taken to succeed; the program does not look at its result.

`Inv` is what every step preserves: a thread is in its critical section exactly if it has locked the
mutex, and the counter is the sum of the increments that the threads have made.  `counter_exact` is
what this means for the result.
-/

namespace PosixHw
namespace Counter

open Run

/-- `NUM_THREADS` and `NUM_INCREMENTS`. -/
structure Params where
  numThreads : ℕ
  numIncrements : ℕ

/-- Where a thread is in `increment`: not yet created, at the condition of the loop, at the lock,
at the read and at the write of `counter++`, at the unlock, returned. -/
inductive Pc
  | new
  | test (i : ℕ)
  | lock (i : ℕ)
  | read (i : ℕ)
  | write (i : ℕ) (value : ℤ)
  | unlock (i : ℕ)
  | done
  deriving DecidableEq

/-- Where `main` is: lines 23–25, 27–29, 31 and 32; and what it has printed. -/
inductive MainPc
  | create (i : ℕ)
  | join (i : ℕ)
  | destroy
  | print
  | done (value : ℤ)
  deriving DecidableEq

/-- The whole system. -/
structure State where
  counter : ℤ
  mutex : Option ℕ
  threads : ℕ → Pc
  main : MainPc

/-- The state at line 23. -/
def start : State where
  counter := 0
  mutex := none
  threads _ := .new
  main := .create 0

/-- `main` or a thread makes a step. -/
inductive Action
  | main
  | thread (t : ℕ)
  deriving DecidableEq

/-- The thread `t` goes to `p`. -/
def State.move (s : State) (t : ℕ) (p : Pc) : State :=
  { s with threads := Function.update s.threads t p }

@[simp] theorem State.threads_move_self (s : State) (t : ℕ) (p : Pc) :
    (s.move t p).threads t = p := by simp [State.move]

@[simp] theorem State.threads_move_of_ne (s : State) {t u : ℕ} (p : Pc) (h : u ≠ t) :
    (s.move t p).threads u = s.threads u := by simp [State.move, h]

/-- A step of the thread `t`; none if it has to wait. -/
def stepThread (c : Params) (s : State) (t : ℕ) : Option State :=
  match s.threads t with
  | .new => none
  | .test i => some (s.move t (if i < c.numIncrements then .lock i else .done))
  | .lock i => if s.mutex = none then some ({ s with mutex := some t }.move t (.read i)) else none
  -- `counter++` is a read and a write
  | .read i => some (s.move t (.write i s.counter))
  | .write i value => some ({ s with counter := value + 1 }.move t (.unlock i))
  | .unlock i => some ({ s with mutex := none }.move t (.test (i + 1)))
  | .done => none

/-- A step of `main`; a mutex that is locked must not be destroyed. -/
def stepMain (c : Params) (s : State) : Option State :=
  match s.main with
  -- `pthread_create` starts the thread at its first test
  | .create i =>
    if i < c.numThreads then some { s.move i (.test 0) with main := .create (i + 1) }
    else some { s with main := .join 0 }
  | .join i =>
    if i < c.numThreads then
      -- `pthread_join` waits for the thread to return
      if s.threads i = .done then some { s with main := .join (i + 1) } else none
    else some { s with main := .destroy }
  | .destroy => if s.mutex = none then some { s with main := .print } else none
  | .print => some { s with main := .done s.counter }
  | .done _ => none

/-- One step; `none` if the action is not enabled. -/
def step (c : Params) (s : State) : Action → Option State
  | .main => stepMain c s
  | .thread t => stepThread c s t

/-! ### Where the threads are -/

/-- Between its lock and its unlock a thread takes itself to have locked the mutex. -/
def Pc.holds : Pc → Option Unit
  | .read _ | .write _ _ | .unlock _ => some ()
  | .new | .test _ | .lock _ | .done => none

/-- The thread is in its critical section. -/
def Pc.Critical (p : Pc) : Prop := p.holds = some ()

instance : DecidablePred Pc.Critical := fun p => inferInstanceAs (Decidable (p.holds = some ()))

/-- The increments that the thread has made. -/
def Pc.count (k : ℕ) : Pc → ℕ
  | .new => 0
  | .test i | .lock i | .read i | .write i _ => i
  | .unlock i => i + 1
  | .done => k

/-- The loop variable is within its range. -/
def Pc.Within (k : ℕ) : Pc → Prop
  | .new | .done => True
  | .test i => i ≤ k
  | .lock i | .read i | .write i _ | .unlock i => i < k

/-- The number of threads that have been created. -/
def MainPc.created (n : ℕ) : MainPc → ℕ
  | .create i => i
  | .join _ | .destroy | .print | .done _ => n

/-- The number of threads that have been joined. -/
def MainPc.joined (n : ℕ) : MainPc → ℕ
  | .create _ => 0
  | .join i => i
  | .destroy | .print | .done _ => n

theorem Pc.count_le {k : ℕ} {p : Pc} (h : p.Within k) : p.count k ≤ k := by
  cases p with
  | new => exact Nat.zero_le k
  | test i => exact h
  | lock i => exact le_of_lt h
  | read i => exact le_of_lt h
  | write i value => exact le_of_lt h
  | unlock i => exact Nat.succ_le_of_lt h
  | done => exact le_rfl

/-- What the first `n` threads amount to, if a thread counts for `f` where it is. -/
def total (n : ℕ) (f : Pc → ℕ) (threads : ℕ → Pc) : ℕ := ∑ t ∈ Finset.range n, f (threads t)

section Total

variable {n k t : ℕ} {f : Pc → ℕ} {threads : ℕ → Pc}

/-- What one thread does changes its own term of the sum. -/
theorem total_update (f : Pc → ℕ) (threads : ℕ → Pc) (p : Pc) (ht : t < n) :
    total n f (Function.update threads t p) + f (threads t) = total n f threads + f p := by
  have hmem : t ∈ Finset.range n := Finset.mem_range.2 ht
  have hupdate : (fun u => f (Function.update threads t p u))
      = Function.update (fun u => f (threads u)) t (f p) := by
    funext u
    exact Function.apply_update (fun _ => f) threads t p u
  unfold total
  rw [hupdate, Finset.sum_update_of_mem hmem,
    Finset.sum_eq_add_sum_sdiff_singleton_of_mem hmem fun u => f (threads u)]
  ring

theorem total_of_forall (h : ∀ t < n, f (threads t) = k) : total n f threads = n * k := by
  rw [total, Finset.sum_congr rfl fun t ht => h t (Finset.mem_range.1 ht), Finset.sum_const,
    Finset.card_range, smul_eq_mul]

theorem total_le (h : ∀ t, f (threads t) ≤ k) : total n f threads ≤ n * k := by
  have hle := Finset.sum_le_card_nsmul (Finset.range n) (fun t => f (threads t)) k fun t _ => h t
  rwa [Finset.card_range, smul_eq_mul] at hle

end Total

/-! ### The invariant -/

/-- What every step preserves. -/
structure Inv (c : Params) (s : State) : Prop where
  exclusive : Mutex.Exclusive (fun _ => s.mutex) fun t => (s.threads t).holds
  held : ∀ t, s.mutex = some t → (s.threads t).holds = some ()
  fresh : ∀ t i value, s.threads t = .write i value → value = s.counter
  within : ∀ t, (s.threads t).Within c.numIncrements
  new_iff : ∀ t, s.threads t = .new ↔ s.main.created c.numThreads ≤ t
  created_le : s.main.created c.numThreads ≤ c.numThreads
  joined_le : s.main.joined c.numThreads ≤ c.numThreads
  joined : ∀ t < s.main.joined c.numThreads, s.threads t = .done
  counter : s.counter = total c.numThreads (Pc.count c.numIncrements) s.threads
  printed : ∀ value, s.main = .done value → value = s.counter

theorem inv_start (c : Params) : Inv c start where
  exclusive t i h := by cases h
  held t h := by cases h
  fresh t i value h := by cases h
  within t := trivial
  new_iff t := iff_of_true rfl (Nat.zero_le t)
  created_le := Nat.zero_le _
  joined_le := Nat.zero_le _
  joined t h := absurd h (Nat.not_lt_zero t)
  counter := by simp [total, start, Pc.count]
  printed value h := by cases h

section Steps

variable {c : Params} {s s' : State} {t : ℕ} {p p' : Pc} {m : Option ℕ} {v : ℤ}

theorem holds_update (threads : ℕ → Pc) (t : ℕ) (p : Pc) :
    (fun u => (Function.update threads t p u).holds)
      = Function.update (fun u => (threads u).holds) t p.holds := by
  funext u
  exact Function.apply_update (fun _ => Pc.holds) threads t p u

/-- A thread that makes a step has been created and has not been joined. -/
theorem Inv.active (h : Inv c s) (hnew : s.threads t ≠ .new) (hdone : s.threads t ≠ .done) :
    t < s.main.created c.numThreads ∧ s.main.joined c.numThreads ≤ t := by
  constructor
  · by_contra hge
    exact hnew ((h.new_iff t).2 (not_lt.1 hge))
  · by_contra hlt
    exact hdone (h.joined t (not_le.1 hlt))

/-- **A step of a thread**: what it does with the mutex and with the counter agrees with where it
is. -/
theorem Inv.thread (h : Inv c s) (hp : s.threads t = p) (hnew : p ≠ .new) (hdone : p ≠ .done)
    (hnew' : p' ≠ .new)
    (hex : Mutex.Exclusive (fun _ => m)
      (Function.update (fun u => (s.threads u).holds) t p'.holds))
    (hheld : ∀ u, m = some u → Function.update (fun u => (s.threads u).holds) t p'.holds u
      = some ())
    (hfresh : ∀ i value, p' = .write i value → value = v)
    (hothers : ∀ u ≠ t, ∀ i value, s.threads u = .write i value → value = v)
    (hwithin : p'.Within c.numIncrements)
    (hcount : v + p.count c.numIncrements = s.counter + p'.count c.numIncrements) :
    Inv c ({ s with mutex := m, counter := v }.move t p') := by
  subst hp
  obtain ⟨hlt, hge⟩ := h.active hnew hdone
  refine ⟨?_, fun u hu => ?_, fun u i value hu => ?_, fun u => ?_, fun u => ?_, h.created_le,
    h.joined_le, fun u hu => ?_, ?_, fun value hv => ?_⟩
  · rw [State.move, holds_update]
    exact hex
  · exact (congrFun (holds_update s.threads t p') u).trans (hheld u hu)
  · by_cases hut : u = t
    · subst hut
      rw [State.threads_move_self] at hu
      exact hfresh i value hu
    · rw [State.threads_move_of_ne _ _ hut] at hu
      exact hothers u hut i value hu
  · by_cases hut : u = t
    · subst hut
      rw [State.threads_move_self]
      exact hwithin
    · rw [State.threads_move_of_ne _ _ hut]
      exact h.within u
  · by_cases hut : u = t
    · subst hut
      rw [State.threads_move_self]
      exact iff_of_false hnew' (not_le.2 hlt)
    · rw [State.threads_move_of_ne _ _ hut]
      exact h.new_iff u
  · have hut : u ≠ t := (lt_of_lt_of_le hu hge).ne
    rw [State.threads_move_of_ne _ _ hut]
    exact h.joined u hu
  · have hsum := total_update (Pc.count c.numIncrements) s.threads p'
      (lt_of_lt_of_le hlt h.created_le)
    have hcounter := h.counter
    change v = (total c.numThreads (Pc.count c.numIncrements) (Function.update s.threads t p') : ℤ)
    omega
  · -- after the last join no thread is left to make a step
    have hmain : s.main = .done value := hv
    rw [hmain] at hlt hge
    exact absurd hlt (not_lt.2 hge)

/-- Steps of a thread that neither lock nor unlock, nor change the counter. -/
theorem Inv.local (h : Inv c s) (hp : s.threads t = p) (hnew : p ≠ .new) (hdone : p ≠ .done)
    (hnew' : p' ≠ .new) (hholds : p'.holds = p.holds)
    (hfresh : ∀ i value, p' = .write i value → value = s.counter)
    (hwithin : p'.Within c.numIncrements)
    (hcount : p'.count c.numIncrements = p.count c.numIncrements) : Inv c (s.move t p') := by
  have hsame : Function.update (fun u => (s.threads u).holds) t p'.holds
      = fun u => (s.threads u).holds := by
    rw [hholds, ← hp]
    exact Function.update_eq_self t _
  refine h.thread (m := s.mutex) (v := s.counter) hp hnew hdone hnew' ?_ ?_ hfresh
    (fun u _ => h.fresh u) hwithin (by rw [hcount])
  · rw [hsame]
    exact h.exclusive
  · rw [hsame]
    exact h.held

theorem Inv.stepThread (h : Inv c s) (hs : stepThread c s t = some s') : Inv c s' := by
  have hwithin := h.within t
  unfold Counter.stepThread at hs
  cases hp : s.threads t with
  | new => simp [hp] at hs
  | test i =>
    rw [hp] at hs hwithin
    cases hs
    split_ifs with hi
    · exact h.local hp (fun h => by cases h) (fun h => by cases h) (fun h => by cases h) rfl
        (fun _ _ h => by cases h) hi rfl
    · have hik : i = c.numIncrements := le_antisymm hwithin (not_lt.1 hi)
      exact h.local hp (fun h => by cases h) (fun h => by cases h) (fun h => by cases h) rfl
        (fun _ _ h => by cases h) trivial hik.symm
  | lock i =>
    rw [hp] at hs hwithin
    change (if _ then _ else _) = _ at hs
    split_ifs at hs with hfree
    cases hs
    refine h.thread (m := some t) hp (fun h => by cases h) (fun h => by cases h)
      (fun h => by cases h) (h.exclusive.lock_single hfree) ?_ (fun _ _ h => by cases h)
      (fun u _ => h.fresh u) hwithin rfl
    intro u hu
    obtain rfl := Option.some.inj hu
    exact Function.update_self ..
  | read i =>
    rw [hp] at hs hwithin
    cases hs
    refine h.local hp (fun h => by cases h) (fun h => by cases h) (fun h => by cases h) rfl ?_
      hwithin rfl
    intro j value hw
    cases hw
    rfl
  | write i value =>
    rw [hp] at hs hwithin
    cases hs
    have hvalue := h.fresh t i value hp
    have ht : (s.threads t).holds = some () := by rw [hp]; rfl
    have hsame : Function.update (fun u => (s.threads u).holds) t (Pc.unlock i).holds
        = fun u => (s.threads u).holds :=
      (congrArg (Function.update _ t) ht.symm).trans (Function.update_eq_self t _)
    refine h.thread (m := s.mutex) (v := value + 1) hp (fun h => by cases h) (fun h => by cases h)
      (fun h => by cases h) ?_ ?_ (fun _ _ h => by cases h) ?_ hwithin ?_
    · rw [hsame]
      exact h.exclusive
    · rw [hsame]
      exact h.held
    · -- no other thread is between its read and its write
      intro u hut j value' hu
      refine absurd (h.exclusive.unique (i := ()) ?_ ht) hut
      rw [hu]
      rfl
    · rw [hvalue]
      simp [Pc.count]
      ring
  | unlock i =>
    rw [hp] at hs hwithin
    cases hs
    have ht : (s.threads t).holds = some () := by rw [hp]; rfl
    exact h.thread (m := none) hp (fun h => by cases h) (fun h => by cases h)
      (fun h => by cases h) (h.exclusive.unlock_single ht) (fun u hu => by cases hu)
      (fun _ _ h => by cases h) (fun u _ => h.fresh u) hwithin rfl
  | done => simp [hp] at hs

/-- Steps of `main` alone. -/
theorem Inv.main (h : Inv c s) {m' : MainPc}
    (hcreated : m'.created c.numThreads = s.main.created c.numThreads)
    (hle : m'.joined c.numThreads ≤ c.numThreads)
    (hjoined : ∀ t < m'.joined c.numThreads, s.threads t = .done)
    (hprinted : ∀ value, m' = .done value → value = s.counter) : Inv c { s with main := m' } :=
  { h with
    new_iff := fun t => by rw [hcreated]; exact h.new_iff t
    created_le := hcreated.trans_le h.created_le
    joined_le := hle
    joined := hjoined
    printed := hprinted }

/-- The creation of a thread. -/
theorem Inv.create (h : Inv c s) {i : ℕ} (hm : s.main = .create i) (hi : i < c.numThreads) :
    Inv c { s.move i (.test 0) with main := .create (i + 1) } := by
  have hcreated : s.main.created c.numThreads = i := by rw [hm]; rfl
  have hnew : s.threads i = .new := (h.new_iff i).2 hcreated.le
  have hsame : Function.update (fun u => (s.threads u).holds) i (Pc.test 0).holds
      = fun u => (s.threads u).holds := by
    have hi' : (s.threads i).holds = none := by rw [hnew]; rfl
    exact (congrArg (Function.update _ i) hi'.symm).trans (Function.update_eq_self i _)
  have hholds : (fun u => ((s.move i (.test 0)).threads u).holds)
      = fun u => (s.threads u).holds := (holds_update s.threads i (.test 0)).trans hsame
  refine ⟨?_, fun t ht => ?_, fun t j value ht => ?_, fun t => ?_, fun t => ?_, hi, Nat.zero_le _,
    fun t ht => absurd ht (Nat.not_lt_zero t), ?_, fun value hv => by cases hv⟩
  · exact hholds ▸ h.exclusive
  · exact (congrFun hholds t).trans (h.held t ht)
  · by_cases hti : t = i
    · subst hti
      exact absurd ((s.threads_move_self t _).symm.trans ht) fun h => by cases h
    · exact h.fresh t j value ((s.threads_move_of_ne _ hti).symm.trans ht)
  · by_cases hti : t = i
    · subst hti
      exact (s.threads_move_self t (.test 0)).symm ▸ Nat.zero_le _
    · exact (s.threads_move_of_ne (.test 0) hti).symm ▸ h.within t
  · change (s.move i (.test 0)).threads t = .new ↔ i + 1 ≤ t
    by_cases hti : t = i
    · subst hti
      rw [State.threads_move_self]
      exact iff_of_false (fun h => by cases h) (Nat.not_succ_le_self t)
    · rw [State.threads_move_of_ne _ _ hti, h.new_iff, hcreated]
      omega
  · have hsum := total_update (Pc.count c.numIncrements) s.threads (.test 0) hi
    rw [hnew] at hsum
    exact h.counter.trans (congrArg Nat.cast hsum.symm)

theorem Inv.stepMain (h : Inv c s) (hs : stepMain c s = some s') : Inv c s' := by
  have hcreated := h.created_le
  have hle := h.joined_le
  have hjoined := h.joined
  unfold Counter.stepMain at hs
  cases hm : s.main with
  | create i =>
    simp only [hm] at hs hcreated
    split_ifs at hs with hi
    · cases hs
      exact h.create hm hi
    · cases hs
      have hin : c.numThreads = i := le_antisymm (not_lt.1 hi) hcreated
      refine h.main ?_ (Nat.zero_le _) (fun t ht => absurd ht (Nat.not_lt_zero t))
        (fun value hv => by cases hv)
      rw [hm]
      exact hin
  | join i =>
    simp only [hm] at hs hle hjoined
    split_ifs at hs with hi hdone
    · cases hs
      refine h.main (by rw [hm]; rfl) hi (fun t ht => ?_) (fun value hv => by cases hv)
      rcases Nat.lt_succ_iff_lt_or_eq.1 ht with hlt | rfl
      · exact hjoined t hlt
      · exact hdone
    · cases hs
      have hin : c.numThreads = i := le_antisymm (not_lt.1 hi) hle
      refine h.main (by rw [hm]; rfl) le_rfl (fun t ht => hjoined t ?_)
        (fun value hv => by cases hv)
      exact lt_of_lt_of_eq ht hin
  | destroy =>
    simp only [hm] at hs hjoined
    split_ifs at hs
    cases hs
    exact h.main (by rw [hm]; rfl) le_rfl hjoined (fun value hv => by cases hv)
  | print =>
    simp only [hm] at hs hjoined
    cases hs
    refine h.main (by rw [hm]; rfl) le_rfl hjoined (fun value hv => ?_)
    cases hv
    rfl
  | done value => simp [hm] at hs

/-- **The step lemma.** -/
theorem Inv.step {a : Action} (h : Inv c s) (hs : step c s a = some s') : Inv c s' := by
  cases a with
  | main => exact h.stepMain hs
  | thread t => exact h.stepThread hs

/-- **The run lemma.** -/
theorem inv_of_run {as : List Action} (h : run (Counter.step c) start as = some s) : Inv c s :=
  run_invariant (fun _ _ _ hI hs => hI.step hs) (inv_start c) h

end Steps

/-! ### The result -/

/-- Every thread has been joined. -/
def State.AllJoined (c : Params) (s : State) : Prop := s.main.joined c.numThreads = c.numThreads

theorem Inv.counter_eq {c : Params} {s : State} (h : Inv c s) (hall : s.AllJoined c) :
    s.counter = c.numThreads * c.numIncrements := by
  have hdone : ∀ t < c.numThreads, (s.threads t).count c.numIncrements = c.numIncrements :=
    fun t ht => congrArg (Pc.count c.numIncrements) (h.joined t (hall.symm ▸ ht))
  rw [h.counter, total_of_forall hdone]
  exact Nat.cast_mul _ _

theorem Inv.printed_eq {c : Params} {s : State} {value : ℤ} (h : Inv c s)
    (hm : s.main = .done value) : value = c.numThreads * c.numIncrements := by
  rw [h.printed value hm]
  refine h.counter_eq ?_
  rw [State.AllJoined, hm]
  rfl

/-- **No increment is lost.** In every run, two threads are never in their critical sections at the
same time, and the counter stays between zero and the number of all increments, which it is when
all threads have been joined; this is what is then printed. -/
theorem counter_exact {c : Params} {as : List Action} {s : State}
    (h : run (step c) start as = some s) :
    (∀ t u, (s.threads t).Critical → (s.threads u).Critical → t = u) ∧
      0 ≤ s.counter ∧ s.counter ≤ c.numThreads * c.numIncrements ∧
      (s.AllJoined c → s.counter = c.numThreads * c.numIncrements) ∧
      ∀ value, s.main = .done value → value = c.numThreads * c.numIncrements := by
  have hI := inv_of_run h
  refine ⟨fun t u ht hu => hI.exclusive.unique ht hu, ?_, ?_, hI.counter_eq,
    fun value => hI.printed_eq⟩
  · rw [hI.counter]
    exact Int.natCast_nonneg _
  · rw [hI.counter]
    exact_mod_cast total_le fun t => Pc.count_le (hI.within t)

/-- Two threads with one increment each; the second one gets the mutex first. -/
def sampleRun : List Action :=
  [.main, .main, .thread 0, .thread 1, .thread 1, .thread 1, .thread 1, .thread 1, .thread 0,
    .thread 0, .main, .thread 0, .thread 0, .thread 0, .thread 1, .main, .main, .main, .main, .main]

theorem counter_exact_sample :
    ∃ s, run (step ⟨2, 1⟩) start sampleRun = some s ∧ s.main = .done 2 ∧ s.counter = 2 := by
  obtain ⟨s, hs, hm⟩ := Option.map_eq_some_iff.1
    (show (run (step ⟨2, 1⟩) start sampleRun).map State.main = some (.done 2) by decide)
  have hall : s.AllJoined ⟨2, 1⟩ := by rw [State.AllJoined, hm]; rfl
  exact ⟨s, hs, hm, (counter_exact hs).2.2.2.1 hall⟩

end Counter
end PosixHw
