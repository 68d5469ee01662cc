import PosixHw.Base.Run
import Mathlib.Data.List.Perm.Basic

/-!
# Threads that print their indices

The program `pthread/task1.c`: `main` stores an index into a cell of an array for each thread that
it creates, and passes a pointer to this cell; the thread reads the cell when it gets to it, and
prints what is there.  Then `main` joins all threads.

* A step is a store of `main` with the test of the loop before it, a creation, a join, or a read or
  a print of a thread; the number of threads is a parameter, `n`.
* A pointer into the array is the number of its cell.  The array holds anything at first.
* Every call of `pthread_create` is taken to succeed; the program does not look at its result.

Since no cell is written twice, it does not matter how late a thread reads its own: each index is
printed once, in every order of the steps (`indices_printed`).
-/

namespace PosixHw
namespace PrintIndex

open Run Finset

/-- Where a thread is in `print_index`. -/
inductive Pc
  | new
  | read (arg : ℕ)
  | print (index : ℤ)
  | done
  deriving DecidableEq

/-- Where `main` is: at the first loop with the store to `t_id[i]`, at the creation of a thread, at
the second loop, or at its end. -/
inductive MainPc
  | store (i : ℕ)
  | create (i : ℕ)
  | join (i : ℕ)
  | done
  deriving DecidableEq

/-- `t_id`, the threads, `main`, and what has been printed. -/
structure State where
  tId : ℕ → ℤ
  threads : ℕ → Pc
  main : MainPc
  printed : List ℤ

def start (old : ℕ → ℤ) : State := ⟨old, fun _ => .new, .store 0, []⟩

/-- `main` or a thread makes a step. -/
inductive Action
  | main
  | thread (t : ℕ)
  deriving DecidableEq

/-- The thread `t` goes to `p`. -/
def State.move (s : State) (t : ℕ) (p : Pc) : State :=
  { s with threads := Function.update s.threads t p }

/-- `print_index` -/
def stepThread (s : State) (t : ℕ) : Option State :=
  match s.threads t with
  -- `*((int *)arg)`, at any time after the thread has been created
  | .read arg => some (s.move t (.print (s.tId arg)))
  | .print index => some { s.move t .done with printed := s.printed ++ [index] }
  | .new | .done => none

/-- A step of `main`; a join waits for the thread to return. -/
def stepMain (n : ℕ) (s : State) : Option State :=
  match s.main with
  | .store i =>
    if i < n then some { s with tId := Function.update s.tId i i, main := .create i }
    else some { s with main := .join 0 }
  -- the thread gets the address of `t_id[i]`
  | .create i => some { s.move i (.read i) with main := .store (i + 1) }
  | .join i =>
    if i < n then if s.threads i = .done then some { s with main := .join (i + 1) } else none
    else some { s with main := .done }
  | .done => none

def step (n : ℕ) (s : State) : Action → Option State
  | .main => stepMain n s
  | .thread t => stepThread s t

/-! ### What holds in every reachable state -/

/-- How many cells have been written, how many threads have been created, and joined. -/
def MainPc.stored (n : ℕ) : MainPc → ℕ
  | .store i => i
  | .create i => i + 1
  | .join _ | .done => n
def MainPc.created (n : ℕ) : MainPc → ℕ
  | .store i | .create i => i
  | .join _ | .done => n
def MainPc.joined (n : ℕ) : MainPc → ℕ
  | .store _ | .create _ => 0
  | .join i => i
  | .done => n

/-- The steps that they have before them. -/
def Pc.remaining : Pc → ℕ
  | .new | .read _ => 2
  | .print _ => 1
  | .done => 0
def MainPc.remaining (n : ℕ) : MainPc → ℕ
  | .store i => 2 * (n - i) + n + 2
  | .create i => 2 * (n - i) + n + 1
  | .join i => n - i + 1
  | .done => 0

/-- A thread that has been created has its own index; those that have returned have printed it. -/
structure Inv (n : ℕ) (s : State) : Prop where
  stored_le : s.main.stored n ≤ n
  joined_le : s.main.joined n ≤ n
  cells : ∀ t < s.main.stored n, s.tId t = t
  new_iff : ∀ t, s.threads t = .new ↔ s.main.created n ≤ t
  arg : ∀ t arg, s.threads t = .read arg → arg = t
  index : ∀ t index, s.threads t = .print index → index = t
  joined : ∀ t < s.main.joined n, s.threads t = .done
  nodup : s.printed.Nodup
  printed : ∀ v, v ∈ s.printed ↔ ∃ t : ℕ, s.threads t = .done ∧ v = t

theorem inv_start (n : ℕ) (old : ℕ → ℤ) : Inv n (start old) where
  stored_le := Nat.zero_le n
  joined_le := Nat.zero_le n
  cells t ht := absurd ht (Nat.not_lt_zero t)
  new_iff t := iff_of_true rfl (Nat.zero_le t)
  arg t arg h := by cases h
  index t index h := by cases h
  joined t ht := absurd ht (Nat.not_lt_zero t)
  nodup := List.nodup_nil
  printed v := by simp [start]

section Steps

variable {n : ℕ} {s u : State} {t : ℕ}

@[simp] theorem State.threads_move_self (s : State) (t : ℕ) (p : Pc) :
    (s.move t p).threads t = p := by simp [State.move]

@[simp] theorem State.threads_move_of_ne (s : State) {t v : ℕ} (p : Pc) (h : v ≠ t) :
    (s.move t p).threads v = s.threads v := by simp [State.move, h]

/-- What holds of `t` at `p`, and of every other thread where it is, holds after the move. -/
theorem move_forall {p : Pc} {P : ℕ → Pc → Prop} (ht : P t p)
    (hother : ∀ v, v ≠ t → P v (s.threads v)) (v : ℕ) : P v ((s.move t p).threads v) :=
  (Function.forall_update_iff s.threads P).2 ⟨ht, hother⟩ v

/-- A move that is not the last one of a thread. -/
theorem done_iff_move {p : Pc} (hdone : s.threads t ≠ .done) (hdone' : p ≠ .done) (v : ℕ) :
    s.threads v = .done ↔ (s.move t p).threads v = .done := by
  apply move_forall (P := fun v p => s.threads v = .done ↔ p = .done)
  · exact iff_of_false hdone hdone'
  · exact fun _ _ => Iff.rfl

theorem stored_le_created (m : MainPc) : m.created n ≤ m.stored n := by
  cases m with
  | create i => exact Nat.le_succ i
  | store i | join i | done => exact le_rfl

/-- A step of a thread that has been created and has not returned. -/
theorem Inv.move (h : Inv n s) {p : Pc} {out : List ℤ} (hnew : s.threads t ≠ .new)
    (hdone : s.threads t ≠ .done) (hnew' : p ≠ .new) (harg : ∀ arg, p ≠ .read arg)
    (hindex : ∀ index, p = .print index → index = t) (hnodup : out.Nodup)
    (hprinted : ∀ v, v ∈ out ↔ ∃ x : ℕ, (s.move t p).threads x = .done ∧ v = x) :
    Inv n { s.move t p with printed := out } where
  stored_le := h.stored_le
  joined_le := h.joined_le
  cells := h.cells
  new_iff := by
    apply move_forall (P := fun v p => p = .new ↔ s.main.created n ≤ v)
    · rw [← h.new_iff t]
      exact iff_of_false hnew' hnew
    · exact fun v _ => h.new_iff v
  arg := by
    apply move_forall (P := fun v p => ∀ arg, p = .read arg → arg = v)
    · exact fun arg hp => absurd hp (harg arg)
    · exact fun v _ => h.arg v
  index := by
    apply move_forall (P := fun v p => ∀ index, p = .print index → index = v)
    · exact hindex
    · exact fun v _ => h.index v
  joined v hv := by
    have hne : v ≠ t := fun hvt => hdone (hvt ▸ h.joined v hv)
    have hsame : (s.move t p).threads v = s.threads v := State.threads_move_of_ne s p hne
    exact hsame.trans (h.joined v hv)
  nodup := hnodup
  printed := hprinted

/-- A thread that has been created finds its index in its cell. -/
theorem Inv.cell (h : Inv n s) (hnew : s.threads t ≠ .new) : s.tId t = t := by
  apply h.cells t
  by_contra hge
  exact hnew ((h.new_iff t).2 ((stored_le_created s.main).trans (not_lt.1 hge)))

theorem Inv.stepThread (h : Inv n s) (hs : stepThread s t = some u) : Inv n u := by
  unfold PrintIndex.stepThread at hs
  cases hp : s.threads t with
  | read arg =>
    have hnew : s.threads t ≠ .new := by simp [hp]
    have hdone : s.threads t ≠ .done := by simp [hp]
    rw [hp] at hs
    cases hs
    obtain rfl := h.arg t arg hp
    refine h.move (t := arg) hnew hdone (fun h => by cases h) (fun _ h => by cases h) ?_ h.nodup ?_
    · intro index hprint
      cases hprint
      exact h.cell hnew
    · intro v
      rw [h.printed]
      exact exists_congr fun x => and_congr_left' (done_iff_move hdone (fun h => by cases h) x)
  | print index =>
    have hnew : s.threads t ≠ .new := by simp [hp]
    have hdone : s.threads t ≠ .done := by simp [hp]
    rw [hp] at hs
    cases hs
    obtain rfl := h.index t index hp
    have hnot : (t : ℤ) ∉ s.printed := by
      rw [h.printed]
      rintro ⟨x, hx, htx⟩
      obtain rfl : t = x := by exact_mod_cast htx
      exact hdone hx
    refine h.move hnew hdone (fun h => by cases h) (fun _ h => by cases h)
      (fun _ h => by cases h) ?_ ?_
    · rw [← List.concat_eq_append]
      exact h.nodup.concat hnot
    · intro v
      rw [List.mem_append, List.mem_singleton, h.printed]
      constructor
      · rintro (⟨x, hx, rfl⟩ | rfl)
        · have hne : x ≠ t := fun hxt => hdone (hxt ▸ hx)
          exact ⟨x, by rw [State.threads_move_of_ne _ _ hne, hx], rfl⟩
        · exact ⟨t, State.threads_move_self s t .done, rfl⟩
      · rintro ⟨x, hx, rfl⟩
        by_cases hxt : x = t
        · exact .inr (congrArg _ hxt)
        · rw [State.threads_move_of_ne _ _ hxt] at hx
          exact .inl ⟨x, hx, rfl⟩
  | new | done =>
    rw [hp] at hs
    cases hs

theorem Inv.stepMain (h : Inv n s) (hs : stepMain n s = some u) : Inv n u := by
  unfold PrintIndex.stepMain at hs
  have hstored := h.stored_le
  have hjoined := h.joined_le
  have hcells := h.cells
  have hnew := h.new_iff
  have hall := h.joined
  cases hm : s.main with
  | store i =>
    rw [hm] at hs hstored hcells hnew
    dsimp only at hs
    split_ifs at hs with hi
    · cases hs
      refine { h with stored_le := hi, joined_le := Nat.zero_le n, cells := ?_, new_iff := hnew,
                      joined := fun t ht => absurd ht (Nat.not_lt_zero t) }
      intro t ht
      -- the cell that is written, or one that has been written before
      by_cases hti : t = i
      · subst hti
        exact Function.update_self t _ s.tId
      · have hlt : t < i := lt_of_le_of_ne (Nat.lt_succ_iff.1 ht) hti
        exact (Function.update_of_ne hti _ s.tId).trans (hcells t hlt)
    · cases hs
      obtain rfl : i = n := le_antisymm hstored (not_lt.1 hi)
      exact { h with stored_le := le_rfl, joined_le := Nat.zero_le i, cells := hcells,
                     new_iff := hnew, joined := fun t ht => absurd ht (Nat.not_lt_zero t) }
  | create i =>
    rw [hm] at hs hstored hcells hnew
    cases hs
    have hi : s.threads i = .new := (hnew i).2 le_rfl
    refine ⟨hstored, Nat.zero_le n, hcells, ?_, ?_, ?_, fun t ht => absurd ht (Nat.not_lt_zero t),
      h.nodup, ?_⟩
    · apply move_forall (P := fun v p => p = .new ↔ i + 1 ≤ v)
      · exact iff_of_false (fun h => by cases h) (Nat.not_succ_le_self i)
      · intro v hv
        rw [hnew v]
        exact ⟨fun hle => lt_of_le_of_ne hle (Ne.symm hv), Nat.le_of_succ_le⟩
    · apply move_forall (P := fun v p => ∀ arg, p = .read arg → arg = v)
      · intro arg hp
        cases hp
        rfl
      · exact fun v _ => h.arg v
    · apply move_forall (P := fun v p => ∀ index, p = .print index → index = v)
      · exact fun _ hp => by cases hp
      · exact fun v _ => h.index v
    · intro v
      have hdone : s.threads i ≠ .done := by simp [hi]
      refine (h.printed v).trans (exists_congr fun x => and_congr_left' ?_)
      exact done_iff_move hdone (fun h => by cases h) x
  | join i =>
    rw [hm] at hs hstored hcells hnew hjoined hall
    dsimp only at hs
    split_ifs at hs with hi hdone
    · cases hs
      refine { h with stored_le := hstored, joined_le := hi, cells := hcells, new_iff := hnew,
                      joined := ?_ }
      intro t ht
      by_cases hti : t = i
      · rw [hti]
        exact hdone
      · exact hall t (lt_of_le_of_ne (Nat.lt_succ_iff.1 ht) hti)
    · cases hs
      exact { h with stored_le := hstored, joined_le := le_rfl, cells := hcells, new_iff := hnew,
                     joined := fun t ht => hall t (ht.trans_le (not_lt.1 hi)) }
  | done =>
    rw [hm] at hs
    cases hs

theorem Inv.step (h : Inv n s) {a : Action} (hs : step n s a = some u) : Inv n u := by
  cases a with
  | main => exact h.stepMain hs
  | thread t => exact h.stepThread hs

/-! ### Every schedule ends -/

/-- The steps that the program has before it. -/
def State.remaining (n : ℕ) (s : State) : ℕ :=
  s.main.remaining n + ∑ t ∈ range n, (s.threads t).remaining

theorem sum_move {p : Pc} (ht : t < n) :
    ∑ v ∈ range n, ((s.move t p).threads v).remaining + (s.threads t).remaining
      = ∑ v ∈ range n, (s.threads v).remaining + p.remaining := by
  have hmem : t ∈ range n := mem_range.2 ht
  have hupdate : (fun v => ((s.move t p).threads v).remaining)
      = Function.update (fun v => (s.threads v).remaining) t p.remaining := by
    funext v
    exact Function.apply_update (fun _ => Pc.remaining) s.threads t p v
  rw [hupdate, sum_update_of_mem hmem,
    sum_eq_add_sum_sdiff_singleton_of_mem hmem fun v => (s.threads v).remaining]
  omega

/-- The thread is one of those that `main` creates. -/
theorem Inv.lt (h : Inv n s) (hnew : s.threads t ≠ .new) : t < n := by
  by_contra hge
  have hle : s.main.created n ≤ n := (stored_le_created s.main).trans h.stored_le
  exact hnew ((h.new_iff t).2 (hle.trans (not_lt.1 hge)))

theorem Inv.remaining_step (h : Inv n s) {a : Action} (hs : PrintIndex.step n s a = some u) :
    u.remaining n + 1 = s.remaining n := by
  cases a with
  | thread t =>
    change PrintIndex.stepThread s t = some u at hs
    unfold PrintIndex.stepThread at hs
    cases hp : s.threads t with
    | read arg =>
      rw [hp] at hs
      cases hs
      have hsum := sum_move (s := s) (p := .print (s.tId arg)) (h.lt (t := t) (by simp [hp]))
      rw [hp] at hsum
      change _ + 2 = _ + 1 at hsum
      show s.main.remaining n + _ + 1 = s.main.remaining n + _
      omega
    | print index =>
      rw [hp] at hs
      cases hs
      have hsum := sum_move (s := s) (p := .done) (h.lt (t := t) (by simp [hp]))
      rw [hp] at hsum
      change _ + 1 = _ + 0 at hsum
      show s.main.remaining n + ∑ v ∈ range n, ((s.move t .done).threads v).remaining + 1
        = s.main.remaining n + _
      omega
    | new | done =>
      rw [hp] at hs
      cases hs
  | main =>
    change PrintIndex.stepMain n s = some u at hs
    unfold PrintIndex.stepMain at hs
    have hstored := h.stored_le
    have hnew := h.new_iff
    cases hm : s.main with
    | store i =>
      rw [hm] at hs hstored
      dsimp only at hs
      split_ifs at hs with hi
      · cases hs
        rw [State.remaining, State.remaining, hm]
        simp only [MainPc.remaining]
        omega
      · cases hs
        obtain rfl : i = n := le_antisymm hstored (not_lt.1 hi)
        rw [State.remaining, State.remaining, hm]
        simp only [MainPc.remaining]
        omega
    | create i =>
      rw [hm] at hs hstored hnew
      cases hs
      have hsum := sum_move (p := .read i) (s := s) (Nat.lt_of_succ_le hstored)
      rw [(hnew i).2 le_rfl] at hsum
      have hlt : i < n := hstored
      have hsame := Nat.add_right_cancel hsum
      rw [State.remaining, State.remaining, hm]
      change MainPc.remaining n (.store (i + 1)) + ∑ v ∈ range n, _ + 1 = _
      simp only [MainPc.remaining] at hsame ⊢
      omega
    | join i =>
      rw [hm] at hs
      dsimp only at hs
      split_ifs at hs with hi hdone
      · cases hs
        rw [State.remaining, State.remaining, hm]
        simp only [MainPc.remaining]
        omega
      · cases hs
        rw [State.remaining, State.remaining, hm]
        simp only [MainPc.remaining]
        omega
    | done =>
      rw [hm] at hs
      cases hs

/-- **No deadlock.** `main` waits only for threads that can go on. -/
theorem Inv.enabled (h : Inv n s) (hm : s.main ≠ .done) :
    ∃ a u, PrintIndex.step n s a = some u := by
  cases hpc : s.main with
  | store i =>
    by_cases hi : i < n
    · exact ⟨.main, _, by rw [PrintIndex.step, PrintIndex.stepMain, hpc]; exact if_pos hi⟩
    · exact ⟨.main, _, by rw [PrintIndex.step, PrintIndex.stepMain, hpc]; exact if_neg hi⟩
  | create i => exact ⟨.main, _, by rw [PrintIndex.step, PrintIndex.stepMain, hpc]⟩
  | join i =>
    by_cases hi : i < n
    · cases hp : s.threads i with
      | new =>
        have hle := (h.new_iff i).1 hp
        rw [hpc] at hle
        exact absurd hi (not_lt.2 hle)
      | read arg => exact ⟨.thread i, _, by rw [PrintIndex.step, PrintIndex.stepThread, hp]⟩
      | print index => exact ⟨.thread i, _, by rw [PrintIndex.step, PrintIndex.stepThread, hp]⟩
      | done =>
        refine ⟨.main, { s with main := .join (i + 1) }, ?_⟩
        rw [PrintIndex.step, PrintIndex.stepMain, hpc]
        exact (if_pos hi).trans (if_pos hp)
    · exact ⟨.main, _, by rw [PrintIndex.step, PrintIndex.stepMain, hpc]; exact if_neg hi⟩
  | done => exact absurd hpc hm

end Steps

/-- **Each index is printed once.**  In every run, for any number of threads and whatever the array
held, nothing but indices is printed, and none of them twice; a thread that is about to read has the
address of its own cell, where `main` has stored its index; every schedule ends, and when no step is
possible all threads have been joined and all indices have been printed, in some order. -/
theorem indices_printed {n : ℕ} {old : ℕ → ℤ} {as : List Action} {s : State}
    (h : run (step n) (start old) as = some s) :
    as.length ≤ 5 * n + 2 ∧ s.printed.Nodup ∧ (∀ v ∈ s.printed, ∃ t < n, v = (t : ℤ)) ∧
      (∀ t arg, s.threads t = .read arg → arg = t ∧ s.tId arg = t) ∧
      ((∀ a, step n s a = none) →
        s.main = .done ∧ s.printed.Perm ((List.range n).map fun t : ℕ => (t : ℤ))) := by
  have hinv : Inv n s := run_invariant (fun _ _ _ hI hs => hI.step hs) (inv_start n old) h
  have hlength : as.length + s.remaining n = (start old).remaining n :=
    run_length_add (fun _ _ _ hI hs => ⟨hI.step hs, hI.remaining_step hs⟩) (inv_start n old) h
  have hstart : (start old).remaining n = 5 * n + 2 := by
    simp [State.remaining, start, MainPc.remaining, Pc.remaining]
    omega
  refine ⟨by omega, hinv.nodup, fun v hv => ?_, fun t arg hp => ?_, fun hstuck => ?_⟩
  · obtain ⟨t, ht, rfl⟩ := (hinv.printed v).1 hv
    exact ⟨t, hinv.lt (by simp [ht]), rfl⟩
  · obtain rfl := hinv.arg t arg hp
    exact ⟨rfl, hinv.cell (by simp [hp])⟩
  · have hm : s.main = .done := by
      by_contra hm
      obtain ⟨a, u, hu⟩ := hinv.enabled hm
      rw [hstuck a] at hu
      cases hu
    refine ⟨hm, ?_⟩
    have hnodup : ((List.range n).map fun t : ℕ => (t : ℤ)).Nodup :=
      List.nodup_range.map Nat.cast_injective
    rw [List.perm_ext_iff_of_nodup hinv.nodup hnodup]
    intro v
    rw [hinv.printed, List.mem_map]
    constructor
    · rintro ⟨t, ht, rfl⟩
      exact ⟨t, List.mem_range.2 (hinv.lt (by simp [ht])), rfl⟩
    · rintro ⟨t, ht, rfl⟩
      refine ⟨t, hinv.joined t ?_, rfl⟩
      rw [hm]
      exact List.mem_range.1 ht

/-- The second thread is the first to print; the first one reads its cell at the very end. -/
def lateRead : List Action :=
  [.main, .main, .main, .main, .thread 1, .thread 1, .main, .thread 0, .thread 0, .main, .main,
    .main]

theorem indices_printed_lateRead :
    ∃ s, run (step 2) (start fun _ => 7) lateRead = some s ∧ s.printed = [1, 0] ∧
      s.printed.Nodup := by
  obtain ⟨s, hs, hprinted⟩ := Option.map_eq_some_iff.1
    (show (run (step 2) (start fun _ => 7) lateRead).map State.printed = some [1, 0] by decide)
  exact ⟨s, hs, hprinted, (indices_printed hs).2.1⟩

end PrintIndex
end PosixHw
