import PosixHw.StoreSim.Basic
import Mathlib.Algebra.BigOperators.Group.Finset.Basic

/-!
# Nothing is created or lost

A take is two updates: the need of the customer goes down (`take`), and then the store is emptied
(`clear`).  Between the two the store is counted twice, and `State.due` adds it to the need again.
With this the balance of stores, needs and loads is the same in all reachable states (`Sound`).

The step that empties a store relies on the mutex of that store twice: the value that was taken is
still in the store, and no other customer is between its two updates there.
-/

namespace PosixHw
namespace StoreSim

open Run Mutex Finset

/-- The store whose mutex a customer at this place has locked. -/
def CustomerPc.holds : CustomerPc → Option ℕ
  | .read i | .take i _ | .clear i | .unlock i => some i
  | .test | .tryLock _ | .lockCount | .readCount | .writeCount _ | .unlockCount | .done => none

/-- The store whose mutex the loader at this place has locked. -/
def LoaderPc.holds : LoaderPc → Option ℕ
  | .read i | .write i _ | .unlock i => some i
  | .tryLock _ | .lockCount | .testCount | .unlockCount _ | .done => none

/-- The store whose mutex a thread has locked. -/
def State.holds (s : State) : Thread → Option ℕ
  | .customer c => (s.customer c).holds
  | .loader => s.loader.holds

/-- What a customer needed before the take that it has not finished. -/
def State.due (s : State) (c : ℕ) : ℤ :=
  match s.customer c with
  | .clear i => s.need c + s.stores i
  | _ => s.need c

/-- Stores and what has come out of them, less what has been loaded. -/
def State.balance (s : State) : ℤ :=
  ∑ i ∈ range numStores, s.stores i - ∑ c ∈ range numCustomers, s.due c - loaderIncrement * s.loads

/-- What holds in every reachable state; `b` is the balance. -/
structure Sound (b : ℤ) (s : State) : Prop where
  exclusive : Exclusive s.holder s.holds
  lt : ∀ t i, s.holds t = some i → i < numStores
  taken : ∀ c i v, s.customer c = .take i v → s.stores i = v
  written : ∀ i v, s.loader = .write i v → s.stores i = v
  nonneg : ∀ i, 0 ≤ s.stores i
  balance : s.balance = b

/-! ### Updates -/

theorem sum_update {n i : ℕ} (hi : i < n) (f : ℕ → ℤ) (x : ℤ) :
    ∑ j ∈ range n, Function.update f i x j = ∑ j ∈ range n, f j + (x - f i) := by
  have hmem : i ∈ range n := mem_range.2 hi
  rw [sum_update_of_mem hmem, sdiff_singleton_eq_erase, ← add_sum_erase _ f hmem]
  ring

@[simp] theorem holds_setHolder (s : State) (i : ℕ) (t : Option Thread) :
    (s.setHolder i t).holds = s.holds := by
  funext u
  cases u <;> rfl

@[simp] theorem holds_setStore (s : State) (i : ℕ) (v : ℤ) : (s.setStore i v).holds = s.holds := by
  funext u
  cases u <;> rfl

theorem holds_setCustomer (s : State) (c : ℕ) (pc : CustomerPc) :
    (s.setCustomer c pc).holds = Function.update s.holds (.customer c) pc.holds := by
  funext u
  cases u with
  | loader => rfl
  | customer d =>
    by_cases hd : d = c
    · subst hd
      simp [State.holds, State.setCustomer]
    · simp [State.holds, State.setCustomer, hd]

theorem holds_setLoader (s : State) (pc : LoaderPc) :
    (s.setLoader pc).holds = Function.update s.holds .loader pc.holds := by
  funext u
  cases u <;> rfl

theorem due_setCustomer (s : State) (c : ℕ) (pc : CustomerPc) :
    (s.setCustomer c pc).due = Function.update s.due c
      (match pc with | .clear i => s.need c + s.stores i | _ => s.need c) := by
  funext d
  by_cases hd : d = c
  · subst hd
    simp [State.due, State.setCustomer]
  · simp [State.due, State.setCustomer, hd]

theorem due_eq_need {s : State} {c : ℕ} (h : ∀ i, s.customer c ≠ .clear i) :
    s.due c = s.need c := by
  unfold State.due
  split
  · exact absurd ‹_› (h _)
  · rfl

/-- No take begins or ends. -/
theorem due_setCustomer_of_ne {s : State} {c : ℕ} {pc : CustomerPc}
    (hfrom : ∀ i, s.customer c ≠ .clear i) (hto : ∀ i, pc ≠ .clear i) :
    (s.setCustomer c pc).due = s.due := by
  rw [due_setCustomer]
  split
  · exact absurd rfl (hto _)
  · rw [← due_eq_need hfrom, Function.update_eq_self]

/-- A customer that goes to `pc` has taken what is in the store, if it has taken something. -/
theorem taken_update {stores : ℕ → ℤ} {customer : ℕ → CustomerPc} {c : ℕ} {pc : CustomerPc}
    (h : ∀ d i v, customer d = .take i v → stores i = v)
    (hpc : ∀ i v, pc = .take i v → stores i = v) :
    ∀ d i v, Function.update customer c pc d = .take i v → stores i = v := by
  intro d i v hd
  by_cases hdc : d = c
  · subst hdc
    rw [Function.update_self] at hd
    exact hpc i v hd
  · rw [Function.update_of_ne hdc] at hd
    exact h d i v hd

/-- A thread that goes on has a mutex of one of the stores, or none. -/
theorem lt_update {holds : Thread → Option ℕ} (h : ∀ t i, holds t = some i → i < numStores)
    {t : Thread} {o : Option ℕ} (ho : ∀ i, o = some i → i < numStores) :
    ∀ u i, Function.update holds t o u = some i → i < numStores := by
  intro u i hu
  by_cases hut : u = t
  · subst hut
    rw [Function.update_self] at hu
    exact ho i hu
  · rw [Function.update_of_ne hut] at hu
    exact h u i hu

/-! ### The steps of a customer -/

section Customer

variable {b : ℤ} {s : State} {c i : ℕ} {v : ℤ}

/-- The counter and its mutex have nothing to do with it. -/
theorem Sound.count (h : Sound b s) (n : ℤ) (o : Option Thread) :
    Sound b { s with satisfied := n, countHolder := o } :=
  ⟨h.exclusive, h.lt, h.taken, h.written, h.nonneg, h.balance⟩

/-- A move of a customer that changes no mutex, and neither begins nor ends a take. -/
theorem Sound.moveCustomer (h : Sound b s) {pc : CustomerPc}
    (hholds : pc.holds = (s.customer c).holds) (htaken : ∀ i v, pc = .take i v → s.stores i = v)
    (hfrom : ∀ i, s.customer c ≠ .clear i) (hto : ∀ i, pc ≠ .clear i) :
    Sound b (s.setCustomer c pc) := by
  refine ⟨?_, ?_, taken_update h.taken htaken, h.written, h.nonneg, ?_⟩
  · rw [holds_setCustomer]
    exact h.exclusive.move hholds
  · rw [holds_setCustomer]
    exact lt_update h.lt fun i hi => h.lt (.customer c) i (hholds.symm.trans hi)
  · rw [State.balance, due_setCustomer_of_ne hfrom hto]
    exact h.balance

theorem Sound.lock (h : Sound b s) (hc : s.customer c = .tryLock i) (hi : i < numStores)
    (hfree : s.holder i = none) :
    Sound b ((s.setHolder i (some (.customer c))).setCustomer c (.read i)) := by
  have hdue : ((s.setHolder i (some (.customer c))).setCustomer c (.read i)).due = s.due :=
    due_setCustomer_of_ne (s := s) (fun j hj => nomatch hc.symm.trans hj) nofun
  refine ⟨?_, ?_, taken_update h.taken nofun, h.written, h.nonneg, ?_⟩
  · rw [holds_setCustomer, holds_setHolder]
    exact h.exclusive.lock hfree
  · rw [holds_setCustomer, holds_setHolder]
    exact lt_update h.lt fun j hj => Option.some.inj hj ▸ hi
  · rw [State.balance, hdue]
    exact h.balance

theorem Sound.unlock (h : Sound b s) (hc : s.customer c = .unlock i) :
    Sound b ((s.setHolder i none).setCustomer c .test) := by
  have hdue : ((s.setHolder i none).setCustomer c .test).due = s.due :=
    due_setCustomer_of_ne (s := s) (fun j hj => nomatch hc.symm.trans hj) nofun
  have hholds : s.holds (.customer c) = some i := by rw [State.holds, hc]; rfl
  refine ⟨?_, ?_, taken_update h.taken nofun, h.written, h.nonneg, ?_⟩
  · rw [holds_setCustomer, holds_setHolder]
    exact h.exclusive.unlock hholds
  · rw [holds_setCustomer, holds_setHolder]
    exact lt_update h.lt nofun
  · rw [State.balance, hdue]
    exact h.balance

/-- The first half of a take: the need goes down by what is still in the store. -/
theorem Sound.take (h : Sound b s) (hc : s.customer c = .take i v) :
    Sound b { s.setCustomer c (.clear i) with
      need := Function.update s.need c (s.need c - v) } := by
  have hv : s.stores i = v := h.taken c i v hc
  have hdue : ({ s.setCustomer c (.clear i) with
      need := Function.update s.need c (s.need c - v) } : State).due = s.due := by
    funext d
    by_cases hdc : d = c
    · subst hdc
      have hnow : s.due d = s.need d := due_eq_need fun j hj => nomatch hc.symm.trans hj
      rw [hnow]
      simp [State.due, State.setCustomer, hv]
    · simp [State.due, State.setCustomer, hdc]
  have hholds : CustomerPc.holds (.clear i) = (s.customer c).holds := by rw [hc]; rfl
  have hmove : Exclusive s.holder (s.setCustomer c (.clear i)).holds := by
    rw [holds_setCustomer]
    exact h.exclusive.move hholds
  have hlt : ∀ t j, (s.setCustomer c (.clear i)).holds t = some j → j < numStores := by
    rw [holds_setCustomer]
    exact lt_update h.lt fun j hj => h.lt (.customer c) j (hholds.symm.trans hj)
  refine ⟨hmove, hlt, taken_update h.taken nofun, h.written, h.nonneg, ?_⟩
  rw [State.balance, hdue]
  exact h.balance

/-- The second half of a take: the store is emptied.  No other thread is at work on it. -/
theorem Sound.clear (h : Sound b s) (hlt : c < numCustomers) (hc : s.customer c = .clear i) :
    Sound b ((s.setStore i 0).setCustomer c (.unlock i)) := by
  have hholds : s.holds (.customer c) = some i := by rw [State.holds, hc]; rfl
  have hself : CustomerPc.holds (.unlock i) = (s.customer c).holds := by rw [hc]; rfl
  -- what the others find in the stores that they have locked
  have hother : ∀ t j, t ≠ .customer c → s.holds t = some j →
      Function.update s.stores i 0 j = s.stores j := by
    intro t j ht hj
    refine Function.update_of_ne ?_ _ _
    rintro rfl
    exact ht (h.exclusive.unique hj hholds)
  refine ⟨?_, ?_, ?_, ?_, ?_, ?_⟩
  · rw [holds_setCustomer, holds_setStore]
    exact h.exclusive.move hself
  · rw [holds_setCustomer, holds_setStore]
    exact lt_update h.lt fun j hj => h.lt (.customer c) j (hself.symm.trans hj)
  · intro d j w hd
    by_cases hdc : d = c
    · subst hdc
      simp [State.setCustomer] at hd
    · simp only [State.setCustomer, Function.update_of_ne hdc] at hd
      have hd' : s.customer d = .take j w := hd
      have hj : s.holds (.customer d) = some j := by rw [State.holds, hd']; rfl
      exact (hother (.customer d) j (fun he => hdc (Thread.customer.inj he)) hj).trans
        (h.taken d j w hd')
  · intro j w hw
    have hw' : s.loader = .write j w := hw
    have hj : s.holds .loader = some j := by rw [State.holds, hw']; rfl
    exact (hother .loader j nofun hj).trans (h.written j w hw')
  · intro j
    show 0 ≤ Function.update s.stores i 0 j
    by_cases hji : j = i
    · rw [hji, Function.update_self]
    · rw [Function.update_of_ne hji]
      exact h.nonneg j
  · have hdue : ((s.setStore i 0).setCustomer c (.unlock i)).due
        = Function.update s.due c (s.need c) := by
      funext d
      by_cases hdc : d = c
      · subst hdc
        simp [State.due, State.setCustomer, State.setStore]
      · rw [Function.update_of_ne hdc]
        have hpc : ((s.setStore i 0).setCustomer c (.unlock i)).customer d = s.customer d :=
          Function.update_of_ne hdc _ _
        unfold State.due
        rw [hpc]
        cases hd : s.customer d with
        | clear j =>
          have hj : s.holds (.customer d) = some j := by rw [State.holds, hd]; rfl
          exact congrArg (s.need d + ·)
            (hother (.customer d) j (fun he => hdc (Thread.customer.inj he)) hj)
        | test | tryLock j | read j | take j w | unlock j | lockCount | readCount | writeCount n
        | unlockCount | done => rfl
    have hnow : s.due c = s.need c + s.stores i := by unfold State.due; rw [hc]
    have hbalance := h.balance
    unfold State.balance at hbalance ⊢
    rw [hdue, sum_update hlt, hnow]
    show ∑ j ∈ range numStores, Function.update s.stores i 0 j - _ - loaderIncrement * s.loads = b
    rw [sum_update (h.lt _ i hholds)]
    linarith

end Customer

/-! ### The steps of the loader -/

section Loader

variable {b : ℤ} {s : State} {i : ℕ} {v : ℤ}

/-- A move of the loader that changes no mutex. -/
theorem Sound.moveLoader (h : Sound b s) {pc : LoaderPc} (hholds : pc.holds = s.loader.holds)
    (hwritten : ∀ i v, pc = .write i v → s.stores i = v) : Sound b (s.setLoader pc) := by
  refine ⟨?_, ?_, h.taken, hwritten, h.nonneg, h.balance⟩
  · rw [holds_setLoader]
    exact h.exclusive.move hholds
  · rw [holds_setLoader]
    exact lt_update h.lt fun i hi => h.lt .loader i (hholds.symm.trans hi)

theorem Sound.lockLoader (h : Sound b s) (hi : i < numStores) (hfree : s.holder i = none) :
    Sound b ((s.setHolder i (some .loader)).setLoader (.read i)) := by
  refine ⟨?_, ?_, h.taken, nofun, h.nonneg, h.balance⟩
  · rw [holds_setLoader, holds_setHolder]
    exact h.exclusive.lock hfree
  · rw [holds_setLoader, holds_setHolder]
    exact lt_update h.lt fun j hj => Option.some.inj hj ▸ hi

theorem Sound.unlockLoader (h : Sound b s) (hl : s.loader = .unlock i) :
    Sound b ((s.setHolder i none).setLoader .lockCount) := by
  have hholds : s.holds .loader = some i := by rw [State.holds, hl]; rfl
  refine ⟨?_, ?_, h.taken, nofun, h.nonneg, h.balance⟩
  · rw [holds_setLoader, holds_setHolder]
    exact h.exclusive.unlock hholds
  · rw [holds_setLoader, holds_setHolder]
    exact lt_update h.lt nofun

/-- A load.  No customer is at work on the store. -/
theorem Sound.write (h : Sound b s) (hl : s.loader = .write i v) :
    Sound b { (s.setStore i (v + loaderIncrement)).setLoader (.unlock i) with
      loads := s.loads + 1 } := by
  have hv : s.stores i = v := h.written i v hl
  have hholds : s.holds .loader = some i := by rw [State.holds, hl]; rfl
  have hself : LoaderPc.holds (.unlock i) = s.loader.holds := by rw [hl]; rfl
  have hother : ∀ d j, s.holds (.customer d) = some j →
      Function.update s.stores i (v + loaderIncrement) j = s.stores j := by
    intro d j hj
    refine Function.update_of_ne ?_ _ _
    rintro rfl
    exact nomatch h.exclusive.unique hj hholds
  have hexclusive : Exclusive s.holder ((s.setStore i (v + loaderIncrement)).setLoader
      (.unlock i)).holds := by
    rw [holds_setLoader, holds_setStore]
    exact h.exclusive.move hself
  have hlt : ∀ t j, ((s.setStore i (v + loaderIncrement)).setLoader (.unlock i)).holds t = some j →
      j < numStores := by
    rw [holds_setLoader, holds_setStore]
    exact lt_update h.lt fun j hj => h.lt .loader j (hself.symm.trans hj)
  refine ⟨hexclusive, hlt, ?_, nofun, ?_, ?_⟩
  · intro d j w hd
    have hd' : s.customer d = .take j w := hd
    have hj : s.holds (.customer d) = some j := by rw [State.holds, hd']; rfl
    exact (hother d j hj).trans (h.taken d j w hd')
  · intro j
    show 0 ≤ Function.update s.stores i (v + loaderIncrement) j
    by_cases hji : j = i
    · have hnonneg := h.nonneg i
      rw [hji, Function.update_self, ← hv]
      unfold loaderIncrement
      omega
    · rw [Function.update_of_ne hji]
      exact h.nonneg j
  · have hdue : ({ (s.setStore i (v + loaderIncrement)).setLoader (.unlock i) with
        loads := s.loads + 1 } : State).due = s.due := by
      funext d
      unfold State.due
      show (match s.customer d with
        | .clear j => s.need d + Function.update s.stores i (v + loaderIncrement) j
        | _ => s.need d) = _
      cases hd : s.customer d with
      | clear j =>
        have hj : s.holds (.customer d) = some j := by rw [State.holds, hd]; rfl
        exact congrArg (s.need d + ·) (hother d j hj)
      | test | tryLock j | read j | take j w | unlock j | lockCount | readCount | writeCount n
      | unlockCount | done => rfl
    have hbalance := h.balance
    unfold State.balance at hbalance ⊢
    rw [hdue]
    show ∑ j ∈ range numStores, Function.update s.stores i (v + loaderIncrement) j - _
      - loaderIncrement * ((s.loads + 1 : ℕ) : ℤ) = b
    rw [sum_update (h.lt _ i hholds), hv]
    push_cast
    linarith

end Loader

/-! ### Runs -/

theorem sound_start (stocks : ℕ → ℕ) (needs : ℕ → ℤ) :
    Sound (start stocks needs).balance (start stocks needs) := by
  refine ⟨?_, ?_, nofun, nofun, fun _ => Int.natCast_nonneg _, rfl⟩
  · rintro (c | _) i hi <;> cases hi
  · rintro (c | _) i hi <;> cases hi

theorem Sound.customerStep {b : ℤ} {s t : State} {c : ℕ} (h : Sound b s) (hlt : c < numCustomers)
    (hs : customerStep s c = some t) : Sound b t := by
  cases customerStep_cases hs with
  | lock i hc hi hfree => exact h.lock hc hi hfree
  | read i hc =>
    refine h.moveCustomer (by rw [hc]; rfl) (fun j v hj => ?_) (by rw [hc]; nofun) nofun
    obtain ⟨rfl, rfl⟩ := CustomerPc.take.inj hj
    rfl
  | take i v hc => exact h.take hc
  | clear i hc => exact h.clear hlt hc
  | unlock i hc => exact h.unlock hc
  | needs hc _ | leave hc _ | busy _ hc _ _ | again _ hc _ | readCount hc =>
    exact h.moveCustomer (by rw [hc]; rfl) nofun (by rw [hc]; nofun) nofun
  | lockCount hc _ =>
    have hmove : Sound b (s.setCustomer c .readCount) :=
      h.moveCustomer (by rw [hc]; rfl) nofun (by rw [hc]; nofun) nofun
    exact hmove.count _ _
  | writeCount n hc =>
    have hmove : Sound b (s.setCustomer c .unlockCount) :=
      h.moveCustomer (by rw [hc]; rfl) nofun (by rw [hc]; nofun) nofun
    exact hmove.count _ _
  | unlockCount hc =>
    have hmove : Sound b (s.setCustomer c .done) :=
      h.moveCustomer (by rw [hc]; rfl) nofun (by rw [hc]; nofun) nofun
    exact hmove.count _ _

theorem Sound.loaderStep {b : ℤ} {s t : State} (h : Sound b s) (hs : loaderStep s = some t) :
    Sound b t := by
  cases loaderStep_cases hs with
  | lock i hl hi hfree => exact h.lockLoader hi hfree
  | read i hl =>
    refine h.moveLoader (by rw [hl]; rfl) fun j v hj => ?_
    obtain ⟨rfl, rfl⟩ := LoaderPc.write.inj hj
    rfl
  | write i v hl => exact h.write hl
  | unlock i hl => exact h.unlockLoader hl
  | busy _ hl _ _ | pass _ hl _ | testCount hl => exact h.moveLoader (by rw [hl]; rfl) nofun
  | lockCount hl _ =>
    have hmove : Sound b (s.setLoader .testCount) := h.moveLoader (by rw [hl]; rfl) nofun
    exact hmove.count _ _
  | leave hl =>
    have hmove : Sound b (s.setLoader .done) := h.moveLoader (by rw [hl]; rfl) nofun
    exact hmove.count _ _
  | stay hl =>
    have hmove : Sound b (s.setLoader (.tryLock 0)) := h.moveLoader (by rw [hl]; rfl) nofun
    exact hmove.count _ _

theorem Sound.step {b : ℤ} {s t : State} {u : Thread} (h : Sound b s) (hs : step s u = some t) :
    Sound b t := by
  cases u with
  | customer c =>
    unfold StoreSim.step at hs
    dsimp only at hs
    split_ifs at hs with hlt
    exact h.customerStep hlt hs
  | loader => exact h.loaderStep hs

/-- **Nothing is created or lost.**  In every reachable state the stores are not negative; and when
no mutex of a store is locked, what is in the stores and what the customers have taken is what was
there at first and what has been loaded. -/
theorem conservation {stocks : ℕ → ℕ} {needs : ℕ → ℤ} {ts : List Thread} {s : State}
    (h : run step (start stocks needs) ts = some s) :
    (∀ i, 0 ≤ s.stores i) ∧
    ((∀ i < numStores, s.holder i = none) →
      ∑ i ∈ range numStores, s.stores i + ∑ c ∈ range numCustomers, (needs c - s.need c)
        = ∑ i ∈ range numStores, (stocks i : ℤ) + loaderIncrement * s.loads) := by
  have hsound : Sound (start stocks needs).balance s :=
    run_invariant (fun _ _ _ hs ht => Sound.step hs ht) (sound_start stocks needs) h
  refine ⟨hsound.nonneg, fun hfree => ?_⟩
  -- no customer is between the two halves of a take
  have hdue : ∀ c, s.due c = s.need c := by
    intro c
    refine due_eq_need fun i hi => ?_
    have hholds : s.holds (.customer c) = some i := by rw [State.holds, hi]; rfl
    have hholder := hsound.exclusive _ i hholds
    rw [hfree i (hsound.lt _ i hholds)] at hholder
    cases hholder
  have hbalance := hsound.balance
  have hstart : (start stocks needs).due = needs := rfl
  unfold State.balance at hbalance
  rw [hstart, sum_congr rfl fun c _ => hdue c] at hbalance
  rw [sum_sub_distrib]
  simp only [start, Nat.cast_zero, mul_zero, sub_zero] at hbalance
  linarith

/-- The first customer takes all 7 from the first store, and the loader fills it up. -/
def oneTake : List Thread := List.replicate 6 (.customer 0) ++ List.replicate 4 .loader

theorem conservation_oneTake :
    ∃ s, run step (start (fun _ => 7) fun _ => 10) oneTake = some s ∧ s.need 0 = 3 ∧
      s.stores 0 = loaderIncrement ∧ s.loads = 1 ∧
      ∑ i ∈ range numStores, s.stores i + ∑ c ∈ range numCustomers, (10 - s.need c)
        = ∑ _i ∈ range numStores, (7 : ℤ) + loaderIncrement * s.loads := by
  obtain ⟨s, hs, hneed, hstore, hloads, hfree⟩ : ∃ s,
      run step (start (fun _ => 7) fun _ => 10) oneTake = some s ∧ s.need 0 = 3 ∧
      s.stores 0 = loaderIncrement ∧ s.loads = 1 ∧ ∀ i < numStores, s.holder i = none :=
    ⟨_, rfl, rfl, rfl, rfl, by decide +kernel⟩
  exact ⟨s, hs, hneed, hstore, hloads, (conservation hs).2 hfree⟩

end StoreSim
end PosixHw
