import PosixHw.Base.Crowd
import PosixHw.StoreSim.Conservation

/-!
# A customer that looks for a store enters one

Customers and loader try the stores one after the other, each from the first one on, and
`pthread_mutex_trylock` may fail at every one of them.  With three customers and a loader it does
not: a thread leaves a store behind only where another thread is, and four threads do not get
further than to the fourth store (`Crowd`).  So each pass through the stores ends in one of them,
and the fifth store is never entered.
-/

namespace PosixHw
namespace StoreSim

open Run Mutex Finset

/-- The store where the customer is: it tries to enter it, or is in it. -/
def CustomerPc.place : CustomerPc → ℕ
  | .tryLock i | .read i | .take i _ | .clear i | .unlock i => i
  | .test | .lockCount | .readCount | .writeCount _ | .unlockCount | .done => 0

/-- The store where the loader is. -/
def LoaderPc.place : LoaderPc → ℕ
  | .tryLock i | .read i | .write i _ | .unlock i => i
  | .lockCount | .testCount | .unlockCount _ | .done => 0

/-- The store where a thread is. -/
def State.place (s : State) : Thread → ℕ
  | .customer c => (s.customer c).place
  | .loader => s.loader.place

/-- The threads of the program. -/
def threads : Finset Thread := insert .loader ((range numCustomers).image .customer)

/-- The store that nobody enters. -/
def lastStore : ℕ := numStores - 1

/-- What holds in every reachable state; `v` is what the last store holds. -/
structure Probing (v : ℤ) (s : State) : Prop where
  known : Known s.holder s.holds
  inside : ∀ i t, s.holder i = some t → t ∈ threads
  crowd : Crowd threads s.place
  last : s.stores lastStore = v

theorem card_threads : threads.card = numStores - 1 := by decide

theorem customer_mem {c : ℕ} (hc : c < numCustomers) : Thread.customer c ∈ threads :=
  mem_insert_of_mem (mem_image_of_mem _ (mem_range.2 hc))

theorem loader_mem : Thread.loader ∈ threads := mem_insert_self _ _

/-- A thread is in the store that it has locked. -/
theorem place_of_holds {s : State} {t : Thread} {i : ℕ} (h : s.holds t = some i) :
    s.place t = i := by
  cases t with
  | customer c =>
    change (s.customer c).holds = some i at h
    change (s.customer c).place = i
    cases hc : s.customer c <;> rw [hc] at h <;> cases h <;> rfl
  | loader =>
    change s.loader.holds = some i at h
    change s.loader.place = i
    cases hl : s.loader <;> rw [hl] at h <;> cases h <;> rfl

@[simp] theorem place_setHolder (s : State) (i : ℕ) (t : Option Thread) :
    (s.setHolder i t).place = s.place := by
  funext u
  cases u <;> rfl

@[simp] theorem place_setStore (s : State) (i : ℕ) (v : ℤ) : (s.setStore i v).place = s.place := by
  funext u
  cases u <;> rfl

theorem place_setCustomer (s : State) (c : ℕ) (pc : CustomerPc) :
    (s.setCustomer c pc).place = Function.update s.place (.customer c) pc.place := by
  funext u
  cases u with
  | loader => rfl
  | customer d =>
    -- the customer that moves, and the others
    by_cases hd : d = c
    · subst hd
      simp [State.place, State.setCustomer]
    · simp [State.place, State.setCustomer, hd]

theorem place_setLoader (s : State) (pc : LoaderPc) :
    (s.setLoader pc).place = Function.update s.place .loader pc.place := by
  funext u
  cases u <;> rfl

/-! ### The moves of a thread -/

section Moves

variable {v : ℤ} {s s' : State} {t : Thread} {i x : ℕ} {o : Option ℕ}

/-- No thread is in the last store. -/
theorem Probing.lt (h : Probing v s) (ht : t ∈ threads) : s.place t < lastStore := by
  have hlt := h.crowd.lt ht
  rwa [card_threads] at hlt

/-- The thread keeps the mutex that it has, if it has one, and does not go on. -/
theorem Probing.move (h : Probing v s) (hholder : s'.holder = s.holder)
    (hholds : s'.holds = Function.update s.holds t o) (ho : o = s.holds t)
    (hplace : s'.place = Function.update s.place t x) (hx : x ≤ s.place t)
    (hlast : s'.stores lastStore = s.stores lastStore) : Probing v s' where
  known := by
    rw [hholder, hholds]
    exact h.known.move ho
  inside := by
    rw [hholder]
    exact h.inside
  crowd := by
    rw [hplace]
    exact h.crowd.back hx
  last := hlast.trans h.last

/-- The thread goes on to the next store, since somebody is in this one. -/
theorem Probing.advance (h : Probing v s) (hbusy : s.holder (s.place t) ≠ none)
    (hholder : s'.holder = s.holder) (hfree : s.holds t = none)
    (hholds : s'.holds = Function.update s.holds t none)
    (hplace : s'.place = Function.update s.place t (s.place t + 1))
    (hlast : s'.stores lastStore = s.stores lastStore) : Probing v s' where
  known := by
    rw [hholder, hholds]
    exact h.known.move hfree.symm
  inside := by
    rw [hholder]
    exact h.inside
  crowd := by
    obtain ⟨u, hu⟩ := Option.ne_none_iff_exists'.1 hbusy
    have hut : u ≠ t := by
      rintro rfl
      rw [h.known _ u hu] at hfree
      cases hfree
    rw [hplace]
    exact h.crowd.advance (h.inside _ u hu) hut (place_of_holds (h.known _ u hu))
  last := hlast.trans h.last

theorem Probing.lock (h : Probing v s) (ht : t ∈ threads) (hfree : s.holds t = none)
    (hi : s.place t = i) (hholder : s'.holder = Function.update s.holder i (some t))
    (hholds : s'.holds = Function.update s.holds t (some i))
    (hplace : s'.place = Function.update s.place t i)
    (hlast : s'.stores lastStore = s.stores lastStore) : Probing v s' where
  known := by
    rw [hholder, hholds]
    exact h.known.lock hfree
  inside j u hj := by
    rw [hholder] at hj
    by_cases hji : j = i
    · rw [hji, Function.update_self] at hj
      obtain rfl := Option.some.inj hj
      exact ht
    · rw [Function.update_of_ne hji] at hj
      exact h.inside j u hj
  crowd := by
    rw [hplace]
    exact h.crowd.back hi.ge
  last := hlast.trans h.last

theorem Probing.unlock (h : Probing v s) (hhas : s.holds t = some i)
    (hholder : s'.holder = Function.update s.holder i none)
    (hholds : s'.holds = Function.update s.holds t none)
    (hplace : s'.place = Function.update s.place t 0)
    (hlast : s'.stores lastStore = s.stores lastStore) : Probing v s' where
  known := by
    rw [hholder, hholds]
    exact h.known.unlock hhas
  inside j u hj := by
    rw [hholder] at hj
    by_cases hji : j = i
    · rw [hji, Function.update_self] at hj
      cases hj
    · rw [Function.update_of_ne hji] at hj
      exact h.inside j u hj
  crowd := by
    rw [hplace]
    exact h.crowd.back (Nat.zero_le _)
  last := hlast.trans h.last

/-- What is written into the store where a thread is does not change the last one. -/
theorem Probing.write (h : Probing v s) (ht : t ∈ threads) (hi : s.place t = i) (x : ℤ) :
    (s.setStore i x).stores lastStore = s.stores lastStore := by
  have hne : lastStore ≠ i := by
    rw [← hi]
    exact (h.lt ht).ne'
  exact Function.update_of_ne hne _ _

end Moves

/-! ### Runs -/

variable {v : ℤ} {s t : State} {c : ℕ}

theorem probing_start (stocks : ℕ → ℕ) (needs : ℕ → ℤ) :
    Probing (stocks lastStore) (start stocks needs) := by
  refine ⟨nofun, nofun, Crowd.start ?_, rfl⟩
  rintro (c | _) <;> rfl

theorem Probing.customerStep (h : Probing v s) (hlt : c < numCustomers)
    (hs : customerStep s c = some t) : Probing v t := by
  have hplace : s.place (.customer c) = (s.customer c).place := rfl
  have hholds : s.holds (.customer c) = (s.customer c).holds := rfl
  cases customerStep_cases hs with
  | busy i hc _ hbusy =>
    rw [hc] at hplace hholds
    refine h.advance ?_ rfl hholds (holds_setCustomer s c (.tryLock (i + 1))) ?_ rfl
    · rw [hplace]
      exact hbusy
    · rw [hplace]
      exact place_setCustomer s c _
  | lock i hc _ _ =>
    rw [hc] at hplace hholds
    exact h.lock (customer_mem hlt) hholds hplace rfl (holds_setCustomer _ c _)
      (place_setCustomer _ c _) rfl
  | unlock i hc =>
    rw [hc] at hholds
    exact h.unlock hholds rfl (holds_setCustomer _ c _) (place_setCustomer _ c _) rfl
  | clear i hc =>
    rw [hc] at hplace hholds
    refine h.move rfl ?_ hholds.symm ?_ hplace.ge (h.write (customer_mem hlt) hplace 0)
    · rw [holds_setCustomer, holds_setStore]
      rfl
    · rw [place_setCustomer, place_setStore]
      rfl
  | needs hc _ | leave hc _ | again _ hc _ | read _ hc | take _ _ hc | lockCount hc _
  | readCount hc | writeCount _ hc | unlockCount hc =>
    rw [hc] at hplace hholds
    exact h.move rfl (holds_setCustomer s c _) hholds.symm (place_setCustomer s c _)
      (hplace ▸ by simp [CustomerPc.place]) rfl

theorem Probing.loaderStep (h : Probing v s) (hs : loaderStep s = some t) : Probing v t := by
  have hplace : s.place .loader = s.loader.place := rfl
  have hholds : s.holds .loader = s.loader.holds := rfl
  cases loaderStep_cases hs with
  | busy i hl _ hbusy =>
    rw [hl] at hplace hholds
    refine h.advance ?_ rfl hholds (holds_setLoader s (.tryLock (i + 1))) ?_ rfl
    · rw [hplace]
      exact hbusy
    · rw [hplace]
      exact place_setLoader s _
  | lock i hl _ _ =>
    rw [hl] at hplace hholds
    exact h.lock loader_mem hholds hplace rfl (holds_setLoader _ _) (place_setLoader _ _) rfl
  | unlock i hl =>
    rw [hl] at hholds
    exact h.unlock hholds rfl (holds_setLoader _ _) (place_setLoader _ _) rfl
  | write i x hl =>
    rw [hl] at hplace hholds
    refine h.move rfl ?_ hholds.symm ?_ hplace.ge (h.write loader_mem hplace (x + loaderIncrement))
    · have hset := holds_setLoader (s.setStore i (x + loaderIncrement)) (.unlock i)
      rwa [holds_setStore] at hset
    · have hset := place_setLoader (s.setStore i (x + loaderIncrement)) (.unlock i)
      rwa [place_setStore] at hset
  | pass _ hl _ | read _ hl | lockCount hl _ | testCount hl | leave hl | stay hl =>
    rw [hl] at hplace hholds
    exact h.move rfl (holds_setLoader s _) hholds.symm (place_setLoader s _)
      (hplace ▸ by simp [LoaderPc.place]) rfl

theorem Probing.step {u : Thread} (h : Probing v s) (hs : step s u = some t) : Probing v t := by
  cases u with
  | customer c =>
    unfold StoreSim.step at hs
    dsimp only at hs
    split_ifs at hs with hlt
    exact h.customerStep hlt hs
  | loader => exact h.loaderStep hs

/-- **A pass through the stores ends in one of them.**  In every reachable state whoever tries a
store has another one left to try, so no pass ends without success; and the last store is not
locked and holds what `main` has put into it. -/
theorem scan_enters {stocks : ℕ → ℕ} {needs : ℕ → ℤ} {ts : List Thread}
    (h : run StoreSim.step (start stocks needs) ts = some s) :
    (∀ c < numCustomers, ∀ i, s.customer c = .tryLock i → i + 1 < numStores) ∧
    (∀ i, s.loader = .tryLock i → i + 1 < numStores) ∧
    s.holder lastStore = none ∧ s.stores lastStore = stocks lastStore := by
  have hprobing : Probing (stocks lastStore) s :=
    run_invariant (fun _ _ _ hs ht => Probing.step hs ht) (probing_start stocks needs) h
  have hlast : ∀ i < lastStore, i + 1 < numStores := fun i hi => Nat.succ_lt_succ hi
  refine ⟨fun c hc i hi => ?_, fun i hi => ?_, ?_, hprobing.last⟩
  · have hlt := hprobing.lt (customer_mem hc)
    rw [State.place, hi] at hlt
    exact hlast i hlt
  · have hlt := hprobing.lt loader_mem
    rw [State.place, hi] at hlt
    exact hlast i hlt
  · by_contra hlocked
    obtain ⟨u, hu⟩ := Option.ne_none_iff_exists'.1 hlocked
    have hlt := hprobing.lt (hprobing.inside _ u hu)
    rw [place_of_holds (hprobing.known _ u hu)] at hlt
    exact lt_irrefl _ hlt

/-- All four of them are in a store, the loader in the fourth one. -/
def fullStores : List Thread :=
  [.customer 0, .customer 0, .customer 1, .customer 1, .customer 1, .customer 2, .customer 2,
    .customer 2, .customer 2, .loader, .loader, .loader]

theorem scan_enters_fullStores :
    ∃ s, run StoreSim.step (start (fun _ => 7) fun _ => 10) fullStores = some s ∧
      s.loader = .tryLock 3 ∧ s.holder lastStore = none ∧ s.stores lastStore = 7 := by
  obtain ⟨s, hs, hloader⟩ : ∃ s, run StoreSim.step (start (fun _ => 7) fun _ => 10) fullStores
      = some s ∧ s.loader = .tryLock 3 := ⟨_, rfl, rfl⟩
  obtain ⟨-, -, hholder, hstores⟩ := scan_enters hs
  exact ⟨s, hs, hloader, hholder, hstores⟩

end StoreSim
end PosixHw
