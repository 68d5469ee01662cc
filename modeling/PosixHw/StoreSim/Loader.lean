import PosixHw.StoreSim.Basic
import Mathlib.Data.Finset.Card

/-!
# The loader does not stop early

`satisfied_customers` is the number of the customers that have counted themselves, and a customer
does so only when it needs nothing more.  A customer adds 1 to the value that it has read before;
since the mutex is locked, that value is still the one in the variable (`Counting.fresh`).  The
loader leaves when it has seen all of them.
-/

namespace PosixHw
namespace StoreSim

open Run Mutex Finset

/-- The customer has the mutex of the counter. -/
def CustomerPc.holdsCount : CustomerPc → Option Unit
  | .readCount | .writeCount _ | .unlockCount => some ()
  | .test | .tryLock _ | .read _ | .take _ _ | .clear _ | .unlock _ | .lockCount | .done => none

/-- The customer has left its loop. -/
def CustomerPc.left : CustomerPc → Bool
  | .lockCount | .readCount | .writeCount _ | .unlockCount | .done => true
  | .test | .tryLock _ | .read _ | .take _ _ | .clear _ | .unlock _ => false

/-- The customer has counted itself. -/
def CustomerPc.counted : CustomerPc → Bool
  | .unlockCount | .done => true
  | .test | .tryLock _ | .read _ | .take _ _ | .clear _ | .unlock _ | .lockCount | .readCount
  | .writeCount _ => false

/-- The loader has the mutex of the counter. -/
def LoaderPc.holdsCount : LoaderPc → Option Unit
  | .testCount | .unlockCount _ => some ()
  | .tryLock _ | .read _ | .write _ _ | .unlock _ | .lockCount | .done => none

/-- The loader is leaving its loop or has left it. -/
def LoaderPc.left : LoaderPc → Bool
  | .unlockCount true | .done => true
  | .tryLock _ | .read _ | .write _ _ | .unlock _ | .lockCount | .testCount
  | .unlockCount false => false

/-- The thread has the mutex of the counter. -/
def State.holdsCount (s : State) : Thread → Option Unit
  | .customer c => (s.customer c).holdsCount
  | .loader => s.loader.holdsCount

/-- The customers that have counted themselves. -/
def State.counted (s : State) : Finset ℕ :=
  (range numCustomers).filter fun c => (s.customer c).counted = true

/-- What holds in every reachable state. -/
structure Counting (s : State) : Prop where
  exclusive : Exclusive (fun _ => s.countHolder) s.holdsCount
  count : s.satisfied = s.counted.card
  fresh : ∀ c n, s.customer c = .writeCount n → s.satisfied = n
  need : ∀ c, (s.customer c).left = true → s.need c ≤ 0
  loader : s.loader.left = true → s.counted = range numCustomers

/-! ### Updates -/

theorem holdsCount_setCustomer (s : State) (c : ℕ) (pc : CustomerPc) :
    (s.setCustomer c pc).holdsCount = Function.update s.holdsCount (.customer c) pc.holdsCount := by
  funext u
  cases u with
  | loader => rfl
  | customer d =>
    by_cases hd : d = c
    · subst hd
      simp [State.holdsCount, State.setCustomer]
    · simp [State.holdsCount, State.setCustomer, hd]

theorem holdsCount_setLoader (s : State) (pc : LoaderPc) :
    (s.setLoader pc).holdsCount = Function.update s.holdsCount .loader pc.holdsCount := by
  funext u
  cases u <;> rfl

/-- A customer that has not counted itself, or had done so before, changes nothing. -/
theorem counted_setCustomer {s : State} {c : ℕ} {pc : CustomerPc}
    (h : pc.counted = (s.customer c).counted) : (s.setCustomer c pc).counted = s.counted := by
  refine filter_congr fun d _ => ?_
  by_cases hd : d = c
  · subst hd
    simp [State.setCustomer, h]
  · simp [State.setCustomer, hd]

/-- A customer counts itself. -/
theorem counted_insert {s : State} {c : ℕ} (hc : c < numCustomers) :
    (s.setCustomer c .unlockCount).counted = insert c s.counted := by
  ext d
  unfold State.counted
  rw [mem_insert, mem_filter, mem_filter, mem_range]
  by_cases hd : d = c
  · subst hd
    simp [hc, State.setCustomer, CustomerPc.counted]
  · simp [hd, State.setCustomer]

theorem fresh_update {satisfied : ℤ} {customer : ℕ → CustomerPc} {c : ℕ} {pc : CustomerPc}
    (h : ∀ d n, customer d = .writeCount n → satisfied = n)
    (hpc : ∀ n, pc = .writeCount n → satisfied = n) :
    ∀ d n, Function.update customer c pc d = .writeCount n → satisfied = n := by
  intro d n hd
  by_cases hdc : d = c
  · subst hdc
    rw [Function.update_self] at hd
    exact hpc n hd
  · rw [Function.update_of_ne hdc] at hd
    exact h d n hd

theorem need_update {need : ℕ → ℤ} {customer : ℕ → CustomerPc} {c : ℕ} {pc : CustomerPc}
    (h : ∀ d, (customer d).left = true → need d ≤ 0) (hpc : pc.left = true → need c ≤ 0) :
    ∀ d, (Function.update customer c pc d).left = true → need d ≤ 0 := by
  intro d hd
  by_cases hdc : d = c
  · subst hdc
    rw [Function.update_self] at hd
    exact hpc hd
  · rw [Function.update_of_ne hdc] at hd
    exact h d hd

/-! ### The steps of a customer -/

section Customer

variable {s : State} {c : ℕ}

/-- A move of a customer that does not change the counter; `o` has its mutex then. -/
theorem Counting.moveCustomer (h : Counting s) {pc : CustomerPc} {o : Option Thread}
    (hexclusive : Exclusive (fun _ => o)
      (Function.update s.holdsCount (.customer c) pc.holdsCount))
    (hcounted : pc.counted = (s.customer c).counted)
    (hfresh : ∀ n, pc = .writeCount n → s.satisfied = n)
    (hneed : pc.left = true → s.need c ≤ 0) :
    Counting { s.setCustomer c pc with countHolder := o } := by
  have hsame := counted_setCustomer hcounted
  refine ⟨?_, ?_, fresh_update h.fresh hfresh, need_update h.need hneed, ?_⟩
  · rw [← holdsCount_setCustomer] at hexclusive
    exact hexclusive
  · exact h.count.trans (congrArg (fun t : Finset ℕ => (t.card : ℤ)) hsame.symm)
  · exact fun hl => hsame.trans (h.loader hl)

theorem CustomerPc.of_not_left {pc : CustomerPc} (h : pc.left = false) :
    pc.holdsCount = none ∧ pc.counted = false := by
  cases pc with
  | test | tryLock i | read i | take i v | clear i | unlock i => exact ⟨rfl, rfl⟩
  | lockCount | readCount | writeCount n | unlockCount | done => cases h

/-- A move of a customer within its loop. -/
theorem Counting.shop (h : Counting s) {pc : CustomerPc} (hfrom : (s.customer c).left = false)
    (hto : pc.left = false) : Counting (s.setCustomer c pc) := by
  obtain ⟨hholds, hcounted⟩ := CustomerPc.of_not_left hfrom
  obtain ⟨hholds', hcounted'⟩ := CustomerPc.of_not_left hto
  refine h.moveCustomer (h.exclusive.move (hholds'.trans hholds.symm))
    (hcounted'.trans hcounted.symm) ?_ ?_
  · rintro n rfl
    cases hto
  · exact fun hl => absurd (hto.symm.trans hl) Bool.false_ne_true

/-- What is in the stores and who has locked them has nothing to do with it. -/
theorem Counting.stores (h : Counting s) (stores : ℕ → ℤ) (holder : ℕ → Option Thread)
    (loads : ℕ) : Counting { s with stores := stores, holder := holder, loads := loads } :=
  ⟨h.exclusive, h.count, h.fresh, h.need, h.loader⟩

/-- Nor has the need of a customer that is in its loop. -/
theorem Counting.take (h : Counting s) (v : ℤ) (hc : (s.customer c).left = false) :
    Counting { s with need := Function.update s.need c v } := by
  refine ⟨h.exclusive, h.count, h.fresh, fun d hd => ?_, h.loader⟩
  have hdc : d ≠ c := by
    rintro rfl
    exact Bool.false_ne_true (hc.symm.trans hd)
  show Function.update s.need c v d ≤ 0
  rw [Function.update_of_ne hdc]
  exact h.need d hd

/-- A customer counts itself: nobody has changed the counter since it was read. -/
theorem Counting.writeCount (h : Counting s) (hlt : c < numCustomers) {n : ℤ}
    (hc : s.customer c = .writeCount n) :
    Counting { s.setCustomer c .unlockCount with satisfied := n + 1 } := by
  have hn : s.satisfied = n := h.fresh c n hc
  have hholds : s.holdsCount (.customer c) = some () := by rw [State.holdsCount, hc]; rfl
  have hnew : (s.setCustomer c .unlockCount).counted = insert c s.counted := counted_insert hlt
  have hnot : c ∉ s.counted := by
    intro hmem
    have hcounted := (mem_filter.1 hmem).2
    rw [hc] at hcounted
    cases hcounted
  refine ⟨?_, ?_, ?_, need_update h.need fun _ => h.need c (by rw [hc]; rfl), fun hl => ?_⟩
  · have hmove : Exclusive (fun _ => s.countHolder)
        (Function.update s.holdsCount (.customer c) (some ())) := h.exclusive.move hholds.symm
    have hpc : CustomerPc.holdsCount .unlockCount = some () := rfl
    rw [← hpc, ← holdsCount_setCustomer] at hmove
    exact hmove
  · show n + 1 = ((s.setCustomer c .unlockCount).counted.card : ℤ)
    rw [hnew, card_insert_of_notMem hnot, ← hn, h.count]
    push_cast
    rfl
  · intro d m hd
    -- nobody else is about to write the counter
    by_cases hdc : d = c
    · subst hdc
      simp [State.setCustomer] at hd
    · simp only [State.setCustomer, Function.update_of_ne hdc] at hd
      have hd' : s.holdsCount (.customer d) = some () := by rw [State.holdsCount, hd]; rfl
      exact absurd (Thread.customer.inj (h.exclusive.unique hd' hholds)) hdc
  · have hall : s.counted = range numCustomers := h.loader hl
    show (s.setCustomer c .unlockCount).counted = range numCustomers
    rw [hnew, hall]
    exact insert_eq_of_mem (mem_range.2 hlt)

theorem Counting.customerStep {t : State} (h : Counting s) (hlt : c < numCustomers)
    (hs : customerStep s c = some t) : Counting t := by
  cases customerStep_cases hs with
  | needs hc _ | busy _ hc _ _ | again _ hc _ | read _ hc => exact h.shop (by rw [hc]; rfl) rfl
  | leave hc hneed =>
    exact h.moveCustomer (h.exclusive.move (by rw [State.holdsCount, hc]; rfl)) (by rw [hc]; rfl)
      nofun fun _ => not_lt.1 hneed
  | lock i hc _ _ =>
    have hmove : Counting (s.setCustomer c (.read i)) := h.shop (by rw [hc]; rfl) rfl
    exact hmove.stores _ _ _
  | take i v hc =>
    have hmove : Counting (s.setCustomer c (.clear i)) := h.shop (by rw [hc]; rfl) rfl
    exact hmove.take _ (by simp [State.setCustomer, CustomerPc.left])
  | clear i hc =>
    have hmove : Counting (s.setCustomer c (.unlock i)) := h.shop (by rw [hc]; rfl) rfl
    exact hmove.stores _ _ _
  | unlock i hc =>
    have hmove : Counting (s.setCustomer c .test) := h.shop (by rw [hc]; rfl) rfl
    exact hmove.stores _ _ _
  | lockCount hc hfree =>
    exact h.moveCustomer (h.exclusive.lock_single hfree) (by rw [hc]; rfl) nofun
      fun _ => h.need c (by rw [hc]; rfl)
  | readCount hc =>
    refine h.moveCustomer (h.exclusive.move (by rw [State.holdsCount, hc]; rfl)) (by rw [hc]; rfl)
      (fun n hn => ?_) fun _ => h.need c (by rw [hc]; rfl)
    exact CustomerPc.writeCount.inj hn
  | writeCount n hc => exact h.writeCount hlt hc
  | unlockCount hc =>
    have hholds : s.holdsCount (.customer c) = some () := by rw [State.holdsCount, hc]; rfl
    exact h.moveCustomer (h.exclusive.unlock_single hholds) (by rw [hc]; rfl) nofun
      fun _ => h.need c (by rw [hc]; rfl)

end Customer

/-! ### The steps of the loader -/

section Loader

variable {s : State}

/-- A move of the loader; `o` has the mutex of the counter then. -/
theorem Counting.moveLoader (h : Counting s) {pc : LoaderPc} {o : Option Thread}
    (hexclusive : Exclusive (fun _ => o) (Function.update s.holdsCount .loader pc.holdsCount))
    (hleft : pc.left = true → s.counted = range numCustomers) :
    Counting { s.setLoader pc with countHolder := o } := by
  refine ⟨?_, h.count, h.fresh, h.need, hleft⟩
  rw [← holdsCount_setLoader] at hexclusive
  exact hexclusive

/-- A move of the loader that does not change the mutex of the counter. -/
theorem Counting.goLoader (h : Counting s) {pc : LoaderPc}
    (hholds : pc.holdsCount = s.loader.holdsCount)
    (hleft : pc.left = true → s.counted = range numCustomers) : Counting (s.setLoader pc) := by
  have hmove : Counting { s.setLoader pc with countHolder := s.countHolder } :=
    h.moveLoader (h.exclusive.move hholds) hleft
  exact hmove

/-- The loader has seen all customers. -/
theorem Counting.all (h : Counting s) (hle : (numCustomers : ℤ) ≤ s.satisfied) :
    s.counted = range numCustomers := by
  have hcard : numCustomers ≤ s.counted.card := by
    rw [h.count] at hle
    exact_mod_cast hle
  exact eq_of_subset_of_card_le (filter_subset _ _) (by rwa [card_range])

theorem Counting.loaderStep {t : State} (h : Counting s) (hs : loaderStep s = some t) :
    Counting t := by
  cases loaderStep_cases hs with
  | busy _ hl _ _ | pass _ hl _ | read _ hl => exact h.goLoader (by rw [hl]; rfl) nofun
  | lock i hl _ _ =>
    have hmove : Counting (s.setLoader (.read i)) := h.goLoader (by rw [hl]; rfl) nofun
    exact hmove.stores _ _ _
  | write i v hl =>
    have hmove : Counting (s.setLoader (.unlock i)) := h.goLoader (by rw [hl]; rfl) nofun
    exact hmove.stores _ _ _
  | unlock i hl =>
    have hmove : Counting (s.setLoader .lockCount) := h.goLoader (by rw [hl]; rfl) nofun
    exact hmove.stores _ _ _
  | lockCount hl hfree => exact h.moveLoader (h.exclusive.lock_single hfree) nofun
  | testCount hl =>
    refine h.goLoader (by rw [hl]; rfl) fun hleft => h.all ?_
    by_contra hlt
    rw [decide_eq_false hlt] at hleft
    cases hleft
  | leave hl =>
    have hholds : s.holdsCount .loader = some () := by rw [State.holdsCount, hl]; rfl
    exact h.moveLoader (h.exclusive.unlock_single hholds) fun _ => h.loader (by rw [hl]; rfl)
  | stay hl =>
    have hholds : s.holdsCount .loader = some () := by rw [State.holdsCount, hl]; rfl
    exact h.moveLoader (h.exclusive.unlock_single hholds) nofun

end Loader

/-! ### Runs -/

theorem counting_start (stocks : ℕ → ℕ) (needs : ℕ → ℤ) : Counting (start stocks needs) := by
  refine ⟨?_, ?_, nofun, nofun, nofun⟩
  · rintro (c | _) i hi <;> cases hi
  · have hnone : (start stocks needs).counted = ∅ :=
      filter_false_of_mem fun _ _ => Bool.false_ne_true
    rw [hnone]
    rfl

theorem Counting.step {s t : State} {u : Thread} (h : Counting s) (hs : step s u = some t) :
    Counting t := by
  cases u with
  | customer c =>
    unfold StoreSim.step at hs
    dsimp only at hs
    split_ifs at hs with hlt
    exact h.customerStep hlt hs
  | loader => exact h.loaderStep hs

/-- **The loader never strands a customer.**  In every reachable state the counter is the number of
the customers that have counted themselves, and when the loader has left its loop, all customers
have, and need nothing more. -/
theorem loader_waits {stocks : ℕ → ℕ} {needs : ℕ → ℤ} {ts : List Thread} {s : State}
    (h : run step (start stocks needs) ts = some s) :
    s.satisfied = ((range numCustomers).filter fun c => (s.customer c).counted = true).card ∧
    (s.loader.left = true → ∀ c < numCustomers,
      (s.customer c).counted = true ∧ (s.customer c).left = true ∧ s.need c ≤ 0) := by
  have hcounting : Counting s :=
    run_invariant (fun _ _ _ hs ht => Counting.step hs ht) (counting_start stocks needs) h
  refine ⟨hcounting.count, fun hleft c hc => ?_⟩
  have hmem : c ∈ s.counted := by
    rw [hcounting.loader hleft]
    exact mem_range.2 hc
  have hcounted : (s.customer c).counted = true := (mem_filter.1 hmem).2
  have hloop : (s.customer c).left = true := by
    by_contra hin
    rw [(CustomerPc.of_not_left (Bool.eq_false_iff.2 hin)).2] at hcounted
    cases hcounted
  exact ⟨hcounted, hloop, hcounting.need c hloop⟩

/-- Three customers that need nothing count themselves, and then the loader leaves. -/
def noNeeds : List Thread :=
  List.replicate 5 (.customer 0) ++ List.replicate 5 (.customer 1)
    ++ List.replicate 5 (.customer 2) ++ List.replicate 7 .loader

theorem loader_waits_noNeeds :
    ∃ s, run step (start (fun _ => 7) fun _ => 0) noNeeds = some s ∧ s.loader = .done ∧
      ∀ c < numCustomers, (s.customer c).counted = true ∧ (s.customer c).left = true ∧
        s.need c ≤ 0 := by
  obtain ⟨s, hs, hloader⟩ : ∃ s, run step (start (fun _ => 7) fun _ => 0) noNeeds = some s ∧
      s.loader = .done := ⟨_, rfl, rfl⟩
  exact ⟨s, hs, hloader, (loader_waits hs).2 (by rw [hloader]; rfl)⟩

end StoreSim
end PosixHw
