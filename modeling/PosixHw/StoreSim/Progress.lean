import PosixHw.Base.Leads
import PosixHw.StoreSim.Loader
import PosixHw.StoreSim.Probing

/-!
# The simulation can always come to its end

A customer may be unlucky for ever: it takes from an empty store each time, while the loader fills
another one.  But no state is one from which there is no way out.

* A thread that has locked a mutex can go on until it has unlocked it (`settles`); one after the
  other, all threads get to the beginning of their loops (`leads_quiet`).
* From there a round of the loader and one of a customer lessen the need of the customer
  (`serves`), and a customer that needs nothing more leaves.

At the end no mutex is locked, as `pthread_mutex_destroy` demands.
-/

namespace PosixHw
namespace StoreSim

open Run Mutex Finset

/-- The thread is at the beginning of its loop, or has returned. -/
def State.AtRest (s : State) : Thread → Prop
  | .customer c => s.customer c = .test ∨ s.customer c = .done
  | .loader => s.loader = .tryLock 0 ∨ s.loader = .done

/-- All threads are. -/
def State.Quiet (s : State) : Prop := s.countHolder = none ∧ ∀ t ∈ threads, s.AtRest t

/-- The end: the customers need nothing more and have returned, and so has the loader. -/
def State.Finished (s : State) : Prop :=
  (∀ c < numCustomers, s.customer c = .done) ∧ s.loader = .done

/-! ### The mutex of the counter -/

section Known

/-- A locked mutex of the counter is known to its holder. -/
def State.CountKnown (s : State) : Prop := Known (fun _ : Unit => s.countHolder) s.holdsCount

variable {s t : State} {u : Thread} {c : ℕ} {o : Option Unit}

theorem State.CountKnown.move (h : s.CountKnown) (hholder : t.countHolder = s.countHolder)
    (ho : s.holdsCount u = o) (hholds : t.holdsCount = Function.update s.holdsCount u o) :
    t.CountKnown := by
  rw [State.CountKnown, hholder, hholds]
  exact Known.move h ho.symm

theorem State.CountKnown.lock (h : s.CountKnown) (hholder : t.countHolder = some u)
    (ho : s.holdsCount u = none)
    (hholds : t.holdsCount = Function.update s.holdsCount u (some ())) : t.CountKnown := by
  rw [State.CountKnown, hholder, hholds]
  exact Known.lock_single h ho

theorem State.CountKnown.unlock (h : s.CountKnown) (hholder : t.countHolder = none)
    (ho : s.holdsCount u = some ()) (hholds : t.holdsCount = Function.update s.holdsCount u none) :
    t.CountKnown := by
  rw [State.CountKnown, hholder, hholds]
  exact Known.unlock_single h ho

theorem State.CountKnown.customerStep (h : s.CountKnown) (hs : customerStep s c = some t) :
    t.CountKnown := by
  have hat : s.holdsCount (.customer c) = (s.customer c).holdsCount := rfl
  cases customerStep_cases hs with
  | lockCount hc _ =>
    rw [hc] at hat
    exact h.lock rfl hat (holdsCount_setCustomer s c .readCount)
  | unlockCount hc =>
    rw [hc] at hat
    exact h.unlock rfl hat (holdsCount_setCustomer s c .done)
  | clear i hc | lock i hc _ _ | unlock i hc | needs hc _ | leave hc _ | busy _ hc _ _
  | again _ hc _ | read _ hc | take _ _ hc | readCount hc | writeCount _ hc =>
    rw [hc] at hat
    exact h.move rfl hat (holdsCount_setCustomer _ c _)

theorem State.CountKnown.loaderStep (h : s.CountKnown) (hs : loaderStep s = some t) :
    t.CountKnown := by
  have hat : s.holdsCount .loader = s.loader.holdsCount := rfl
  cases loaderStep_cases hs with
  | lockCount hl _ =>
    rw [hl] at hat
    exact h.lock rfl hat (holdsCount_setLoader s .testCount)
  | leave hl =>
    rw [hl] at hat
    exact h.unlock rfl hat (holdsCount_setLoader s .done)
  | stay hl =>
    rw [hl] at hat
    exact h.unlock rfl hat (holdsCount_setLoader s (.tryLock 0))
  | write i x hl =>
    rw [hl] at hat
    exact h.move rfl hat (holdsCount_setLoader (s.setStore i (x + loaderIncrement)) (.unlock i))
  | lock i hl _ _ | busy _ hl _ _ | pass _ hl _ | read _ hl | unlock _ hl | testCount hl =>
    rw [hl] at hat
    exact h.move rfl hat (holdsCount_setLoader _ _)

end Known

/-! ### The states of a run -/

section Sane

/-- What holds in every reachable state. -/
structure Sane (s : State) : Prop where
  sound : ∃ b, Sound b s
  probing : ∃ v, Probing v s
  counting : Counting s
  known : s.CountKnown
  idle : ∀ c, ¬ c < numCustomers → s.customer c = .test

variable {s t : State}

theorem sane_start (stocks : ℕ → ℕ) (needs : ℕ → ℤ) : Sane (start stocks needs) where
  sound := ⟨_, sound_start stocks needs⟩
  probing := ⟨_, probing_start stocks needs⟩
  counting := counting_start stocks needs
  known := nofun
  idle _ _ := rfl

/-- Only customers that are there move. -/
theorem customer_of_step {u : Thread} (hs : step s u = some t) {c : ℕ} (hc : ¬ c < numCustomers) :
    t.customer c = s.customer c := by
  cases u with
  | customer d =>
    unfold StoreSim.step at hs
    dsimp only at hs
    split_ifs at hs with hlt
    have hcd : c ≠ d := by
      rintro rfl
      exact hc hlt
    cases customerStep_cases hs <;> exact Function.update_of_ne hcd _ _
  | loader =>
    cases loaderStep_cases hs <;> rfl

theorem Sane.step {u : Thread} (h : Sane s) (hs : step s u = some t) : Sane t where
  sound := h.sound.imp fun _ hb => hb.step hs
  probing := h.probing.imp fun _ hv => hv.step hs
  counting := h.counting.step hs
  known := by
    cases u with
    | customer c =>
      unfold StoreSim.step at hs
      dsimp only at hs
      split_ifs at hs with hlt
      exact h.known.customerStep hs
    | loader => exact h.known.loaderStep hs
  idle c hc := (customer_of_step hs hc).trans (h.idle c hc)

theorem Sane.reachable (h : Sane s) (hst : Reachable StoreSim.step s t) : Sane t :=
  hst.invariant (fun _ _ _ hs ht => Sane.step hs ht) h

/-- The mutex of the counter is held by a thread of the program. -/
theorem Sane.holder_mem (h : Sane s) {u : Thread} (hu : s.countHolder = some u) :
    u ∈ threads := by
  cases u with
  | loader => exact loader_mem
  | customer c =>
    have hholds : (s.customer c).holdsCount = some () := h.known () _ hu
    by_contra hmem
    rw [h.idle c fun hc => hmem (customer_mem hc)] at hholds
    cases hholds

/-- Where all threads are at rest, no mutex is locked. -/
theorem Sane.holder_eq_none (h : Sane s) (hrest : ∀ t ∈ threads, s.AtRest t) (i : ℕ) :
    s.holder i = none := by
  obtain ⟨v, hv⟩ := h.probing
  by_contra hlocked
  obtain ⟨u, hu⟩ := Option.ne_none_iff_exists'.1 hlocked
  have hholds := hv.known i u hu
  have hat := hrest u (hv.inside i u hu)
  cases u with
  | customer c =>
    change (s.customer c).holds = some i at hholds
    rcases hat with hc | hc <;> rw [hc] at hholds <;> cases hholds
  | loader =>
    change s.loader.holds = some i at hholds
    rcases hat with hl | hl <;> rw [hl] at hholds <;> cases hholds

end Sane

/-! ### Threads come to rest -/

section Rest

variable {s s' : State} {t u : Thread} {c : ℕ}

/-- The steps that a customer may make until it is at rest. -/
def CustomerPc.toRest : CustomerPc → ℕ
  | .test | .done => 0
  | .tryLock i => numStores - i + 5
  | .read _ | .lockCount => 4
  | .take _ _ | .readCount => 3
  | .clear _ | .writeCount _ => 2
  | .unlock _ | .unlockCount => 1

/-- The steps that the loader may make until it is at rest. -/
def LoaderPc.toRest : LoaderPc → ℕ
  | .tryLock 0 | .done => 0
  | .tryLock i => numStores - i + 7
  | .read _ => 6
  | .write _ _ => 5
  | .unlock _ => 4
  | .lockCount => 3
  | .testCount => 2
  | .unlockCount _ => 1

def State.toRest (s : State) : Thread → ℕ
  | .customer c => (s.customer c).toRest
  | .loader => s.loader.toRest

/-- Nobody else has the mutex of the counter. -/
def State.CountFree (s : State) (t : Thread) : Prop :=
  s.countHolder = none ∨ s.countHolder = some t

/-- A thread at rest does not have the mutex of the counter. -/
theorem Sane.countHolder_eq_none (h : Sane s) (hfree : s.CountFree t) (hrest : s.AtRest t) :
    s.countHolder = none := by
  rcases hfree with hfree | hheld
  · exact hfree
  · have hholds := h.known () t hheld
    cases t with
    | customer c =>
      change (s.customer c).holdsCount = some () at hholds
      rcases hrest with hc | hc <;> rw [hc] at hholds <;> cases hholds
    | loader =>
      change s.loader.holdsCount = some () at hholds
      rcases hrest with hl | hl <;> rw [hl] at hholds <;> cases hholds

theorem toRest_of_customer {pc : CustomerPc}
    (h : s'.customer = Function.update s.customer c pc) : s'.toRest (.customer c) = pc.toRest := by
  rw [State.toRest, h, Function.update_self]

/-- A customer that nobody blocks gets nearer to its rest. -/
theorem customer_nears (h : Sane s) (hfree : s.CountFree (.customer c))
    (hrest : ¬ s.AtRest (.customer c)) :
    ∃ s', customerStep s c = some s' ∧ s'.toRest (.customer c) < s.toRest (.customer c) ∧
      s'.CountFree (.customer c) := by
  have hat : s.toRest (.customer c) = (s.customer c).toRest := rfl
  unfold customerStep
  cases hc : s.customer c with
  | test => exact absurd (.inl hc) hrest
  | done => exact absurd (.inr hc) hrest
  | tryLock i =>
    rw [hc] at hat
    dsimp only
    split_ifs with hi hholder
    -- the store is entered, or the next one is tried, or the need is tested again
    · refine ⟨_, rfl, ?_, hfree⟩
      rw [toRest_of_customer (s := s) rfl, hat, CustomerPc.toRest, CustomerPc.toRest]
      omega
    · refine ⟨_, rfl, ?_, hfree⟩
      rw [toRest_of_customer (s := s) rfl, hat, CustomerPc.toRest, CustomerPc.toRest]
      omega
    · refine ⟨_, rfl, ?_, hfree⟩
      rw [toRest_of_customer (s := s) rfl, hat, CustomerPc.toRest, CustomerPc.toRest]
      omega
  | lockCount =>
    rw [hc] at hat
    -- nobody else has it, and neither has this customer
    have hnone : s.countHolder = none := by
      rcases hfree with hnone | hheld
      · exact hnone
      · have hholds : (s.customer c).holdsCount = some () := h.known () _ hheld
        rw [hc] at hholds
        cases hholds
    dsimp only
    rw [if_pos hnone]
    refine ⟨_, rfl, ?_, .inr rfl⟩
    rw [toRest_of_customer (s := s) rfl, hat]
    decide
  | unlockCount =>
    rw [hc] at hat
    refine ⟨_, rfl, ?_, .inl rfl⟩
    rw [toRest_of_customer (s := s) rfl, hat]
    decide
  | read i | take i v | clear i | unlock i | readCount | writeCount n =>
    rw [hc] at hat
    refine ⟨_, rfl, ?_, hfree⟩
    rw [toRest_of_customer (s := s) rfl, hat]
    simp [CustomerPc.toRest]

/-- A loader that nobody blocks gets nearer to its rest. -/
theorem loader_nears (h : Sane s) (hfree : s.CountFree .loader) (hrest : ¬ s.AtRest .loader) :
    ∃ s', loaderStep s = some s' ∧ s'.toRest .loader < s.toRest .loader ∧
      s'.CountFree .loader := by
  have hat : s.toRest .loader = s.loader.toRest := rfl
  unfold loaderStep
  cases hl : s.loader with
  | done => exact absurd (.inr hl) hrest
  | tryLock i =>
    cases i with
    | zero => exact absurd (.inl hl) hrest
    | succ i =>
      rw [hl] at hat
      dsimp only
      split_ifs with hi hholder
      all_goals
        refine ⟨_, rfl, ?_, hfree⟩
        rw [hat]
        simp only [State.toRest, State.setLoader, LoaderPc.toRest]
        omega
  | lockCount =>
    rw [hl] at hat
    have hnone : s.countHolder = none := by
      rcases hfree with hnone | hheld
      · exact hnone
      · have hholds : s.loader.holdsCount = some () := h.known () _ hheld
        rw [hl] at hholds
        cases hholds
    dsimp only
    rw [if_pos hnone]
    refine ⟨_, rfl, ?_, .inr rfl⟩
    rw [hat]
    simp [State.toRest, State.setLoader, LoaderPc.toRest]
  | unlockCount leave =>
    rw [hl] at hat
    refine ⟨_, rfl, ?_, .inl rfl⟩
    rw [hat]
    cases leave <;> simp [State.toRest, State.setLoader, LoaderPc.toRest]
  | read i | write i v | unlock i | testCount =>
    rw [hl] at hat
    refine ⟨_, rfl, ?_, hfree⟩
    rw [hat]
    simp [State.toRest, State.setLoader, LoaderPc.toRest]

/-- A step of one thread leaves the others where they are. -/
theorem atRest_step (hs : step s t = some s') (hu : u ≠ t) (hrest : s.AtRest u) : s'.AtRest u := by
  cases t with
  | customer c =>
    unfold step at hs
    dsimp only at hs
    split_ifs at hs with hlt
    have hframe : s'.loader = s.loader ∧ ∃ pc, s'.customer = Function.update s.customer c pc := by
      cases customerStep_cases hs <;> exact ⟨rfl, _, rfl⟩
    obtain ⟨hloader, pc, hcustomer⟩ := hframe
    cases u with
    | loader =>
      unfold State.AtRest
      rwa [hloader]
    | customer d =>
      have hdc : d ≠ c := fun hdc => hu (congrArg Thread.customer hdc)
      change s'.customer d = .test ∨ s'.customer d = .done
      rwa [hcustomer, Function.update_of_ne hdc]
  | loader =>
    have hframe : s'.customer = s.customer := by
      cases loaderStep_cases hs <;> rfl
    cases u with
    | loader => exact absurd rfl hu
    | customer d =>
      unfold State.AtRest
      rwa [hframe]

/-- **A thread that goes on alone comes to rest**, and leaves the others where they are. -/
theorem settles (ht : t ∈ threads) (h : Sane s) (hfree : s.CountFree t) :
    ∃ s', Reachable step s s' ∧ Sane s' ∧ s'.countHolder = none ∧ s'.AtRest t ∧
      ∀ u, u ≠ t → s.AtRest u → s'.AtRest u := by
  have hleads : Leads step
      (fun s' => Sane s' ∧ s'.CountFree t ∧ ∀ u, u ≠ t → s.AtRest u → s'.AtRest u)
      (fun s' => s'.AtRest t) := by
    apply Leads.of_measure fun s' => s'.toRest t
    rintro r ⟨hr, hrfree, hkeep⟩ hrest
    -- its own next step, whichever thread it is
    have hnears : ∃ s', step r t = some s' ∧ s'.toRest t < r.toRest t ∧ s'.CountFree t := by
      cases t with
      | customer c =>
        obtain ⟨s', hs', hnear⟩ := customer_nears hr hrfree hrest
        have hlt : c < numCustomers := by simpa [threads] using ht
        exact ⟨s', (if_pos hlt).trans hs', hnear⟩
      | loader => exact loader_nears hr hrfree hrest
    obtain ⟨s', hs', hlt, hfree'⟩ := hnears
    refine ⟨s', (Reachable.refl r).tail hs', ⟨hr.step hs', hfree', fun u hu hat => ?_⟩, hlt⟩
    exact atRest_step hs' hu (hkeep u hu hat)
  obtain ⟨s', hreach, ⟨hs', hfree', hkeep⟩, hrest⟩ := hleads s ⟨h, hfree, fun _ _ hat => hat⟩
  exact ⟨s', hreach, hs', hs'.countHolder_eq_none hfree' hrest, hrest, hkeep⟩

end Rest

/-! ### A thread that goes on alone -/

section Rounds

variable {s : State} {c : ℕ}

/-- A customer that needs nothing more leaves. -/
theorem run_leave (hlt : c < numCustomers) (hc : s.customer c = .test) (hneed : ¬ 0 < s.need c)
    (hcount : s.countHolder = none) :
    run step s (List.replicate 5 (.customer c)) = some { s with
      customer := Function.update s.customer c .done, satisfied := s.satisfied + 1,
      countHolder := none } := by
  simp [List.replicate, run, step, customerStep, State.setCustomer, hlt, hc, hneed, hcount]

/-- A customer takes what is in the first store. -/
theorem run_shop (hlt : c < numCustomers) (hc : s.customer c = .test) (hneed : 0 < s.need c)
    (hfree : s.holder 0 = none) :
    run step s (List.replicate 6 (.customer c)) = some { s with
      stores := Function.update s.stores 0 0,
      need := Function.update s.need c (s.need c - s.stores 0),
      customer := Function.update s.customer c .test,
      holder := Function.update s.holder 0 none } := by
  have hstores : 0 < numStores := by decide
  simp [List.replicate, run, step, customerStep, State.setCustomer, State.setHolder,
    State.setStore, hlt, hc, hneed, hfree, hstores]

/-- The loader fills the first store, and looks whether it can leave. -/
theorem run_load (hl : s.loader = .tryLock 0) (hfree : s.holder 0 = none)
    (hcount : s.countHolder = none) :
    run step s (List.replicate 7 .loader) = some { s with
      stores := Function.update s.stores 0 (s.stores 0 + loaderIncrement),
      loader := if (numCustomers : ℤ) ≤ s.satisfied then .done else .tryLock 0,
      holder := Function.update s.holder 0 none, countHolder := none, loads := s.loads + 1 } := by
  have hstores : 0 < numStores := by decide
  simp [List.replicate, run, step, loaderStep, State.setLoader, State.setHolder,
    State.setStore, hl, hfree, hcount, hstores]

/-- A customer that has not left needs one round, or as many as it needs things. -/
def State.rounds (s : State) (c : ℕ) : ℕ :=
  if s.customer c = .done then 0 else (s.need c).toNat + 1

/-- What changes for one customer alone makes the sum of the rounds smaller. -/
theorem sum_rounds_lt {s' : State} (hlt : c < numCustomers)
    (hother : ∀ d, d ≠ c → s'.rounds d = s.rounds d) (hless : s'.rounds c < s.rounds c) :
    ∑ d ∈ range numCustomers, s'.rounds d < ∑ d ∈ range numCustomers, s.rounds d := by
  apply sum_lt_sum
  · intro d _
    by_cases hdc : d = c
    · rw [hdc]
      exact hless.le
    · exact (hother d hdc).le
  · exact ⟨c, mem_range.2 hlt, hless⟩

end Rounds

/-! ### All threads come to rest, and to their end -/

section End

variable {s s' : State} {c : ℕ}

/-- First the thread that has the mutex of the counter goes on, then one after the other. -/
theorem leads_quiet : Leads step Sane State.Quiet := by
  have hcount : Leads step Sane fun s => s.countHolder = none := by
    intro s hs
    by_cases hnone : s.countHolder = none
    · exact ⟨s, Reachable.refl s, hs, hnone⟩
    · obtain ⟨t, ht⟩ := Option.ne_none_iff_exists'.1 hnone
      have hmem : t ∈ threads := hs.holder_mem ht
      obtain ⟨s', hreach, hs', hcount, -⟩ := settles hmem hs (.inr ht)
      exact ⟨s', hreach, hs', hcount⟩
  have hrest : Leads step (fun s => Sane s ∧ s.countHolder = none)
      fun s => ∀ t ∈ threads.toList, s.AtRest t := by
    apply Leads.forall_mem
    rintro t ht s ⟨hs, hnone⟩
    obtain ⟨s', hreach, hs', hcount, hrest, hkeep⟩ := settles (mem_toList.1 ht) hs (.inl hnone)
    exact ⟨s', hreach, ⟨hs', hcount⟩, hrest, hkeep⟩
  intro s hs
  obtain ⟨r, hsr, hr⟩ := hcount s hs
  obtain ⟨s', hrs', ⟨hs', hnone⟩, hall⟩ := hrest r hr
  exact ⟨s', hsr.trans hrs', hs', hnone, fun t ht => hall t (mem_toList.2 ht)⟩

theorem State.Quiet.loader (h : s.Quiet) : s.loader = .tryLock 0 ∨ s.loader = .done :=
  h.2 .loader loader_mem

theorem State.Quiet.customer (h : s.Quiet) (hc : c < numCustomers) :
    s.customer c = .test ∨ s.customer c = .done := h.2 _ (customer_mem hc)

/-- A state in which one customer has changed its place, and the loader perhaps too, is quiet. -/
theorem State.Quiet.of_update (h : s.Quiet) {pc : CustomerPc} (hpc : pc = .test ∨ pc = .done)
    (hcustomer : s'.customer = Function.update s.customer c pc)
    (hloader : s'.loader = .tryLock 0 ∨ s'.loader = .done) (hcount : s'.countHolder = none) :
    s'.Quiet := by
  refine ⟨hcount, fun t ht => ?_⟩
  cases t with
  | loader => exact hloader
  | customer d =>
    change s'.customer d = .test ∨ s'.customer d = .done
    by_cases hdc : d = c
    · rwa [hdc, hcustomer, Function.update_self]
    · rw [hcustomer, Function.update_of_ne hdc]
      exact h.2 _ ht

/-- While a customer is there, the loader goes on. -/
theorem Sane.loader_ne_done (h : Sane s) (hlt : c < numCustomers) (hc : s.customer c = .test) :
    s.loader ≠ .done := by
  intro hl
  have hall := h.counting.loader (by rw [hl]; rfl)
  have hmem : c ∈ s.counted := by
    rw [hall]
    exact mem_range.2 hlt
  have hcounted := (mem_filter.1 hmem).2
  rw [hc] at hcounted
  cases hcounted

/-- **A round**: the loader fills the first store and a customer empties it, or leaves. -/
theorem serves (h : Sane s) (hquiet : s.Quiet) (hlt : c < numCustomers)
    (hc : s.customer c = .test) :
    ∃ s', Reachable step s s' ∧ s'.Quiet ∧ (∀ d, d ≠ c → s'.rounds d = s.rounds d) ∧
      s'.rounds c < s.rounds c := by
  have hfree := h.holder_eq_none hquiet.2 0
  have hrounds : s.rounds c = (s.need c).toNat + 1 := by
    rw [State.rounds, hc]
    rfl
  by_cases hneed : 0 < s.need c
  · have hl : s.loader = .tryLock 0 := hquiet.loader.resolve_right (h.loader_ne_done hlt hc)
    obtain ⟨b, hb⟩ := h.sound
    have hstock := hb.nonneg 0
    have hload := run_load hl hfree hquiet.1
    have hshop := run_shop (s := { s with
      stores := Function.update s.stores 0 (s.stores 0 + loaderIncrement),
      loader := if (numCustomers : ℤ) ≤ s.satisfied then .done else .tryLock 0,
      holder := Function.update s.holder 0 none, countHolder := none, loads := s.loads + 1 })
      hlt hc hneed (by simp)
    refine ⟨_, ⟨_, run_append_eq_some.2 ⟨_, hload, hshop⟩⟩, ?_, fun d hd => ?_, ?_⟩
    · refine hquiet.of_update (.inl rfl) rfl ?_ rfl
      show (if _ then LoaderPc.done else .tryLock 0) = _ ∨ _
      split_ifs
      · exact .inr rfl
      · exact .inl rfl
    · simp only [State.rounds, Function.update_of_ne hd]
    · rw [hrounds]
      simp only [State.rounds, Function.update_self, loaderIncrement, reduceCtorEq, if_false]
      omega
  · refine ⟨_, ⟨_, run_leave hlt hc hneed hquiet.1⟩, ?_, fun d hd => ?_, ?_⟩
    · exact hquiet.of_update (.inr rfl) rfl hquiet.loader rfl
    · simp only [State.rounds, Function.update_of_ne hd]
    · rw [hrounds]
      simp [State.rounds]

/-- All customers leave. -/
theorem leads_left : Leads step (fun s => Sane s ∧ s.Quiet)
    fun s => ∀ c < numCustomers, s.customer c = .done := by
  apply Leads.of_measure fun s => ∑ c ∈ range numCustomers, s.rounds c
  rintro s ⟨hs, hquiet⟩ hleft
  push Not at hleft
  obtain ⟨c, hlt, hne⟩ := hleft
  have hc : s.customer c = .test := (hquiet.customer hlt).resolve_right hne
  obtain ⟨s', hreach, hquiet', hother, hless⟩ := serves hs hquiet hlt hc
  exact ⟨s', hreach, ⟨hs.reachable hreach, hquiet'⟩, sum_rounds_lt hlt hother hless⟩

/-- Then the loader sees all of them. -/
theorem leads_finished : Leads step
    (fun s => (Sane s ∧ s.Quiet) ∧ ∀ c < numCustomers, s.customer c = .done) State.Finished := by
  rintro s ⟨⟨hs, hquiet⟩, hdone⟩
  rcases hquiet.loader with hl | hl
  · have hall : s.counted = range numCustomers := by
      apply filter_true_of_mem
      intro c hc
      rw [hdone c (mem_range.1 hc)]
      rfl
    have hsatisfied : (numCustomers : ℤ) ≤ s.satisfied := by
      rw [hs.counting.count, hall, card_range]
    have hload := run_load hl (hs.holder_eq_none hquiet.2 0) hquiet.1
    rw [if_pos hsatisfied] at hload
    refine ⟨_, ⟨_, hload⟩, ⟨⟨hs.reachable ⟨_, hload⟩, rfl, fun t ht => ?_⟩, hdone⟩, hdone, rfl⟩
    cases t with
    | customer c => exact hquiet.2 _ ht
    | loader => exact .inr rfl
  · exact ⟨s, Reachable.refl s, ⟨⟨hs, hquiet⟩, hdone⟩, hdone, hl⟩

/-- **The simulation can always come to its end.**  From every reachable state, some way to go on
satisfies all customers and lets all threads return.  In every state in which they have returned no
mutex is locked, and no customer needs anything. -/
theorem simulation_ends {stocks : ℕ → ℕ} {needs : ℕ → ℤ} {ts : List Thread}
    (h : run step (start stocks needs) ts = some s) :
    (∃ t, Reachable step s t ∧ t.Finished) ∧
    (s.Finished → (∀ i, s.holder i = none) ∧ s.countHolder = none ∧
      ∀ c < numCustomers, s.need c ≤ 0) := by
  have hs : Sane s := (sane_start stocks needs).reachable ⟨ts, h⟩
  refine ⟨?_, fun ⟨hdone, hl⟩ => ?_⟩
  · obtain ⟨t, hreach, -, hfinished⟩ :=
      (leads_quiet.trans (leads_left.trans leads_finished)) s hs
    exact ⟨t, hreach, hfinished⟩
  · have hrest : ∀ t ∈ threads, s.AtRest t := by
      intro t ht
      cases t with
      | loader => exact .inr hl
      | customer c => exact .inr (hdone c (by simpa [threads] using ht))
    refine ⟨hs.holder_eq_none hrest, ?_, fun c hc => ?_⟩
    · by_contra hnone
      obtain ⟨t, ht⟩ := Option.ne_none_iff_exists'.1 hnone
      exact hnone (hs.countHolder_eq_none (.inr ht) (hrest t (hs.holder_mem ht)))
    · exact hs.counting.need c (by rw [hdone c hc]; rfl)

theorem simulation_ends_oneTake :
    ∃ s, run step (start (fun _ => 7) fun _ => 10) oneTake = some s ∧
      ∃ t, Reachable step s t ∧ t.Finished := by
  obtain ⟨s, hs⟩ : ∃ s, run step (start (fun _ => 7) fun _ => 10) oneTake = some s := ⟨_, rfl⟩
  exact ⟨s, hs, (simulation_ends hs).1⟩

end End

end StoreSim
end PosixHw
