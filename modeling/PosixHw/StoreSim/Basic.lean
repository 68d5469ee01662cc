import PosixHw.Base.Mutex
import PosixHw.Base.Run

/-!
# The store simulation

The program `pthread/task3.c`: customers take what is in the stores until they need nothing more, a
loader fills the stores up until all customers are satisfied.  An action is one step of one thread:
a test, a lock, a read or a write of a shared variable, or an unlock.  The prints and the sleeps
have no effect on the others.

`Conservation` shows that nothing is created or lost, `Loader` that the loader does not stop early.
The number of loads is not a variable of the program, and the contents of the stores and the needs
are integers: that they leave the range of `int` is not modelled.
-/

namespace PosixHw
namespace StoreSim

/-- `NUM_STORES`, `NUM_CUSTOMERS` and `LOADER_INCREMENT`. -/
def numStores : ℕ := 5
def numCustomers : ℕ := 3
def loaderIncrement : ℤ := 5000

/-- A thread; it is also the name of its steps. -/
inductive Thread
  | customer (c : ℕ)
  | loader
  deriving DecidableEq

/-- The places of `customer_thread`, with its local variables. -/
inductive CustomerPc
  | test
  | tryLock (i : ℕ)
  | read (i : ℕ)
  | take (i : ℕ) (v : ℤ)
  | clear (i : ℕ)
  | unlock (i : ℕ)
  | lockCount
  | readCount
  | writeCount (n : ℤ)
  | unlockCount
  | done
  deriving DecidableEq

/-- The places of `loader_thread`, with its local variables. -/
inductive LoaderPc
  | tryLock (i : ℕ)
  | read (i : ℕ)
  | write (i : ℕ) (v : ℤ)
  | unlock (i : ℕ)
  | lockCount
  | testCount
  | unlockCount (leave : Bool)
  | done
  deriving DecidableEq

/-- The shared variables, the mutexes with their holders, and the threads. -/
structure State where
  stores : ℕ → ℤ
  holder : ℕ → Option Thread
  satisfied : ℤ
  countHolder : Option Thread
  need : ℕ → ℤ
  customer : ℕ → CustomerPc
  loader : LoaderPc
  loads : ℕ

/-- The state when `main` has filled the stores and the threads are about to start.  What is in a
store at first, `rand() % STORE_CAPACITY`, is not negative. -/
def start (stocks : ℕ → ℕ) (needs : ℕ → ℤ) : State where
  stores i := stocks i
  holder _ := none
  satisfied := 0
  countHolder := none
  need := needs
  customer _ := .test
  loader := .tryLock 0
  loads := 0

/-- The customer `c`, or the loader, goes to `pc`. -/
def State.setCustomer (s : State) (c : ℕ) (pc : CustomerPc) : State :=
  { s with customer := Function.update s.customer c pc }
def State.setLoader (s : State) (pc : LoaderPc) : State := { s with loader := pc }

/-- `pthread_mutex_unlock(&store_mutexes[i])`, and a successful `pthread_mutex_trylock`. -/
def State.setHolder (s : State) (i : ℕ) (t : Option Thread) : State :=
  { s with holder := Function.update s.holder i t }

/-- `stores[i] = v`. -/
def State.setStore (s : State) (i : ℕ) (v : ℤ) : State :=
  { s with stores := Function.update s.stores i v }

/-- `customer_thread` of the customer `c`. -/
def customerStep (s : State) (c : ℕ) : Option State :=
  match s.customer c with
  | .test => some (s.setCustomer c (if 0 < s.need c then .tryLock 0 else .lockCount))
  -- the loop of lines 24–34; without a free store the customer tests its need again
  | .tryLock i =>
    if i < numStores then
      if s.holder i = none then some ((s.setHolder i (some (.customer c))).setCustomer c (.read i))
      else some (s.setCustomer c (.tryLock (i + 1)))
    else some (s.setCustomer c .test)
  -- `customer->need -= stores[i]` reads the store and writes the need; then the store is emptied
  | .read i => some (s.setCustomer c (.take i (s.stores i)))
  | .take i v =>
    some { s.setCustomer c (.clear i) with need := Function.update s.need c (s.need c - v) }
  | .clear i => some ((s.setStore i 0).setCustomer c (.unlock i))
  -- `break`
  | .unlock i => some ((s.setHolder i none).setCustomer c .test)
  -- `satisfied_customers++` between its lock and unlock
  | .lockCount =>
    if s.countHolder = none then
      some { s.setCustomer c .readCount with countHolder := some (.customer c) }
    else none
  | .readCount => some (s.setCustomer c (.writeCount s.satisfied))
  | .writeCount n => some { s.setCustomer c .unlockCount with satisfied := n + 1 }
  | .unlockCount => some { s.setCustomer c .done with countHolder := none }
  | .done => none

/-- `loader_thread`. -/
def loaderStep (s : State) : Option State :=
  match s.loader with
  | .tryLock i =>
    if i < numStores then
      if s.holder i = none then some ((s.setHolder i (some .loader)).setLoader (.read i))
      else some (s.setLoader (.tryLock (i + 1)))
    else some (s.setLoader .lockCount)
  -- `stores[i] += LOADER_INCREMENT`
  | .read i => some (s.setLoader (.write i (s.stores i)))
  | .write i v =>
    some { (s.setStore i (v + loaderIncrement)).setLoader (.unlock i) with loads := s.loads + 1 }
  | .unlock i => some ((s.setHolder i none).setLoader .lockCount)
  | .lockCount =>
    if s.countHolder = none then
      some { s.setLoader .testCount with countHolder := some .loader }
    else none
  -- the result of the test is kept across the unlock, which both branches make
  | .testCount => some (s.setLoader (.unlockCount ((numCustomers : ℤ) ≤ s.satisfied)))
  | .unlockCount leave =>
    some { s.setLoader (if leave then .done else .tryLock 0) with countHolder := none }
  | .done => none

/-- One step of one thread. -/
def step (s : State) : Thread → Option State
  | .customer c => if c < numCustomers then customerStep s c else none
  | .loader => loaderStep s

/-! ### What a step does -/

/-- What a customer does, with the tests that it has made. -/
inductive CustomerStep (s : State) (c : ℕ) : State → Prop
  | needs (hc : s.customer c = .test) (hneed : 0 < s.need c) :
    CustomerStep s c (s.setCustomer c (.tryLock 0))
  | leave (hc : s.customer c = .test) (hneed : ¬ 0 < s.need c) :
    CustomerStep s c (s.setCustomer c .lockCount)
  | lock (i : ℕ) (hc : s.customer c = .tryLock i) (hi : i < numStores) (hfree : s.holder i = none) :
    CustomerStep s c ((s.setHolder i (some (.customer c))).setCustomer c (.read i))
  | busy (i : ℕ) (hc : s.customer c = .tryLock i) (hi : i < numStores) (hbusy : s.holder i ≠ none) :
    CustomerStep s c (s.setCustomer c (.tryLock (i + 1)))
  | again (i : ℕ) (hc : s.customer c = .tryLock i) (hi : ¬ i < numStores) :
    CustomerStep s c (s.setCustomer c .test)
  | read (i : ℕ) (hc : s.customer c = .read i) :
    CustomerStep s c (s.setCustomer c (.take i (s.stores i)))
  | take (i : ℕ) (v : ℤ) (hc : s.customer c = .take i v) :
    CustomerStep s c { s.setCustomer c (.clear i) with
      need := Function.update s.need c (s.need c - v) }
  | clear (i : ℕ) (hc : s.customer c = .clear i) :
    CustomerStep s c ((s.setStore i 0).setCustomer c (.unlock i))
  | unlock (i : ℕ) (hc : s.customer c = .unlock i) :
    CustomerStep s c ((s.setHolder i none).setCustomer c .test)
  | lockCount (hc : s.customer c = .lockCount) (hfree : s.countHolder = none) :
    CustomerStep s c { s.setCustomer c .readCount with countHolder := some (.customer c) }
  | readCount (hc : s.customer c = .readCount) :
    CustomerStep s c (s.setCustomer c (.writeCount s.satisfied))
  | writeCount (n : ℤ) (hc : s.customer c = .writeCount n) :
    CustomerStep s c { s.setCustomer c .unlockCount with satisfied := n + 1 }
  | unlockCount (hc : s.customer c = .unlockCount) :
    CustomerStep s c { s.setCustomer c .done with countHolder := none }

/-- What the loader does. -/
inductive LoaderStep (s : State) : State → Prop
  | lock (i : ℕ) (hl : s.loader = .tryLock i) (hi : i < numStores) (hfree : s.holder i = none) :
    LoaderStep s ((s.setHolder i (some .loader)).setLoader (.read i))
  | busy (i : ℕ) (hl : s.loader = .tryLock i) (hi : i < numStores) (hbusy : s.holder i ≠ none) :
    LoaderStep s (s.setLoader (.tryLock (i + 1)))
  | pass (i : ℕ) (hl : s.loader = .tryLock i) (hi : ¬ i < numStores) :
    LoaderStep s (s.setLoader .lockCount)
  | read (i : ℕ) (hl : s.loader = .read i) : LoaderStep s (s.setLoader (.write i (s.stores i)))
  | write (i : ℕ) (v : ℤ) (hl : s.loader = .write i v) :
    LoaderStep s { (s.setStore i (v + loaderIncrement)).setLoader (.unlock i) with
      loads := s.loads + 1 }
  | unlock (i : ℕ) (hl : s.loader = .unlock i) :
    LoaderStep s ((s.setHolder i none).setLoader .lockCount)
  | lockCount (hl : s.loader = .lockCount) (hfree : s.countHolder = none) :
    LoaderStep s { s.setLoader .testCount with countHolder := some .loader }
  | testCount (hl : s.loader = .testCount) :
    LoaderStep s (s.setLoader (.unlockCount ((numCustomers : ℤ) ≤ s.satisfied)))
  | leave (hl : s.loader = .unlockCount true) :
    LoaderStep s { s.setLoader .done with countHolder := none }
  | stay (hl : s.loader = .unlockCount false) :
    LoaderStep s { s.setLoader (.tryLock 0) with countHolder := none }

theorem customerStep_cases {s t : State} {c : ℕ} (h : customerStep s c = some t) :
    CustomerStep s c t := by
  unfold customerStep at h
  cases hc : s.customer c with
  | test =>
    rw [hc] at h
    cases h
    split_ifs with hneed
    · exact .needs hc hneed
    · exact .leave hc hneed
  | tryLock i =>
    rw [hc] at h
    dsimp only at h
    split_ifs at h with hi hfree
    · cases h
      exact .lock i hc hi hfree
    · cases h
      exact .busy i hc hi hfree
    · cases h
      exact .again i hc hi
  | read i =>
    rw [hc] at h
    cases h
    exact .read i hc
  | take i v =>
    rw [hc] at h
    cases h
    exact .take i v hc
  | clear i =>
    rw [hc] at h
    cases h
    exact .clear i hc
  | unlock i =>
    rw [hc] at h
    cases h
    exact .unlock i hc
  | lockCount =>
    rw [hc] at h
    dsimp only at h
    split_ifs at h with hfree
    cases h
    exact .lockCount hc hfree
  | readCount =>
    rw [hc] at h
    cases h
    exact .readCount hc
  | writeCount n =>
    rw [hc] at h
    cases h
    exact .writeCount n hc
  | unlockCount =>
    rw [hc] at h
    cases h
    exact .unlockCount hc
  | done =>
    rw [hc] at h
    cases h

theorem loaderStep_cases {s t : State} (h : loaderStep s = some t) : LoaderStep s t := by
  unfold loaderStep at h
  cases hl : s.loader with
  | tryLock i =>
    rw [hl] at h
    dsimp only at h
    split_ifs at h with hi hfree
    · cases h
      exact .lock i hl hi hfree
    · cases h
      exact .busy i hl hi hfree
    · cases h
      exact .pass i hl hi
  | read i =>
    rw [hl] at h
    cases h
    exact .read i hl
  | write i v =>
    rw [hl] at h
    cases h
    exact .write i v hl
  | unlock i =>
    rw [hl] at h
    cases h
    exact .unlock i hl
  | lockCount =>
    rw [hl] at h
    dsimp only at h
    split_ifs at h with hfree
    cases h
    exact .lockCount hl hfree
  | testCount =>
    rw [hl] at h
    cases h
    exact .testCount hl
  | unlockCount leave =>
    rw [hl] at h
    cases h
    cases leave with
    | true => exact .leave hl
    | false => exact .stay hl
  | done =>
    rw [hl] at h
    cases h

end StoreSim
end PosixHw
