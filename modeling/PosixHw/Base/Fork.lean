import PosixHw.Base.Lists
import PosixHw.Base.Run

/-!
# Processes that fork

A program prints lines, forks, waits for its children and exits.  Where its standard output is a
terminal a line is seen at once; where it is a file, the lines stay in a buffer of the process until
it exits, and a child starts with a copy of the buffer of its parent.

* `Prog` is the syntax, `step` the meaning: any process may make the next step, a `fork` may fail,
  and a process may be killed.
* `Behaves` is what a program amounts to whatever the order of the steps: the number of steps of the
  process and of the descendants that it is going to have, and the lines that they show.  It asks
  that each child is waited for.
* `Family` is the invariant about the table of the processes: each process but the first one is a
  child that some process has to wait for.
* `run_behaves` is the result for the runs in which no call fails: they end, nothing blocks, no
  process outlives its parent, and the lines are the same in every order.
-/

namespace PosixHw
namespace Fork

open Run

/-- How a process ended. -/
inductive Status
  | exited (code : ℕ)
  | signaled (sig : ℕ)
  deriving DecidableEq

/-- A program.  A line may depend on the results of `getpid` and `getppid`; after a `fork` come what
the child does, what the parent does with the identifier of the child, and what is done if there is
none. -/
inductive Prog (L : Type*)
  | exit (code : ℕ)
  | print (line : ℕ → ℕ → L) (next : Prog L)
  | perror (text : String) (next : Prog L)
  | fork (child : Prog L) (parent : ℕ → Prog L) (failed : Prog L)
  | waitpid (pid : ℕ) (next : Status → Prog L)

/-- What standard output is. -/
inductive Mode
  | terminal
  | file
  deriving DecidableEq

/-- A process is at some place of its program, or it has ended, and its parent may know it. -/
inductive Phase (L : Type*)
  | running (prog : Prog L)
  | ended (status : Status)
  | reaped

/-- A process; `parent` is the place in the table of the process that created it. -/
structure Proc (L : Type*) where
  pid : ℕ
  parent : Option ℕ
  buffer : List L
  phase : Phase L

/-- All processes, the oldest one first, and what has been written. -/
structure State (L : Type*) where
  procs : List (Proc L)
  out : List L
  err : List String

/-- What the program is started with: its standard output, and the process that started it. -/
structure Env where
  mode : Mode
  shell : ℕ

/-- A process makes a step of its own, forks with success or without, waits for the process at the
place `j`, or is killed. -/
inductive Action
  | run (i : ℕ)
  | fork (i pid : ℕ)
  | forkFails (i : ℕ)
  | wait (i j : ℕ)
  | kill (i sig : ℕ)
  deriving DecidableEq

/-- No call fails, and no process is killed. -/
def Action.Succeeds : Action → Prop
  | .run _ | .fork _ _ | .wait _ _ => True
  | .forkFails _ | .kill _ _ => False

instance (a : Action) : Decidable a.Succeeds := by
  cases a
  · exact isTrue trivial
  · exact isTrue trivial
  · exact isFalse id
  · exact isTrue trivial
  · exact isFalse id

variable {L K : Type*}

/-- The process still has its identifier. -/
def Phase.present : Phase L → Bool
  | .running _ | .ended _ => true
  | .reaped => false

/-- The first process, with its program before it. -/
def start (pid : ℕ) (prog : Prog L) : State L := ⟨[⟨pid, none, [], .running prog⟩], [], []⟩

/-- `getppid()`: the parent, or the process 1 if the parent has ended. -/
def State.getppid (env : Env) (s : State L) (p : Proc L) : ℕ :=
  match p.parent with
  | none => env.shell
  | some i =>
    match s.procs[i]? with
    | some ⟨pid, _, _, .running _⟩ => pid
    | _ => 1

/-- The identifier belongs to none of the processes. -/
def State.Fresh (s : State L) (pid : ℕ) : Prop :=
  ∀ q ∈ s.procs, q.phase.present = true → q.pid ≠ pid

instance (s : State L) (pid : ℕ) : Decidable (s.Fresh pid) :=
  inferInstanceAs (Decidable (∀ q ∈ s.procs, q.phase.present = true → q.pid ≠ pid))

/-- The process `p` at the place `i` becomes `q`. -/
def State.set (s : State L) (i : ℕ) (q : Proc L) : State L :=
  { s with procs := s.procs.set i q }

/-- One step; `none` if the action is not enabled. -/
def step (env : Env) (s : State L) : Action → Option (State L)
  | .run i => s.procs[i]?.bind fun p =>
    match p.phase with
    | .running (.exit code) =>
      some { s.set i { p with buffer := [], phase := .ended (.exited code) } with
        out := s.out ++ p.buffer }
    | .running (.print line next) =>
      match env.mode with
      | .terminal => some { s.set i { p with phase := .running next } with
          out := s.out ++ [line p.pid (s.getppid env p)] }
      | .file => some (s.set i { p with
          buffer := p.buffer ++ [line p.pid (s.getppid env p)], phase := .running next })
    | .running (.perror text next) =>
      some { s.set i { p with phase := .running next } with err := s.err ++ [text] }
    | _ => none
  | .fork i pid => s.procs[i]?.bind fun p =>
    match p.phase with
    | .running (.fork child parent _) =>
      if s.Fresh pid then
        some { s with procs := s.procs.set i { p with phase := .running (parent pid) }
          ++ [⟨pid, some i, p.buffer, .running child⟩] }
      else none
    | _ => none
  | .forkFails i => s.procs[i]?.bind fun p =>
    match p.phase with
    | .running (.fork _ _ failed) => some (s.set i { p with phase := .running failed })
    | _ => none
  | .wait i j => s.procs[i]?.bind fun p => s.procs[j]?.bind fun q =>
    match p.phase, q.phase with
    | .running (.waitpid pid next), .ended status =>
      if q.pid = pid ∧ q.parent = some i then
        some ((s.set i { p with phase := .running (next status) }).set j
          { q with phase := .reaped })
      else none
    | _, _ => none
  | .kill i sig => s.procs[i]?.bind fun p =>
    match p.phase with
    | .running _ => some (s.set i { p with buffer := [], phase := .ended (.signaled sig) })
    | _ => none

/-- What a step without a failure does. -/
inductive Moves (env : Env) (s : State L) : Action → State L → Prop
  | exit {i pid above buffer code}
      (hp : s.procs[i]? = some ⟨pid, above, buffer, .running (.exit code)⟩) :
      Moves env s (.run i)
        ⟨s.procs.set i ⟨pid, above, [], .ended (.exited code)⟩, s.out ++ buffer, s.err⟩
  | shown {i pid above buffer line next} (hmode : env.mode = .terminal)
      (hp : s.procs[i]? = some ⟨pid, above, buffer, .running (.print line next)⟩) :
      Moves env s (.run i) ⟨s.procs.set i ⟨pid, above, buffer, .running next⟩, s.out ++ [line pid
        (s.getppid env ⟨pid, above, buffer, .running (.print line next)⟩)], s.err⟩
  | buffered {i pid above buffer line next} (hmode : env.mode = .file)
      (hp : s.procs[i]? = some ⟨pid, above, buffer, .running (.print line next)⟩) :
      Moves env s (.run i) ⟨s.procs.set i ⟨pid, above, buffer ++ [line pid (s.getppid env
        ⟨pid, above, buffer, .running (.print line next)⟩)], .running next⟩, s.out, s.err⟩
  | perror {i pid above buffer text next}
      (hp : s.procs[i]? = some ⟨pid, above, buffer, .running (.perror text next)⟩) :
      Moves env s (.run i)
        ⟨s.procs.set i ⟨pid, above, buffer, .running next⟩, s.out, s.err ++ [text]⟩
  | fork {i me above buffer child parent failed pid}
      (hp : s.procs[i]? = some ⟨me, above, buffer, .running (.fork child parent failed)⟩)
      (hfresh : s.Fresh pid) :
      Moves env s (.fork i pid) ⟨s.procs.set i ⟨me, above, buffer, .running (parent pid)⟩
        ++ [⟨pid, some i, buffer, .running child⟩], s.out, s.err⟩
  | wait {i j me above buffer pid next buffer' status}
      (hp : s.procs[i]? = some ⟨me, above, buffer, .running (.waitpid pid next)⟩)
      (hq : s.procs[j]? = some ⟨pid, some i, buffer', .ended status⟩) :
      Moves env s (.wait i j) ⟨(s.procs.set i ⟨me, above, buffer, .running (next status)⟩).set j
        ⟨pid, some i, buffer', .reaped⟩, s.out, s.err⟩

theorem moves_of_step {env : Env} {s s' : State L} {a : Action} (hs : step env s a = some s')
    (ha : a.Succeeds) : Moves env s a s' := by
  cases a with
  | run i =>
    obtain ⟨⟨me, above, buffer, phase⟩, hp, hs⟩ := Option.bind_eq_some_iff.1 hs
    dsimp only at hs
    split at hs
    · cases hs
      exact .exit hp
    · cases hmode : env.mode with
      | terminal =>
        simp only [hmode] at hs
        cases hs
        exact .shown hmode hp
      | file =>
        simp only [hmode] at hs
        cases hs
        exact .buffered hmode hp
    · cases hs
      exact .perror hp
    · cases hs
  | fork i pid =>
    obtain ⟨⟨me, above, buffer, phase⟩, hp, hs⟩ := Option.bind_eq_some_iff.1 hs
    dsimp only at hs
    split at hs
    · split_ifs at hs with hfresh
      cases hs
      exact .fork hp hfresh
    · cases hs
  | wait i j =>
    obtain ⟨⟨me, above, buffer, phase⟩, hp, hs⟩ := Option.bind_eq_some_iff.1 hs
    obtain ⟨⟨pid, above', buffer', phase'⟩, hq, hs⟩ := Option.bind_eq_some_iff.1 hs
    dsimp only at hs
    split at hs
    · split_ifs at hs with hchild
      obtain ⟨rfl, rfl⟩ := hchild
      cases hs
      exact .wait hp hq
    · cases hs
  | forkFails i => exact absurd ha id
  | kill i sig => exact absurd ha id

/-! ### What a program amounts to -/

/-- With the children `kids` to wait for and lines of the kinds `b` in its buffer, a process that
has `prog` before it and the descendants that it is going to have make `n` steps and show lines of
the kinds `o`. -/
inductive Behaves (kind : L → K) (mode : Mode) :
    List ℕ → Multiset K → Prog L → Multiset K → ℕ → Prop
  | exit {b} : Behaves kind mode [] b (.exit 0) b 1
  | shown {kids b o n line next k} (hmode : mode = .terminal)
      (hkind : ∀ pid ppid, kind (line pid ppid) = k) (h : Behaves kind mode kids b next o n) :
      Behaves kind mode kids b (.print line next) (k ::ₘ o) (n + 1)
  | buffered {kids b o n line next k} (hmode : mode = .file)
      (hkind : ∀ pid ppid, kind (line pid ppid) = k)
      (h : Behaves kind mode kids (k ::ₘ b) next o n) :
      Behaves kind mode kids b (.print line next) o (n + 1)
  | fork {kids b o p n m child parent failed} (hchild : Behaves kind mode [] b child o n)
      (hparent : ∀ pid, pid ∉ kids → Behaves kind mode (pid :: kids) b (parent pid) p m) :
      Behaves kind mode kids b (.fork child parent failed) (o + p) (n + m + 1)
  | wait {kids b o n pid next} (hpid : pid ∈ kids)
      (h : Behaves kind mode (kids.erase pid) b (next (.exited 0)) o n) :
      Behaves kind mode kids b (.waitpid pid next) o (n + 1)

/-- At its exit a process shows what is in its buffer. -/
theorem Behaves.exit_of_eq {kind : L → K} {mode : Mode} {b o : Multiset K} (h : b = o) :
    Behaves kind mode [] b (.exit 0) o 1 := h ▸ .exit

/-- What a process still has before it: the children to wait for, the lines and the steps. -/
structure Debt (K : Type*) where
  kids : List ℕ
  lines : Multiset K
  steps : ℕ

/-- The debt of a process. -/
inductive Owes (kind : L → K) (mode : Mode) : Proc L → Debt K → Prop
  | running {pid parent buffer prog kids o n}
      (h : Behaves kind mode kids (buffer.map kind : List K) prog o n) :
      Owes kind mode ⟨pid, parent, buffer, .running prog⟩ ⟨kids, o, n⟩
  | ended {pid parent buffer} :
      Owes kind mode ⟨pid, parent, buffer, .ended (.exited 0)⟩ ⟨[], 0, 0⟩
  | reaped {pid parent buffer} : Owes kind mode ⟨pid, parent, buffer, .reaped⟩ ⟨[], 0, 0⟩

/-! ### The family -/

/-- What matters of a process to its parent. -/
structure Member where
  pid : ℕ
  parent : Option ℕ
  present : Bool

def Proc.member (p : Proc L) : Member := ⟨p.pid, p.parent, p.phase.present⟩

/-- The processes that are present, but for the first one, are those that another one has to wait
for. -/
structure Family (ms : List Member) (kids : ℕ → List ℕ) : Prop where
  first : ∃ pid, ms[0]? = some ⟨pid, none, true⟩
  parent : ∀ {j : ℕ} {m : Member}, ms[j]? = some m → m.present = true →
    j = 0 ∧ m.parent = none ∨ ∃ i < j, m.parent = some i ∧ m.pid ∈ kids i
  child : ∀ {i pid : ℕ}, pid ∈ kids i →
    ∃ j m, i < j ∧ ms[j]? = some m ∧ m.present = true ∧ m.pid = pid ∧ m.parent = some i
  distinct : ∀ {i j : ℕ} {m m' : Member}, ms[i]? = some m → ms[j]? = some m' → m.present = true →
    m'.present = true → m.pid = m'.pid → i = j
  present : ∀ {i pid : ℕ}, pid ∈ kids i → ∃ m, ms[i]? = some m ∧ m.present = true
  nodup : ∀ i, (kids i).Nodup

namespace Family

variable {ms : List Member} {kids : ℕ → List ℕ} {i j pid : ℕ} {m : Member}

theorem start (pid : ℕ) : Family [⟨pid, none, true⟩] fun _ => [] where
  first := ⟨pid, rfl⟩
  parent {j m} hj _ := by
    rw [List.getElem?_singleton] at hj
    split_ifs at hj with h0
    cases hj
    exact .inl ⟨h0, rfl⟩
  child h := by cases h
  distinct {i j m m'} hi hj _ _ _ := by
    rw [List.getElem?_singleton] at hi hj
    split_ifs at hi hj with hi0 hj0
    rw [hi0, hj0]
  present h := by cases h
  nodup _ := List.nodup_nil

/-- The process at the place `i` has a new child. -/
theorem fork (h : Family ms kids) (hi : ms[i]? = some m) (hm : m.present = true)
    (hfresh : ∀ m ∈ ms, m.present = true → m.pid ≠ pid) :
    Family (ms ++ [⟨pid, some i, true⟩]) (Function.update kids i (pid :: kids i)) := by
  have hnew : pid ∉ kids i := by
    intro hmem
    obtain ⟨j, m, -, hj, hm, hpid, -⟩ := h.child hmem
    exact hfresh m (List.mem_of_getElem? hj) hm hpid
  have hlt := (List.getElem?_eq_some_iff.1 hi).1
  have hmem : ∀ {j p}, p ∈ Function.update kids i (pid :: kids i) j ↔
      j = i ∧ p = pid ∨ p ∈ kids j := by
    intro j p
    by_cases hji : j = i
    · subst hji
      rw [Function.update_self, List.mem_cons]
      simp
    · rw [Function.update_of_ne hji]
      simp [hji]
  refine ⟨?_, fun {j m} hj hm => ?_, fun {j p} hp => ?_, fun {j j' m m'} hj hj' hm hm' hpid => ?_,
    fun {j p} hp => ?_, fun j => ?_⟩
  · obtain ⟨first, h0⟩ := h.first
    exact ⟨first, Lists.getElem?_concat_eq_some.2 (.inl h0)⟩
  · rcases Lists.getElem?_concat_eq_some.1 hj with hj | ⟨rfl, rfl⟩
    · refine (h.parent hj hm).imp_right ?_
      rintro ⟨k, hk, hparent, hkid⟩
      exact ⟨k, hk, hparent, hmem.2 (.inr hkid)⟩
    · exact .inr ⟨i, hlt, rfl, hmem.2 (.inl ⟨rfl, rfl⟩)⟩
  · rcases hmem.1 hp with ⟨rfl, rfl⟩ | hp
    · exact ⟨ms.length, _, hlt, List.getElem?_concat_length, rfl, rfl, rfl⟩
    · obtain ⟨k, m, hlt, hk, hm⟩ := h.child hp
      exact ⟨k, m, hlt, Lists.getElem?_concat_eq_some.2 (.inl hk), hm⟩
  · rcases Lists.getElem?_concat_eq_some.1 hj with hj | ⟨rfl, rfl⟩
    · rcases Lists.getElem?_concat_eq_some.1 hj' with hj' | ⟨rfl, rfl⟩
      · exact h.distinct hj hj' hm hm' hpid
      · exact absurd hpid (hfresh m (List.mem_of_getElem? hj) hm)
    · rcases Lists.getElem?_concat_eq_some.1 hj' with hj' | ⟨rfl, rfl⟩
      · exact absurd hpid.symm (hfresh m' (List.mem_of_getElem? hj') hm')
      · rfl
  · rcases hmem.1 hp with ⟨rfl, -⟩ | hp
    · exact ⟨m, Lists.getElem?_concat_eq_some.2 (.inl hi), hm⟩
    · obtain ⟨m', hj, hm'⟩ := h.present hp
      exact ⟨m', Lists.getElem?_concat_eq_some.2 (.inl hj), hm'⟩
  · by_cases hji : j = i
    · subst hji
      rw [Function.update_self]
      exact List.nodup_cons.2 ⟨hnew, h.nodup j⟩
    · rw [Function.update_of_ne hji]
      exact h.nodup j

/-- The process at the place `i` has waited for its child at the place `j`. -/
theorem reap (h : Family ms kids) (hj : ms[j]? = some ⟨pid, some i, true⟩) (hkids : kids j = []) :
    Family (ms.set j ⟨pid, some i, false⟩) (Function.update kids i ((kids i).erase pid)) := by
  have hlt := (List.getElem?_eq_some_iff.1 hj).1
  have hold : ∀ {k m}, (ms.set j ⟨pid, some i, false⟩)[k]? = some m → m.present = true →
      k ≠ j ∧ ms[k]? = some m := by
    intro k m hk hm
    rcases (Lists.getElem?_set_eq_some hlt).1 hk with ⟨-, rfl⟩ | hk
    · cases hm
    · exact hk
  have hsub : ∀ {k p}, p ∈ Function.update kids i ((kids i).erase pid) k → p ∈ kids k := by
    intro k p hp
    by_cases hki : k = i
    · subst hki
      rw [Function.update_self] at hp
      exact List.mem_of_mem_erase hp
    · rwa [Function.update_of_ne hki] at hp
  refine ⟨?_, fun {k m} hk hm => ?_, fun {k p} hp => ?_, fun {k k' m m'} hk hk' hm hm' hpid => ?_,
    fun {k p} hp => ?_, fun k => ?_⟩
  · obtain ⟨first, h0⟩ := h.first
    refine ⟨first, (Lists.getElem?_set_eq_some hlt).2 (.inr ⟨?_, h0⟩)⟩
    rintro rfl
    rw [hj] at h0
    cases h0
  · obtain ⟨hkj, hmk⟩ := hold hk hm
    refine (h.parent hmk hm).imp_right ?_
    rintro ⟨i', hlt', hparent, hkid⟩
    refine ⟨i', hlt', hparent, ?_⟩
    by_cases hi : i' = i
    · subst hi
      rw [Function.update_self]
      exact (List.mem_erase_of_ne fun hpid => hkj (h.distinct hmk hj hm rfl hpid)).2 hkid
    · rwa [Function.update_of_ne hi]
  · obtain ⟨k', m, hlt', hk', hm, hpid, hparent⟩ := h.child (hsub hp)
    refine ⟨k', m, hlt', (Lists.getElem?_set_eq_some hlt).2 (.inr ⟨?_, hk'⟩), hm, hpid, hparent⟩
    rintro rfl
    obtain rfl := Option.some.inj (hj.symm.trans hk')
    obtain rfl := Option.some.inj hparent
    subst hpid
    rw [Function.update_self] at hp
    exact (h.nodup i).not_mem_erase hp
  · exact h.distinct (hold hk hm).2 (hold hk' hm').2 hm hm' hpid
  · obtain ⟨m, hk, hm⟩ := h.present (hsub hp)
    refine ⟨m, (Lists.getElem?_set_eq_some hlt).2 (.inr ⟨?_, hk⟩), hm⟩
    rintro rfl
    have hkid := hsub hp
    rw [hkids] at hkid
    cases hkid
  · by_cases hki : k = i
    · subst hki
      rw [Function.update_self]
      exact (h.nodup k).erase pid
    · rw [Function.update_of_ne hki]
      exact h.nodup k

theorem kids_of_le (h : Family ms kids) (hi : ms.length ≤ i) : kids i = [] := by
  refine List.eq_nil_iff_forall_not_mem.2 fun p hp => ?_
  obtain ⟨m, hm, -⟩ := h.present hp
  rw [List.getElem?_eq_none hi] at hm
  cases hm

/-- When the first process has no child left, no other one is present. -/
theorem alone (h : Family ms kids) (hkids : kids 0 = []) {j : ℕ} (hj : ms[j]? = some m)
    (hm : m.present = true) : j = 0 := by
  -- the parent of a process that is present is so as well, and stands above it in the table
  induction j using Nat.strong_induction_on generalizing m with
  | _ j ih =>
    rcases h.parent hj hm with ⟨h0, -⟩ | ⟨i, hlt, -, hkid⟩
    · exact h0
    · obtain ⟨m', hi, hm'⟩ := h.present hkid
      rw [ih i hlt hi hm', hkids] at hkid
      cases hkid

end Family

/-! ### The invariant -/

/-- What every step without a failure preserves: each process owes its part of the lines, and the
table is that of a family. -/
structure Inv (env : Env) (kind : L → K) (o : Multiset K) (s : State L) (debt : ℕ → Debt K) :
    Prop where
  owes : ∀ {i : ℕ} {p : Proc L}, s.procs[i]? = some p → Owes kind env.mode p (debt i)
  lines : (s.out.map kind : Multiset K) + ∑ i ∈ Finset.range s.procs.length, (debt i).lines = o
  family : Family (s.procs.map Proc.member) fun i => (debt i).kids

/-- The steps that are left. -/
def steps (s : State L) (debt : ℕ → Debt K) : ℕ :=
  ∑ i ∈ Finset.range s.procs.length, (debt i).steps

variable {env : Env} {kind : L → K} {o : Multiset K} {s s' : State L} {debt : ℕ → Debt K}
  {i j pid : ℕ} {p q : Proc L} {a : Action}

theorem inv_start {prog : Prog L} {n : ℕ} (pid : ℕ) (h : Behaves kind env.mode [] 0 prog o n) :
    Inv env kind o (start pid prog) (fun _ => ⟨[], o, n⟩) where
  owes {i p} hp := by
    rw [start, List.getElem?_singleton] at hp
    split_ifs at hp
    cases hp
    exact .running h
  lines := by simp [start]
  family := Family.start pid

/-- A term of a sum is replaced. -/
theorem sum_update {M : Type*} [AddCommMonoid M] {n : ℕ} (f : ℕ → M) (x : M) (hi : i < n) :
    (∑ j ∈ Finset.range n, Function.update f i x j) + f i = (∑ j ∈ Finset.range n, f j) + x := by
  have hmem : i ∈ Finset.range n := Finset.mem_range.2 hi
  rw [Finset.sum_update_of_mem hmem, Finset.sum_eq_add_sum_sdiff_singleton_of_mem hmem f]
  abel

/-- What each of the steps comes to. -/
def Advances (env : Env) (kind : L → K) (o : Multiset K) (s s' : State L) (debt : ℕ → Debt K) :
    Prop :=
  ∃ debt', Inv env kind o s' debt' ∧ steps s' debt' + 1 = steps s debt

theorem sum_lines_update (s : State L) (debt : ℕ → Debt K) (d : Debt K) (hi : i < s.procs.length) :
    (∑ j ∈ Finset.range s.procs.length, (Function.update debt i d j).lines) + (debt i).lines
      = (∑ j ∈ Finset.range s.procs.length, (debt j).lines) + d.lines := by
  rw [← sum_update (fun j => (debt j).lines) d.lines hi]
  simp only [Function.apply_update fun _ => Debt.lines]

theorem sum_steps_update (s : State L) (debt : ℕ → Debt K) (d : Debt K) (hi : i < s.procs.length) :
    (∑ j ∈ Finset.range s.procs.length, (Function.update debt i d j).steps) + (debt i).steps
      = (∑ j ∈ Finset.range s.procs.length, (debt j).steps) + d.steps := by
  rw [← sum_update (fun j => (debt j).steps) d.steps hi]
  simp only [Function.apply_update fun _ => Debt.steps]

theorem map_member_set (hp : s.procs[i]? = some p) (hmember : q.member = p.member) :
    (s.procs.set i q).map Proc.member = s.procs.map Proc.member := by
  obtain ⟨hlt, he⟩ := List.getElem?_eq_some_iff.1 hp
  rw [List.map_set, hmember, ← he, ← List.getElem_map Proc.member, List.set_getElem_self]
  rwa [List.length_map]

/-- A step of one process alone. -/
theorem Inv.advance (h : Inv env kind o s debt) (hp : s.procs[i]? = some p)
    (hmember : q.member = p.member) {l : Multiset K} {n : ℕ} {out : List L} {err : List String}
    (howes : Owes kind env.mode q ⟨(debt i).kids, l, n⟩)
    (hlines : (out.map kind : Multiset K) + l = (s.out.map kind : Multiset K) + (debt i).lines)
    (hn : n + 1 = (debt i).steps) :
    Advances env kind o s ⟨s.procs.set i q, out, err⟩ debt := by
  have hlt := (List.getElem?_eq_some_iff.1 hp).1
  have hsumLines := sum_lines_update s debt ⟨(debt i).kids, l, n⟩ hlt
  have hsumSteps := sum_steps_update s debt ⟨(debt i).kids, l, n⟩ hlt
  refine ⟨Function.update debt i ⟨(debt i).kids, l, n⟩, ⟨fun {j r} hr => ?_, ?_, ?_⟩, ?_⟩
  · rcases (Lists.getElem?_set_eq_some hlt).1 hr with ⟨rfl, rfl⟩ | ⟨hj, hr⟩
    · rw [Function.update_self]
      exact howes
    · rw [Function.update_of_ne hj]
      exact h.owes hr
  · rw [List.length_set]
    refine add_right_cancel (b := (debt i).lines) ?_
    rw [add_assoc, hsumLines, add_left_comm, hlines, ← add_assoc, add_comm _ (s.out.map kind :
      Multiset K), h.lines]
  · have hkids : (fun j => (Function.update debt i ⟨(debt i).kids, l, n⟩ j).kids)
        = fun j => (debt j).kids := by
      funext j
      by_cases hj : j = i
      · subst hj
        rw [Function.update_self]
      · rw [Function.update_of_ne hj]
    rw [hkids, map_member_set hp hmember]
    exact h.family
  · unfold steps
    rw [List.length_set]
    change _ = _ + n at hsumSteps
    omega

theorem kids_update (d : Debt K) :
    (fun j => (Function.update debt i d j).kids)
      = Function.update (fun j => (debt j).kids) i d.kids := by
  funext j
  exact Function.apply_update (fun _ => Debt.kids) debt i d j

/-- A successful `fork`. -/
theorem Inv.fork (h : Inv env kind o s debt) {me : ℕ} {above : Option ℕ} {buffer : List L}
    {child failed : Prog L} {parent : ℕ → Prog L}
    (hp : s.procs[i]? = some ⟨me, above, buffer, .running (.fork child parent failed)⟩)
    (hfresh : s.Fresh pid) :
    Advances env kind o s ⟨s.procs.set i ⟨me, above, buffer, .running (parent pid)⟩
      ++ [⟨pid, some i, buffer, .running child⟩], s.out, s.err⟩ debt := by
  have hlt := (List.getElem?_eq_some_iff.1 hp).1
  have howes := h.owes hp
  generalize hd : debt i = d at howes
  obtain ⟨kids, lines, n⟩ := d
  cases howes with
  | running hbehaves =>
  cases hbehaves with
  | @fork _ _ lines lines' n n' _ _ _ hchild hparent =>
  have hkids : (debt i).kids = kids := by rw [hd]
  have hmem : ∀ m ∈ s.procs.map Proc.member, m.present = true → m.pid ≠ pid := by
    intro m hm hpresent
    obtain ⟨r, hr, rfl⟩ := List.mem_map.1 hm
    exact hfresh r hr hpresent
  have hnew : pid ∉ kids := by
    intro hkid
    obtain ⟨j, m, -, hj, hm, hpid, -⟩ := h.family.child (i := i) (hkids.symm ▸ hkid)
    exact hmem m (List.mem_of_getElem? hj) hm hpid
  have hnone : (debt s.procs.length).kids = [] :=
    h.family.kids_of_le (by rw [List.length_map])
  have hset : (s.procs.set i ⟨me, above, buffer, .running (parent pid)⟩).length
      = s.procs.length := List.length_set
  have hne : ∀ j ∈ Finset.range s.procs.length, j ≠ s.procs.length := fun j hj =>
    (Finset.mem_range.1 hj).ne
  have hsumLines := sum_lines_update s debt ⟨pid :: kids, lines', n'⟩ hlt
  have hsumSteps := sum_steps_update s debt ⟨pid :: kids, lines', n'⟩ hlt
  rw [hd] at hsumLines hsumSteps
  refine ⟨Function.update (Function.update debt i ⟨pid :: kids, lines', n'⟩) s.procs.length
    ⟨[], lines, n⟩, ⟨fun {j r} hr => ?_, ?_, ?_⟩, ?_⟩
  · rcases Lists.getElem?_concat_eq_some.1 hr with hr | ⟨rfl, rfl⟩
    · have hj := (List.getElem?_eq_some_iff.1 hr).1
      rw [hset] at hj
      rw [Function.update_of_ne hj.ne]
      rcases (Lists.getElem?_set_eq_some hlt).1 hr with ⟨rfl, rfl⟩ | ⟨hji, hr⟩
      · rw [Function.update_self]
        exact .running (hparent pid hnew)
      · rw [Function.update_of_ne hji]
        exact h.owes hr
    · rw [hset, Function.update_self]
      exact .running hchild
  · rw [List.length_append, hset, List.length_singleton, Finset.sum_range_succ,
      Function.update_self,
      Finset.sum_congr rfl fun j hj => by rw [Function.update_of_ne (hne j hj)]]
    have hsum := add_right_cancel (b := lines') ((add_assoc _ lines lines').trans hsumLines)
    rw [hsum]
    exact h.lines
  · rw [kids_update, kids_update, List.map_append,
      map_member_set (q := ⟨me, above, buffer, .running (parent pid)⟩) hp rfl]
    have hsame : Function.update (Function.update (fun j => (debt j).kids) i (pid :: kids))
        s.procs.length [] = Function.update (fun j => (debt j).kids) i (pid :: (debt i).kids) := by
      rw [hkids]
      refine Function.update_eq_iff.2 ⟨?_, fun _ _ => rfl⟩
      rw [Function.update_of_ne hlt.ne', hnone]
    rw [hsame]
    refine h.family.fork (m := ⟨me, above, true⟩) ?_ rfl hmem
    rw [List.getElem?_map, hp]
    rfl
  · unfold steps
    rw [List.length_append, hset, List.length_singleton, Finset.sum_range_succ,
      Function.update_self,
      Finset.sum_congr rfl fun j hj => by rw [Function.update_of_ne (hne j hj)]]
    change _ + (n + n' + 1) = _ + n' at hsumSteps
    change _ + n + 1 = _
    omega

/-- A process waits for a child that has ended. -/
theorem Inv.wait (h : Inv env kind o s debt) {me : ℕ} {above : Option ℕ} {buffer buffer' : List L}
    {next : Status → Prog L} {status : Status}
    (hp : s.procs[i]? = some ⟨me, above, buffer, .running (.waitpid pid next)⟩)
    (hq : s.procs[j]? = some ⟨pid, some i, buffer', .ended status⟩) :
    Advances env kind o s ⟨(s.procs.set i ⟨me, above, buffer, .running (next status)⟩).set j
      ⟨pid, some i, buffer', .reaped⟩, s.out, s.err⟩ debt := by
  have hlt := (List.getElem?_eq_some_iff.1 hp).1
  have hltj := (List.getElem?_eq_some_iff.1 hq).1
  have hji : j ≠ i := by
    rintro rfl
    rw [hp] at hq
    cases hq
  have howes := h.owes hp
  have howesj := h.owes hq
  generalize hd : debt i = d at howes
  generalize hdj : debt j = dj at howesj
  obtain ⟨kids, lines, n⟩ := d
  cases howesj with
  | ended =>
  cases howes with
  | running hbehaves =>
  cases hbehaves with
  | @wait _ _ _ n _ _ hpid hnext =>
  have hkids : (debt i).kids = kids := by rw [hd]
  have hset : ((s.procs.set i ⟨me, above, buffer, .running (next (.exited 0))⟩).set j
      ⟨pid, some i, buffer', .reaped⟩).length = s.procs.length := by
    rw [List.length_set, List.length_set]
  have hsumLines := sum_lines_update s debt ⟨kids.erase pid, lines, n⟩ hlt
  have hsumSteps := sum_steps_update s debt ⟨kids.erase pid, lines, n⟩ hlt
  rw [hd] at hsumLines hsumSteps
  refine ⟨Function.update debt i ⟨kids.erase pid, lines, n⟩, ⟨fun {k r} hr => ?_, ?_, ?_⟩, ?_⟩
  · rcases (Lists.getElem?_set_eq_some (by rwa [List.length_set])).1 hr with ⟨rfl, rfl⟩ | ⟨-, hr⟩
    · rw [Function.update_of_ne hji, hdj]
      exact .reaped
    · rcases (Lists.getElem?_set_eq_some hlt).1 hr with ⟨rfl, rfl⟩ | ⟨hki, hr⟩
      · rw [Function.update_self]
        exact .running hnext
      · rw [Function.update_of_ne hki]
        exact h.owes hr
  · rw [hset, add_right_cancel hsumLines]
    exact h.lines
  · rw [kids_update, List.map_set, map_member_set
      (q := ⟨me, above, buffer, .running (next (.exited 0))⟩) hp rfl, ← hkids]
    refine h.family.reap ?_ (by rw [hdj])
    rw [List.getElem?_map, hq]
    rfl
  · unfold steps
    rw [hset]
    change _ + (n + 1) = _ + n at hsumSteps
    omega

/-- A step that a process makes for itself. -/
theorem Inv.own (h : Inv env kind o s debt) {me : ℕ} {above : Option ℕ} {buffer buffer' : List L}
    {prog : Prog L} {phase : Phase L} {out : List L} {err : List String}
    (hp : s.procs[i]? = some ⟨me, above, buffer, .running prog⟩) (hphase : phase.present = true)
    (howes : ∀ kids l n, Behaves kind env.mode kids (buffer.map kind : List K) prog l n →
      ∃ l' n', Owes kind env.mode ⟨me, above, buffer', phase⟩ ⟨kids, l', n'⟩ ∧ n' + 1 = n ∧
        (out.map kind : Multiset K) + l' = (s.out.map kind : Multiset K) + l) :
    Advances env kind o s ⟨s.procs.set i ⟨me, above, buffer', phase⟩, out, err⟩ debt := by
  have hdebt := h.owes hp
  generalize hd : debt i = d at hdebt
  cases hdebt with
  | @running _ _ _ _ kids l n hbehaves =>
    obtain ⟨l', n', hnew, hsteps, hlines⟩ := howes kids l n hbehaves
    refine h.advance (q := ⟨me, above, buffer', phase⟩) (l := l') (n := n') hp ?_ ?_ ?_ ?_
    · rw [Proc.member, Proc.member, hphase]
      rfl
    · rwa [hd]
    · rw [hd, hlines]
    · rw [hd, hsteps]

/-- **The step lemma.** -/
theorem Inv.step (h : Inv env kind o s debt) (hs : Moves env s a s') :
    Advances env kind o s s' debt := by
  cases hs with
  | exit hp =>
    refine h.own hp rfl fun kids l n hbehaves => ?_
    cases hbehaves with
    | exit => exact ⟨0, 0, .ended, rfl, by rw [add_zero, List.map_append, ← Multiset.coe_add]⟩
  | shown hmode hp =>
    refine h.own hp rfl fun kids l n hbehaves => ?_
    cases hbehaves with
    | shown _ hkind hnext =>
      refine ⟨_, _, .running hnext, rfl, ?_⟩
      rw [List.map_append, List.map_singleton, hkind, ← Multiset.coe_add, add_assoc]
      rfl
    | buffered hfile =>
      rw [hmode] at hfile
      cases hfile
  | buffered hmode hp =>
    refine h.own hp rfl fun kids l n hbehaves => ?_
    cases hbehaves with
    | shown hterminal =>
      rw [hmode] at hterminal
      cases hterminal
    | buffered _ hkind hnext =>
      refine ⟨_, _, .running ?_, rfl, rfl⟩
      rw [List.map_append, List.map_singleton, hkind, ← Multiset.coe_add, Multiset.coe_singleton,
        add_comm _ {_}, Multiset.singleton_add]
      exact hnext
  | perror hp =>
    refine h.own hp rfl fun kids l n hbehaves => ?_
    cases hbehaves
  | fork hp hfresh => exact h.fork hp hfresh
  | wait hp hq => exact h.wait hp hq

/-- **The run lemma.** -/
theorem Inv.run {as : List Action} (h : Inv env kind o s debt)
    (hrun : Run.run (Fork.step env) s as = some s') (has : ∀ a ∈ as, a.Succeeds) :
    ∃ debt', Inv env kind o s' debt' ∧ as.length + steps s' debt' = steps s debt := by
  induction as generalizing s debt with
  | nil =>
    cases hrun
    exact ⟨debt, h, Nat.zero_add _⟩
  | cons a as ih =>
    obtain ⟨ha, has⟩ := List.forall_mem_cons.1 has
    obtain ⟨t, ht, hrun⟩ := run_cons_eq_some.1 hrun
    obtain ⟨debt₁, h₁, hsteps⟩ := h.step (moves_of_step ht ha)
    obtain ⟨debt', h', hlength⟩ := ih h₁ hrun has
    refine ⟨debt', h', ?_⟩
    rw [List.length_cons, ← hsteps, ← hlength]
    exact Nat.add_right_comm _ _ _

/-! ### Nothing blocks -/

/-- The process at the place `i` is at the place `prog` of its program. -/
def State.Runs (s : State L) (i : ℕ) : Prop :=
  ∃ p prog, s.procs[i]? = some p ∧ p.phase = .running prog

/-- A process with a child to wait for has not ended. -/
theorem Inv.runs_of_kid (h : Inv env kind o s debt) (hkid : pid ∈ (debt i).kids) : s.Runs i := by
  obtain ⟨m, hm, -⟩ := h.family.present (i := i) hkid
  rw [List.getElem?_map] at hm
  obtain ⟨p, hp, -⟩ := Option.map_eq_some_iff.1 hm
  have howes := h.owes hp
  generalize debt i = d at howes hkid
  cases howes with
  | running => exact ⟨_, _, hp, rfl⟩
  | ended => cases hkid
  | reaped => cases hkid

theorem State.exists_fresh (s : State L) : ∃ pid, s.Fresh pid := by
  classical
  obtain ⟨pid, hpid⟩ := Infinite.exists_notMem_finset (s.procs.map Proc.pid).toFinset
  refine ⟨pid, fun q hq _ he => hpid ?_⟩
  rw [List.mem_toFinset, ← he]
  exact List.mem_map_of_mem hq

/-- **No deadlock.** While a process runs, some step is possible: the youngest process that runs
does not wait for one that does. -/
theorem Inv.enabled (h : Inv env kind o s debt) (hi : s.Runs i) :
    ∃ a s', a.Succeeds ∧ Fork.step env s a = some s' := by
  generalize hk : s.procs.length - i = k
  induction k using Nat.strong_induction_on generalizing i with
  | _ k ih =>
    obtain ⟨⟨me, above, buffer, phase⟩, prog, hp, rfl⟩ := hi
    have howes := h.owes hp
    generalize hd : debt i = d at howes
    obtain ⟨kids, lines, n⟩ := d
    cases howes with
    | running hbehaves =>
    cases hbehaves with
    | exit => exact ⟨.run i, _, trivial, by simp only [Fork.step, hp, Option.bind_some]; rfl⟩
    | shown hmode => exact ⟨.run i, _, trivial, by
        simp only [Fork.step, hp, Option.bind_some, hmode]; rfl⟩
    | buffered hmode => exact ⟨.run i, _, trivial, by
        simp only [Fork.step, hp, Option.bind_some, hmode]; rfl⟩
    | fork =>
      obtain ⟨pid, hpid⟩ := s.exists_fresh
      exact ⟨.fork i pid, _, trivial, by
        simp only [Fork.step, hp, Option.bind_some, if_pos hpid]; rfl⟩
    | @wait _ _ _ _ child _ hpid =>
      have hkid : child ∈ (debt i).kids := by
        rw [hd]
        exact hpid
      obtain ⟨j, m, hlt, hj, hm, hpid, hparent⟩ := h.family.child (i := i) hkid
      rw [List.getElem?_map] at hj
      obtain ⟨⟨pid, above', buffer', phase'⟩, hq, rfl⟩ := Option.map_eq_some_iff.1 hj
      have hltj := (List.getElem?_eq_some_iff.1 hq).1
      cases phase' with
      | running prog => exact ih _ (by omega) ⟨_, _, hq, rfl⟩ rfl
      | ended status => exact ⟨.wait i j, _, trivial, by
          simp only [Fork.step, hp, hq, Option.bind_some]
          exact if_pos ⟨hpid, hparent⟩⟩
      | reaped => cases hm

/-- A process that has not been waited for has a parent that runs. -/
def State.NoOrphan (s : State L) : Prop :=
  ∀ (i j : ℕ) (p : Proc L), s.procs[j]? = some p → p.phase.present = true →
    p.parent = some i → s.Runs i

theorem Inv.noOrphan (h : Inv env kind o s debt) : s.NoOrphan := by
  intro i j p hp hpresent hparent
  have hm : (s.procs.map Proc.member)[j]? = some p.member := by rw [List.getElem?_map, hp]; rfl
  rcases h.family.parent hm hpresent with ⟨-, hnone⟩ | ⟨i', -, hparent', hkid⟩
  · have hnone : p.parent = none := hnone
    rw [hnone] at hparent
    cases hparent
  · obtain rfl : i = i' := Option.some.inj (hparent.symm.trans hparent')
    exact h.runs_of_kid hkid

/-- The first process has exited with 0, and all the others have been waited for. -/
structure State.Over (s : State L) : Prop where
  first : ∃ p, s.procs[0]? = some p ∧ p.phase = .ended (.exited 0)
  others : ∀ (j : ℕ) (p : Proc L), s.procs[j]? = some p → j ≠ 0 → p.phase = .reaped

/-- A process that does not run owes nothing. -/
theorem Inv.settled (h : Inv env kind o s debt) (hp : s.procs[i]? = some p) (hi : ¬ s.Runs i) :
    debt i = ⟨[], 0, 0⟩ ∧ (p.phase = .ended (.exited 0) ∨ p.phase = .reaped) := by
  have howes := h.owes hp
  generalize debt i = d at howes
  cases howes with
  | running => exact absurd ⟨_, _, hp, rfl⟩ hi
  | ended => exact ⟨rfl, .inl rfl⟩
  | reaped => exact ⟨rfl, .inr rfl⟩

theorem Inv.over (h : Inv env kind o s debt) (hruns : ∀ i, ¬ s.Runs i) :
    s.Over ∧ steps s debt = 0 ∧ (s.out.map kind : Multiset K) = o := by
  have hdebt : ∀ i ∈ Finset.range s.procs.length, debt i = ⟨[], 0, 0⟩ := fun i hi =>
    (h.settled (List.getElem?_eq_getElem (Finset.mem_range.1 hi)) (hruns i)).1
  obtain ⟨pid, hfirst⟩ := h.family.first
  rw [List.getElem?_map] at hfirst
  obtain ⟨p, hp, hmember⟩ := Option.map_eq_some_iff.1 hfirst
  have hpresent : p.phase.present = true := congrArg Member.present hmember
  obtain ⟨hd, hphase⟩ := h.settled hp (hruns 0)
  refine ⟨⟨⟨p, hp, hphase.resolve_right fun he => ?_⟩, fun j q hq hj => ?_⟩, ?_, ?_⟩
  · rw [he] at hpresent
    cases hpresent
  · refine (h.settled hq (hruns j)).2.resolve_left fun he => hj ?_
    refine h.family.alone (congrArg Debt.kids hd) (m := q.member) ?_ (congrArg Phase.present he)
    rw [List.getElem?_map, hq]
    rfl
  · rw [steps, Finset.sum_congr rfl fun i hi => congrArg Debt.steps (hdebt i hi)]
    exact Finset.sum_const_zero
  · rw [← h.lines, Finset.sum_congr rfl fun i hi => congrArg Debt.lines (hdebt i hi),
      Finset.sum_const_zero, add_zero]

/-! ### The last line -/

/-- The last thing that the process itself does is to print `line`. -/
inductive Closes (line : ℕ → ℕ → L) : Prog L → Prop
  | last : Closes line (.print line (.exit 0))
  | print {l next} (h : Closes line next) : Closes line (.print l next)
  | fork {child parent failed} (h : ∀ pid, Closes line (parent pid)) :
      Closes line (.fork child parent failed)
  | wait {pid next} (h : Closes line (next (.exited 0))) : Closes line (.waitpid pid next)

/-- What becomes of the last line of the first process. -/
inductive Closing (env : Env) (line : ℕ → ℕ → L) (s : State L) : Prop
  | before {pid buffer prog} (hp : s.procs[0]? = some ⟨pid, none, buffer, .running prog⟩)
      (hbuffer : env.mode = .terminal → buffer = []) (h : Closes line prog)
  | last {pid buffer} (hp : s.procs[0]? = some ⟨pid, none, buffer, .running (.exit 0)⟩)
      (h : (s.out ++ buffer).getLast? = some (line pid env.shell))
  | done {pid buffer status} (hp : s.procs[0]? = some ⟨pid, none, buffer, .ended status⟩)
      (h : s.out.getLast? = some (line pid env.shell))

/-- The process that makes the step. -/
def Action.actor : Action → ℕ
  | .run i | .fork i _ | .forkFails i | .wait i _ | .kill i _ => i

theorem Moves.runs_actor (hs : Moves env s a s') : s.Runs a.actor := by
  cases hs with
  | exit hp => exact ⟨_, _, hp, rfl⟩
  | shown _ hp => exact ⟨_, _, hp, rfl⟩
  | buffered _ hp => exact ⟨_, _, hp, rfl⟩
  | perror hp => exact ⟨_, _, hp, rfl⟩
  | fork hp => exact ⟨_, _, hp, rfl⟩
  | wait hp => exact ⟨_, _, hp, rfl⟩

/-- The steps of the other processes do not change the first one. -/
theorem Moves.first (hs : Moves env s a s') (hactor : a.actor ≠ 0) (hp : s.procs[0]? = some p)
    (hparent : p.parent = none) : s'.procs[0]? = some p := by
  cases hs with
  | exit | shown | buffered | perror => exact (List.getElem?_set_ne hactor).trans hp
  | fork =>
    exact Lists.getElem?_concat_eq_some.2 (.inl ((List.getElem?_set_ne hactor).trans hp))
  | @wait _ j _ _ _ _ _ _ _ _ hq =>
    have hj : j ≠ 0 := by
      rintro rfl
      rw [hp] at hq
      cases hq
      cases hparent
    exact (List.getElem?_set_ne hj).trans ((List.getElem?_set_ne hactor).trans hp)

/-- Without children the first process is the only one to make a step. -/
theorem Moves.actor_eq (hs : Moves env s a s') (hI : Inv env kind o s debt)
    (hkids : (debt 0).kids = []) : a.actor = 0 := by
  obtain ⟨p, prog, hp, hphase⟩ := hs.runs_actor
  refine hI.family.alone hkids (m := p.member) ?_ (congrArg Phase.present hphase)
  rw [List.getElem?_map, hp]
  rfl

/-- A step of the first process, before its last line. -/
theorem Closing.own {line : ℕ → ℕ → L} {pid : ℕ} {buffer : List L} {prog : Prog L}
    (hp : s.procs[0]? = some ⟨pid, none, buffer, .running prog⟩)
    (hbuffer : env.mode = .terminal → buffer = []) (h : Closes line prog)
    (hI : Inv env kind o s debt) (hs : Moves env s a s') (hactor : a.actor = 0) :
    Closing env line s' := by
  have hlt := (List.getElem?_eq_some_iff.1 hp).1
  have hself : ∀ q : Proc L, (s.procs.set 0 q)[0]? = some q := fun q => List.getElem?_set_self hlt
  cases hs with
  | @exit i _ _ _ _ hq =>
    obtain rfl : i = 0 := hactor
    cases hp.symm.trans hq
    cases h
  | @shown i _ _ _ _ _ hmode hq =>
    obtain rfl : i = 0 := hactor
    cases hp.symm.trans hq
    cases h with
    | last => exact .last (hself _) (by simp [hbuffer hmode, State.getppid])
    | print h => exact .before (hself _) hbuffer h
  | @buffered i _ _ _ _ _ hmode hq =>
    obtain rfl : i = 0 := hactor
    cases hp.symm.trans hq
    cases h with
    | last => exact .last (hself _) (by simp [State.getppid])
    | print h =>
      refine .before (hself _) (fun hterminal => ?_) h
      rw [hmode] at hterminal
      cases hterminal
  | @perror i _ _ _ _ _ hq =>
    obtain rfl : i = 0 := hactor
    cases hp.symm.trans hq
    cases h
  | @fork i _ _ _ _ _ _ _ hq =>
    obtain rfl : i = 0 := hactor
    cases hp.symm.trans hq
    cases h with
    | fork h => exact .before (Lists.getElem?_concat_eq_some.2 (.inl (hself _))) hbuffer (h _)
  | @wait i j _ _ _ _ _ _ status hq hchild =>
    obtain rfl : i = 0 := hactor
    cases hp.symm.trans hq
    have hj : j ≠ 0 := by
      rintro rfl
      rw [hp] at hchild
      cases hchild
    have hended := hI.owes hchild
    generalize debt j = d at hended
    cases hended with
    | ended =>
    cases h with
    | wait h => exact .before ((List.getElem?_set_ne hj).trans (hself _)) hbuffer h

theorem Closing.step {line : ℕ → ℕ → L} (h : Closing env line s) (hI : Inv env kind o s debt)
    (hs : Moves env s a s') : Closing env line s' := by
  cases h with
  | before hp hbuffer h =>
    by_cases hactor : a.actor = 0
    · exact .own hp hbuffer h hI hs hactor
    · exact .before (hs.first hactor hp rfl) hbuffer h
  | @last pid buffer hp h =>
    have hkids : (debt 0).kids = [] := by
      have howes := hI.owes hp
      generalize debt 0 = d at howes
      cases howes with
      | running hbehaves => cases hbehaves; rfl
    have hactor := hs.actor_eq hI hkids
    have hlt := (List.getElem?_eq_some_iff.1 hp).1
    cases hs with
    | @exit i _ _ _ _ hq =>
      obtain rfl : i = 0 := hactor
      cases hp.symm.trans hq
      exact .done (List.getElem?_set_self hlt) h
    | @shown i _ _ _ _ _ _ hq | @buffered i _ _ _ _ _ _ hq | @perror i _ _ _ _ _ hq
    | @fork i _ _ _ _ _ _ _ hq | @wait i _ _ _ _ _ _ _ _ hq =>
      obtain rfl : i = 0 := hactor
      cases hp.symm.trans hq
  | done hp h =>
    have hkids : (debt 0).kids = [] := by
      have howes := hI.owes hp
      generalize debt 0 = d at howes
      cases howes
      rfl
    obtain ⟨q, prog, hq, hphase⟩ := hs.runs_actor
    rw [hs.actor_eq hI hkids, hp] at hq
    cases hq
    cases hphase

theorem Closing.run {line : ℕ → ℕ → L} {as : List Action} (h : Closing env line s)
    (hI : Inv env kind o s debt) (hrun : Run.run (Fork.step env) s as = some s')
    (has : ∀ a ∈ as, a.Succeeds) : Closing env line s' := by
  induction as generalizing s debt with
  | nil =>
    cases hrun
    exact h
  | cons a as ih =>
    obtain ⟨ha, has⟩ := List.forall_mem_cons.1 has
    obtain ⟨t, ht, hrun⟩ := run_cons_eq_some.1 hrun
    have hmoves := moves_of_step ht ha
    obtain ⟨debt₁, h₁, -⟩ := hI.step hmoves
    exact ih (h.step hI hmoves) h₁ hrun has

/-! ### The results -/

section Results

variable {prog : Prog L} {n : ℕ} {as : List Action}

/-- **The order of the steps does not matter.** If no call fails, a run of a program has at most `n`
steps and never leaves an orphan; when no process can go on, all `n` steps have been made, all
processes but the first one have been waited for, and the lines are those of the program. -/
theorem run_behaves (h : Behaves kind env.mode [] 0 prog o n)
    (hrun : run (step env) (start pid prog) as = some s) (has : ∀ a ∈ as, a.Succeeds) :
    as.length ≤ n ∧ s.NoOrphan ∧ (s.out.map kind : Multiset K) ≤ o ∧
      ((∀ a, a.Succeeds → step env s a = none) →
        as.length = n ∧ s.Over ∧ (s.out.map kind : Multiset K) = o) := by
  obtain ⟨debt, hI, hlength⟩ := (inv_start pid h).run hrun has
  have hn : steps (start pid prog) (fun _ => (⟨[], o, n⟩ : Debt K)) = n := by
    simp [steps, start]
  rw [hn] at hlength
  refine ⟨by omega, hI.noOrphan, ?_, fun hstuck => ?_⟩
  · rw [← hI.lines]
    exact Multiset.le_add_right _ _
  · have hruns : ∀ i, ¬ s.Runs i := by
      intro i hi
      obtain ⟨a, s', ha, hs'⟩ := hI.enabled hi
      rw [hstuck a ha] at hs'
      cases hs'
    obtain ⟨hover, hsteps, hlines⟩ := hI.over hruns
    exact ⟨by omega, hover, hlines⟩

/-- **The last line.** If the first process prints a line when it has waited for all its children,
this is the last line of all. -/
theorem run_closes {line : ℕ → ℕ → L} (h : Behaves kind env.mode [] 0 prog o n)
    (hcloses : Closes line prog) (hrun : run (step env) (start pid prog) as = some s)
    (has : ∀ a ∈ as, a.Succeeds) (hover : s.Over) :
    ∃ pid, s.out.getLast? = some (line pid env.shell) := by
  have hclosing : Closing env line s :=
    Closing.run (.before rfl (fun _ => rfl) hcloses) (inv_start pid h) hrun has
  obtain ⟨p, hp, hphase⟩ := hover.first
  cases hclosing with
  | before hq =>
    cases hp.symm.trans hq
    cases hphase
  | last hq =>
    cases hp.symm.trans hq
    cases hphase
  | done _ h => exact ⟨_, h⟩

end Results

end Fork
end PosixHw
