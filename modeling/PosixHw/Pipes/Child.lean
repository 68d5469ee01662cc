import PosixHw.Base.CString
import PosixHw.Base.Pipe
import PosixHw.Base.Run

/-!
# A message through a pipe

The program `pipes/task1.c`: the parent writes a string with its NUL into a pipe and waits for its
child, which reads once into an array that is not initialised and prints what it finds there.

An action is one call of the parent or of the child; `ok` says whether `pipe` or `fork` succeeds.
The message is a parameter: what matters is that it fits into the array with its NUL.  Whatever the
order of the calls, nobody waits for ever or writes to a pipe without a reader, and the child prints
the message (`child_prints`).
-/

namespace PosixHw
namespace Pipes

open CString Run

/-- The length of `buf`. -/
def bufferSize : ℕ := 1024

/-- `buf` -/
abbrev Buffer : Type := { m : Mem // m.length = bufferSize }

/-- `message` -/
structure Message where
  bytes : List UInt8
  nul_notMem : 0 ∉ bytes
  lt : bytes.length < bufferSize

/-- "Hi!" -/
def hi : Message := ⟨"Hi!".toUTF8.data.toList, by decide, by decide⟩

/-- What is written: `message`, `strlen(message) + 1`. -/
def Message.sent (m : Message) : List UInt8 := m.bytes ++ [0]

theorem Message.length_sent_le (m : Message) : m.sent.length ≤ bufferSize := by
  rw [Message.sent, List.length_append, List.length_singleton]
  exact m.lt

namespace Child

/-- The places of the parent. -/
inductive ParentPc
  | pipe | fork | closeRead | write | closeWrite | wait | done | failed | killed
  deriving DecidableEq

/-- The places of the child. -/
inductive ChildPc
  | none | closeWrite | read | print | closeRead | done
  deriving DecidableEq

/-- The two processes, the pipe between them, `buf` of the child, and what has been printed; a
print that does not find a NUL in the array is `none`. -/
structure State where
  parent : ParentPc
  child : ChildPc
  pipe : Pipe
  buf : Mem
  printed : List (Option (List UInt8))

/-- One call of a process. -/
inductive Action
  | parent (ok : Bool)
  | child

def start (old : Buffer) : State := ⟨.pipe, .none, ⟨[], 0, 0⟩, old.1, []⟩

/-- The parent. -/
def parentStep (m : Message) (s : State) (ok : Bool) : Option State :=
  match s.parent with
  | .pipe =>
    if ok then some { s with parent := .fork, pipe := .new } else some { s with parent := .failed }
  | .fork =>
    if ok then some { s with parent := .closeRead, child := .closeWrite, pipe := s.pipe.fork }
    else some { s with parent := .failed }
  | .closeRead => some { s with parent := .write, pipe := s.pipe.closeRead }
  | .write =>
    match s.pipe.write m.sent with
    | some p => some { s with parent := .closeWrite, pipe := p }
    | none => some { s with parent := .killed }
  | .closeWrite => some { s with parent := .wait, pipe := s.pipe.closeWrite }
  | .wait => if s.child = .done then some { s with parent := .done } else none
  | .done | .failed | .killed => none

/-- The child. -/
def childStep (s : State) : Option State :=
  match s.child with
  | .closeWrite => some { s with child := .read, pipe := s.pipe.closeWrite }
  | .read =>
    (s.pipe.read bufferSize).map fun r =>
      { s with child := .print, pipe := r.2, buf := r.1 ++ s.buf.drop r.1.length }
  | .print => some { s with child := .closeRead, printed := s.printed ++ [cstr s.buf 0] }
  | .closeRead => some { s with child := .done, pipe := s.pipe.closeRead }
  | .none | .done => none

def step (m : Message) (s : State) : Action → Option State
  | .parent ok => parentStep m s ok
  | .child => childStep s

/-! ### What holds in every reachable state -/

/-- The parent has an end of the pipe open, and has written. -/
def ParentPc.canRead : ParentPc → Bool
  | .fork | .closeRead => true
  | .pipe | .write | .closeWrite | .wait | .done | .failed | .killed => false
def ParentPc.canWrite : ParentPc → Bool
  | .fork | .closeRead | .write | .closeWrite => true
  | .pipe | .wait | .done | .failed | .killed => false
def ParentPc.written : ParentPc → Bool
  | .closeWrite | .wait | .done => true
  | .pipe | .fork | .closeRead | .write | .failed | .killed => false

/-- There is no child yet, or there will be none. -/
def ParentPc.alone : ParentPc → Bool
  | .pipe | .fork | .failed => true
  | .closeRead | .write | .closeWrite | .wait | .done | .killed => false

/-- The child has an end of the pipe open, has read, and has printed. -/
def ChildPc.canRead : ChildPc → Bool
  | .closeWrite | .read | .print | .closeRead => true
  | .none | .done => false
def ChildPc.canWrite : ChildPc → Bool
  | .closeWrite => true
  | .none | .read | .print | .closeRead | .done => false
def ChildPc.received : ChildPc → Bool
  | .print | .closeRead | .done => true
  | .none | .closeWrite | .read => false
def ChildPc.printed : ChildPc → Bool
  | .closeRead | .done => true
  | .none | .closeWrite | .read | .print => false

/-- The steps that the two have before them. -/
def ParentPc.remaining : ParentPc → ℕ
  | .pipe => 10
  | .fork => 9
  | .closeRead => 4
  | .write => 3
  | .closeWrite => 2
  | .wait => 1
  | .done | .failed | .killed => 0
def ChildPc.remaining : ChildPc → ℕ
  | .closeWrite => 4
  | .read => 3
  | .print => 2
  | .closeRead => 1
  | .none | .done => 0

/-- The parent is at its end because `pipe` or `fork` has failed. -/
structure Inv (m : Message) (s : State) : Prop where
  alone : s.child = .none ↔ s.parent.alone = true
  alive : s.parent ≠ .killed
  waited : s.parent = .done → s.child = .done
  readers : s.parent ≠ .failed →
    s.pipe.readers = s.parent.canRead.toNat + s.child.canRead.toNat
  writers : s.parent ≠ .failed →
    s.pipe.writers = s.parent.canWrite.toNat + s.child.canWrite.toNat
  carries : s.pipe.Carries (if s.parent.written then m.sent else [])
    (if s.child.received then m.sent else [])
  buf : s.child = .print → ∃ post, s.buf = m.bytes ++ 0 :: post
  printed : s.printed = if s.child.printed then [some m.bytes] else []

theorem inv_start (m : Message) (old : Buffer) : Inv m (start old) :=
  ⟨iff_of_true rfl rfl, nofun, nofun, fun _ => rfl, fun _ => rfl, rfl, nofun, rfl⟩

section Steps

variable {m : Message} {s t : State}

/-- What the child has received has been written. -/
theorem Inv.written (h : Inv m s) (hc : s.child.received = true) : s.parent.written = true := by
  have hcarries := h.carries
  rw [if_pos hc] at hcarries
  by_contra hnot
  rw [if_neg hnot] at hcarries
  have hnil := (List.append_eq_nil_iff.1 hcarries).1
  exact absurd hnil (by simp [Message.sent])

/-- While the child has not read, the pipe holds what has been written. -/
theorem Inv.buffer (h : Inv m s) (hc : s.child.received = false) :
    s.pipe.buffer = if s.parent.written then m.sent else [] := by
  have hcarries := h.carries
  rw [hc, if_neg Bool.false_ne_true] at hcarries
  exact hcarries

/-- When the parent writes, the child holds its end. -/
theorem Inv.write_eq (h : Inv m s) (hp : s.parent = .write) :
    s.pipe.write m.sent = some { s.pipe with buffer := s.pipe.buffer ++ m.sent } := by
  have halone := h.alone
  have hreaders := h.readers
  rw [hp] at halone hreaders
  -- the child reads before it closes its end
  have hunread : s.child.received = false := Bool.eq_false_iff.2 fun hread => by
    have hwritten := h.written hread
    rw [hp] at hwritten
    cases hwritten
  have hchild : s.child.canRead = true := by
    cases hc : s.child with
    | none =>
      have hno := halone.1 hc
      cases hno
    | closeWrite | read | print | closeRead => rfl
    | done =>
      rw [hc] at hunread
      cases hunread
  refine if_neg ?_
  rw [hreaders nofun, hchild]
  decide

/-- The child reads all of the message, or waits for it. -/
theorem Inv.read_eq (h : Inv m s) (hc : s.child = .read) :
    s.pipe.read bufferSize
      = if s.parent.written then some (m.sent, { s.pipe with buffer := [] }) else none := by
  have hbuffer := h.buffer (by rw [hc]; rfl)
  have halone : s.parent.alone ≠ true := fun hal => by
    rw [h.alone.2 hal] at hc
    cases hc
  cases hwritten : s.parent.written with
  | true =>
    rw [hwritten, if_pos rfl] at hbuffer
    rw [Pipe.read_eq (by rw [hbuffer]; simp [Message.sent])
      (by rw [hbuffer]; exact m.length_sent_le), hbuffer]
    rfl
  | false =>
    -- somebody can still write: the parent has not got there
    rw [hwritten, if_neg Bool.false_ne_true] at hbuffer
    have hwriters := h.writers fun hp => halone (by rw [hp]; rfl)
    have hopen : s.pipe.writers ≠ 0 := by
      rw [hwriters]
      cases hp : s.parent with
      | pipe | fork | failed => exact absurd (by rw [hp]; rfl) halone
      | closeRead | write => cases s.child <;> decide
      | closeWrite | wait | done =>
        rw [hp] at hwritten
        cases hwritten
      | killed => exact absurd hp h.alive
    exact Pipe.read_eq_none_iff.2 ⟨hbuffer, hopen⟩

/-- A step of the parent that has neither to do with the message nor with the child. -/
theorem Inv.moveParent (h : Inv m s) {pc : ParentPc} {p : Pipe}
    (halone : pc.alone = s.parent.alone) (halive : pc ≠ .killed)
    (hwaited : pc = .done → s.child = .done) (hwritten : pc.written = s.parent.written)
    (hbuffer : p.buffer = s.pipe.buffer)
    (hreaders : pc ≠ .failed → p.readers = pc.canRead.toNat + s.child.canRead.toNat)
    (hwriters : pc ≠ .failed → p.writers = pc.canWrite.toNat + s.child.canWrite.toNat) :
    Inv m { s with parent := pc, pipe := p } where
  alone := by rw [halone]; exact h.alone
  alive := halive
  waited := hwaited
  readers := hreaders
  writers := hwriters
  carries := by
    rw [hwritten]
    exact h.carries.of_buffer hbuffer
  buf := h.buf
  printed := h.printed

theorem Inv.parentStep (h : Inv m s) {ok : Bool} (hs : parentStep m s ok = some t) : Inv m t := by
  unfold Child.parentStep at hs
  have hreaders := h.readers
  have hwriters := h.writers
  have halone := h.alone
  cases hp : s.parent with
  | pipe =>
    rw [hp] at hs hreaders hwriters halone
    have hnone := halone.2 rfl
    have hempty := h.buffer (by rw [hnone]; rfl)
    rw [hp] at hempty
    cases ok with
    | true =>
      cases hs
      exact h.moveParent (by rw [hp]; rfl) nofun nofun (by rw [hp]; rfl) hempty.symm
        (fun _ => by rw [hnone]; rfl) fun _ => by rw [hnone]; rfl
    | false =>
      cases hs
      exact h.moveParent (by rw [hp]; rfl) nofun nofun (by rw [hp]; rfl) rfl
        (fun hne => absurd rfl hne) fun hne => absurd rfl hne
  | fork =>
    rw [hp] at hs hreaders hwriters halone
    have hnone := halone.2 rfl
    rw [hnone] at hreaders hwriters
    have hempty := h.buffer (by rw [hnone]; rfl)
    rw [hp] at hempty
    cases ok with
    | true =>
      cases hs
      refine ⟨iff_of_false nofun nofun, nofun, nofun, fun _ => ?_, fun _ => ?_, hempty, nofun, ?_⟩
      · exact congrArg (2 * ·) (hreaders nofun)
      · exact congrArg (2 * ·) (hwriters nofun)
      · have hprinted := h.printed
        rw [hnone] at hprinted
        exact hprinted
    | false =>
      cases hs
      exact h.moveParent (by rw [hp]; rfl) nofun nofun (by rw [hp]; rfl) rfl
        (fun hne => absurd rfl hne) fun hne => absurd rfl hne
  | closeRead =>
    rw [hp] at hs hreaders hwriters
    cases hs
    refine h.moveParent (by rw [hp]; rfl) nofun nofun (by rw [hp]; rfl) rfl (fun _ => ?_)
      fun _ => hwriters nofun
    have hopen := hreaders nofun
    simp only [ParentPc.canRead, Bool.toNat_true, Bool.toNat_false] at hopen ⊢
    show s.pipe.readers - 1 = _
    omega
  | write =>
    have hwrite := h.write_eq hp
    have hcarries := h.carries.write hwrite
    rw [hp] at hs hreaders hwriters halone hcarries
    rw [hwrite] at hs
    cases hs
    exact ⟨by rw [halone]; exact Iff.rfl, nofun, nofun, fun _ => hreaders nofun,
      fun _ => hwriters nofun, hcarries, h.buf, h.printed⟩
  | closeWrite =>
    rw [hp] at hs hreaders hwriters
    cases hs
    refine h.moveParent (by rw [hp]; rfl) nofun nofun (by rw [hp]; rfl) rfl
      (fun _ => hreaders nofun) fun _ => ?_
    have hopen := hwriters nofun
    simp only [ParentPc.canWrite, Bool.toNat_true, Bool.toNat_false] at hopen ⊢
    show s.pipe.writers - 1 = _
    omega
  | wait =>
    rw [hp] at hs hreaders hwriters
    dsimp only at hs
    split_ifs at hs with hdone
    cases hs
    exact h.moveParent (by rw [hp]; rfl) nofun (fun _ => hdone) (by rw [hp]; rfl) rfl
      (fun _ => hreaders nofun) fun _ => hwriters nofun
  | done | failed | killed =>
    rw [hp] at hs
    cases hs

/-- A step of the child. -/
theorem Inv.moveChild (h : Inv m s) {pc : ChildPc} {p : Pipe} {b : Mem}
    {lines : List (Option (List UInt8))} (hnone : s.child ≠ .none) (hdone : s.child ≠ .done)
    (hpc : pc ≠ .none)
    (hreaders : s.parent ≠ .failed → p.readers = s.parent.canRead.toNat + pc.canRead.toNat)
    (hwriters : s.parent ≠ .failed → p.writers = s.parent.canWrite.toNat + pc.canWrite.toNat)
    (hcarries : p.Carries (if s.parent.written then m.sent else [])
      (if pc.received then m.sent else []))
    (hbuf : pc = .print → ∃ post, b = m.bytes ++ 0 :: post)
    (hprinted : lines = if pc.printed then [some m.bytes] else []) :
    Inv m { s with child := pc, pipe := p, buf := b, printed := lines } where
  alone := iff_of_false hpc fun hal => hnone (h.alone.2 hal)
  alive := h.alive
  waited hp := absurd (h.waited hp) hdone
  readers := hreaders
  writers := hwriters
  carries := hcarries
  buf := hbuf
  printed := hprinted

theorem Inv.childStep (h : Inv m s) (hs : childStep s = some t) : Inv m t := by
  unfold Child.childStep at hs
  have hreaders := h.readers
  have hwriters := h.writers
  have hcarries := h.carries
  have hprinted := h.printed
  cases hc : s.child with
  | closeWrite =>
    rw [hc] at hs hreaders hwriters hcarries hprinted
    cases hs
    refine h.moveChild (by rw [hc]; nofun) (by rw [hc]; nofun) nofun hreaders
      (fun hp => ?_) hcarries nofun hprinted
    have hopen := hwriters hp
    simp only [ChildPc.canWrite, Bool.toNat_true, Bool.toNat_false] at hopen ⊢
    show s.pipe.writers - 1 = _
    omega
  | read =>
    have hread := h.read_eq hc
    rw [hc] at hs hreaders hwriters hprinted
    dsimp only at hs
    rw [hread] at hs
    split_ifs at hs hread with hwritten
    · have hreceived := hcarries.read hread
      rw [hc] at hreceived
      cases hs
      refine h.moveChild (by rw [hc]; nofun) (by rw [hc]; nofun) nofun hreaders hwriters hreceived
        (fun _ => ⟨s.buf.drop m.sent.length, ?_⟩) hprinted
      show m.bytes ++ [0] ++ _ = _
      rw [List.append_assoc, List.singleton_append]
    · cases hs
  | print =>
    obtain ⟨post, hpost⟩ := h.buf hc
    rw [hc] at hs hreaders hwriters hcarries hprinted
    cases hs
    refine h.moveChild (by rw [hc]; nofun) (by rw [hc]; nofun) nofun hreaders hwriters
      hcarries nofun ?_
    rw [hprinted, hpost, cstr_zero m.nul_notMem]
    rfl
  | closeRead =>
    rw [hc] at hs hreaders hwriters hcarries hprinted
    cases hs
    refine h.moveChild (by rw [hc]; nofun) (by rw [hc]; nofun) nofun (fun hp => ?_) hwriters
      hcarries nofun hprinted
    have hopen := hreaders hp
    simp only [ChildPc.canRead, Bool.toNat_true, Bool.toNat_false] at hopen ⊢
    show s.pipe.readers - 1 = _
    omega
  | none | done =>
    rw [hc] at hs
    cases hs

/-- Every step is one of those that were left. -/
theorem remaining_step {a : Action} (hs : step m s a = some t) :
    t.parent.remaining + t.child.remaining < s.parent.remaining + s.child.remaining := by
  cases a with
  | parent ok =>
    change Child.parentStep m s ok = some t at hs
    unfold Child.parentStep at hs
    cases hp : s.parent with
    | pipe | fork =>
      rw [hp] at hs
      cases ok <;> cases hs <;> simp only [ParentPc.remaining, ChildPc.remaining] <;> omega
    | closeRead | closeWrite =>
      rw [hp] at hs
      cases hs
      simp [ParentPc.remaining]
    | write =>
      rw [hp] at hs
      dsimp only at hs
      split at hs <;> cases hs <;> simp [ParentPc.remaining]
    | wait =>
      rw [hp] at hs
      dsimp only at hs
      split_ifs at hs
      cases hs
      simp [ParentPc.remaining]
    | done | failed | killed =>
      rw [hp] at hs
      cases hs
  | child =>
    change Child.childStep s = some t at hs
    unfold Child.childStep at hs
    cases hc : s.child with
    | closeWrite | print | closeRead =>
      rw [hc] at hs
      cases hs
      simp [ChildPc.remaining]
    | read =>
      rw [hc] at hs
      obtain ⟨r, -, rfl⟩ := Option.map_eq_some_iff.1 hs
      simp [ChildPc.remaining]
    | none | done =>
      rw [hc] at hs
      cases hs

theorem Inv.step (h : Inv m s) {a : Action} (hs : step m s a = some t) :
    Inv m t ∧ t.parent.remaining + t.child.remaining < s.parent.remaining + s.child.remaining := by
  refine ⟨?_, remaining_step hs⟩
  cases a with
  | parent ok => exact h.parentStep hs
  | child => exact h.childStep hs

/-! ### Some step is always possible -/

/-- The child waits for the parent, before it reads, and the parent for the child, at its end. -/
theorem Inv.enabled (h : Inv m s) (hover : s.parent ≠ .done ∧ s.parent ≠ .failed) :
    ∃ a t, Child.step m s a = some t := by
  cases hp : s.parent with
  | pipe => exact ⟨.parent true, _, by rw [Child.step, Child.parentStep, hp]; rfl⟩
  | fork => exact ⟨.parent true, _, by rw [Child.step, Child.parentStep, hp]; rfl⟩
  | closeRead => exact ⟨.parent true, _, by rw [Child.step, Child.parentStep, hp]⟩
  | closeWrite => exact ⟨.parent true, _, by rw [Child.step, Child.parentStep, hp]⟩
  | write =>
    cases hw : s.pipe.write m.sent with
    | some p => exact ⟨.parent true, { s with parent := .closeWrite, pipe := p }, by
        simp only [Child.step, Child.parentStep, hp, hw]⟩
    | none => exact ⟨.parent true, { s with parent := .killed }, by
        simp only [Child.step, Child.parentStep, hp, hw]⟩
  | wait =>
    cases hc : s.child with
    | none =>
      have halone := h.alone.1 hc
      rw [hp] at halone
      cases halone
    | closeWrite => exact ⟨.child, _, by rw [Child.step, Child.childStep, hc]⟩
    | print => exact ⟨.child, _, by rw [Child.step, Child.childStep, hc]⟩
    | closeRead => exact ⟨.child, _, by rw [Child.step, Child.childStep, hc]⟩
    | read =>
      have hread : s.pipe.read bufferSize ≠ none := by
        rw [Ne, Pipe.read_eq_none_iff, h.buffer (by rw [hc]; rfl), hp]
        simp [ParentPc.written, Message.sent]
      obtain ⟨r, hr⟩ := Option.ne_none_iff_exists'.1 hread
      exact ⟨.child, _, by rw [Child.step, Child.childStep, hc, hr]; rfl⟩
    | done => exact ⟨.parent true, _, by
        rw [Child.step, Child.parentStep, hp]
        exact if_pos hc⟩
  | done => exact absurd hp hover.1
  | failed => exact absurd hp hover.2
  | killed => exact absurd hp h.alive

end Steps

/-- **The child prints the message.**  In every order of the calls, nothing else is printed and the
parent does not get SIGPIPE; every run ends, and at its end the parent has waited for the child, the
message has been printed and both ends of the pipe are closed, unless `pipe` or `fork` has failed,
and nothing has been printed. -/
theorem child_prints {m : Message} {old : Buffer} {as : List Action} {s : State}
    (h : run (step m) (start old) as = some s) :
    as.length ≤ 10 ∧ s.parent ≠ .killed ∧ (∀ line ∈ s.printed, line = some m.bytes) ∧
      ((∀ a, step m s a = none) →
        s.parent = .done ∧ s.child = .done ∧ s.printed = [some m.bytes] ∧
          s.pipe = ⟨[], 0, 0⟩ ∨
        s.parent = .failed ∧ s.child = .none ∧ s.printed = []) := by
  have hinv : Inv m s :=
    run_invariant (fun _ _ _ hI hs => (hI.step hs).1) (inv_start m old) h
  have hlength := run_length_le (f := fun s => s.parent.remaining + s.child.remaining)
    (fun _ _ _ hI hs => hI.step hs) (inv_start m old) h
  refine ⟨?_, hinv.alive, fun line hline => ?_, fun hstuck => ?_⟩
  · exact (Nat.le_add_right _ _).trans hlength
  · rw [hinv.printed] at hline
    split_ifs at hline
    · exact List.mem_singleton.1 hline
    · cases hline
  · have hend : s.parent = .done ∨ s.parent = .failed := by
      by_contra hnot
      obtain ⟨a, t, ht⟩ := hinv.enabled (not_or.1 hnot)
      rw [hstuck a] at ht
      cases ht
    have hprinted := hinv.printed
    rcases hend with hp | hp
    · have hc := hinv.waited hp
      have hreaders := hinv.readers (by rw [hp]; nofun)
      have hwriters := hinv.writers (by rw [hp]; nofun)
      have hcarries := hinv.carries
      rw [hp, hc] at hreaders hwriters hcarries
      rw [hc] at hprinted
      refine .inl ⟨hp, hc, hprinted, ?_⟩
      have hempty : s.pipe.buffer = [] := List.append_right_eq_self.1 hcarries
      obtain ⟨pc, cc, ⟨buffer, readers, writers⟩, buf, printed⟩ := s
      simp_all [ParentPc.canRead, ParentPc.canWrite, ChildPc.canRead, ChildPc.canWrite]
    · have hc := hinv.alone.2 (by rw [hp]; rfl)
      rw [hc] at hprinted
      exact .inr ⟨hp, hc, hprinted⟩

/-- The child is at `read` before the parent writes. -/
def childFirst : List Action :=
  [.parent true, .parent true, .child, .parent true, .parent true, .child, .child]

/-- `buf` holds no NUL at first. -/
def sevens : Buffer := ⟨List.replicate bufferSize 7, List.length_replicate⟩

theorem child_prints_childFirst :
    ∃ s, run (step hi) (start sevens) childFirst = some s ∧ s.printed.length = 1 ∧
      ∀ line ∈ s.printed, line = some hi.bytes := by
  have hlength : (run (step hi) (start sevens) childFirst).map (fun s => s.printed.length)
      = some 1 := by
    decide +kernel
  obtain ⟨s, hs, hlength⟩ := Option.map_eq_some_iff.1 hlength
  exact ⟨s, hs, hlength, (child_prints hs).2.2.1⟩

end Child
end Pipes
end PosixHw
