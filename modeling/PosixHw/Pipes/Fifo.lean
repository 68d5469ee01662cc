import PosixHw.Pipes.Child

/-!
# A message through a FIFO

The programs `pipes/task2server.c` and `pipes/task2client.c`: the server makes a FIFO and writes a
string with its NUL into it, the client reads once into an array that is not initialised, prints
what it finds there, and removes the FIFO.  Each `open` waits until the other end is opened too.

Neither program looks at the result of a call.  If the FIFO is not there when the client opens it,
the client prints what its array happens to hold, and the server may wait for ever
(`client_prints`); otherwise the message gets through in every order of the calls.
-/

namespace PosixHw
namespace Pipes
namespace Fifo

open CString Run

/-- The places of the server. -/
inductive ServerPc
  | mkfifo | open | opening | write | close | done | killed
  deriving DecidableEq

/-- The places of the client. -/
inductive ClientPc
  | open | opening | read | print | close | unlink | done
  deriving DecidableEq

/-- The two programs, and whether their `open` has found the FIFO; whether there is a FIFO under the
name, and what is in it; `buf` of the client, and what it has printed. -/
structure State where
  server : ServerPc
  client : ClientPc
  serverFd : Bool
  clientFd : Bool
  path : Bool
  fifo : Pipe
  buf : Mem
  printed : List (Option (List UInt8))

/-- One call of a program; `made` says whether `mkfifo` can make a FIFO that is not there. -/
inductive Action
  | server (made : Bool)
  | client
  deriving DecidableEq

/-- The start; `existed` says whether the FIFO is there from an earlier time. -/
def start (existed : Bool) (old : Buffer) : State :=
  ⟨.mkfifo, .open, false, false, existed, ⟨[], 0, 0⟩, old.1, []⟩

/-- The server. -/
def serverStep (m : Message) (s : State) (made : Bool) : Option State :=
  match s.server with
  | .mkfifo => some { s with server := .open, path := s.path || made }
  | .open =>
    if s.path then some { s with
      server := .opening, serverFd := true, fifo := { s.fifo with writers := s.fifo.writers + 1 } }
    else some { s with server := .write }
  | .opening => if s.clientFd then some { s with server := .write } else none
  | .write =>
    if s.serverFd then
      match s.fifo.write m.sent with
      | some p => some { s with server := .close, fifo := p }
      | none => some { s with server := .killed }
    else some { s with server := .close }
  | .close =>
    if s.serverFd then some { s with server := .done, fifo := s.fifo.closeWrite }
    else some { s with server := .done }
  | .done | .killed => none

/-- The client. -/
def clientStep (s : State) : Option State :=
  match s.client with
  | .open =>
    if s.path then some { s with
      client := .opening, clientFd := true, fifo := { s.fifo with readers := s.fifo.readers + 1 } }
    else some { s with client := .read }
  | .opening => if s.serverFd then some { s with client := .read } else none
  | .read =>
    if s.clientFd then
      (s.fifo.read bufferSize).map fun r =>
        { s with client := .print, fifo := r.2, buf := r.1 ++ s.buf.drop r.1.length }
    else some { s with client := .print }
  | .print => some { s with client := .close, printed := s.printed ++ [cstr s.buf 0] }
  | .close =>
    if s.clientFd then some { s with client := .unlink, fifo := s.fifo.closeRead }
    else some { s with client := .unlink }
  | .unlink => some { s with client := .done, path := false }
  | .done => none

def step (m : Message) (s : State) : Action → Option State
  | .server made => serverStep m s made
  | .client => clientStep s

/-! ### What holds in every reachable state -/

/-- The server has not come to its `open`, is between `open` and `close`, has been let through by
its `open`, and has written. -/
def ServerPc.before : ServerPc → Bool
  | .mkfifo | .open => true
  | .opening | .write | .close | .done | .killed => false
def ServerPc.holds : ServerPc → Bool
  | .opening | .write | .close => true
  | .mkfifo | .open | .done | .killed => false
def ServerPc.passed : ServerPc → Bool
  | .write | .close | .done => true
  | .mkfifo | .open | .opening | .killed => false
def ServerPc.written : ServerPc → Bool
  | .close | .done => true
  | .mkfifo | .open | .opening | .write | .killed => false

/-- The client is between `open` and `close`, has been let through by its `open`, has read, and has
printed. -/
def ClientPc.holds : ClientPc → Bool
  | .opening | .read | .print | .close => true
  | .open | .unlink | .done => false
def ClientPc.passed : ClientPc → Bool
  | .read | .print | .close | .unlink | .done => true
  | .open | .opening => false
def ClientPc.received : ClientPc → Bool
  | .print | .close | .unlink | .done => true
  | .open | .opening | .read => false
def ClientPc.printed : ClientPc → Bool
  | .close | .unlink | .done => true
  | .open | .opening | .read | .print => false

/-- The steps that the two have before them. -/
def ServerPc.remaining : ServerPc → ℕ
  | .mkfifo => 5
  | .open => 4
  | .opening => 3
  | .write => 2
  | .close => 1
  | .done | .killed => 0
def ClientPc.remaining : ClientPc → ℕ
  | .open => 6
  | .opening => 5
  | .read => 4
  | .print => 3
  | .close => 2
  | .unlink => 1
  | .done => 0

/-- What the client's array holds after a `read` of the message. -/
def Message.stored (m : Message) (old : Buffer) : Mem := m.sent ++ old.1.drop m.sent.length

/-- The two ends and the FIFO between them. -/
structure Inv (m : Message) (existed : Bool) (old : Buffer) (s : State) : Prop where
  alive : s.server ≠ .killed
  serverNew : s.server.before = true → s.serverFd = false
  clientNew : s.client = .open → s.clientFd = false
  clientFound : s.client = .opening → s.clientFd = true
  readers : s.fifo.readers = (s.clientFd && s.client.holds).toNat
  writers : s.fifo.writers = (s.serverFd && s.server.holds).toNat
  there : s.clientFd = true → s.client ≠ .done → s.path = true
  removed : s.client = .done → s.clientFd = true → s.path = false
  missed : s.server.before = false → s.serverFd = false → s.path = false
  both : s.clientFd = true → s.server.before = false → s.serverFd = true
  serverPassed : s.serverFd = true → s.server.passed = true → s.clientFd = true
  clientPassed : s.clientFd = true → s.client.passed = true → s.serverFd = true
  existed : existed = true → (s.client = .open → s.path = true) ∧
    (s.client ≠ .open → s.clientFd = true)
  carries : s.fifo.Carries (if s.serverFd && s.server.written then m.sent else [])
    (if s.clientFd && s.client.received then m.sent else [])
  buf : s.buf = if s.clientFd && s.client.received then Message.stored m old else old.1
  printed : s.printed = if s.client.printed then
    [if s.clientFd then some m.bytes else cstr old.1 0] else []

theorem inv_start (m : Message) (existed : Bool) (old : Buffer) :
    Inv m existed old (start existed old) where
  alive := nofun
  serverNew _ := rfl
  clientNew _ := rfl
  clientFound := nofun
  readers := rfl
  writers := rfl
  there := nofun
  removed := nofun
  missed := nofun
  both := nofun
  serverPassed := nofun
  clientPassed := nofun
  existed h := ⟨fun _ => h, fun hne => absurd rfl hne⟩
  carries := rfl
  buf := rfl
  printed := rfl

section Steps

variable {m : Message} {existed : Bool} {old : Buffer} {s t : State}

/-- What the client has received has been written. -/
theorem Inv.written (h : Inv m existed old s) (hfd : s.clientFd = true)
    (hc : s.client.received = true) : s.serverFd = true ∧ s.server.written = true := by
  have hcarries := h.carries
  rw [hfd, hc, Bool.and_self, if_pos rfl] at hcarries
  rw [← Bool.and_eq_true]
  by_contra hnot
  rw [if_neg hnot] at hcarries
  exact absurd (List.append_eq_nil_iff.1 hcarries).1 (by simp [Message.sent])

/-- Until the client has read, the FIFO holds what has been written. -/
theorem Inv.buffer (h : Inv m existed old s) (hc : s.client.received = false) :
    s.fifo.buffer = if s.serverFd && s.server.written then m.sent else [] := by
  have hcarries := h.carries
  rw [hc, Bool.and_false, if_neg Bool.false_ne_true] at hcarries
  exact hcarries

/-- What is printed after a `read` of the message. -/
theorem cstr_stored (m : Message) (old : Buffer) :
    cstr (Message.stored m old) 0 = some m.bytes := by
  rw [Message.stored, Message.sent, List.append_assoc, List.singleton_append,
    cstr_zero m.nul_notMem]

/-- A server that does not find the FIFO is not waited for: a client that has found it does not
remove it before it has been served. -/
theorem Inv.clientFd_of_no_path (h : Inv m existed old s) (hfd : s.serverFd = false)
    (hpath : s.path = false) : s.clientFd = false := by
  refine Bool.eq_false_iff.2 fun hc => ?_
  by_cases hdone : s.client = .done
  · rw [h.clientPassed hc (by rw [hdone]; rfl)] at hfd
    cases hfd
  · rw [h.there hc hdone] at hpath
    cases hpath

/-- When the server writes, the client holds its end. -/
theorem Inv.write_eq (h : Inv m existed old s) (hp : s.server = .write) (hfd : s.serverFd = true) :
    s.fifo.write m.sent = some { s.fifo with buffer := s.fifo.buffer ++ m.sent } := by
  have hc := h.serverPassed hfd (by rw [hp]; rfl)
  have hunread : s.client.received = false := Bool.eq_false_iff.2 fun hread => by
    have hwritten := (h.written hc hread).2
    rw [hp] at hwritten
    cases hwritten
  have hholds : s.client.holds = true := by
    cases hpc : s.client with
    | «open» =>
      rw [h.clientNew hpc] at hc
      cases hc
    | opening | read => rfl
    | print | close | unlink | done =>
      rw [hpc] at hunread
      cases hunread
  refine if_neg ?_
  rw [h.readers, hc, hholds]
  decide

/-- The client reads all of the message, or waits for it. -/
theorem Inv.read_eq (h : Inv m existed old s) (hp : s.client = .read) (hc : s.clientFd = true) :
    s.fifo.read bufferSize
      = if s.server.written then some (m.sent, { s.fifo with buffer := [] }) else none := by
  have hfd := h.clientPassed hc (by rw [hp]; rfl)
  have hbuffer := h.buffer (by rw [hp]; rfl)
  cases hwritten : s.server.written with
  | true =>
    rw [hfd, hwritten, Bool.and_self, if_pos rfl] at hbuffer
    rw [Pipe.read_eq (by rw [hbuffer]; simp [Message.sent])
      (by rw [hbuffer]; exact m.length_sent_le), hbuffer]
    rfl
  | false =>
    -- the server has opened its end, and not come to `close`
    have hholds : s.server.holds = true := by
      cases hpc : s.server with
      | mkfifo | «open» =>
        rw [h.serverNew (by rw [hpc]; rfl)] at hfd
        cases hfd
      | opening | write | close => rfl
      | done =>
        rw [hpc] at hwritten
        cases hwritten
      | killed => exact absurd hpc h.alive
    rw [hwritten, Bool.and_false, if_neg Bool.false_ne_true] at hbuffer
    have hopen : s.fifo.writers ≠ 0 := by
      rw [h.writers, hfd, hholds]
      decide
    exact Pipe.read_eq_none_iff.2 ⟨hbuffer, hopen⟩

theorem Inv.serverStep (h : Inv m existed old s) {made : Bool}
    (hs : serverStep m s made = some t) : Inv m existed old t := by
  unfold Fifo.serverStep at hs
  cases hp : s.server with
  | mkfifo =>
    rw [hp] at hs
    cases hs
    have hfd : s.serverFd = false := h.serverNew (by rw [hp]; rfl)
    have hwriters := h.writers
    have hcarries := h.carries
    rw [hfd, Bool.false_and] at hwriters hcarries
    refine { h with
      alive := nofun, serverNew := fun _ => hfd, writers := ?_, there := fun hc hne => ?_,
      removed := fun hdone hc => ?_, missed := nofun, both := nofun, serverPassed := nofun,
      existed := fun he => ⟨fun hc => ?_, (h.existed he).2⟩, carries := ?_ }
    · rw [hwriters, hfd]
      rfl
    · show (s.path || made) = true
      rw [h.there hc hne, Bool.true_or]
    · rw [h.clientPassed hc (by rw [hdone]; rfl)] at hfd
      cases hfd
    · show (s.path || made) = true
      rw [(h.existed he).1 hc, Bool.true_or]
    · rw [hfd, Bool.false_and]
      exact hcarries
  | «open» =>
    rw [hp] at hs
    dsimp only at hs
    have hfd : s.serverFd = false := h.serverNew (by rw [hp]; rfl)
    have hwriters := h.writers
    have hcarries := h.carries
    rw [hfd, Bool.false_and] at hwriters hcarries
    split_ifs at hs with hpath
    · cases hs
      refine { h with
        alive := nofun, serverNew := nofun, writers := congrArg (· + 1) hwriters,
        missed := (fun _ hne => by cases hne), both := fun _ _ => rfl, serverPassed := nofun,
        clientPassed := fun _ _ => rfl, carries := hcarries }
    · cases hs
      have hnone : s.path = false := Bool.eq_false_iff.2 hpath
      refine { h with
        alive := nofun, serverNew := nofun, writers := ?_, missed := fun _ _ => hnone,
        both := fun hc _ => ?_, serverPassed := fun hne => ?_, carries := ?_ }
      · rw [hwriters, hfd]
        rfl
      · rw [h.clientFd_of_no_path hfd hnone] at hc
        cases hc
      · rw [hfd] at hne
        cases hne
      · rw [hfd, Bool.false_and]
        exact hcarries
  | opening =>
    rw [hp] at hs
    dsimp only at hs
    split_ifs at hs with hc
    cases hs
    have hwriters := h.writers
    have hcarries := h.carries
    have hmissed := h.missed
    have hboth := h.both
    rw [hp] at hwriters hcarries hmissed hboth
    exact { h with
      alive := nofun, serverNew := nofun, writers := hwriters, missed := hmissed, both := hboth,
      serverPassed := fun _ _ => hc, carries := hcarries }
  | write =>
    rw [hp] at hs
    dsimp only at hs
    have hwriters := h.writers
    have hmissed := h.missed
    have hboth := h.both
    have hpassed := h.serverPassed
    rw [hp] at hwriters hmissed hboth hpassed
    split_ifs at hs with hfd
    · have hc := hpassed hfd rfl
      have hwrite := h.write_eq hp hfd
      have hcarries := h.carries.write hwrite
      rw [hp, hfd] at hcarries
      rw [hwrite] at hs
      cases hs
      refine { h with
        alive := nofun, serverNew := nofun, writers := hwriters, missed := hmissed, both := hboth,
        serverPassed := fun _ _ => hc, carries := ?_ }
      rw [hfd]
      exact hcarries
    · cases hs
      have hnone := Bool.eq_false_iff.2 hfd
      have hcarries := h.carries
      rw [hnone, Bool.false_and] at hwriters hcarries
      refine { h with
        alive := nofun, serverNew := nofun, writers := ?_, missed := hmissed, both := hboth,
        serverPassed := fun hne => absurd hne hfd, carries := ?_ }
      · rw [hwriters, hnone]
        rfl
      · rw [hnone, Bool.false_and]
        exact hcarries
  | close =>
    rw [hp] at hs
    dsimp only at hs
    have hwriters := h.writers
    have hcarries := h.carries
    have hmissed := h.missed
    have hboth := h.both
    have hpassed := h.serverPassed
    rw [hp] at hwriters hcarries hmissed hboth hpassed
    split_ifs at hs with hfd
    · cases hs
      refine { h with
        alive := nofun, serverNew := nofun, writers := ?_, missed := hmissed, both := hboth,
        serverPassed := hpassed, carries := hcarries }
      show s.fifo.writers - 1 = _
      rw [hwriters, hfd]
      rfl
    · cases hs
      refine { h with
        alive := nofun, serverNew := nofun, writers := ?_, missed := hmissed, both := hboth,
        serverPassed := hpassed, carries := hcarries }
      rw [hwriters, Bool.eq_false_iff.2 hfd]
      rfl
  | done | killed =>
    rw [hp] at hs
    cases hs

/-- A step of the client after its `open` and before its `unlink`. -/
theorem Inv.moveClient (h : Inv m existed old s) {pc : ClientPc} {p : Pipe} {b : Mem}
    {lines : List (Option (List UInt8))} (hpc : pc.passed = true) (hdone : pc ≠ .done)
    (hthere : s.clientFd = true → s.path = true) (hexisted : existed = true → s.clientFd = true)
    (hpassed : s.clientFd = true → s.serverFd = true)
    (hreaders : p.readers = (s.clientFd && pc.holds).toNat) (hwriters : p.writers = s.fifo.writers)
    (hcarries : p.Carries (if s.serverFd && s.server.written then m.sent else [])
      (if s.clientFd && pc.received then m.sent else []))
    (hbuf : b = if s.clientFd && pc.received then Message.stored m old else old.1)
    (hprinted : lines = if pc.printed then
      [if s.clientFd then some m.bytes else cstr old.1 0] else []) :
    Inv m existed old { s with client := pc, fifo := p, buf := b, printed := lines } where
  alive := h.alive
  serverNew := h.serverNew
  clientNew hno := by
    rw [show pc = .open from hno] at hpc
    cases hpc
  clientFound hno := by
    rw [show pc = .opening from hno] at hpc
    cases hpc
  readers := hreaders
  writers := hwriters.trans h.writers
  there hc _ := hthere hc
  removed hno := absurd hno hdone
  missed := h.missed
  both := h.both
  serverPassed := h.serverPassed
  clientPassed hc _ := hpassed hc
  existed he := ⟨fun _ => hthere (hexisted he), fun _ => hexisted he⟩
  carries := hcarries
  buf := hbuf
  printed := hprinted

theorem Inv.clientStep (h : Inv m existed old s) (hs : clientStep s = some t) :
    Inv m existed old t := by
  unfold Fifo.clientStep at hs
  have hreaders := h.readers
  have hcarries := h.carries
  have hbuf := h.buf
  have hprinted := h.printed
  have hpassed := h.clientPassed
  have hthere : s.client ≠ .done → s.clientFd = true → s.path = true := fun hne hc => h.there hc hne
  have hexisted : s.client ≠ .open → existed = true → s.clientFd = true := fun hne he =>
    (h.existed he).2 hne
  cases hp : s.client with
  | «open» =>
    have hnew := h.clientNew hp
    rw [hp] at hs hprinted
    rw [hnew, Bool.false_and] at hreaders hcarries hbuf
    dsimp only at hs
    split_ifs at hs with hpath
    · cases hs
      refine { h with
        clientNew := fun hno => by cases hno
        clientFound := fun _ => rfl
        readers := congrArg (· + 1) hreaders
        there := fun _ _ => hpath
        removed := fun hno => by cases hno
        both := fun _ hpc => ?_
        serverPassed := fun _ _ => rfl
        clientPassed := fun _ hno => by cases hno
        existed := fun _ => ⟨fun _ => hpath, fun _ => rfl⟩
        carries := hcarries
        buf := hbuf
        printed := hprinted }
      -- the FIFO is still there, so the server has found it
      by_contra hfd
      rw [h.missed hpc (Bool.eq_false_iff.2 hfd)] at hpath
      cases hpath
    · have hfalse : ∀ {P : Prop}, s.clientFd = true → P := fun hc => by
        rw [hnew] at hc
        cases hc
      have hfd : ∀ b : Bool, (s.clientFd && b) = false := fun b => by rw [hnew, Bool.false_and]
      cases hs
      refine h.moveClient rfl (by decide) hfalse (fun he => absurd ((h.existed he).1 hp) hpath)
        hfalse ?_ rfl ?_ ?_ hprinted
      · rw [hreaders, hfd]
      · rw [hfd]
        exact hcarries
      · rw [hfd]
        exact hbuf
  | opening =>
    rw [hp] at hs hreaders hcarries hbuf hprinted hthere hexisted
    dsimp only at hs
    split_ifs at hs with hfd
    cases hs
    exact h.moveClient rfl (by decide) (hthere (by decide)) (hexisted (by decide)) (fun _ => hfd)
      hreaders rfl hcarries hbuf hprinted
  | read =>
    have hread := h.read_eq hp
    rw [hp] at hs hreaders hcarries hbuf hprinted hpassed hthere hexisted
    dsimp only at hs
    split_ifs at hs with hc
    · have hfd := hpassed hc rfl
      have hread := hread hc
      rw [hread] at hs
      split_ifs at hs hread with hwritten
      · have hreceived := hcarries.read hread
        rw [hc] at hreceived
        cases hs
        refine h.moveClient rfl (by decide) (hthere (by decide)) (hexisted (by decide))
          (fun _ => hfd) hreaders rfl ?_ ?_ hprinted
        · rw [hc]
          exact hreceived
        · rw [hbuf, hc]
          rfl
      · cases hs
    · cases hs
      have hfd : ∀ b : Bool, (s.clientFd && b) = false := fun b => by
        rw [Bool.eq_false_iff.2 hc, Bool.false_and]
      rw [hfd] at hreaders hcarries hbuf
      refine h.moveClient rfl (by decide) (hthere (by decide)) (hexisted (by decide))
        (fun hne => absurd hne hc) ?_ rfl ?_ ?_ hprinted
      · rw [hreaders, hfd]
      · rw [hfd]
        exact hcarries
      · rw [hfd]
        exact hbuf
  | print =>
    rw [hp] at hs hreaders hcarries hbuf hprinted hpassed hthere hexisted
    cases hs
    refine h.moveClient rfl (by decide) (hthere (by decide)) (hexisted (by decide))
      (fun hc => hpassed hc rfl) hreaders rfl hcarries hbuf ?_
    rw [hprinted, hbuf]
    cases s.clientFd with
    | true => exact congrArg (fun line => [line]) (cstr_stored m old)
    | false => rfl
  | close =>
    rw [hp] at hs hreaders hcarries hbuf hprinted hpassed hthere hexisted
    dsimp only at hs
    split_ifs at hs with hc
    · cases hs
      refine h.moveClient rfl (by decide) (hthere (by decide)) (hexisted (by decide))
        (fun hc => hpassed hc rfl) ?_ rfl hcarries hbuf hprinted
      show s.fifo.readers - 1 = _
      rw [hreaders, hc]
      rfl
    · cases hs
      refine h.moveClient rfl (by decide) (hthere (by decide)) (hexisted (by decide))
        (fun hc => hpassed hc rfl) ?_ rfl hcarries hbuf hprinted
      rw [hreaders, Bool.eq_false_iff.2 hc]
      rfl
  | unlink =>
    rw [hp] at hs hreaders hcarries hbuf hprinted hpassed hexisted
    cases hs
    exact { h with
      clientNew := fun hno => by cases hno
      clientFound := fun hno => by cases hno
      readers := hreaders
      there := fun _ hne => absurd rfl hne
      removed := fun _ _ => rfl
      missed := fun _ _ => rfl
      clientPassed := hpassed
      existed := fun he => ⟨(fun hno => by cases hno), fun _ => hexisted (by decide) he⟩
      carries := hcarries
      buf := hbuf
      printed := hprinted }
  | done =>
    rw [hp] at hs
    cases hs

/-- Every step is one of those that were left. -/
theorem remaining_step {a : Action} (hs : step m s a = some t) :
    t.server.remaining + t.client.remaining < s.server.remaining + s.client.remaining := by
  cases a with
  | server made =>
    change Fifo.serverStep m s made = some t at hs
    unfold Fifo.serverStep at hs
    cases hp : s.server with
    | mkfifo =>
      rw [hp] at hs
      cases hs
      simp [ServerPc.remaining]
    | «open» | opening | close =>
      rw [hp] at hs
      dsimp only at hs
      split_ifs at hs <;> cases hs <;> simp [ServerPc.remaining]
    | write =>
      rw [hp] at hs
      dsimp only at hs
      split_ifs at hs
      · cases hw : s.fifo.write m.sent with
        | some p | none =>
          rw [hw] at hs
          cases hs
          simp [ServerPc.remaining]
      · cases hs
        simp [ServerPc.remaining]
    | done | killed =>
      rw [hp] at hs
      cases hs
  | client =>
    change Fifo.clientStep s = some t at hs
    unfold Fifo.clientStep at hs
    cases hp : s.client with
    | «open» | opening | close =>
      rw [hp] at hs
      dsimp only at hs
      split_ifs at hs <;> cases hs <;> simp [ClientPc.remaining]
    | read =>
      rw [hp] at hs
      dsimp only at hs
      split_ifs at hs
      · obtain ⟨r, -, rfl⟩ := Option.map_eq_some_iff.1 hs
        simp [ClientPc.remaining]
      · cases hs
        simp [ClientPc.remaining]
    | print | unlink =>
      rw [hp] at hs
      cases hs
      simp [ClientPc.remaining]
    | done =>
      rw [hp] at hs
      cases hs

theorem Inv.step (h : Inv m existed old s) {a : Action} (hs : step m s a = some t) :
    Inv m existed old t ∧
      t.server.remaining + t.client.remaining < s.server.remaining + s.client.remaining := by
  refine ⟨?_, remaining_step hs⟩
  cases a with
  | server made => exact h.serverStep hs
  | client => exact h.clientStep hs

/-! ### Where no step is possible -/

/-- The server stops at its end, or at its `open`, if the client has not opened the FIFO. -/
theorem Inv.server_stuck (h : Inv m existed old s) (hs : Fifo.step m s (.server true) = none) :
    s.server = .done ∨ s.server = .opening ∧ s.clientFd = false := by
  change Fifo.serverStep m s true = none at hs
  unfold Fifo.serverStep at hs
  cases hp : s.server with
  | mkfifo =>
    rw [hp] at hs
    cases hs
  | «open» | close =>
    rw [hp] at hs
    dsimp only at hs
    split_ifs at hs
  | opening =>
    rw [hp] at hs
    dsimp only at hs
    split_ifs at hs with hc
    exact .inr ⟨rfl, Bool.eq_false_iff.2 hc⟩
  | write =>
    rw [hp] at hs
    dsimp only at hs
    split_ifs at hs
    cases hw : s.fifo.write m.sent with
    | some p | none =>
      rw [hw] at hs
      cases hs
  | done => exact .inl rfl
  | killed => exact absurd hp h.alive

/-- The client stops at its end, or with the FIFO open: it waits for the server to open it, or to
write. -/
theorem Inv.client_stuck (h : Inv m existed old s) (hs : Fifo.step m s .client = none) :
    s.client = .done ∨ s.client ≠ .done ∧ s.clientFd = true ∧
      (s.serverFd = false ∨ s.fifo.writers ≠ 0) := by
  change Fifo.clientStep s = none at hs
  unfold Fifo.clientStep at hs
  cases hp : s.client with
  | «open» | close =>
    rw [hp] at hs
    dsimp only at hs
    split_ifs at hs
  | opening =>
    rw [hp] at hs
    dsimp only at hs
    split_ifs at hs with hfd
    exact .inr ⟨nofun, h.clientFound hp, .inl (Bool.eq_false_iff.2 hfd)⟩
  | read =>
    rw [hp] at hs
    dsimp only at hs
    split_ifs at hs with hc
    have hwaits := Pipe.read_eq_none_iff.1 (Option.map_eq_none_iff.1 hs)
    exact .inr ⟨nofun, hc, .inr hwaits.2⟩
  | print | unlink =>
    rw [hp] at hs
    cases hs
  | done => exact .inl rfl

end Steps

/-- **The message gets through if the client's `open` finds the FIFO.**  In every order of the calls
the server does not get SIGPIPE, and the client prints one line at most: the message, if its `open`
has found the FIFO, else what its array has held from the start.  Every run ends.  If the client has
found the FIFO, as it does when there is one from an earlier time, then at the end both programs are
done, the message has been printed and the FIFO is removed; if not, the client is done, and the
server is done or waits in its `open` for ever. -/
theorem client_prints {m : Message} {existed : Bool} {old : Buffer} {as : List Action} {s : State}
    (h : run (step m) (start existed old) as = some s) :
    as.length ≤ 11 ∧ s.server ≠ .killed ∧
      (∀ line ∈ s.printed, line = if s.clientFd then some m.bytes else cstr old.1 0) ∧
      ((∀ a, step m s a = none) →
        s.clientFd = true ∧ s.server = .done ∧ s.client = .done ∧ s.printed = [some m.bytes] ∧
          s.path = false ∧ s.fifo = ⟨[], 0, 0⟩ ∨
        existed = false ∧ s.clientFd = false ∧ (s.server = .done ∨ s.server = .opening) ∧
          s.client = .done ∧ s.printed = [cstr old.1 0]) := by
  have hinv : Inv m existed old s :=
    run_invariant (fun _ _ _ hI hs => (hI.step hs).1) (inv_start m existed old) h
  have hlength := run_length_le (f := fun s => s.server.remaining + s.client.remaining)
    (fun _ _ _ hI hs => hI.step hs) (inv_start m existed old) h
  have hprinted := hinv.printed
  refine ⟨(Nat.le_add_right _ _).trans hlength, hinv.alive, fun line hline => ?_, fun hstuck => ?_⟩
  · rw [hprinted] at hline
    cases hp : s.client.printed with
    | true =>
      rw [hp] at hline
      exact List.mem_singleton.1 hline
    | false =>
      rw [hp] at hline
      cases hline
  · have hserver := hinv.server_stuck (hstuck _)
    have hclient := hinv.client_stuck (hstuck _)
    cases hc : s.clientFd with
    | true =>
      have hp : s.server = .done := hserver.resolve_right fun hno => by
        rw [hno.2] at hc
        cases hc
      have hfd := hinv.both hc (by rw [hp]; rfl)
      have hwriters := hinv.writers
      rw [hfd, hp] at hwriters
      have hq : s.client = .done := hclient.resolve_right fun ⟨_, _, hwaits⟩ => by
        rcases hwaits with hno | hopen
        · rw [hfd] at hno
          cases hno
        · exact hopen hwriters
      have hreaders := hinv.readers
      have hcarries := hinv.carries
      rw [hfd, hp, hc, hq] at hcarries
      rw [hc, hq] at hreaders hprinted
      refine .inl ⟨rfl, hp, hq, hprinted, hinv.removed hq hc, ?_⟩
      have hempty : s.fifo.buffer = [] := List.append_right_eq_self.1 hcarries
      calc s.fifo = ⟨s.fifo.buffer, s.fifo.readers, s.fifo.writers⟩ := rfl
        _ = ⟨[], 0, 0⟩ := by rw [hempty, hreaders, hwriters]; rfl
    | false =>
      have hq : s.client = .done := hclient.resolve_right fun ⟨_, hno, _⟩ => by
        rw [hc] at hno
        cases hno
      have hexisted : existed = false := Bool.eq_false_iff.2 fun he => by
        rw [(hinv.existed he).2 (by rw [hq]; nofun)] at hc
        cases hc
      rw [hc, hq] at hprinted
      exact .inr ⟨hexisted, rfl, hserver.imp id And.left, hq, hprinted⟩

/-- The client comes too early, and the server waits for ever. -/
def clientFirst : List Action :=
  [.client, .client, .client, .client, .client, .server true, .server true]

theorem client_prints_clientFirst :
    ∃ s, run (step hi) (start false Child.sevens) clientFirst = some s ∧ s.server = .opening ∧
      (∀ a, step hi s a = none) ∧ s.client = .done ∧ s.printed = [cstr Child.sevens.1 0] := by
  have hends : (run (step hi) (start false Child.sevens) clientFirst).map
      (fun s => (s.server, s.clientFd, s.client)) = some (.opening, false, .done) := by
    decide +kernel
  obtain ⟨s, hs, hends⟩ := Option.map_eq_some_iff.1 hends
  obtain ⟨hp, hrest⟩ := Prod.mk.inj hends
  obtain ⟨hc, hq⟩ := Prod.mk.inj hrest
  have hstuck : ∀ a, step hi s a = none := by
    rintro (made | _)
    · rw [step, serverStep, hp, hc]
      rfl
    · rw [step, clientStep, hq]
  rcases (client_prints hs).2.2.2 hstuck with ⟨hno, -⟩ | ⟨-, -, -, hdone, hprinted⟩
  · rw [hc] at hno
    cases hno
  · exact ⟨s, hs, hp, hstuck, hdone, hprinted⟩

end Fifo
end Pipes
end PosixHw
