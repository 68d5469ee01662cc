import PosixHw.Base.CString
import PosixHw.Base.Run

/-!
# The server for TCP and UDP

The program `sockets/hw2/multiproto/server.c`: a loop around `select` that accepts TCP connections,
reads once from each and sends back what it has read, and answers datagrams.

The server moves by its own calls; `ok` says whether the call succeeds.  All else that may happen is
an action of its own: a client connects, sends, closes or breaks its connection, or sends a
datagram.  `accept`, `read` and `recvfrom` wait if there is nothing to return.  `select` returns
when one of the descriptors of `readfds` is ready, with those that are.

The arrays of the two handlers are not initialised, and are printed with `%s` before anything is
sent back.  What they hold is arbitrary; without a NUL the `printf` runs out of the array, and the
run goes no further.

What has arrived on a connection can be read after the connection is broken, but a `send` fails
there.  If its error is EPIPE, the signal SIGPIPE ends the server.  A `send` that does not fail
takes the whole piece: it is the first one on its connection.

A connection is known by the number of its client; its descriptor is `Fd.conn`.
-/

namespace PosixHw
namespace Multiproto

open CString Run

/-- `BUFFER_SIZE`. -/
def bufferSize : ℕ := 1024

/-- The contents of the array of a handler. -/
abbrev Buffer : Type := { m : Mem // m.length = bufferSize }

/-- After `data` is stored, the array holds a NUL. -/
def HasNul (data : List UInt8) (buffer : Buffer) : Prop :=
  0 ∈ data ++ buffer.1.drop data.length

instance (data : List UInt8) (buffer : Buffer) : Decidable (HasNul data buffer) :=
  inferInstanceAs (Decidable (_ ∈ _))

/-- A descriptor. -/
inductive Fd
  | tcp | udp | conn (c : ℕ)
  deriving DecidableEq

/-- The server's end of a connection: the bytes that have arrived and not been read; whether the
client has closed it or it is broken, and whether the error is then EPIPE; and what `buffer` holds
when `handle_tcp_client` is called for it. -/
structure Conn where
  input : List UInt8
  ended : Bool
  failed : Bool
  pipe : Bool
  buffer : Buffer
  deriving DecidableEq

/-- A datagram, with the address of its sender, and what `buffer` holds when `handle_udp_client` is
called for it. -/
structure Datagram where
  client : ℕ
  data : List UInt8
  buffer : Buffer
  deriving DecidableEq

/-- What the server passes to `send` and `sendto`. -/
inductive Out
  | tcp (c : ℕ) (data : List UInt8)
  | udp (client : ℕ) (data : List UInt8)
  deriving DecidableEq

/-- The places of the server: before `FD_ZERO`, at `select`, behind it, in `handle_tcp_client`, and
in `handle_udp_client`; or it has ended. -/
inductive Pc
  | prepare
  | select
  | testTcp
  | accept
  | read (c : ℕ)
  | print (c : ℕ) (data : List UInt8)
  | send (c : ℕ) (data : List UInt8)
  | close (c : ℕ)
  | testUdp
  | recvfrom
  | printUdp (d : Datagram)
  | sendto (d : Datagram)
  | exited
  deriving DecidableEq

/-- The server; the connections that wait to be accepted, the oldest first, those that are accepted
and not closed, and how many clients have connected; the datagrams that have arrived; what has been
passed to `send` and `sendto`, and whether it was sent; and how many connections have been accepted
and datagrams received. -/
structure State where
  pc : Pc
  readfds : List Fd
  conn : ℕ → Conn
  pending : List ℕ
  opened : List ℕ
  next : ℕ
  datagrams : List Datagram
  out : List (Out × Bool)
  accepted : ℕ
  received : ℕ

/-- What happens. -/
inductive Act
  | server (ok : Bool)
  | connect (buffer : Buffer)
  | data (c : ℕ) (bs : List UInt8)
  | ended (c : ℕ)
  | failed (c : ℕ) (pipe : Bool)
  | datagram (d : Datagram)

/-- The array, if it holds nothing but NUL. -/
def zeros : Buffer := ⟨List.replicate bufferSize 0, List.length_replicate⟩

/-- A connection on which nothing has arrived. -/
def Conn.init : Conn := ⟨[], false, false, false, zeros⟩

/-- The state before the first turn of the loop. -/
def start : State := ⟨.prepare, [], fun _ => .init, [], [], 0, [], [], 0, 0⟩

/-- A read on the connection returns. -/
def Conn.ready (c : Conn) : Bool := c.failed || (c.input ≠ [] || c.ended)

/-- A descriptor is ready for reading. -/
def State.ready (s : State) : Fd → Bool
  | .tcp => s.pending ≠ []
  | .udp => s.datagrams ≠ []
  | .conn c => (s.conn c).ready

/-- The `read` in `handle_tcp_client`: what is there is read first, then the end of the stream or
the error. -/
def readStep (s : State) (c : ℕ) (ok : Bool) : Option State :=
  if !ok then some { s with pc := .close c }
  else if (s.conn c).input ≠ [] then
    some { s with
      pc := .print c ((s.conn c).input.take bufferSize)
      conn := Function.update s.conn c
        { s.conn c with input := (s.conn c).input.drop bufferSize } }
  else if (s.conn c).failed || (s.conn c).ended then some { s with pc := .close c }
  else none

/-- The `send` in `handle_tcp_client`, whose result nobody looks at.  The connection stays open. -/
def sendStep (s : State) (c : ℕ) (data : List UInt8) (ok : Bool) : State :=
  if (s.conn c).failed && (s.conn c).pipe then
    { s with pc := .exited, out := s.out ++ [(.tcp c data, false)] }
  else { s with pc := .testUdp, out := s.out ++ [(.tcp c data, ok && !(s.conn c).failed)] }

/-- One step of `main`. -/
def serverStep (s : State) (ok : Bool) : Option State :=
  match s.pc with
  | .prepare => some { s with pc := .select, readfds := [.tcp, .udp] }
  | .select =>
    if ok then
      if s.readfds.filter s.ready = [] then none
      else some { s with pc := .testTcp, readfds := s.readfds.filter s.ready }
    else some { s with pc := .prepare }
  | .testTcp => some { s with pc := if .tcp ∈ s.readfds then .accept else .testUdp }
  | .accept =>
    if ok then
      match s.pending with
      | [] => none
      | c :: rest => some { s with
          pc := .read c, pending := rest, opened := s.opened ++ [c], accepted := s.accepted + 1 }
    else some { s with pc := .exited }
  | .read c => readStep s c ok
  | .print c data =>
    if HasNul data (s.conn c).buffer then some { s with pc := .send c data } else none
  | .send c data => some (sendStep s c data ok)
  | .close c => some { s with pc := .testUdp, opened := s.opened.erase c }
  | .testUdp => some { s with pc := if .udp ∈ s.readfds then .recvfrom else .prepare }
  | .recvfrom =>
    if ok then
      match s.datagrams with
      | [] => none
      | d :: rest => some { s with
          -- 0, for an empty datagram, is taken for an error
          pc := if d.data = [] then .prepare
            else .printUdp { d with data := d.data.take bufferSize }
          datagrams := rest
          received := s.received + 1 }
    else some { s with pc := .prepare }
  | .printUdp d => if HasNul d.data d.buffer then some { s with pc := .sendto d } else none
  | .sendto d => some { s with pc := .prepare, out := s.out ++ [(.udp d.client d.data, ok)] }
  | .exited => none

/-- One step of the server or of the world around it.  Nothing arrives on a connection that is
closed by its client or broken. -/
def step (s : State) : Act → Option State
  | .server ok => serverStep s ok
  | .connect buffer => some { s with
      pending := s.pending ++ [s.next]
      next := s.next + 1
      conn := Function.update s.conn s.next { s.conn s.next with buffer := buffer } }
  | .data c bs =>
    if c < s.next ∧ bs ≠ [] ∧ (s.conn c).ended = false ∧ (s.conn c).failed = false then
      some { s with
        conn := Function.update s.conn c { s.conn c with input := (s.conn c).input ++ bs } }
    else none
  | .ended c =>
    if c < s.next ∧ (s.conn c).failed = false then
      some { s with conn := Function.update s.conn c { s.conn c with ended := true } }
    else none
  | .failed c pipe =>
    if c < s.next ∧ (s.conn c).failed = false then
      some { s with
        conn := Function.update s.conn c { s.conn c with failed := true, pipe := pipe } }
    else none
  | .datagram d => some { s with datagrams := s.datagrams ++ [d] }

/-- A step of the server in which no call fails unless its connection is broken. -/
def ownStep (s : State) (_ : Unit) : Option State := serverStep s true

/-- What the server does, with the tests that it has made. -/
inductive ServerStep (s : State) : Bool → State → Prop
  | prepare {ok : Bool} (hpc : s.pc = .prepare) :
    ServerStep s ok { s with pc := .select, readfds := [.tcp, .udp] }
  | select (hpc : s.pc = .select) (hready : s.readfds.filter s.ready ≠ []) :
    ServerStep s true { s with pc := .testTcp, readfds := s.readfds.filter s.ready }
  | selectFailed (hpc : s.pc = .select) : ServerStep s false { s with pc := .prepare }
  | tcp {ok : Bool} (hpc : s.pc = .testTcp) (hmem : .tcp ∈ s.readfds) :
    ServerStep s ok { s with pc := .accept }
  | noTcp {ok : Bool} (hpc : s.pc = .testTcp) (hmem : .tcp ∉ s.readfds) :
    ServerStep s ok { s with pc := .testUdp }
  | accept (c : ℕ) (rest : List ℕ) (hpc : s.pc = .accept) (hpending : s.pending = c :: rest) :
    ServerStep s true { s with
      pc := .read c, pending := rest, opened := s.opened ++ [c], accepted := s.accepted + 1 }
  | acceptFailed (hpc : s.pc = .accept) : ServerStep s false { s with pc := .exited }
  | readData (c : ℕ) (hpc : s.pc = .read c) (hinput : (s.conn c).input ≠ []) :
    ServerStep s true { s with
      pc := .print c ((s.conn c).input.take bufferSize)
      conn := Function.update s.conn c
        { s.conn c with input := (s.conn c).input.drop bufferSize } }
  | readNothing {ok : Bool} (c : ℕ) (hpc : s.pc = .read c)
      (hready : ok = true → (s.conn c).input = [] ∧ (s.conn c).ready = true) :
    ServerStep s ok { s with pc := .close c }
  | print {ok : Bool} (c : ℕ) (data : List UInt8) (hpc : s.pc = .print c data)
      (hnul : HasNul data (s.conn c).buffer) :
    ServerStep s ok { s with pc := .send c data }
  | send {ok : Bool} (sent : Bool) (c : ℕ) (data : List UInt8) (hpc : s.pc = .send c data)
      (hpipe : (s.conn c).failed = true → (s.conn c).pipe = false) :
    ServerStep s ok { s with pc := .testUdp, out := s.out ++ [(.tcp c data, sent)] }
  | sigpipe {ok : Bool} (c : ℕ) (data : List UInt8) (hpc : s.pc = .send c data)
      (hfailed : (s.conn c).failed = true) (hpipe : (s.conn c).pipe = true) :
    ServerStep s ok { s with pc := .exited, out := s.out ++ [(.tcp c data, false)] }
  | close {ok : Bool} (c : ℕ) (hpc : s.pc = .close c) :
    ServerStep s ok { s with pc := .testUdp, opened := s.opened.erase c }
  | udp {ok : Bool} (hpc : s.pc = .testUdp) (hmem : .udp ∈ s.readfds) :
    ServerStep s ok { s with pc := .recvfrom }
  | noUdp {ok : Bool} (hpc : s.pc = .testUdp) (hmem : .udp ∉ s.readfds) :
    ServerStep s ok { s with pc := .prepare }
  | recvfrom (d : Datagram) (rest : List Datagram) (hpc : s.pc = .recvfrom)
      (hdatagrams : s.datagrams = d :: rest) (hdata : d.data ≠ []) :
    ServerStep s true { s with
      pc := .printUdp { d with data := d.data.take bufferSize }, datagrams := rest,
      received := s.received + 1 }
  | recvfromEmpty (d : Datagram) (rest : List Datagram) (hpc : s.pc = .recvfrom)
      (hdatagrams : s.datagrams = d :: rest) (hdata : d.data = []) :
    ServerStep s true { s with pc := .prepare, datagrams := rest, received := s.received + 1 }
  | recvfromFailed (hpc : s.pc = .recvfrom) : ServerStep s false { s with pc := .prepare }
  | printUdp {ok : Bool} (d : Datagram) (hpc : s.pc = .printUdp d) (hnul : HasNul d.data d.buffer) :
    ServerStep s ok { s with pc := .sendto d }
  | sendto {ok : Bool} (d : Datagram) (hpc : s.pc = .sendto d) :
    ServerStep s ok { s with pc := .prepare, out := s.out ++ [(.udp d.client d.data, ok)] }

/-- A step of the server is one of these. -/
theorem serverStep_cases {s t : State} {ok : Bool} (h : serverStep s ok = some t) :
    ServerStep s ok t := by
  unfold serverStep at h
  cases hpc : s.pc with
  | prepare =>
    rw [hpc] at h
    cases h
    exact .prepare hpc
  | select =>
    rw [hpc] at h
    cases ok with
    | false =>
      cases h
      exact .selectFailed hpc
    | true =>
      dsimp only at h
      split_ifs at h with hok hnone
      · cases h
        exact .select hpc hnone
      · exact absurd rfl hok
  | testTcp =>
    rw [hpc] at h
    cases h
    split_ifs with hmem
    · exact .tcp hpc hmem
    · exact .noTcp hpc hmem
  | accept =>
    rw [hpc] at h
    cases ok with
    | false =>
      cases h
      exact .acceptFailed hpc
    | true =>
      cases hpending : s.pending with
      | nil =>
        rw [hpending] at h
        cases h
      | cons c rest =>
        rw [hpending] at h
        cases h
        exact .accept c rest hpc hpending
  | read c =>
    rw [hpc] at h
    dsimp only at h
    unfold readStep at h
    split_ifs at h with hfail hinput hready
    · cases h
      refine .readNothing c hpc fun hok => ?_
      simp [hok] at hfail
    · cases h
      obtain rfl : ok = true := by simpa using hfail
      exact .readData c hpc hinput
    · cases h
      refine .readNothing c hpc fun _ => ⟨not_not.1 hinput, ?_⟩
      rcases Bool.or_eq_true_iff.1 hready with hready | hready
      · simp [Conn.ready, hready]
      · simp [Conn.ready, hready]
  | print c bs =>
    rw [hpc] at h
    dsimp only at h
    split_ifs at h with hnul
    cases h
    exact .print c bs hpc hnul
  | send c bs =>
    rw [hpc] at h
    cases h
    unfold sendStep
    split_ifs with hpipe
    · obtain ⟨hfailed, hpipe⟩ := Bool.and_eq_true_iff.1 hpipe
      exact .sigpipe c bs hpc hfailed hpipe
    · exact .send _ c bs hpc (by simpa using hpipe)
  | close c =>
    rw [hpc] at h
    cases h
    exact .close c hpc
  | testUdp =>
    rw [hpc] at h
    cases h
    split_ifs with hmem
    · exact .udp hpc hmem
    · exact .noUdp hpc hmem
  | recvfrom =>
    rw [hpc] at h
    cases ok with
    | false =>
      cases h
      exact .recvfromFailed hpc
    | true =>
      cases hdatagrams : s.datagrams with
      | nil =>
        rw [hdatagrams] at h
        cases h
      | cons d rest =>
        rw [hdatagrams] at h
        cases h
        split_ifs with hdata
        · exact .recvfromEmpty d rest hpc hdatagrams hdata
        · exact .recvfrom d rest hpc hdatagrams hdata
  | printUdp d =>
    rw [hpc] at h
    dsimp only at h
    split_ifs at h with hnul
    cases h
    exact .printUdp d hpc hnul
  | sendto d =>
    rw [hpc] at h
    cases h
    exact .sendto d hpc
  | exited =>
    rw [hpc] at h
    cases h

/-! ### What holds in every reachable state -/

/-- The connection that `handle_tcp_client` is at work on. -/
def Pc.current : Pc → List ℕ
  | .read c | .print c _ | .send c _ | .close c => [c]
  | .prepare | .select | .testTcp | .accept | .testUdp | .recvfrom | .printUdp _ | .sendto _
  | .exited => []

/-- The server is between `select` and its test for the descriptor `tcp` or `udp`. -/
def Pc.beforeTcp : Pc → Bool
  | .testTcp => true
  | _ => false
def Pc.beforeUdp : Pc → Bool
  | .testTcp | .accept | .read _ | .print _ _ | .send _ _ | .close _ | .testUdp => true
  | .prepare | .select | .recvfrom | .printUdp _ | .sendto _ | .exited => false

/-- Connections are in one place, and what `select` has found ready still is: nobody else takes
it. -/
structure Sound (s : State) : Prop where
  nodup : (s.pending ++ s.opened).Nodup
  lt_next : ∀ c ∈ s.pending ++ s.opened, c < s.next
  current : ∀ c ∈ s.pc.current, c ∈ s.opened
  watched : ∀ fd ∈ s.readfds, fd = .tcp ∨ fd = .udp
  atSelect : s.pc = .select → s.readfds = [.tcp, .udp]
  found : s.pc = .testTcp → s.readfds ≠ []
  tcp : s.pc = .accept ∨ s.pc.beforeTcp = true ∧ .tcp ∈ s.readfds → s.pending ≠ []
  udp : s.pc = .recvfrom ∨ s.pc.beforeUdp = true ∧ .udp ∈ s.readfds → s.datagrams ≠ []

theorem sound_start : Sound start :=
  ⟨List.nodup_nil, nofun, nofun, nofun, nofun, nofun, nofun, nofun⟩

section Steps

variable {s t : State}

/-- The server goes on to a place that asks for nothing and is at work on the same connection, or on
none. -/
theorem Sound.move (h : Sound s) {pc : Pc} (out : List (Out × Bool)) (conn : ℕ → Conn)
    (hcurrent : ∀ c ∈ pc.current, c ∈ s.pc.current) (hselect : pc ≠ .select) (htest : pc ≠ .testTcp)
    (haccept : pc ≠ .accept) (hrecvfrom : pc ≠ .recvfrom)
    (hudp : pc.beforeUdp = true → s.pc.beforeUdp = true) :
    Sound { s with pc := pc, out := out, conn := conn } := by
  have hbefore : pc.beforeTcp = false := by
    cases pc with
    | testTcp => exact absurd rfl htest
    | prepare | select | accept | read c | print c bs | send c bs | close c | testUdp | recvfrom
    | printUdp d | sendto d | exited => rfl
  refine ⟨h.nodup, h.lt_next, fun c hc => h.current c (hcurrent c hc), h.watched,
    fun he => absurd he hselect, fun he => absurd he htest, ?_, ?_⟩
  · rintro (he | ⟨he, -⟩)
    · exact absurd he haccept
    · exact absurd (hbefore.symm.trans he) Bool.false_ne_true
  · rintro (he | ⟨he, hmem⟩)
    · exact absurd he hrecvfrom
    · exact h.udp (.inr ⟨hudp he, hmem⟩)

/-- What `select` returns. -/
theorem Sound.selected (h : Sound s) (hne : s.readfds.filter s.ready ≠ []) :
    Sound { s with pc := .testTcp, readfds := s.readfds.filter s.ready } := by
  refine ⟨h.nodup, h.lt_next, nofun, fun fd hfd => h.watched fd (List.mem_filter.1 hfd).1, nofun,
    fun _ => hne, ?_, ?_⟩
  · rintro (he | ⟨-, hmem⟩)
    · cases he
    · exact of_decide_eq_true (List.mem_filter.1 hmem).2
  · rintro (he | ⟨-, hmem⟩)
    · cases he
    · exact of_decide_eq_true (List.mem_filter.1 hmem).2

theorem Sound.serverStep (h : Sound s) {ok : Bool} (hs : serverStep s ok = some t) : Sound t := by
  cases serverStep_cases hs with
  | prepare hpc =>
    refine ⟨h.nodup, h.lt_next, nofun, fun fd hfd => ?_, fun _ => rfl, nofun, ?_, ?_⟩
    · simpa using hfd
    · rintro (he | ⟨he, -⟩) <;> cases he
    · rintro (he | ⟨he, -⟩) <;> cases he
  | select hpc hready => exact h.selected hready
  | tcp hpc hmem =>
    have hpending := h.tcp (.inr ⟨by rw [hpc]; rfl, hmem⟩)
    refine ⟨h.nodup, h.lt_next, nofun, h.watched, nofun, nofun, fun _ => hpending, ?_⟩
    rintro (he | ⟨-, hudp⟩)
    · cases he
    · exact h.udp (.inr ⟨by rw [hpc]; rfl, hudp⟩)
  | accept c rest hpc hpending =>
    have hnodup := h.nodup
    have hlt := h.lt_next
    rw [hpending] at hnodup hlt
    have hperm : (rest ++ (s.opened ++ [c])).Perm (c :: rest ++ s.opened) := by
      rw [← List.append_assoc]
      exact List.perm_append_singleton c (rest ++ s.opened)
    refine ⟨hperm.nodup_iff.2 hnodup, fun d hd => hlt d (hperm.mem_iff.1 hd), ?_, h.watched,
      nofun, nofun, ?_, ?_⟩
    · intro d hd
      exact List.mem_append_right _ hd
    · rintro (he | ⟨he, -⟩) <;> cases he
    · rintro (he | ⟨-, hudp⟩)
      · cases he
      · exact h.udp (.inr ⟨by rw [hpc]; rfl, hudp⟩)
  | readData _ hpc _ | readNothing _ hpc _ | print _ _ hpc _ =>
    exact h.move _ _ (by rw [hpc]; exact fun _ hc => hc) nofun nofun nofun nofun
      (by rw [hpc]; exact fun _ => rfl)
  | noTcp hpc _ | send _ _ _ hpc _ =>
    exact h.move _ _ nofun nofun nofun nofun nofun (by rw [hpc]; exact fun _ => rfl)
  | close c hpc =>
    have hsub : (s.pending ++ s.opened.erase c).Sublist (s.pending ++ s.opened) :=
      (List.erase_sublist).append_left _
    refine ⟨h.nodup.sublist hsub, fun d hd => h.lt_next d (hsub.subset hd), nofun, h.watched, nofun,
      nofun, ?_, ?_⟩
    · rintro (he | ⟨he, -⟩) <;> cases he
    · rintro (he | ⟨-, hudp⟩)
      · cases he
      · exact h.udp (.inr ⟨by rw [hpc]; rfl, hudp⟩)
  | udp hpc hmem =>
    have hdatagrams := h.udp (.inr ⟨by rw [hpc]; rfl, hmem⟩)
    refine ⟨h.nodup, h.lt_next, nofun, h.watched, nofun, nofun, ?_, fun _ => hdatagrams⟩
    rintro (he | ⟨he, -⟩) <;> cases he
  | recvfrom _ _ hpc _ _ | recvfromEmpty _ _ hpc _ _ =>
    refine ⟨h.nodup, h.lt_next, nofun, h.watched, nofun, nofun, ?_, ?_⟩
    · rintro (he | ⟨he, -⟩) <;> cases he
    · rintro (he | ⟨he, -⟩) <;> cases he
  | selectFailed _ | acceptFailed _ | sigpipe _ _ _ _ _ | noUdp _ _ | recvfromFailed _
  | printUdp _ _ _ | sendto _ _ =>
    exact h.move _ _ nofun nofun nofun nofun nofun nofun

theorem Sound.step (h : Sound s) {a : Act} (hs : step s a = some t) : Sound t := by
  -- what arrives on a connection changes nothing else
  have hconn : ∀ conn : ℕ → Conn, Sound { s with conn := conn } := fun _ =>
    ⟨h.nodup, h.lt_next, h.current, h.watched, h.atSelect, h.found, h.tcp, h.udp⟩
  cases a with
  | server ok => exact h.serverStep hs
  | connect buffer =>
    cases hs
    have hperm : (s.pending ++ [s.next] ++ s.opened).Perm (s.next :: (s.pending ++ s.opened)) := by
      rw [List.append_assoc]
      exact List.perm_middle
    refine ⟨hperm.nodup_iff.2 (List.nodup_cons.2 ⟨fun hmem => ?_, h.nodup⟩), fun c hc => ?_,
      h.current, h.watched, h.atSelect, h.found, fun _ => by simp, h.udp⟩
    · exact lt_irrefl _ (h.lt_next _ hmem)
    · rcases List.mem_cons.1 (hperm.mem_iff.1 hc) with rfl | hc
      · exact Nat.lt_succ_self _
      · exact Nat.lt_succ_of_lt (h.lt_next c hc)
  | data c bs =>
    simp only [Multiproto.step] at hs
    split_ifs at hs
    exact Option.some.inj hs ▸ hconn _
  | ended c =>
    simp only [Multiproto.step] at hs
    split_ifs at hs
    exact Option.some.inj hs ▸ hconn _
  | failed c pipe =>
    simp only [Multiproto.step] at hs
    split_ifs at hs
    exact Option.some.inj hs ▸ hconn _
  | datagram d =>
    cases hs
    exact ⟨h.nodup, h.lt_next, h.current, h.watched, h.atSelect, h.found, h.tcp, fun _ => by simp⟩

end Steps

theorem run_sound {s : State} {as : List Act} (h : run step start as = some s) : Sound s :=
  run_invariant (fun _ _ _ hs ht => Sound.step hs ht) sound_start h

end Multiproto
end PosixHw
