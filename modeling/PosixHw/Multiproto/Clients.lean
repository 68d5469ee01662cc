import PosixHw.Multiproto.Answers
import PosixHw.Receivers.Clients

/-!
# The TCP/UDP server and its clients

The clients `client_tcp.c` and `client_udp.c` send one message and print what one `read` or
`recvfrom` returns.  The first is the client of the other servers with another text, the second
looks at nothing that its calls return.

The server reads a connection once, so a TCP client may get the beginning of its message only, or
nothing, as it does if `send` fails or the server has ended; a UDP client that gets an answer gets
all of it.
-/

namespace PosixHw
namespace Multiproto

open CString Run Receivers

/-- `message` of `client_tcp.c`, and what `client_udp.c` sends. -/
def tcpHello : Greeting := ⟨"Hello from TCP client".toUTF8.data.toList, by decide, by decide⟩
def udpHello : Greeting := ⟨"Hello from UDP client".toUTF8.data.toList, by decide, by decide⟩

/-- "Message sent" -/
def messageSent : Event := .printed "Message sent\n".toUTF8.data.toList

/-- `main` of `client_udp.c`; `none` stands for a `recvfrom` that fails. -/
def udpMain (received : Option (List UInt8)) : Option (List Event) := do
  let buffer ← write clientBuffer 0 (received.getD [])
  let text ← cstr buffer 0
  some [messageSent, line "Message received: " text]

section Clients

variable {as : List Act} {s : State} {g : Greeting} {c : ℕ} {bs t : List UInt8}

/-- What a TCP client gets is the beginning of what it has sent. -/
theorem Piece.begins {pieces : List (List UInt8)} (h : Piece t pieces) :
    pieces.flatten <+: t := by
  rcases h with rfl | ⟨bs, rfl, -, -, hprefix⟩
  · exact List.nil_prefix
  · rwa [List.flatten_singleton]

theorem take_eq_iff (h : bs <+: t) {k : ℕ} : bs.take k = t ↔ bs = t ∧ t.length ≤ k := by
  constructor
  · intro htake
    have hlength : t.length = min k bs.length := by rw [← List.length_take, htake]
    exact ⟨h.eq_of_length_le (hlength.trans_le (min_le_right _ _)),
      hlength.trans_le (min_le_left _ _)⟩
  · rintro ⟨rfl, hle⟩
    exact List.take_of_length_le hle

/-- An answer to a UDP client has all bytes of a datagram of its own. -/
theorem exists_datagram (h : run step start as = some s) (hsent : .udp c bs ∈ s.sent) :
    ∃ d ∈ arrived as, d.client = c ∧ bs = d.data.take bufferSize := by
  have hmem : .udp c bs ∈ s.answers.flatMap Out.datagram :=
    List.mem_flatMap.2 ⟨_, (sent_sublist s).subset hsent, List.mem_singleton_self _⟩
  rw [(run_historical h).udp] at hmem
  obtain ⟨d, hd, hanswer⟩ := List.mem_flatMap.1 hmem
  unfold Datagram.answer at hanswer
  split_ifs at hanswer
  · cases hanswer
  · have heq := List.mem_singleton.1 hanswer
    rw [Out.udp.injEq] at heq
    exact ⟨d, List.mem_of_mem_take hd, heq.1.symm, heq.2⟩

theorem udpMain_of_sublist (ht : t.Sublist g.bytes) :
    udpMain (some t) = some [messageSent, line "Message received: " t] := by
  obtain ⟨buffer, hwrite, hcstr⟩ := cstr_received ht
  show ((write clientBuffer 0 t).bind fun buffer => (cstr buffer 0).bind fun text => _) = _
  rw [hwrite, Option.bind_some, hcstr]
  rfl

end Clients

/-- **What the clients print.**  In every run of the server, whatever other clients do: a TCP client
prints the beginning of its message, and all of it exactly if the server has sent all of it back and
one `read` returns that; and a UDP client that gets an answer prints its message. -/
theorem clients_print {as : List Act} {s : State} (h : run step start as = some s) (g : Greeting)
    (c : ℕ) :
    (sentBy c as <+: g.bytes → ∀ k, ∃ t, t <+: g.bytes ∧
      g.main (some ((s.gets c).flatten.take k))
        = some [line "Message sent: " g.bytes, line "Message received: " t] ∧
      (t = g.bytes ↔ (s.gets c).flatten = g.bytes ∧ g.bytes.length ≤ k)) ∧
    ((∀ d ∈ arrived as, d.client = c → d.data = g.bytes) → ∀ bs, .udp c bs ∈ s.sent →
      udpMain (some bs) = some [messageSent, line "Message received: " g.bytes]) := by
  constructor
  · intro hsent k
    have hpiece : Piece (sentBy c as) (s.gets c) :=
      ((run_historical h).tcp c).sublist (gets_sublist s c)
    have hprefix : (s.gets c).flatten <+: g.bytes := hpiece.begins.trans hsent
    have htake : (s.gets c).flatten.take k <+: g.bytes := (List.take_prefix _ _).trans hprefix
    exact ⟨_, htake, main_of_sublist htake.sublist, take_eq_iff hprefix⟩
  · intro hdata bs hsent
    obtain ⟨d, hd, hclient, rfl⟩ := exists_datagram h hsent
    have hlt : g.bytes.length ≤ bufferSize := g.lt.le
    rw [hdata d hd hclient, List.take_of_length_le hlt]
    exact udpMain_of_sublist (List.Sublist.refl g.bytes)

/-- Both clients are answered. -/
def greetings : List Act :=
  [.connect zeros, .data 0 tcpHello.bytes, .server true, .server true, .server true, .server true,
    .server true, .server true, .datagram ⟨1, udpHello.bytes, zeros⟩, .server true, .server true,
    .server true, .server true, .server true, .server true, .server true, .server true,
    .server true]

theorem clients_print_greetings :
    ∃ s, run step start greetings = some s ∧ s.gets 0 = [tcpHello.bytes] ∧
      tcpHello.main (some ((s.gets 0).flatten.take 1024))
        = some [line "Message sent: " tcpHello.bytes,
            line "Message received: " tcpHello.bytes] ∧
      udpMain (some udpHello.bytes)
        = some [messageSent, line "Message received: " udpHello.bytes] := by
  obtain ⟨s, hs, hgets, hsent⟩ : ∃ s, run step start greetings = some s ∧
      s.gets 0 = [tcpHello.bytes] ∧ .udp 1 udpHello.bytes ∈ s.sent :=
    ⟨_, rfl, by decide +kernel, by decide +kernel⟩
  obtain ⟨t, -, hmain, hall⟩ := (clients_print hs tcpHello 0).1 (by decide +kernel) 1024
  have ht : t = tcpHello.bytes := hall.2 ⟨by rw [hgets, List.flatten_singleton], by decide +kernel⟩
  rw [ht] at hmain
  exact ⟨s, hs, hgets, hmain, (clients_print hs udpHello 1).2 (by decide +kernel) _ hsent⟩

end Multiproto
end PosixHw
