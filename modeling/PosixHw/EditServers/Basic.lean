import PosixHw.Base.CString

/-!
# The servers of hw1

Four programs receive one message into an array of 1024 bytes, append ". Edited by server." to it
and send the result back: over TCP or UDP, on the network or a local socket.

* Each of them reads once.  From a stream it may get the first part of the message only, and what
  the array held before then ends the string, if anything does.
* The appended text needs 19 bytes more than the message, and nothing checks that they are there.

`serve` is `none` if something outside of the array is accessed.
-/

namespace PosixHw
namespace EditServers

open CString

/-- The length of the array. -/
def bufferSize : ℕ := 1024

/-- The array. -/
abbrev Buffer : Type := { m : Mem // m.length = bufferSize }

/-- A message of a client, which sends it with its NUL. -/
structure Message where
  bytes : List UInt8
  nul_notMem : 0 ∉ bytes
  le : bytes.length ≤ 1023

/-- What the client sends. -/
def Message.sent (m : Message) : List UInt8 := m.bytes ++ [0]

/-- A division of what is sent into segments, which arrive one after the other. -/
structure Division (sent : List UInt8) where
  first : List UInt8
  rest : List (List UInt8)
  flatten_eq : first ++ rest.flatten = sent
  first_ne : first ≠ []
  rest_ne : ∀ segment ∈ rest, segment ≠ []

/-- The address of the client: of the network, or the path of its socket. -/
structure Address where
  text : List UInt8
  port : ℕ

/-- The servers. -/
inductive Server
  | inetTcp
  | localTcp
  | inetUdp
  | localUdp
  deriving DecidableEq

/-- The server uses a stream. -/
def Server.Stream : Server → Prop
  | .inetTcp | .localTcp => True
  | .inetUdp | .localUdp => False

instance (s : Server) : Decidable s.Stream := by
  cases s
  · exact isTrue trivial
  · exact isTrue trivial
  · exact isFalse id
  · exact isFalse id

/-- What `read` or `recvfrom` returns: the first segment, or the datagram. -/
def Server.input (s : Server) (m : Message) (d : Division m.sent) : List UInt8 :=
  if s.Stream then d.first else m.sent

/-- What a server prints and sends. -/
structure Output where
  printed : List (List UInt8)
  reply : List UInt8

/-- The bytes of a text. -/
def text (s : String) : List UInt8 := s.toUTF8.data.toList

/-- ". Edited by server." -/
def suffix : List UInt8 := text ". Edited by server."

/-- The line about the client. -/
def Server.addressLine (s : Server) (client : Address) : List (List UInt8) :=
  match s with
  | .inetTcp | .inetUdp =>
    [text "Client address: " ++ client.text ++ text ", port: " ++ text (toString client.port)
      ++ [newline]]
  | .localUdp => [text "Client address: " ++ client.text ++ [newline]]
  | .localTcp => []

/-- `main`, once `input` is received. -/
def Server.serve (s : Server) (client : Address) (buffer : Mem) (input : List UInt8) :
    Option Output := do
  let buffer ← write buffer 0 input
  let message ← cstr buffer 0
  let buffer ← strcat buffer suffix
  let n ← strlen buffer 0
  let reply ← read buffer 0 (n + 1)
  some ⟨(text "Received message: " ++ message ++ [newline]) :: s.addressLine client, reply⟩

/-- The server replies with the message and the text. -/
def Server.Replies (s : Server) (client : Address) (old : Buffer) (m : Message)
    (d : Division m.sent) : Prop :=
  ∃ out, s.serve client old.1 (s.input m d) = some out ∧ out.reply = m.bytes ++ suffix ++ [0]

/-! ### The reply -/

variable {s : Server} {client : Address} {buffer old : Mem} {input w post : List UInt8}

theorem length_suffix : suffix.length = 19 := by decide

theorem nul_notMem_suffix : 0 ∉ suffix := by decide

/-- Nothing can be done with an array that holds no string. -/
theorem serve_of_notMem (hwrite : write old 0 input = some buffer) (h : 0 ∉ buffer) :
    s.serve client old input = none := by
  have hcstr : cstr buffer 0 = none := if_neg (by rwa [List.drop_zero])
  rw [Server.serve, hwrite]
  show (cstr buffer 0).bind _ = none
  rw [hcstr]
  rfl

/-- **What is replied** to the string in the array, if there is room behind it. -/
theorem serve_of_append (hwrite : write old 0 input = some (w ++ 0 :: post)) (hw : 0 ∉ w) :
    (s.serve client old input).map Output.reply
      = if suffix.length ≤ post.length then some (w ++ suffix ++ [0]) else none := by
  have hsuffix : 0 ∉ w ++ suffix := by
    rw [List.mem_append, not_or]
    exact ⟨hw, nul_notMem_suffix⟩
  rw [Server.serve, hwrite]
  show ((cstr (w ++ 0 :: post) 0).bind fun message => (strcat (w ++ 0 :: post) suffix).bind
    fun buffer => (strlen buffer 0).bind fun n => (read buffer 0 (n + 1)).bind fun reply => _).map
      Output.reply = _
  rw [cstr_zero hw, Option.bind_some, strcat_append hw]
  split_ifs with hroom
  · have hread : read (w ++ suffix ++ 0 :: post.drop suffix.length) 0 ((w ++ suffix).length + 1)
        = some (w ++ suffix ++ [0]) := by
      have happend : read ([] ++ (w ++ suffix ++ [0]) ++ post.drop suffix.length) ([] : Mem).length
          (w ++ suffix ++ [0]).length = some (w ++ suffix ++ [0]) := read_append
      rwa [List.nil_append, List.append_assoc, List.singleton_append, List.length_nil,
        List.length_append, List.length_singleton] at happend
    rw [Option.bind_some, strlen_append hsuffix, Option.bind_some, hread]
    rfl
  · rfl

/-- Only a string that is the message gives the reply to it, and only with room for the text. -/
theorem reply_eq_iff {m : Message} (hwrite : write old 0 input = some buffer) :
    (∃ out, s.serve client old input = some out ∧ out.reply = m.bytes ++ suffix ++ [0]) ↔
      m.sent <+: buffer ∧ m.bytes.length + suffix.length < buffer.length := by
  have hreply : (∃ out, s.serve client old input = some out ∧
      out.reply = m.bytes ++ suffix ++ [0]) ↔
      (s.serve client old input).map Output.reply = some (m.bytes ++ suffix ++ [0]) := by
    rw [Option.map_eq_some_iff]
  rw [hreply]
  constructor
  · intro h
    have hmem : 0 ∈ buffer := by
      by_contra hmem
      rw [serve_of_notMem hwrite hmem] at h
      cases h
    obtain ⟨w, post, rfl, hw⟩ := List.eq_append_cons_of_mem hmem
    rw [serve_of_append hwrite hw] at h
    split_ifs at h with hroom
    rw [Option.some_inj, List.append_left_inj, List.append_left_inj] at h
    subst h
    refine ⟨⟨post, by rw [Message.sent, List.append_assoc, List.singleton_append]⟩, ?_⟩
    rw [List.length_append, List.length_cons]
    omega
  · rintro ⟨⟨post, rfl⟩, hroom⟩
    rw [Message.sent, List.append_assoc, List.singleton_append] at hwrite hroom
    rw [List.length_append, List.length_cons] at hroom
    rw [serve_of_append hwrite m.nul_notMem, if_pos (by omega)]

/-- **When a server replies as it should**: exactly if there is room for the text, and a stream
delivers the message as a whole, or what it does not deliver stands in the array already. -/
theorem replies_iff (s : Server) (client : Address) (old : Buffer) (m : Message)
    (d : Division m.sent) :
    s.Replies client old m d ↔ m.bytes.length ≤ 1004 ∧
      (s.Stream → d.rest.flatten <+: old.1.drop d.first.length) := by
  obtain ⟨old, hold⟩ := old
  have hsent : m.sent.length = m.bytes.length + 1 := by
    rw [Message.sent, List.length_append, List.length_singleton]
  have hsegment : m.sent.length = d.first.length + d.rest.flatten.length := by
    rw [← List.length_append, d.flatten_eq]
  have hle := m.le
  have hinput : (s.input m d).length ≤ old.length := by
    rw [hold, Server.input]
    unfold bufferSize
    split_ifs <;> omega
  have hprefix : m.sent <+: s.input m d ++ old.drop (s.input m d).length ↔
      (s.Stream → d.rest.flatten <+: old.drop d.first.length) := by
    unfold Server.input
    split_ifs with hstream
    · have hrest : d.first ++ d.rest.flatten <+: d.first ++ old.drop d.first.length ↔
          d.rest.flatten <+: old.drop d.first.length := List.prefix_append_right_inj _
      rw [d.flatten_eq] at hrest
      rw [hrest]
      exact ⟨fun h _ => h, fun h => h hstream⟩
    · exact iff_of_true (List.prefix_append _ _) fun h => absurd h hstream
  have hlength : (s.input m d ++ old.drop (s.input m d).length).length = bufferSize := by
    rw [List.length_append, List.length_drop, Nat.add_sub_cancel' hinput, hold]
  rw [Server.Replies, reply_eq_iff (write_zero hinput), hprefix, hlength, length_suffix, and_comm]
  refine and_congr_left fun _ => ?_
  unfold bufferSize
  omega

/-! ### Two messages that are not answered -/

/-- An array of zeros. -/
def zeros : Buffer := ⟨List.replicate bufferSize 0, List.length_replicate⟩

/-- "abc", of which "ab" comes first. -/
def abc : Message := ⟨text "abc", by decide, by decide⟩

def abThenC : Division abc.sent :=
  ⟨text "ab", [text "c" ++ [0]], by decide, by decide, by decide⟩

/-- A message of 1005 bytes. -/
def long : Message :=
  ⟨List.replicate 1005 97, fun h => absurd (List.eq_of_mem_replicate h) (by decide),
    by rw [List.length_replicate]; decide⟩

/-- "ab. Edited by server." is the reply to "abc", and the longest messages have no room behind
them. -/
theorem message_cut :
    (¬ ∀ (s : Server) (client : Address) (old : Buffer) (m : Message) (d : Division m.sent),
      s.Replies client old m d) ∧
    (Server.inetTcp.serve ⟨[], 0⟩ zeros.1 abThenC.first).map Output.reply
      = some (text "ab. Edited by server." ++ [0]) ∧
    Server.inetUdp.serve ⟨[], 0⟩ zeros.1 long.sent = none := by
  have hcut : (Server.inetTcp.serve ⟨[], 0⟩ zeros.1 abThenC.first).map Output.reply
      = some (text "ab. Edited by server." ++ [0]) := by
    decide +kernel
  have hlong : (Server.inetUdp.serve ⟨[], 0⟩ zeros.1 long.sent).map Output.reply = none := by
    decide +kernel
  refine ⟨fun hall => ?_, hcut, Option.map_eq_none_iff.1 hlong⟩
  obtain ⟨out, hout, hreply⟩ := hall .inetTcp ⟨[], 0⟩ zeros abc abThenC
  have hserve : Server.inetTcp.serve ⟨[], 0⟩ zeros.1 abThenC.first = some out := hout
  rw [hserve, Option.map_some, hreply] at hcut
  exact absurd hcut (by decide)

end EditServers
end PosixHw
