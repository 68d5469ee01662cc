import PosixHw.EditServers.Basic

/-!
# The clients of hw1 and what they get back

A client sends the text that its array holds, receives into the same array, once, and prints it.
What it prints is the reply as far as it has arrived, and then what is left of its own message.

Since the reply begins with the message, the two fit together: the client always prints the edited
message up to some point, never less than its own text (`exchange_iff`).  The port and the path are
those of the server.
-/

namespace PosixHw
namespace EditServers

open CString

/-- "Hello from client". -/
def hello : Message := ⟨text "Hello from client", by decide, by decide⟩

/-- The array of a client at first: the text, and zeros. -/
def clientBuffer : Mem := hello.bytes ++ List.replicate (bufferSize - hello.bytes.length) 0

/-- What `write` or `sendto` is given: `buffer`, `strlen(buffer) + 1`. -/
def request : Option (List UInt8) := do
  let n ← strlen clientBuffer 0
  read clientBuffer 0 (n + 1)

/-- The message with its NUL. -/
example : request = some hello.sent := by decide +kernel

/-- The line about the server. -/
def Server.serverLine (s : Server) (server : Address) : List UInt8 :=
  match s with
  | .inetTcp | .inetUdp =>
    text "Server address: " ++ server.text ++ text ", port: " ++ text (toString server.port)
      ++ [newline]
  | .localTcp | .localUdp => text "Server address: " ++ server.text ++ [newline]

/-- The line about the reply. -/
def receivedLine (reply : List UInt8) : List UInt8 :=
  text "Received from server: " ++ reply ++ [newline]

/-- `main` of the client, once `received` has arrived; nothing has if `read` or `recvfrom` fails,
which is not looked at. -/
def Server.clientMain (s : Server) (server : Address) (received : List UInt8) :
    Option (List (List UInt8)) := do
  let buffer ← write clientBuffer 0 received
  let reply ← cstr buffer 0
  some [receivedLine reply, s.serverLine server]

/-- The server replies to the message of the client, and after `k` bytes of the reply the client
prints `t`. -/
def Server.Shows (s : Server) (client server : Address) (old : Buffer) (d : Division hello.sent)
    (k : ℕ) (t : List UInt8) : Prop :=
  ∃ out, s.serve client old.1 (s.input hello d) = some out ∧
    out.reply = hello.bytes ++ suffix ++ [0] ∧
    s.clientMain server (out.reply.take k) = some [receivedLine t, s.serverLine server]

variable {s : Server} {old : Buffer} {m : Message} {k : ℕ}

/-! ### What the server has read -/

/-- The message stands in the array exactly if it has arrived as a whole, or its end was there. -/
theorem sent_prefix_iff (d : Division m.sent) :
    m.sent <+: s.input m d ++ old.1.drop (s.input m d).length ↔
      (s.Stream → d.rest.flatten <+: old.1.drop d.first.length) := by
  unfold Server.input
  split_ifs with hstream
  -- a stream may bring the first part only; the rest is compared with what the array held
  · have hrest : d.first ++ d.rest.flatten <+: d.first ++ old.1.drop d.first.length ↔
        d.rest.flatten <+: old.1.drop d.first.length := List.prefix_append_right_inj _
    rw [d.flatten_eq] at hrest
    rw [hrest]
    exact ⟨fun h _ => h, fun h => h hstream⟩
  · exact iff_of_true (List.prefix_append _ _) fun h => absurd h hstream

theorem length_input_le (d : Division m.sent) : (s.input m d).length ≤ bufferSize := by
  have hsent : m.sent.length = m.bytes.length + 1 := by
    rw [Message.sent, List.length_append, List.length_singleton]
  have hsegment : m.sent.length = d.first.length + d.rest.flatten.length := by
    rw [← List.length_append, d.flatten_eq]
  have hle := m.le
  unfold Server.input bufferSize
  split_ifs <;> omega

theorem serve_hello_iff (client : Address) (d : Division hello.sent) :
    (∃ out, s.serve client old.1 (s.input hello d) = some out ∧
      out.reply = hello.bytes ++ suffix ++ [0]) ↔
      (s.Stream → d.rest.flatten <+: old.1.drop d.first.length) := by
  have hinput : (s.input hello d).length ≤ old.1.length := by
    rw [old.2]
    exact length_input_le d
  have hlength : (s.input hello d ++ old.1.drop (s.input hello d).length).length = bufferSize := by
    rw [List.length_append, List.length_drop, Nat.add_sub_cancel' hinput, old.2]
  rw [reply_eq_iff (write_zero hinput), sent_prefix_iff, hlength]
  apply and_iff_left
  decide

/-! ### What the client prints -/

/-- The reply in the array, up to `k`: what is behind it is the client's own text. -/
theorem take_append_drop_buffer (hk : k ≤ 36) :
    (hello.bytes ++ suffix ++ [0]).take k ++ clientBuffer.drop k
      = (hello.bytes ++ suffix).take (max 17 k)
        ++ List.replicate (bufferSize - max 17 k) 0 := by
  have hhello : hello.bytes.length = 17 := by decide
  have hsuffix : suffix.length = 19 := by decide
  have htake : (hello.bytes ++ suffix ++ [0]).take k = (hello.bytes ++ suffix).take k :=
    List.take_append_of_le_length (by rw [List.length_append, hhello, hsuffix]; exact hk)
  rw [htake, clientBuffer, hhello]
  -- the reply ends within the client's own text, or behind it
  by_cases hshort : k ≤ 17
  · rw [max_eq_left hshort, List.take_append_of_le_length (by rwa [hhello]),
      List.take_append_of_le_length (by rw [hhello]), List.take_of_length_le hhello.le,
      List.drop_append_of_le_length (by rwa [hhello]), ← List.append_assoc,
      List.take_append_drop]
  · have hlong : 17 ≤ k := (not_le.1 hshort).le
    have hdrop : (hello.bytes ++ List.replicate (bufferSize - 17) (0 : UInt8)).drop k
        = List.replicate (bufferSize - k) 0 := by
      rw [List.drop_append, List.drop_of_length_le (by rwa [hhello]), List.nil_append, hhello,
        List.drop_replicate]
      congr 1
      omega
    rw [max_eq_right hlong, hdrop]

/-- **What the client prints** after `k` bytes of the reply: the edited message up to there, or its
own text. -/
theorem clientMain_eq (s : Server) (server : Address) (k : ℕ) :
    s.clientMain server ((hello.bytes ++ suffix ++ [0]).take k)
      = some [receivedLine ((hello.bytes ++ suffix).take (max 17 k)), s.serverLine server] := by
  have hhello : hello.bytes.length = 17 := by decide
  have hsuffix : suffix.length = 19 := by decide
  have hreply : (hello.bytes ++ suffix ++ [0]).length = 37 := by decide
  have hnul : 0 ∉ hello.bytes ++ suffix := by decide
  have hbuffer : clientBuffer.length = bufferSize := by
    rw [clientBuffer, List.length_append, List.length_replicate, hhello]
    rfl
  have hle : ((hello.bytes ++ suffix ++ [0]).take k).length ≤ clientBuffer.length := by
    rw [hbuffer]
    exact (List.length_take_le' _ _).trans (by rw [hreply]; decide)
  have hwrite := write_zero hle
  have htext : ∃ post, (hello.bytes ++ suffix ++ [0]).take k
      ++ clientBuffer.drop ((hello.bytes ++ suffix ++ [0]).take k).length
      = (hello.bytes ++ suffix).take (max 17 k) ++ 0 :: post := by
    by_cases hk : k ≤ 36
    · rw [List.length_take_of_le (by omega), take_append_drop_buffer hk]
      refine ⟨List.replicate (bufferSize - max 17 k - 1) 0, ?_⟩
      rw [← List.replicate_succ]
      congr 2
      unfold bufferSize
      omega
    · rw [List.take_of_length_le (by omega), List.take_of_length_le
        (by rw [List.length_append, hhello, hsuffix]; omega), List.append_assoc _ [0]]
      exact ⟨_, rfl⟩
  obtain ⟨post, hpost⟩ := htext
  rw [hpost] at hwrite
  have hprefix : 0 ∉ (hello.bytes ++ suffix).take (max 17 k) := fun h =>
    hnul (List.mem_of_mem_take h)
  rw [Server.clientMain, hwrite]
  show (cstr _ 0).bind _ = _
  rw [cstr_zero hprefix]
  rfl

/-- **The exchange of a client and its server.**  Whatever the arrays held and however the network
divides the two messages: the server replies to the message of the client exactly if that has
arrived as a whole, or its end was there already, and the client then prints the edited message up
to the byte it has received, but not less than its own text. -/
theorem exchange_iff (s : Server) (client server : Address) (old : Buffer)
    (d : Division hello.sent) (k : ℕ) (t : List UInt8) :
    s.Shows client server old d k t ↔
      (s.Stream → d.rest.flatten <+: old.1.drop d.first.length) ∧
        t = (hello.bytes ++ suffix).take (max 17 k) := by
  rw [← serve_hello_iff client d]
  constructor
  · rintro ⟨out, hserve, hreply, hclient⟩
    refine ⟨⟨out, hserve, hreply⟩, ?_⟩
    rw [hreply, clientMain_eq, Option.some_inj, List.cons_eq_cons] at hclient
    have hline := hclient.1
    unfold receivedLine at hline
    rw [List.append_left_inj, List.append_right_inj] at hline
    exact hline.symm
  · rintro ⟨⟨out, hserve, hreply⟩, rfl⟩
    refine ⟨out, hserve, hreply, ?_⟩
    rw [hreply, clientMain_eq]

/-- Of the reply 20 bytes arrive. -/
example : Server.inetTcp.clientMain ⟨[], 0⟩ ((hello.bytes ++ suffix ++ [0]).take 20)
    = some [receivedLine (text "Hello from client. E"), Server.inetTcp.serverLine ⟨[], 0⟩] := by
  decide +kernel

end EditServers
end PosixHw
