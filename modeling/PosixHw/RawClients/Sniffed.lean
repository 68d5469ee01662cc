import PosixHw.RawClients.Uninitialised
import PosixHw.Sniffer.Payload

/-!
# The raw clients and the sniffer

What `hw5` and `hw7` send, as the sniffer of `hw4` receives it, and what a client prints when a
packet comes back.

* `hw5` leaves the IP header to the kernel.  The sniffer prints its text, whatever the arrays of
  both programs held before.
* `hw7` announces 100 bytes of data, and the sniffer has an array of 100 bytes for the headers and
  the data together: it reads beyond the end of it.
* The clients print what they receive from a fixed place on, and end no string.
-/

namespace PosixHw
namespace RawClients

open CString Packet Sniffer

/-- The array of the sniffer. -/
abbrev SnifferBuffer : Type := { m : Mem // m.length = Sniffer.bufferSize }

/-- What the array holds after `recvfrom` has stored a packet, or as much of it as there is room
for. -/
def SnifferBuffer.receive (old : SnifferBuffer) (packet : List UInt8) : Mem :=
  packet.take Sniffer.bufferSize ++ old.1.drop (packet.take Sniffer.bufferSize).length

theorem SnifferBuffer.length_receive (old : SnifferBuffer) (packet : List UInt8) :
    (old.receive packet).length = Sniffer.bufferSize := by
  have hle : (packet.take Sniffer.bufferSize).length ≤ Sniffer.bufferSize := List.length_take_le _ _
  rw [SnifferBuffer.receive, List.length_append, List.length_drop, old.2]
  omega

/-! ### hw5 -/

namespace Hw5

/-- The UDP header that `hw5` writes. -/
def udpHeader : List UInt8 :=
  bytes (htons sourcePort) ++ bytes (htons serverPort)
    ++ bytes (htons (UInt16.ofNat (udpHdrLen + hello.length))) ++ bytes 0

/-- The IP header that the kernel puts before what is sent. -/
structure KernelHeader where
  bytes : List UInt8
  length_eq : bytes.length = ipHdrLen
  first_eq : bytes.getD 0 0 = 0x45
  totLen_eq : ntohs (bytes.getD 2 0) (bytes.getD 3 0) = ipHdrLen + udpHdrLen + hello.length
  protocol_eq : bytes.getD 9 0 = Sniffer.ipprotoUdp
  daddr_eq : inetPton serverIp = some ((bytes.drop Iphdr.daddr).take 4)

/-- A header for a packet from the host of `hw6`. -/
instance : Inhabited KernelHeader where
  default :=
    { bytes := [0x45, 0, 0, 50, 0, 1, 0, 0, 64, 17, 0, 0, 192, 168, 1, 37, 192, 168, 1, 41]
      length_eq := rfl
      first_eq := rfl
      totLen_eq := rfl
      protocol_eq := rfl
      daddr_eq := by decide }

/-- The packet on its way. -/
def KernelHeader.datagram (header : KernelHeader) : Datagram where
  header := header.bytes
  udpHeader := udpHeader
  payload := hello
  five_le := by rw [header.first_eq]; decide
  version_eq := by rw [header.first_eq]; decide
  length_header := by rw [header.first_eq, header.length_eq]; decide
  protocol_eq := header.protocol_eq
  totLen_eq := by rw [header.totLen_eq, header.length_eq]; rfl
  length_udpHeader := rfl
  udpLen_eq := by decide
  fits := by rw [header.length_eq]; decide

/-- A block of memory is known from its bytes. -/
theorem read_eq_some_iff {m l : Mem} {n : ℕ} (hn : n ≤ m.length) (hl : l.length = n) :
    read m 0 n = some l ↔ ∀ q < n, m[q]? = l[q]? := by
  have hself : read l 0 n = some l := by
    subst hl
    exact read_all l
  rw [← hself, read_eq_iff hn hl.ge]

/-- What is sent does not depend on the array. -/
theorem sent_packet {m : Mem} (hm : m.length = bufferSize) :
    sent m = some (udpHeader ++ hello) := by
  obtain ⟨a, ha, hlen, hsent⟩ := sent_eq_read hm
  have hfit : udpHdrLen + hello.length ≤ bufferSize := by decide
  rw [hsent, read_eq_some_iff (hlen ▸ hfit) (by decide)]
  intro q hq
  have hstored : ∀ q < udpHdrLen + hello.length,
      stored (start ++ rest hello.length) q = (udpHeader ++ hello)[q]? := by decide +kernel
  have hsome : (stored (start ++ rest hello.length) q).isSome = true := by
    rw [isSome_stored]
    exact covered_all q hq
  obtain ⟨b, hb⟩ := Option.isSome_iff_exists.1 hsome
  rw [getElem?_fill ha, ← hstored q hq, hb, Option.some_or]

/-- The text has no byte that the sniffer does not print as it is. -/
theorem map_shown_hello : hello.map shown = hello := by decide

theorem receive_datagram (header : KernelHeader) (old : SnifferBuffer) :
    old.receive (header.bytes ++ (udpHeader ++ hello))
      = header.datagram.bytes ++ old.1.drop header.datagram.bytes.length := by
  have hbytes : header.bytes ++ (udpHeader ++ hello) = header.datagram.bytes :=
    (List.append_assoc _ _ _).symm
  have hle : header.datagram.bytes.length ≤ Sniffer.bufferSize := by
    rw [header.datagram.length_bytes]
    exact header.datagram.fits
  rw [SnifferBuffer.receive, hbytes, List.take_of_length_le hle]

theorem inetNtoa_daddr (header : KernelHeader) :
    inetNtoa (((header.bytes.drop Iphdr.daddr).take 4).map id) = serverIp := by
  have hdaddr := header.daddr_eq
  rw [inetPton_serverIp, Option.some_inj] at hdaddr
  rw [← hdaddr]
  decide +kernel

/-- **The text arrives.** Whatever the two arrays held before, the sniffer reads the bytes of the
packet alone and prints where it goes, how long the text is, and the text. -/
theorem hw5_sniffed (m : Client.hw5.Buffer) (header : KernelHeader) (old : SnifferBuffer) :
    ∃ bs out, Client.hw5.sent m.1 = some bs ∧
      Safe (old.receive (header.bytes ++ bs)) (header.bytes ++ bs).length ∧
      (iteration (old.receive (header.bytes ++ bs))).value = some out ∧
      out.dest = serverIp ∧ out.packetSize = hello.length ∧ out.data = hello := by
  have hip : header.bytes.length = 20 := header.length_eq
  have hlen : (header.bytes ++ (udpHeader ++ hello)).length = 50 := by
    rw [List.length_append, hip]
    rfl
  have hlong := old.length_receive (header.bytes ++ (udpHeader ++ hello))
  have hreceive := receive_datagram header old
  have hfirst : (old.receive (header.bytes ++ (udpHeader ++ hello))).getD 0 0 = 0x45 := by
    rw [hreceive, Datagram.getD_header (hip ▸ Nat.zero_lt_succ _)]
    exact header.first_eq
  have hudp : udpLen (old.receive (header.bytes ++ (udpHeader ++ hello))) = 30 := by
    rw [hreceive]
    exact header.datagram.udpLen_bytes _
  refine ⟨udpHeader ++ hello, _, sent_packet m.2, ?_,
    value_iteration hlong (by rw [hudp]; decide) (by rw [hudp]; decide), ?_, ?_, ?_⟩
  · rw [hlen, safe_iff_complete (by rw [hlong]; decide) hlong, Complete, hfirst, hudp]
    decide
  · show inetNtoa ((((old.receive (header.bytes ++ (udpHeader ++ hello))).drop 16).take 4).map id)
      = serverIp
    rw [hreceive, Datagram.bytes, List.append_assoc, List.append_assoc,
      List.drop_append_of_le_length (by rw [KernelHeader.datagram, hip]; decide),
      List.take_append_of_le_length (by simp [KernelHeader.datagram, hip])]
    exact inetNtoa_daddr header
  · rw [hudp]
    rfl
  · have hfront : (header.bytes ++ udpHeader).length = ipHeaderSize + udpHeaderSize := by
      rw [List.length_append, hip]
      rfl
    rw [hudp, hreceive, Datagram.bytes, List.append_assoc]
    show ((((header.bytes ++ udpHeader) ++ (hello ++ _)).drop _).take hello.length).map shown
      = hello
    rw [List.drop_left' hfront, List.take_left' rfl, map_shown_hello]

end Hw5

/-! ### hw7 -/

namespace Hw7

/-- **The text is too long for the sniffer.** Whatever the two arrays held before, the sniffer reads
beyond the end of its array when it gets the frame without its Ethernet header. -/
theorem hw7_sniffed (m : Client.hw7.Buffer) (old : SnifferBuffer) :
    ∃ frame, Client.hw7.sent m.1 = some frame ∧
      ¬ Safe (old.receive (frame.drop ethHdrLen)) Sniffer.bufferSize := by
  obtain ⟨m₁, c, a, h₁, -, -, ha, hlen, hsent⟩ := sent_eq_read m.2
  have hframe : sent m.1 = some a := by
    rw [hsent, ← hlen]
    exact read_all a
  have hlong := old.length_receive (a.drop ethHdrLen)
  -- the bytes that the sniffer receives are those of the frame
  have hbyte : ∀ q < Sniffer.bufferSize, ∀ b, a[ethHdrLen + q]? = some b →
      (old.receive (a.drop ethHdrLen)).getD q 0 = b := by
    intro q hq b hb
    rw [SnifferBuffer.receive, List.getD_eq_getElem?_getD, List.getElem?_append_left]
    · rw [List.getElem?_take_of_lt hq, List.getElem?_drop, hb, Option.getD_some]
    · rw [List.length_take, List.length_drop, hlen]
      exact hq
  have hfirst : (old.receive (a.drop ethHdrLen)).getD 0 0 = 0x45 := by
    refine hbyte 0 (by decide) _ ?_
    rw [getElem?_fill ha, getElem?_fill h₁]
    rfl
  have hhi : (old.receive (a.drop ethHdrLen)).getD 24 0 = 0 := by
    refine hbyte 24 (by decide) _ ?_
    rw [getElem?_fill ha]
    rfl
  have hlo : (old.receive (a.drop ethHdrLen)).getD 25 0 = 108 := by
    refine hbyte 25 (by decide) _ ?_
    rw [getElem?_fill ha]
    rfl
  have hudp : udpLen (old.receive (a.drop ethHdrLen)) = 108 := by
    rw [udpLen, hfirst]
    show ntohs ((old.receive (a.drop ethHdrLen)).getD 24 0)
      ((old.receive (a.drop ethHdrLen)).getD 25 0) = 108
    rw [hhi, hlo]
    rfl
  refine ⟨a, hframe, ?_⟩
  rw [safe_iff_complete hlong.ge hlong, Complete, hudp]
  rintro ⟨-, -, -, hfits⟩
  revert hfits
  decide

end Hw7

/-! ### Replies -/

/-- Where the client takes the data of a packet to begin. -/
def Client.offset : Client → ℕ
  | .hw5 | .hw6 => ipHdrLen + udpHdrLen
  | .hw7 => ethHdrLen + ipHdrLen + udpHdrLen

def Client.label : Client → String
  | .hw5 | .hw6 => "Received: "
  | .hw7 => "Received message: "

/-- `printf(label "%s\n", ..)` for a string that has the bytes `text`. -/
def Client.line (c : Client) (text : List UInt8) : List UInt8 :=
  c.label.toUTF8.data.toList ++ text ++ [newline]

/-- What is printed after `recvfrom` has stored a packet, or as much of it as there is room for;
the array is as long as that of the packet that was sent, and not initialised either. -/
def Client.received (c : Client) (buffer : Mem) (packet : List UInt8) : Option (List UInt8) := do
  let buffer ← write buffer 0 (packet.take c.size)
  let text ← cstr buffer c.offset
  some (c.line text)

/-- A packet whose headers are as long as the client takes them to be, and fit into the array with
the data. -/
structure Client.Reply (c : Client) where
  headers : List UInt8
  payload : List UInt8
  length_headers : headers.length = c.offset
  fits : headers.length + payload.length ≤ c.size

def Client.Reply.bytes {c : Client} (r : c.Reply) : List UInt8 := r.headers ++ r.payload

theorem Client.line_injective {c : Client} {s t : List UInt8} (h : c.line s = c.line t) :
    s = t := by
  rwa [Client.line, Client.line, List.append_left_inj, List.append_right_inj] at h

/-- **When a reply is printed as it is**: exactly if it has a NUL, or the array held one in the
place behind it. -/
theorem reply_iff (c : Client) (old : c.Buffer) (r : c.Reply) :
    c.received old.1 r.bytes = some (c.line (r.payload.takeWhile (· ≠ 0))) ↔
      0 ∈ r.payload ∨ old.1[c.offset + r.payload.length]? = some 0 := by
  obtain ⟨headers, payload, hlen, hfits⟩ := r
  have hle : (headers ++ payload).length ≤ c.size := by rwa [List.length_append]
  have hdrop : cstr ((headers ++ payload) ++ old.1.drop (headers ++ payload).length) c.offset
      = cstr (payload ++ old.1.drop (headers ++ payload).length) 0 := by
    unfold cstr str
    rw [List.append_assoc, List.drop_left' hlen, List.drop_zero]
  have hhead : (old.1.drop (headers ++ payload).length).head?
      = old.1[c.offset + payload.length]? := by
    rw [List.head?_drop, List.length_append, hlen]
  rw [← hhead, ← cstr_append_eq_iff, ← hdrop, Client.received, Client.Reply.bytes,
    List.take_of_length_le hle, write_zero (by rwa [old.2])]
  show (cstr _ c.offset).bind (fun text => some (c.line text)) = _ ↔ _
  cases hcstr : cstr ((headers ++ payload) ++ old.1.drop (headers ++ payload).length) c.offset with
  | none => simp
  | some text =>
    rw [Option.bind_some, Option.some_inj, Option.some_inj]
    exact ⟨Client.line_injective, congrArg c.line⟩

/-- Replies with the text `hi`, with a NUL and without one, and an array without NUL. -/
def hiReply : Client.hw5.Reply :=
  ⟨List.replicate 28 0, [104, 105, 0], List.length_replicate, by decide⟩
def openReply : Client.hw5.Reply :=
  ⟨List.replicate 28 0, [104, 105], List.length_replicate, by decide⟩
def ones : Client.hw5.Buffer := ⟨List.replicate Client.hw5.size 1, List.length_replicate⟩

theorem reply_hi :
    Client.hw5.received ones.1 hiReply.bytes = some (Client.hw5.line [104, 105]) ∧
      Client.hw5.received ones.1 openReply.bytes ≠ some (Client.hw5.line [104, 105]) := by
  constructor
  · exact (reply_iff .hw5 ones hiReply).2 (.inl (by decide))
  · exact fun h => absurd ((reply_iff .hw5 ones openReply).1 h) (by decide)

end RawClients
end PosixHw
