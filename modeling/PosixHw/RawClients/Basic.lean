import PosixHw.RawClients.Checksum

/-!
# The clients with raw sockets

Each client builds a packet in a local array, which is not initialised, and hands a number of its
bytes to `sendto`: `hw5` builds a UDP header and a text, `hw6` puts an IP header before them, and
`hw7` an Ethernet header before that.  `sent` is what `sendto` gets; it is undefined if a byte is
written or read outside of the array.

The socket is open.  The assignments are in the order of the source.
-/

namespace PosixHw
namespace RawClients

open CString Packet

/-! ### Headers -/

namespace Ethhdr

def hDest : ℕ := 0
def hSource : ℕ := 6
def hProto : ℕ := 12

end Ethhdr

namespace Iphdr

def tos : ℕ := 1
def totLen : ℕ := 2
def id : ℕ := 4
def fragOff : ℕ := 6
def ttl : ℕ := 8
def protocol : ℕ := 9
def check : ℕ := 10
def saddr : ℕ := 12
def daddr : ℕ := 16

/-- `version = v`, the high half of the first byte. -/
def version (m : Mem) (ip : ℕ) (v : UInt8) : Option Mem :=
  assign m ip fun b => (b &&& (0x0F : UInt8)) ||| (v <<< (4 : UInt8))

/-- `ihl = v`, the low half of it. -/
def ihl (m : Mem) (ip : ℕ) (v : UInt8) : Option Mem :=
  assign m ip fun b => (b &&& (0xF0 : UInt8)) ||| (v &&& (0x0F : UInt8))

end Iphdr

namespace Udphdr

def source : ℕ := 0
def dest : ℕ := 2
def len : ℕ := 4
def check : ℕ := 6

end Udphdr

def ethHdrLen : ℕ := 14
def ipHdrLen : ℕ := 20
def udpHdrLen : ℕ := 8

/-- `IPPROTO_UDP` -/
def ipprotoUdp : UInt8 := 17

/-- `ETH_P_IP` -/
def ethPIp : UInt16 := 0x0800

/-! ### The clients -/

def serverIp : String := "192.168.1.41"
def clientIp : String := "192.168.1.37"
def srcMac : String := "08:00:27:16:A3:3C"
def dstMac : String := "08:00:27:68:A4:38"
def sourcePort : UInt16 := 12345
def serverPort : UInt16 := 8080

/-- The text that is sent. -/
def hello : List UInt8 := "Hello from raw socket!".toUTF8.data.toList

namespace Hw5

def bufferSize : ℕ := 1024

/-- `sizeof(struct udphdr)`, where the text begins. -/
def data : ℕ := udpHdrLen

def sent (packet : Mem) : Option (List UInt8) := do
  let packet ← strcpy packet data hello
  let packet ← write packet Udphdr.source (bytes (htons sourcePort))
  let packet ← write packet Udphdr.dest (bytes (htons serverPort))
  let n ← strlen packet data
  let packet ← write packet Udphdr.len (bytes (htons (UInt16.ofNat (udpHdrLen + n))))
  let packet ← write packet Udphdr.check (bytes 0)
  let n ← strlen packet data
  read packet 0 (udpHdrLen + n)

end Hw5

namespace Hw6

def bufferSize : ℕ := 1024
def udpHeader : ℕ := ipHdrLen
def data : ℕ := ipHdrLen + udpHdrLen

def sent (packet : Mem) : Option (List UInt8) := do
  let packet ← strcpy packet data hello
  let packet ← Iphdr.version packet 0 4
  let packet ← Iphdr.ihl packet 0 5
  let packet ← write packet Iphdr.protocol [ipprotoUdp]
  let packet ← write packet Iphdr.totLen
    (bytes (htons (UInt16.ofNat (ipHdrLen + udpHdrLen + bufferSize))))
  let packet ← write packet Iphdr.check (bytes 0)
  let packet ← write packet Iphdr.fragOff (bytes 0)
  let packet ← write packet Iphdr.id (bytes 0)
  let packet ← write packet Iphdr.ttl [255]
  let packet ← write packet Iphdr.tos [0]
  let packet ← (inetPton clientIp).bind (write packet Iphdr.saddr)
  let packet ← (inetPton serverIp).bind (write packet Iphdr.daddr)
  let packet ← write packet (udpHeader + Udphdr.source) (bytes (htons sourcePort))
  let packet ← write packet (udpHeader + Udphdr.dest) (bytes (htons serverPort))
  let n ← strlen packet data
  let packet ← write packet (udpHeader + Udphdr.len)
    (bytes (htons (UInt16.ofNat (udpHdrLen + n))))
  let packet ← write packet (udpHeader + Udphdr.check) (bytes 0)
  read packet 0 (ipHdrLen + udpHdrLen + bufferSize)

end Hw6

namespace Hw7

def bufferSize : ℕ := 100
def ipHeader : ℕ := ethHdrLen
def udpHeader : ℕ := ethHdrLen + ipHdrLen
def data : ℕ := ethHdrLen + ipHdrLen + udpHdrLen

/-- The length of the array. -/
def frameLen : ℕ := ethHdrLen + ipHdrLen + udpHdrLen + bufferSize

def sent (buffer : Mem) : Option (List UInt8) := do
  let buffer ← (etherAton dstMac).bind (write buffer Ethhdr.hDest)
  let buffer ← (etherAton srcMac).bind (write buffer Ethhdr.hSource)
  let buffer ← write buffer Ethhdr.hProto (bytes (htons ethPIp))
  let buffer ← Iphdr.version buffer ipHeader 4
  let buffer ← Iphdr.ihl buffer ipHeader 5
  let buffer ← write buffer (ipHeader + Iphdr.protocol) [ipprotoUdp]
  let buffer ← write buffer (ipHeader + Iphdr.totLen)
    (bytes (htons (UInt16.ofNat (ipHdrLen + udpHdrLen + bufferSize))))
  let buffer ← write buffer (ipHeader + Iphdr.fragOff) (bytes 0)
  let buffer ← write buffer (ipHeader + Iphdr.ttl) [255]
  let buffer ← write buffer (ipHeader + Iphdr.tos) [0]
  let buffer ← (inetPton clientIp).bind (write buffer (ipHeader + Iphdr.saddr))
  let buffer ← (inetPton serverIp).bind (write buffer (ipHeader + Iphdr.daddr))
  let check ← checksum buffer ipHeader
  let buffer ← write buffer (ipHeader + Iphdr.check) (bytes check.toUInt16)
  let buffer ← write buffer (udpHeader + Udphdr.source) (bytes (htons sourcePort))
  let buffer ← write buffer (udpHeader + Udphdr.dest) (bytes (htons serverPort))
  let buffer ← write buffer (udpHeader + Udphdr.len)
    (bytes (htons (UInt16.ofNat (udpHdrLen + bufferSize))))
  let buffer ← write buffer (udpHeader + Udphdr.check) (bytes 0)
  let buffer ← strncpy buffer data hello bufferSize
  read buffer 0 (ethHdrLen + ipHdrLen + udpHdrLen + bufferSize)

end Hw7

inductive Client
  | hw5 | hw6 | hw7
  deriving DecidableEq, Repr

/-- The length of the local array. -/
def Client.size : Client → ℕ
  | .hw5 => Hw5.bufferSize
  | .hw6 => Hw6.bufferSize
  | .hw7 => Hw7.frameLen

/-- The local array before `main` writes to it. -/
abbrev Client.Buffer (c : Client) : Type := { m : Mem // m.length = c.size }

/-- What the client hands to `sendto`. -/
def Client.sent : (c : Client) → Mem → Option (List UInt8)
  | .hw5 => Hw5.sent
  | .hw6 => Hw6.sent
  | .hw7 => Hw7.sent

/-! ### The packets as sequences of writes -/

/-- The two bit-fields make up the first byte. -/
theorem version_ihl (m : Mem) (ip : ℕ) :
    ((Iphdr.version m ip 4).bind fun m' => Iphdr.ihl m' ip 5) = write m ip [0x45] := by
  refine assign_assign fun b => ?_
  obtain ⟨b⟩ := b
  apply UInt8.toBitVec_inj.1
  revert b
  decide +kernel

theorem inetPton_clientIp : inetPton clientIp = some [192, 168, 1, 37] := by decide

theorem inetPton_serverIp : inetPton serverIp = some [192, 168, 1, 41] := by decide

theorem etherAton_srcMac : etherAton srcMac = some [0x08, 0x00, 0x27, 0x16, 0xA3, 0x3C] := by decide

theorem etherAton_dstMac : etherAton dstMac = some [0x08, 0x00, 0x27, 0x68, 0xA4, 0x38] := by decide

/-- The text ends where it is meant to. -/
theorem nul_notMem_hello : 0 ∉ hello := by decide

namespace Hw5

/-- The writes before the length is known. -/
def start : List (ℕ × List UInt8) :=
  [(data, hello ++ [0]), (Udphdr.source, bytes (htons sourcePort)),
   (Udphdr.dest, bytes (htons serverPort))]

def rest (n : ℕ) : List (ℕ × List UInt8) :=
  [(Udphdr.len, bytes (htons (UInt16.ofNat (udpHdrLen + n)))), (Udphdr.check, bytes 0)]

theorem sent_eq (m : Mem) :
    sent m = (fill start m).bind fun m₁ => (strlen m₁ data).bind fun n =>
      (fill (rest n) m₁).bind fun m₂ => (strlen m₂ data).bind fun k =>
        read m₂ 0 (udpHdrLen + k) := by
  simp only [sent, start, rest, fill, strcpy, Option.bind_eq_bind, Option.bind_assoc,
    Option.bind_some]

end Hw5

namespace Hw6

/-- The writes before the length is known. -/
def start : List (ℕ × List UInt8) :=
  [(data, hello ++ [0]), (0, [0x45]), (Iphdr.protocol, [ipprotoUdp]),
   (Iphdr.totLen, bytes (htons (UInt16.ofNat (ipHdrLen + udpHdrLen + bufferSize)))),
   (Iphdr.check, bytes 0), (Iphdr.fragOff, bytes 0), (Iphdr.id, bytes 0), (Iphdr.ttl, [255]),
   (Iphdr.tos, [0]), (Iphdr.saddr, [192, 168, 1, 37]), (Iphdr.daddr, [192, 168, 1, 41]),
   (udpHeader + Udphdr.source, bytes (htons sourcePort)),
   (udpHeader + Udphdr.dest, bytes (htons serverPort))]

def rest (n : ℕ) : List (ℕ × List UInt8) :=
  [(udpHeader + Udphdr.len, bytes (htons (UInt16.ofNat (udpHdrLen + n)))),
   (udpHeader + Udphdr.check, bytes 0)]

theorem sent_eq (m : Mem) :
    sent m = (fill start m).bind fun m₁ => (strlen m₁ data).bind fun n =>
      (fill (rest n) m₁).bind fun m₂ => read m₂ 0 (ipHdrLen + udpHdrLen + bufferSize) := by
  simp only [sent, start, rest, fill, strcpy, inetPton_clientIp, inetPton_serverIp, ← version_ihl,
    Option.bind_eq_bind, Option.bind_assoc, Option.bind_some]

end Hw6

namespace Hw7

/-- The writes before the checksum is computed. -/
def start : List (ℕ × List UInt8) :=
  [(Ethhdr.hDest, [0x08, 0x00, 0x27, 0x68, 0xA4, 0x38]),
   (Ethhdr.hSource, [0x08, 0x00, 0x27, 0x16, 0xA3, 0x3C]),
   (Ethhdr.hProto, bytes (htons ethPIp)), (ipHeader, [0x45]),
   (ipHeader + Iphdr.protocol, [ipprotoUdp]),
   (ipHeader + Iphdr.totLen, bytes (htons (UInt16.ofNat (ipHdrLen + udpHdrLen + bufferSize)))),
   (ipHeader + Iphdr.fragOff, bytes 0), (ipHeader + Iphdr.ttl, [255]), (ipHeader + Iphdr.tos, [0]),
   (ipHeader + Iphdr.saddr, [192, 168, 1, 37]), (ipHeader + Iphdr.daddr, [192, 168, 1, 41])]

/-- The writes from the checksum on. -/
def rest (check : UInt16) : List (ℕ × List UInt8) :=
  [(ipHeader + Iphdr.check, bytes check), (udpHeader + Udphdr.source, bytes (htons sourcePort)),
   (udpHeader + Udphdr.dest, bytes (htons serverPort)),
   (udpHeader + Udphdr.len, bytes (htons (UInt16.ofNat (udpHdrLen + bufferSize)))),
   (udpHeader + Udphdr.check, bytes 0),
   (data, (hello ++ List.replicate bufferSize 0).take bufferSize)]

theorem sent_eq (m : Mem) :
    sent m = (fill start m).bind fun m₁ => (checksum m₁ ipHeader).bind fun check =>
      (fill (rest check.toUInt16) m₁).bind fun m₂ => read m₂ 0 frameLen := by
  simp only [sent, start, rest, fill, strncpy, inetPton_clientIp, inetPton_serverIp,
    etherAton_srcMac, etherAton_dstMac, ← version_ihl, frameLen, Option.bind_eq_bind,
    Option.bind_assoc, Option.bind_some]

end Hw7

end RawClients
end PosixHw
