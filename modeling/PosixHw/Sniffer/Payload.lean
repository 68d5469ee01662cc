import PosixHw.Sniffer.Bounds

/-!
# What the sniffer prints for a datagram

The length of UDP is read behind the IP header, wherever that ends.  The payload is printed from the
place where it begins if the IP header has no options; with options, the bytes printed are those
that stand that many places before the payload (`printed_iff`).
-/

namespace PosixHw
namespace Sniffer

/-- `IPPROTO_UDP` -/
def ipprotoUdp : UInt8 := 17

/-- A datagram as it is received: the IP header of five to fifteen words, that of UDP and the
payload, which fit into the array together. -/
structure Datagram where
  header : List UInt8
  udpHeader : List UInt8
  payload : List UInt8
  five_le : 5 ≤ ihl (header.getD 0 0)
  version_eq : (header.getD 0 0).toNat / 16 = 4
  length_header : header.length = ihl (header.getD 0 0) * 4
  protocol_eq : header.getD 9 0 = ipprotoUdp
  totLen_eq : ntohs (header.getD 2 0) (header.getD 3 0)
    = header.length + udpHeaderSize + payload.length
  length_udpHeader : udpHeader.length = udpHeaderSize
  udpLen_eq : ntohs (udpHeader.getD 4 0) (udpHeader.getD 5 0) = udpHeaderSize + payload.length
  fits : header.length + udpHeaderSize + payload.length ≤ bufferSize

namespace Datagram

/-- The bytes of the packet. -/
def bytes (d : Datagram) : List UInt8 := d.header ++ d.udpHeader ++ d.payload

/-- The bytes of the options. -/
def optionsLen (d : Datagram) : ℕ := d.header.length - ipHeaderSize

/-- What is printed for the datagram when the array held `old` before: the size of the payload, and
its bytes in order. -/
def Printed (d : Datagram) (old : Mem) : Prop :=
  ∃ out, (iteration (d.bytes ++ old.drop d.bytes.length)).value = some out ∧
    out.packetSize = d.payload.length ∧ out.data = d.payload.map shown

/-- Every byte of the payload looks like the one that stands as many places before it as there are
bytes of options. -/
def Repeats (d : Datagram) : Prop :=
  ∀ i < d.payload.length, shown (d.bytes.getD (ipHeaderSize + udpHeaderSize + i) 0)
    = shown (d.bytes.getD (ipHeaderSize + udpHeaderSize + i + d.optionsLen) 0)

variable {d : Datagram} {old : Mem}

theorem length_bytes (d : Datagram) :
    d.bytes.length = d.header.length + udpHeaderSize + d.payload.length := by
  rw [bytes, List.length_append, List.length_append, d.length_udpHeader]

theorem ipHeaderSize_le (d : Datagram) : ipHeaderSize ≤ d.header.length := by
  have hfive := d.five_le
  have hlen := d.length_header
  unfold ipHeaderSize
  omega

theorem getD_header {i : ℕ} (h : i < d.header.length) :
    (d.bytes ++ old).getD i 0 = d.header.getD i 0 := by
  rw [bytes, List.append_assoc, List.append_assoc, getD_append h]

theorem getD_udpHeader {i : ℕ} (h : i < udpHeaderSize) :
    (d.bytes ++ old).getD (d.header.length + i) 0 = d.udpHeader.getD i 0 := by
  rw [bytes, List.append_assoc, List.append_assoc, List.getD_eq_getElem?_getD,
    List.getElem?_append_right (Nat.le_add_right _ _), Nat.add_sub_cancel_left,
    List.getElem?_append_left (d.length_udpHeader.symm ▸ h), ← List.getD_eq_getElem?_getD]

/-- The length of UDP is found whatever the options are. -/
theorem udpLen_bytes (d : Datagram) (old : Mem) :
    udpLen (d.bytes ++ old) = udpHeaderSize + d.payload.length := by
  have hsize := d.ipHeaderSize_le
  have hfirst : (d.bytes ++ old).getD 0 0 = d.header.getD 0 0 := by
    refine getD_header ?_
    unfold ipHeaderSize at hsize
    omega
  rw [udpLen, hfirst, ← d.length_header, getD_udpHeader (by decide), getD_udpHeader (by decide),
    d.udpLen_eq]

/-- A byte of the payload, counted from the beginning of the packet. -/
theorem getD_payload (d : Datagram) (i : ℕ) :
    d.payload.getD i 0 = d.bytes.getD (ipHeaderSize + udpHeaderSize + i + d.optionsLen) 0 := by
  have hsize := d.ipHeaderSize_le
  have hfront : (d.header ++ d.udpHeader).length = d.header.length + udpHeaderSize := by
    rw [List.length_append, d.length_udpHeader]
  have hplace : ipHeaderSize + udpHeaderSize + i + d.optionsLen
      = (d.header ++ d.udpHeader).length + i := by
    rw [hfront]
    unfold optionsLen
    omega
  rw [hplace, bytes, List.getD_eq_getElem?_getD, List.getD_eq_getElem?_getD,
    List.getElem?_append_right (Nat.le_add_right _ _), Nat.add_sub_cancel_left]

theorem map_eq_iff {α : Type} {f : UInt8 → α} {l l' : List UInt8} (h : l.length = l'.length) :
    l.map f = l'.map f ↔ ∀ i < l'.length, f (l.getD i 0) = f (l'.getD i 0) := by
  rw [List.ext_getElem_iff]
  simp only [List.length_map, List.getElem_map, List.getD_eq_getElem?_getD]
  constructor
  · rintro ⟨-, hall⟩ i hi
    have heq := hall i (h ▸ hi) hi
    rwa [List.getElem?_eq_getElem (h ▸ hi), List.getElem?_eq_getElem hi]
  · intro hall
    refine ⟨h, fun i hi hi' => ?_⟩
    have heq := hall i hi'
    rwa [List.getElem?_eq_getElem hi, List.getElem?_eq_getElem hi'] at heq

/-- The loop prints the bytes from the 28th on. -/
theorem value_datagram (d : Datagram) (hold : old.length = bufferSize) :
    ∃ out, (iteration (d.bytes ++ old.drop d.bytes.length)).value = some out ∧
      out.packetSize = d.payload.length ∧
      out.data
        = ((d.bytes.drop (ipHeaderSize + udpHeaderSize)).take d.payload.length).map shown := by
  have hsize := d.ipHeaderSize_le
  have hfits := d.fits
  have hbytes := d.length_bytes
  have hlen : (d.bytes ++ old.drop d.bytes.length).length = bufferSize := by
    rw [List.length_append, List.length_drop]
    omega
  have hudp := d.udpLen_bytes (old.drop d.bytes.length)
  have hpayload : udpLen (d.bytes ++ old.drop d.bytes.length) - udpHeaderSize
      = d.payload.length := by
    rw [hudp, Nat.add_sub_cancel_left]
  -- the datagram is long enough for what is printed
  have hfront : ((d.bytes ++ old.drop d.bytes.length).drop (ipHeaderSize + udpHeaderSize)).take
      d.payload.length = (d.bytes.drop (ipHeaderSize + udpHeaderSize)).take d.payload.length := by
    rw [List.drop_append_of_le_length (by omega), List.take_append_of_le_length]
    rw [List.length_drop]
    omega
  refine ⟨_, value_iteration hlen (by omega) (by omega), hpayload, ?_⟩
  rw [hpayload]
  exact congrArg (List.map shown) hfront

/-- The payload is printed exactly if the bytes that are printed look like it. -/
theorem printed_iff_repeats (d : Datagram) (hold : old.length = bufferSize) :
    d.Printed old ↔ d.Repeats := by
  have hsize := d.ipHeaderSize_le
  have hbytes := d.length_bytes
  obtain ⟨out, hout, hpacket, hdata⟩ := d.value_datagram hold
  have hlen : ((d.bytes.drop (ipHeaderSize + udpHeaderSize)).take d.payload.length).length
      = d.payload.length := by
    rw [List.length_take_of_le]
    rw [List.length_drop]
    omega
  have hprinted : d.Printed old ↔ out.data = d.payload.map shown := by
    constructor
    · rintro ⟨out', hout', -, hdata'⟩
      rw [hout, Option.some_inj] at hout'
      rwa [hout']
    · intro h
      exact ⟨out, hout, hpacket, h⟩
  rw [hprinted, hdata, map_eq_iff hlen]
  refine forall₂_congr fun i hi => ?_
  rw [d.getD_payload, List.getD_eq_getElem?_getD, List.getElem?_take_of_lt hi,
    List.getElem?_drop, ← List.getD_eq_getElem?_getD]

theorem repeats_of_noOptions {d : Datagram} (h : d.optionsLen = 0) : d.Repeats := by
  intro i _
  rw [h, Nat.add_zero]

/-- Without options the payload is printed. -/
theorem printed_of_noOptions (d : Datagram) (hold : old.length = bufferSize)
    (h : d.optionsLen = 0) : d.Printed old :=
  (d.printed_iff_repeats hold).2 (repeats_of_noOptions h)

/-- **When the payload is printed**: exactly if the header has no options, or the packet repeats
itself so that the bytes before the payload look like it.  The size is right in any case. -/
theorem printed_iff (d : Datagram) (hold : old.length = bufferSize) :
    d.Printed old ↔ d.optionsLen = 0 ∨ d.Repeats := by
  rw [or_iff_right_of_imp repeats_of_noOptions]
  exact d.printed_iff_repeats hold

/-- A datagram with the text `hi` and four bytes of options, which are no operations. -/
def withOptions : Datagram where
  header := [0x46, 0, 0, 34, 0, 1, 0, 0, 64, 17, 121, 198, 127, 0, 0, 1, 127, 0, 0, 1, 1, 1, 1, 1]
  udpHeader := [0x30, 0x39, 0x1F, 0x90, 0, 10, 0, 0]
  payload := ['h'.toUInt8, 'i'.toUInt8]
  five_le := by decide
  version_eq := by decide
  length_header := by decide
  protocol_eq := by decide
  totLen_eq := by decide
  length_udpHeader := by decide
  udpLen_eq := by decide
  fits := by decide

/-- The datagram without the options. -/
def plain : Datagram where
  header := [0x45, 0, 0, 30, 0, 1, 0, 0, 64, 17, 124, 204, 127, 0, 0, 1, 127, 0, 0, 1]
  udpHeader := [0x30, 0x39, 0x1F, 0x90, 0, 10, 0, 0]
  payload := ['h'.toUInt8, 'i'.toUInt8]
  five_le := by decide
  version_eq := by decide
  length_header := by decide
  protocol_eq := by decide
  totLen_eq := by decide
  length_udpHeader := by decide
  udpLen_eq := by decide
  fits := by decide

theorem printed_plain : plain.Printed (List.replicate 100 0) :=
  (printed_iff plain List.length_replicate).2 (.inl (by decide))

/-- With options, the length and the checksum of UDP are printed in place of the text. -/
theorem withOptions_not_printed : ¬ ∀ (d : Datagram) (old : Mem), old.length = bufferSize →
    d.Printed old := by
  intro h
  obtain ⟨out, hout, -, hdata⟩ := h withOptions (List.replicate 100 0) List.length_replicate
  have hrun : (iteration (withOptions.bytes ++ (List.replicate 100 (0 : UInt8)).drop 34)).value.map
      Output.data = some (['.'.toUInt8, '.'.toUInt8]) := by
    decide +kernel
  have hprinted : some (withOptions.payload.map shown) = some ['.'.toUInt8, '.'.toUInt8] := by
    rw [← hdata, ← hrun]
    exact (congrArg (Option.map Output.data) hout).symm
  exact absurd hprinted (by decide)

end Datagram

end Sniffer
end PosixHw
