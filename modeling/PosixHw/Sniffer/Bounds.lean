import PosixHw.Sniffer.Basic

/-!
# What the sniffer reads

The places that the loop reads are taken from fields of the packet: the header length tells where
the UDP header is, and the length in there how many bytes are printed.  Neither is compared with the
number of bytes that were received.

`received_iff` says for which packets all of them are among the received bytes.
-/

namespace PosixHw
namespace Sniffer

/-- Only the first `n` bytes are read, and the loop ends. -/
def Safe (buffer : Mem) (n : ℕ) : Prop := (iteration buffer).Defined (· < n)

/-- `ntohs(udp_header->len)` -/
def udpLen (m : Mem) : ℕ :=
  ntohs (m.getD (ihl (m.getD 0 0) * 4 + 4) 0) (m.getD (ihl (m.getD 0 0) * 4 + 5) 0)

/-- The addresses and the length of UDP stand in the first `n` bytes, and the length has room for
its header and ends, counted from a header of twenty bytes, within them. -/
def Complete (m : Mem) (n : ℕ) : Prop :=
  ipHeaderSize ≤ n ∧ ihl (m.getD 0 0) * 4 + 6 ≤ n ∧ udpHeaderSize ≤ udpLen m ∧
    (udpLen m = udpHeaderSize ∨ ipHeaderSize + udpLen m ≤ n)

variable {m received old : Mem} {n : ℕ}

theorem ntohs_lt (hi lo : UInt8) : ntohs hi lo < 65536 := by
  have hhi := hi.toNat_lt
  have hlo := lo.toNat_lt
  unfold ntohs
  omega

theorem safe_iff_complete (hn : n ≤ m.length) (hlen : m.length = bufferSize) :
    Safe m n ↔ Complete m n := by
  have hlt : udpLen m < 65536 := ntohs_lt _ _
  unfold Safe iteration
  rw [defined_get_bind hn, defined_forBytes_bind hn, defined_forBytes_bind hn, defined_get_bind hn,
    defined_get_bind hn, defined_forBytes_bind hn]
  change _ ∧ _ ∧ _ ∧ _ ∧ _ ∧ (sizeT ((udpLen m : ℤ) - udpHeaderSize) = 0 ∨
    _ + sizeT ((udpLen m : ℤ) - udpHeaderSize) ≤ n) ∧ _ ↔ _
  rw [and_iff_left Trace.defined_pure]
  unfold Complete
  rcases lt_or_ge (udpLen m) udpHeaderSize with hshort | hlong
  · have hsize := le_sizeT hshort
    unfold bufferSize at hlen
    constructor
    · rintro ⟨-, -, -, -, -, hprint⟩
      omega
    · rintro ⟨-, -, hle, -⟩
      omega
  · rw [sizeT_of_le hlong hlt]
    unfold ipHeaderSize udpHeaderSize at *
    omega

/-- **What is printed** if all that is read stands in the array. -/
theorem value_iteration (hlen : m.length = bufferSize) (hlong : udpHeaderSize ≤ udpLen m)
    (hfit : ipHeaderSize + udpLen m ≤ bufferSize) :
    (iteration m).value = some ⟨inetNtoa (((m.drop 12).take 4).map id),
      inetNtoa (((m.drop 16).take 4).map id), udpLen m - udpHeaderSize,
      ((m.drop (ipHeaderSize + udpHeaderSize)).take (udpLen m - udpHeaderSize)).map shown⟩ := by
  have hget : ∀ i < bufferSize, (get m i).value = some (m.getD i 0) := by
    intro i hi
    rw [value_get, List.getD_eq_getElem?_getD, List.getElem?_eq_getElem (hlen ▸ hi),
      Option.getD_some]
  have hsize : sizeT ((udpLen m : ℤ) - udpHeaderSize) = udpLen m - udpHeaderSize :=
    sizeT_of_le hlong (ntohs_lt _ _)
  have hihl : ihl (m.getD 0 0) < 16 := Nat.mod_lt _ (by decide)
  unfold bufferSize ipHeaderSize udpHeaderSize at *
  unfold iteration
  rw [Trace.value_bind, hget 0 (by omega), Option.bind_some, Trace.value_bind,
    value_forBytes (by omega), Option.bind_some, Trace.value_bind, value_forBytes (by omega),
    Option.bind_some, Trace.value_bind, hget _ (by omega), Option.bind_some, Trace.value_bind,
    hget _ (by omega), Option.bind_some, Trace.value_bind]
  change (forBytes m shown (ipHeaderSize + udpHeaderSize)
    (sizeT ((udpLen m : ℤ) - udpHeaderSize))).value.bind _ = _
  unfold ipHeaderSize udpHeaderSize
  rw [hsize, value_forBytes (by omega), Option.bind_some]
  exact congrArg (fun size => some (Output.mk _ _ size _)) hsize

theorem getD_append {i : ℕ} (h : i < received.length) :
    (received ++ old).getD i 0 = received.getD i 0 := by
  rw [List.getD_eq_getElem?_getD, List.getElem?_append_left h, ← List.getD_eq_getElem?_getD]

/-- What stands behind the received bytes does not matter. -/
theorem complete_append :
    Complete (received ++ old) received.length ↔ Complete received received.length := by
  unfold Complete
  refine and_congr_right fun h20 => ?_
  have hfirst : (received ++ old).getD 0 0 = received.getD 0 0 := by
    refine getD_append ?_
    unfold ipHeaderSize at h20
    omega
  rw [hfirst]
  refine and_congr_right fun hudp => ?_
  have hlen : udpLen (received ++ old) = udpLen received := by
    unfold udpLen
    rw [hfirst, getD_append (by omega), getD_append (by omega)]
  rw [hlen]

/-- **When the sniffer reads received bytes only**: exactly if the packet is complete. -/
theorem received_iff (hold : old.length = bufferSize) (hlen : received.length ≤ bufferSize) :
    Safe (received ++ old.drop received.length) received.length ↔
      Complete received received.length := by
  have hbuffer : (received ++ old.drop received.length).length = bufferSize := by
    rw [List.length_append, List.length_drop]
    omega
  rw [safe_iff_complete (by omega) hbuffer, complete_append]

/-- The first 100 bytes of a datagram from one local port to another, with 73 bytes of text. -/
def longDatagram : List UInt8 :=
  [0x45, 0, 0, 101, 0, 1, 0, 0, 64, 17, 124, 133, 127, 0, 0, 1, 127, 0, 0, 1,
    0x30, 0x39, 0x1F, 0x90, 0, 81, 0, 0] ++ List.replicate 72 'a'.toUInt8

/-- A datagram with the text `hi`. -/
def hiDatagram : List UInt8 :=
  [0x45, 0, 0, 30, 0, 1, 0, 0, 64, 17, 124, 204, 127, 0, 0, 1, 127, 0, 0, 1,
    0x30, 0x39, 0x1F, 0x90, 0, 10, 0, 0, 'h'.toUInt8, 'i'.toUInt8]

theorem safe_hiDatagram : Safe (hiDatagram ++ List.replicate 70 0) 30 := by
  have hcomplete : Complete hiDatagram 30 := by
    refine ⟨?_, ?_, ?_, ?_⟩ <;> decide
  have hold : (List.replicate 100 (0 : UInt8)).length = bufferSize := List.length_replicate
  exact (received_iff hold (by decide)).2 hcomplete

/-- More than 72 bytes of text are printed to the end of the array and on. -/
theorem longDatagram_not_safe : ¬ ∀ received old : List UInt8, old.length = bufferSize →
    received.length ≤ bufferSize →
    Safe (received ++ old.drop received.length) received.length := by
  intro h
  have hsafe := h longDatagram (List.replicate 100 0) List.length_replicate (by decide)
  have hnot : ¬ (iteration (longDatagram ++ [])).Defined (· < 100) := by decide +kernel
  exact hnot hsafe

end Sniffer
end PosixHw
