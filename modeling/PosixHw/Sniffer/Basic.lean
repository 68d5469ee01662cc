import PosixHw.Base.CString
import PosixHw.Base.Trace

/-!
# The sniffer of hw4

The program receives packets from a raw socket, with their IP headers, into an array of 100 bytes,
and prints the addresses, the size of the payload and the payload.

* `iteration buffer` is what one turn of the loop does after `recvfrom`, and its events are the
  places of the array that it reads;
* the UDP header is looked for behind the IP header, as long as that is, and the payload 28 bytes
  into the array.

A read outside the array is undefined.
-/

namespace PosixHw
namespace Sniffer

/-- `BUFFER_SIZE` -/
def bufferSize : ℕ := 100

/-- `IP_HEADER_SIZE` -/
def ipHeaderSize : ℕ := 20

/-- `UDP_HEADER_SIZE` -/
def udpHeaderSize : ℕ := 8

/-- What is printed for a packet. -/
structure Output where
  source : String
  dest : String
  packetSize : ℕ
  data : List UInt8
  deriving DecidableEq

/-- `m[p]` -/
def get (m : Mem) (p : ℕ) : Trace ℕ UInt8 := do
  Trace.tell p
  Trace.lift m[p]?

/-- `for (i = 0; i < n; i++) f(m[p + i]);` -/
def forBytes {α : Type} (m : Mem) (f : UInt8 → α) : ℕ → ℕ → Trace ℕ (List α)
  | _, 0 => pure []
  | p, n + 1 => do
    let b ← get m p
    let bs ← forBytes m f (p + 1) n
    pure (f b :: bs)

/-- `inet_ntoa` -/
def inetNtoa (bs : List UInt8) : String := ".".intercalate (bs.map fun b => toString b.toNat)

/-- `ntohs` of the two bytes of a word in memory. -/
def ntohs (hi lo : UInt8) : ℕ := 256 * hi.toNat + lo.toNat

/-- The conversion of an `int` to `size_t`. -/
def sizeT (z : ℤ) : ℕ := (z % 2 ^ 64).toNat

/-- The character that is printed for a byte. -/
def shown (b : UInt8) : UInt8 := if 32 ≤ b ∧ b ≤ 126 then b else '.'.toUInt8

/-- `ip_header->ihl` -/
def ihl (b : UInt8) : ℕ := b.toNat % 16

/-- One turn of the loop, once the packet is in `buffer`. -/
def iteration (buffer : Mem) : Trace ℕ Output := do
  let first ← get buffer 0
  let udpHeader := ihl first * 4
  let saddr ← forBytes buffer id 12 4
  let daddr ← forBytes buffer id 16 4
  let hi ← get buffer (udpHeader + 4)
  let lo ← get buffer (udpHeader + 5)
  let packetSize := sizeT ((ntohs hi lo : ℤ) - udpHeaderSize)
  let data := ipHeaderSize + udpHeaderSize
  -- the counter is an `int`, and the array ends long before it could overflow
  let printed ← forBytes buffer shown data packetSize
  pure ⟨inetNtoa saddr, inetNtoa daddr, packetSize, printed⟩

/-! ### Reading -/

variable {α β : Type} {m : Mem} {p n k : ℕ}

theorem all_get {q : ℕ → Prop} : (get m p).All q ↔ q p := by
  unfold get
  rw [Trace.all_tell_bind, and_iff_left Trace.all_lift]

@[simp] theorem value_get : (get m p).value = m[p]? := rfl

/-- **A read of one of the first `k` bytes.** -/
theorem defined_get_bind (hk : k ≤ m.length) {f : UInt8 → Trace ℕ β} :
    (get m p >>= f).Defined (· < k) ↔ p < k ∧ (f (m.getD p 0)).Defined (· < k) := by
  rw [Trace.defined_bind, all_get, value_get]
  refine and_congr_right fun hp => ?_
  rw [List.getD_eq_getElem?_getD, List.getElem?_eq_getElem (hp.trans_le hk)]
  simp

/-- **A loop over `n` bytes** reads as far as it goes. -/
theorem defined_forBytes (hk : k ≤ m.length) {f : UInt8 → α} :
    (forBytes m f p n).Defined (· < k) ↔ n = 0 ∨ p + n ≤ k := by
  induction n generalizing p with
  | zero => simp [forBytes]
  | succ n ih =>
    have htail : ∀ b, (forBytes m f (p + 1) n >>= fun bs => pure (f b :: bs)).Defined (· < k)
        ↔ (forBytes m f (p + 1) n).Defined (· < k) := by
      intro b
      rw [Trace.defined_bind]
      simp [Trace.Defined]
    rw [forBytes, defined_get_bind hk, htail, ih]
    omega

theorem value_forBytes {f : UInt8 → α} (h : p + n ≤ m.length) :
    (forBytes m f p n).value = some (((m.drop p).take n).map f) := by
  induction n generalizing p with
  | zero => rfl
  | succ n ih =>
    have hp : p < m.length := by omega
    rw [forBytes, Trace.value_bind, value_get, List.getElem?_eq_getElem hp, Option.bind_some,
      Trace.value_bind, ih (by omega), List.drop_eq_getElem_cons hp]
    rfl

theorem defined_forBytes_bind (hk : k ≤ m.length) {f : UInt8 → α} {g : List α → Trace ℕ β} :
    (forBytes m f p n >>= g).Defined (· < k) ↔
      (n = 0 ∨ p + n ≤ k) ∧ (g (((m.drop p).take n).map f)).Defined (· < k) := by
  have hvalue : n = 0 ∨ p + n ≤ k →
      (forBytes m f p n).value = some (((m.drop p).take n).map f) := by
    rintro (rfl | h)
    · rfl
    · exact value_forBytes (h.trans hk)
  rw [Trace.defined_bind, ← defined_forBytes hk (f := f)]
  constructor
  · rintro ⟨hall, bs, hbs, hg⟩
    have hdef : (forBytes m f p n).Defined (· < k) := ⟨hall, bs, hbs⟩
    rw [hvalue ((defined_forBytes hk).1 hdef), Option.some_inj] at hbs
    exact ⟨hdef, hbs ▸ hg⟩
  · rintro ⟨hdef, hg⟩
    exact ⟨hdef.1, _, hvalue ((defined_forBytes hk).1 hdef), hg⟩

theorem sizeT_of_le (h : udpHeaderSize ≤ n) (hn : n < 65536) :
    sizeT ((n : ℤ) - udpHeaderSize) = n - udpHeaderSize := by
  unfold sizeT
  omega

/-- The size wraps around if the length is less than that of the UDP header. -/
theorem le_sizeT (h : n < udpHeaderSize) : 2 ^ 63 ≤ sizeT ((n : ℤ) - udpHeaderSize) := by
  unfold udpHeaderSize at *
  unfold sizeT
  omega

end Sniffer
end PosixHw
