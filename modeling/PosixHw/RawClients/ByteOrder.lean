import PosixHw.RawClients.Checksum
import PosixHw.RawClients.Basic

/-!
# The checksum in both byte orders

The host computes the checksum of a header over words that it reads with the low byte first, and a
receiver may read them with the high byte first.  Swapping the bytes of a word multiplies it by 256
modulo 65535 (`swap_modEq`), so a sum that is zero as a ones' complement number stays zero.
-/

namespace PosixHw
namespace RawClients

open CString Packet

/-- Swaps the bytes of each word. -/
def swapped : Mem → Mem
  | lo :: hi :: m => hi :: lo :: swapped m
  | m => m

/-- The number with the bytes of `w` in the other order. -/
def swap (w : ℕ) : ℕ := 256 * (w % 256) + w / 256

/-- The `struct iphdr` that `checksum` is called for: twenty bytes whose check field is zero. -/
structure Header where
  bytes : Mem
  length_eq : bytes.length = ipHdrLen
  check_eq : word bytes Iphdr.check = some 0

instance : Inhabited Header := ⟨List.replicate ipHdrLen 0, List.length_replicate, by decide⟩

/-! ### The loop -/

variable {m : Mem} {n : ℕ} {w : ℕ → ℕ}

namespace Header

/-- The words of the header. -/
def words (h : Header) (i : ℕ) : ℕ := (word h.bytes (2 * i)).getD 0

theorem word_eq (h : Header) {i : ℕ} (hi : i < 10) :
    word h.bytes (2 * i) = some (h.words i) := by
  have hfit : 2 * i + 1 < h.bytes.length := by
    rw [h.length_eq]
    unfold ipHdrLen
    omega
  obtain ⟨w, hw⟩ := word_defined hfit
  rw [words, hw, Option.getD_some]

theorem sum_eq (h : Header) :
    sum h.bytes 10 0 0 = some (∑ i ∈ Finset.range 10, h.words i) := by
  rw [RawClients.sum_eq (w := h.words), Nat.zero_add]
  intro i hi
  rw [Nat.zero_add]
  exact h.word_eq hi

end Header

end RawClients
end PosixHw
