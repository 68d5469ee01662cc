import PosixHw.RawClients.Uninitialised

/-!
# Does the header of hw7 verify?

A receiver adds the ten words of the IP header, the stored check field included, folds the carries
and accepts the header if the result is `0xFFFF`.

The client stores the complement of a sum over all ten words as well, and the check field is one of
them: nothing has cleared it.  So the header verifies only if the field held a zero before.
-/

namespace PosixHw
namespace RawClients
namespace Hw7

open CString Packet

/-- The test of a receiver. -/
def accepts (frame : List UInt8) : Bool := (sum frame 10 ipHeader 0).map fold == some 0xFFFF

/-- The header of the frame that is sent passes the test. -/
def Verifies (m : Mem) : Prop := ∃ frame, sent m = some frame ∧ accepts frame = true

variable {m m₁ a : Mem} {check : UInt16}

/-- After the checksum, only the check field of the header is written. -/
theorem headerWord_rest (ha : fill (rest check) m₁ = some a) {i : ℕ} (hi : i < 10)
    (hcheck : i ≠ 5) : headerWord a i = headerWord m₁ i := by
  have hfree : ∀ i < 10, i ≠ 5 → covered (rest 0) (ipHeader + 2 * i) = false ∧
      covered (rest 0) (ipHeader + 2 * i + 1) = false := by
    decide
  have hrest : ∀ q, covered (rest check) q = covered (rest 0) q := fun q => rfl
  obtain ⟨hlo, hhi⟩ := hfree i hi hcheck
  refine congrArg (fun o => Option.getD o 0) (word_congr ?_ ?_)
  · exact getElem?_fill_of_not_covered ha ((hrest _).trans hlo)
  · exact getElem?_fill_of_not_covered ha ((hrest _).trans hhi)

theorem headerWord_check_rest (ha : fill (rest check) m₁ = some a) :
    headerWord a 5 = check.toNat := by
  obtain ⟨hlo, hhi⟩ := bytes_check ha
  rw [← toNat_bytes check, headerWord, word]
  show Option.getD (a[ipHeader + Iphdr.check]?.bind fun lo =>
    a[ipHeader + Iphdr.check + 1]?.map fun hi => lo.toNat + 256 * hi.toNat) 0 = _
  rw [hlo, hhi, Option.bind_some, Option.map_some, Option.getD_some]

/-- The words other than the check field, the first of which is not zero. -/
theorem sum_others_pos (h : fill start m = some m₁) :
    0 < ∑ i ∈ (Finset.range 10).erase 5, headerWord m₁ i := by
  have hword := headerWord_version h
  exact Finset.sum_pos' (fun i _ => Nat.zero_le _) ⟨0, by decide, by omega⟩

/-- **When the header verifies**: exactly if the check field held a zero, `0x0000` or `0xFFFF`,
before `main` wrote anything. -/
theorem verifies_iff (m : Client.hw7.Buffer) :
    Verifies m.1 ↔ word m.1 (ipHeader + Iphdr.check) = some 0 ∨
      word m.1 (ipHeader + Iphdr.check) = some 0xFFFF := by
  obtain ⟨m, hm⟩ := m
  obtain ⟨m₁, c, a, h₁, hlen₁, hc, ha, hlen, hsent⟩ := sent_eq_read hm
  have hfive : 5 ∈ Finset.range 10 := by decide
  have hfit : ipHeader + Iphdr.check + 1 < frameLen := by decide
  obtain ⟨k, hk⟩ : ∃ k, word m (ipHeader + Iphdr.check) = some k := word_defined (hm ▸ hfit)
  have hframe : sent m = some a := by
    rw [hsent, ← hlen]
    exact read_all a
  have hothers : ∑ i ∈ (Finset.range 10).erase 5, headerWord a i
      = ∑ i ∈ (Finset.range 10).erase 5, headerWord m₁ i := by
    refine Finset.sum_congr rfl fun i hi => ?_
    exact headerWord_rest ha (Finset.mem_range.1 (Finset.mem_of_mem_erase hi))
      (Finset.ne_of_mem_erase hi)
  set r := ∑ i ∈ (Finset.range 10).erase 5, headerWord m₁ i with hr
  have hpos : 0 < r := sum_others_pos h₁
  -- the sum under the checksum has the old check field in it
  have hsum : sum m₁ 10 ipHeader 0 = some (r + k) := by
    rw [sum_header hlen₁, ← Finset.add_sum_erase _ _ hfive, ← hr, headerWord_check h₁, hk,
      Option.getD_some, add_comm]
  have hcheck : c.toUInt16.toNat = 65535 - fold (r + k) := by
    rw [checksum, hsum, Option.map_some, Option.some_inj] at hc
    rw [← hc, toNat_complement (fold_lt _)]
  have hfinal : sum a 10 ipHeader 0 = some (r + (65535 - fold (r + k))) := by
    rw [sum_header hlen, ← Finset.add_sum_erase _ _ hfive, hothers, headerWord_check_rest ha,
      hcheck, add_comm]
  have hverifies : Verifies m ↔ fold (r + (65535 - fold (r + k))) = 65535 := by
    rw [Verifies, hframe]
    simp only [Option.some_inj, exists_eq_left', accepts, hfinal, Option.map_some, beq_iff_eq]
  rw [hverifies, fold_complement_iff hpos, hk, Option.some_inj, Option.some_inj]
  have hlt : k < 65536 := word_lt hk
  unfold Nat.ModEq
  omega

/-- An array whose check field holds `0x0001` gives a header that does not verify. -/
theorem header_rejected : ¬ ∀ m : Client.hw7.Buffer, Verifies m.1 := by
  intro h
  have hlen : ((List.replicate 142 (0 : UInt8)).set 24 1).length = frameLen := by
    rw [List.length_set, List.length_replicate]
    rfl
  obtain ⟨frame, hframe, haccepts⟩ := h ⟨_, hlen⟩
  have hsent : (sent ((List.replicate 142 0).set 24 1)).map accepts = some false := by
    decide +kernel
  rw [hframe, Option.map_some, haccepts] at hsent
  exact absurd hsent (by decide)

end Hw7
end RawClients
end PosixHw
