import PosixHw.RawClients.Basic

/-!
# What the raw clients disclose

A client that writes every byte of its packet sends the same bytes whatever its array held before.

* `hw5` does so.
* `hw6` reads beyond the end of its array: the array has room for the text only.
* `hw7` sends two bytes that it never writes, the identification in the IP header, and computes the
  checksum over the old contents of the check field.

`discreet_iff` says when two runs cannot be told apart.
-/

namespace PosixHw
namespace RawClients

open CString Packet

/-- The same bytes are sent in both runs, all of them from the array. -/
def Client.Discreet (c : Client) (m m' : Mem) : Prop :=
  ∃ bs, c.sent m = some bs ∧ c.sent m' = some bs

/-! ### hw5 -/

namespace Hw5

theorem sent_eq_read {m : Mem} (hm : m.length = bufferSize) :
    ∃ a, fill (start ++ rest hello.length) m = some a ∧ a.length = bufferSize ∧
      sent m = read a 0 (udpHdrLen + hello.length) := by
  obtain ⟨a, ha⟩ : ∃ a, fill (start ++ rest hello.length) m = some a := by
    refine fill_defined ?_
    rw [hm]
    decide
  refine ⟨a, ha, (length_fill ha).trans hm, ?_⟩
  rw [fill_append] at ha
  obtain ⟨m₁, h₁, ha⟩ := Option.bind_eq_some_iff.1 ha
  -- the headers are before the text, so that `strlen` finds its end both times
  have hlen₁ : strlen m₁ data = some hello.length := by
    obtain ⟨m₀, h₀, h₁⟩ := Option.bind_eq_some_iff.1 h₁
    rw [strlen_fill h₁ (by decide)]
    exact strlen_strcpy h₀ nul_notMem_hello
  have hlen₂ : strlen a data = some hello.length := by
    rw [strlen_fill ha (by decide), hlen₁]
  rw [sent_eq, h₁, Option.bind_some, hlen₁, Option.bind_some, ha, Option.bind_some, hlen₂,
    Option.bind_some]

theorem covered_all : ∀ q < udpHdrLen + hello.length,
    covered (start ++ rest hello.length) q = true := by decide

theorem discreet {m m' : Mem} (hm : m.length = bufferSize) (hm' : m'.length = bufferSize) :
    Client.hw5.Discreet m m' := by
  obtain ⟨a, ha, hlen, hsent⟩ := sent_eq_read hm
  obtain ⟨a', ha', hlen', hsent'⟩ := sent_eq_read hm'
  have hfit : udpHdrLen + hello.length ≤ bufferSize := by decide
  have hsame : read a 0 (udpHdrLen + hello.length) = read a' 0 (udpHdrLen + hello.length) :=
    (read_eq_iff (hlen ▸ hfit) (hlen' ▸ hfit)).2 fun q hq =>
      fill_congr ha ha' (.inl (covered_all q hq))
  have hread : read a 0 (udpHdrLen + hello.length) = some _ := if_pos (by omega)
  exact ⟨_, hsent.trans hread, (hsent'.trans hsame.symm).trans hread⟩

end Hw5

/-! ### hw6 -/

namespace Hw6

/-- More bytes are sent than the array has. -/
theorem sent_eq_none {m : Mem} (hm : m.length = bufferSize) : sent m = none := by
  rw [sent_eq, Option.bind_eq_none_iff]
  intro m₁ h₁
  rw [Option.bind_eq_none_iff]
  intro n _
  rw [Option.bind_eq_none_iff]
  intro m₂ h₂
  have hlen : m₂.length = bufferSize := by rw [length_fill h₂, length_fill h₁, hm]
  refine if_neg ?_
  rw [hlen]
  decide

end Hw6

/-! ### hw7 -/

namespace Hw7

/-- Nothing that is sent depends on a difference between the two contents. -/
def Alike (m m' : Mem) : Prop :=
  word m (ipHeader + Iphdr.id) = word m' (ipHeader + Iphdr.id) ∧
  ∃ c c', word m (ipHeader + Iphdr.check) = some c ∧ word m' (ipHeader + Iphdr.check) = some c' ∧
    c ≡ c' [MOD 65535]

/-- The words of the IP header. -/
def headerWord (m : Mem) (i : ℕ) : ℕ := (word m (ipHeader + 2 * i)).getD 0

variable {m m' m₁ m₁' : Mem}

theorem word_eq_headerWord {i : ℕ} (hm : m.length = frameLen) (hi : i < 10) :
    word m (ipHeader + 2 * i) = some (headerWord m i) := by
  have hfit : ∀ i < 10, ipHeader + 2 * i + 1 < frameLen := by decide
  obtain ⟨w, hw⟩ := word_defined (hm ▸ hfit i hi)
  rw [headerWord, hw, Option.getD_some]

theorem sum_header (hm : m.length = frameLen) :
    sum m 10 ipHeader 0 = some (∑ i ∈ Finset.range 10, headerWord m i) := by
  rw [sum_eq fun i hi => word_eq_headerWord hm hi, Nat.zero_add]

/-- The first word is the version and the length, and a type of service of zero. -/
theorem headerWord_version (h : fill start m = some m₁) : headerWord m₁ 0 = 0x45 := by
  have hlo : m₁[ipHeader]? = some 0x45 := by
    rw [getElem?_fill h]
    rfl
  have hhi : m₁[ipHeader + 1]? = some 0 := by
    rw [getElem?_fill h]
    rfl
  rw [headerWord, Nat.mul_zero, Nat.add_zero, word, hlo, hhi]
  rfl

theorem sum_header_pos (h : fill start m = some m₁) :
    0 < ∑ i ∈ Finset.range 10, headerWord m₁ i := by
  have hword := headerWord_version h
  exact Finset.sum_pos' (fun i _ => Nat.zero_le _) ⟨0, by simp, by omega⟩

theorem checksum_defined (hm : m.length = frameLen) : ∃ c, checksum m ipHeader = some c :=
  ⟨_, by rw [checksum, sum_header hm, Option.map_some]⟩

/-- The writes from the checksum on are inside of the frame, whatever the checksum is. -/
theorem fill_rest_defined (hm : m.length = frameLen) (check : UInt16) :
    ∃ a, fill (rest check) m = some a := by
  refine fill_defined fun w hw => ?_
  have hends : (rest check).map (fun w => w.1 + w.2.length)
      = (rest 0).map fun w => w.1 + w.2.length := rfl
  have hend : w.1 + w.2.length ∈ (rest check).map fun w => w.1 + w.2.length :=
    List.mem_map.2 ⟨w, hw, rfl⟩
  have hall : ∀ n ∈ (rest 0).map fun w => w.1 + w.2.length, n ≤ frameLen := by decide
  rw [hends] at hend
  rw [hm]
  exact hall _ hend

theorem sent_eq_read (hm : m.length = frameLen) :
    ∃ m₁ check a, fill start m = some m₁ ∧ m₁.length = frameLen ∧
      checksum m₁ ipHeader = some check ∧ fill (rest check.toUInt16) m₁ = some a ∧
      a.length = frameLen ∧ sent m = read a 0 frameLen := by
  obtain ⟨m₁, h₁⟩ : ∃ m₁, fill start m = some m₁ := by
    refine fill_defined ?_
    rw [hm]
    decide
  have hlen₁ : m₁.length = frameLen := (length_fill h₁).trans hm
  obtain ⟨check, hcheck⟩ := checksum_defined hlen₁
  obtain ⟨a, ha⟩ := fill_rest_defined hlen₁ check.toUInt16
  refine ⟨m₁, check, a, h₁, hlen₁, hcheck, ha, (length_fill ha).trans hlen₁, ?_⟩
  rw [sent_eq, h₁, Option.bind_some, hcheck, Option.bind_some, ha, Option.bind_some]

/-- Where the header is written in both runs, or was equal before, its words are equal. -/
theorem headerWord_congr (h : fill start m = some m₁) (h' : fill start m' = some m₁')
    (hid : m[ipHeader + Iphdr.id]? = m'[ipHeader + Iphdr.id]? ∧
      m[ipHeader + Iphdr.id + 1]? = m'[ipHeader + Iphdr.id + 1]?) {i : ℕ} (hi : i < 10)
    (hcheck : i ≠ 5) : headerWord m₁ i = headerWord m₁' i := by
  have hwritten : ∀ i < 10, i ≠ 5 → i = 2 ∨
      covered start (ipHeader + 2 * i) = true ∧ covered start (ipHeader + 2 * i + 1) = true := by
    decide
  refine congrArg (fun o => Option.getD o 0) (word_congr ?_ ?_)
  · rcases hwritten i hi hcheck with rfl | ⟨hlo, -⟩
    · exact fill_congr h h' (.inr hid.1)
    · exact fill_congr h h' (.inl hlo)
  · rcases hwritten i hi hcheck with rfl | ⟨-, hhi⟩
    · exact fill_congr h h' (.inr hid.2)
    · exact fill_congr h h' (.inl hhi)

/-- The checksum is computed over the old contents of its own field. -/
theorem headerWord_check (h : fill start m = some m₁) :
    headerWord m₁ 5 = (word m (ipHeader + Iphdr.check)).getD 0 := by
  refine congrArg (fun o => Option.getD o 0) (word_congr ?_ ?_)
  · exact getElem?_fill_of_not_covered h rfl
  · exact getElem?_fill_of_not_covered h rfl

/-- With the same identification the checksums are equal exactly if the old check fields are, as
ones' complement numbers. -/
theorem check_eq_iff (h : fill start m = some m₁) (h' : fill start m' = some m₁')
    (hlen : m₁.length = frameLen) (hlen' : m₁'.length = frameLen)
    (hid : m[ipHeader + Iphdr.id]? = m'[ipHeader + Iphdr.id]? ∧
      m[ipHeader + Iphdr.id + 1]? = m'[ipHeader + Iphdr.id + 1]?) {c c' : Int16}
    (hc : checksum m₁ ipHeader = some c) (hc' : checksum m₁' ipHeader = some c') :
    c.toUInt16 = c'.toUInt16 ↔ (word m (ipHeader + Iphdr.check)).getD 0
      ≡ (word m' (ipHeader + Iphdr.check)).getD 0 [MOD 65535] := by
  have hfive : 5 ∈ Finset.range 10 := by decide
  have hrest : ∑ i ∈ (Finset.range 10).erase 5, headerWord m₁ i
      = ∑ i ∈ (Finset.range 10).erase 5, headerWord m₁' i := by
    refine Finset.sum_congr rfl fun i hi => ?_
    exact headerWord_congr h h' hid (Finset.mem_range.1 (Finset.mem_of_mem_erase hi))
      (Finset.ne_of_mem_erase hi)
  rw [checksum_eq_iff (sum_header hlen) (sum_header hlen') (sum_header_pos h) (sum_header_pos h')
    hc hc', ← Finset.add_sum_erase _ _ hfive, ← Finset.add_sum_erase _ (headerWord m₁') hfive,
    hrest, headerWord_check h, headerWord_check h']
  exact ⟨fun hmod => Nat.ModEq.add_right_cancel' _ hmod, fun hmod => hmod.add_right _⟩

/-- What stands in the frame where nothing is written. -/
theorem untouched {check : UInt16} {a : Mem} {q : ℕ} (h : fill start m = some m₁)
    (ha : fill (rest check) m₁ = some a) (hq : covered start q = false)
    (hq' : covered (rest 0) q = false) : a[q]? = m[q]? := by
  have hrest : covered (rest check) q = covered (rest 0) q := rfl
  rw [getElem?_fill_of_not_covered ha (hrest.trans hq'), getElem?_fill_of_not_covered h hq]

/-- Every other byte of the frame is written. -/
theorem covered_frame : ∀ q < frameLen, covered (rest 0) q = true ∨ covered start q = true ∨
    q = ipHeader + Iphdr.id ∨ q = ipHeader + Iphdr.id + 1 := by decide +kernel

/-- The check field of the frame is what was stored there. -/
theorem bytes_check {check : UInt16} {a : Mem} (ha : fill (rest check) m₁ = some a) :
    a[ipHeader + Iphdr.check]? = some check.toUInt8 ∧
      a[ipHeader + Iphdr.check + 1]? = some (check >>> 8).toUInt8 := by
  rw [getElem?_fill ha, getElem?_fill ha]
  exact ⟨rfl, rfl⟩

/-- **The frames of two runs are equal exactly if the contents are alike.** -/
theorem sent_eq_iff (hm : m.length = frameLen) (hm' : m'.length = frameLen) :
    sent m = sent m' ↔ Alike m m' := by
  obtain ⟨m₁, c, a, h₁, hlen₁, hc, ha, hlen, hsent⟩ := sent_eq_read hm
  obtain ⟨m₁', c', a', h₁', hlen₁', hc', ha', hlen', hsent'⟩ := sent_eq_read hm'
  have hidFit : ipHeader + Iphdr.id + 1 < frameLen := by decide
  have hcheckFit : ipHeader + Iphdr.check + 1 < frameLen := by decide
  obtain ⟨w, hw⟩ : ∃ w, word m (ipHeader + Iphdr.check) = some w := word_defined (hm ▸ hcheckFit)
  obtain ⟨w', hw'⟩ : ∃ w, word m' (ipHeader + Iphdr.check) = some w :=
    word_defined (hm' ▸ hcheckFit)
  rw [hsent, hsent', read_eq_iff hlen.ge hlen'.ge]
  constructor
  · intro hall
    have hid : m[ipHeader + Iphdr.id]? = m'[ipHeader + Iphdr.id]? := by
      have heq := hall (ipHeader + Iphdr.id) (by decide)
      rwa [untouched h₁ ha rfl rfl, untouched h₁' ha' rfl rfl] at heq
    have hid' : m[ipHeader + Iphdr.id + 1]? = m'[ipHeader + Iphdr.id + 1]? := by
      have heq := hall (ipHeader + Iphdr.id + 1) hidFit
      rwa [untouched h₁ ha rfl rfl, untouched h₁' ha' rfl rfl] at heq
    have hcheck : c.toUInt16 = c'.toUInt16 := by
      have hlo := hall (ipHeader + Iphdr.check) (by decide)
      have hhi := hall (ipHeader + Iphdr.check + 1) hcheckFit
      rw [(bytes_check ha).1, (bytes_check ha').1, Option.some_inj] at hlo
      rw [(bytes_check ha).2, (bytes_check ha').2, Option.some_inj] at hhi
      exact bytes_injective (by rw [bytes, bytes, hlo, hhi])
    have hmod := (check_eq_iff h₁ h₁' hlen₁ hlen₁' ⟨hid, hid'⟩ hc hc').1 hcheck
    rw [hw, hw'] at hmod
    exact ⟨word_congr hid hid', w, w', hw, hw', hmod⟩
  · rintro ⟨hword, v, v', hv, hv', hmod⟩ q hq
    have hid := bytes_eq_of_word_eq (hm ▸ hidFit) (hm' ▸ hidFit) hword
    have hcheck : c.toUInt16 = c'.toUInt16 := by
      refine (check_eq_iff h₁ h₁' hlen₁ hlen₁' hid hc hc').2 ?_
      rwa [hv, hv']
    rw [← hcheck] at ha'
    have hrest : covered (rest c.toUInt16) q = covered (rest 0) q := rfl
    refine fill_congr ha ha' ?_
    rcases covered_frame q hq with hcov | hcov | rfl | rfl
    · exact .inl (hrest.trans hcov)
    · exact .inr (fill_congr h₁ h₁' (.inl hcov))
    · exact .inr (fill_congr h₁ h₁' (.inr hid.1))
    · exact .inr (fill_congr h₁ h₁' (.inr hid.2))

theorem sent_defined (hm : m.length = frameLen) : ∃ bs, sent m = some bs := by
  obtain ⟨m₁, c, a, -, -, -, -, hlen, hsent⟩ := sent_eq_read hm
  exact ⟨_, hsent.trans (if_pos (by rw [Nat.zero_add, hlen]))⟩

end Hw7

/-! ### The three clients -/

/-- **When two runs of a client cannot be told apart**: always for `hw5`, never for `hw6`, and for
`hw7` if the arrays held the same identification and, as ones' complement numbers, the same check
field. -/
theorem discreet_iff (c : Client) (m m' : c.Buffer) :
    c.Discreet m m' ↔ c = .hw5 ∨ c = .hw7 ∧ Hw7.Alike m m' := by
  obtain ⟨m, hm⟩ := m
  obtain ⟨m', hm'⟩ := m'
  cases c with
  | hw5 => exact iff_of_true (Hw5.discreet hm hm') (.inl rfl)
  | hw6 =>
    refine iff_of_false ?_ (by simp)
    rintro ⟨bs, hsent, -⟩
    exact Option.some_ne_none bs (hsent.symm.trans (Hw6.sent_eq_none hm))
  | hw7 =>
    have hiff := Hw7.sent_eq_iff hm hm'
    obtain ⟨bs, hbs⟩ := Hw7.sent_defined hm
    constructor
    · rintro ⟨bs, hsent, hsent'⟩
      exact .inr ⟨rfl, hiff.1 (hsent.trans hsent'.symm)⟩
    · rintro (h | ⟨-, h⟩)
      · cases h
      · exact ⟨bs, hbs, (hiff.2 h).symm.trans hbs⟩

/-- Two bytes of the stack are sent, and `hw6` sends from beyond its array. -/
theorem identification_disclosed :
    ¬ Client.hw7.Discreet (List.replicate 142 0) ((List.replicate 142 0).set 18 1) ∧
      Client.hw6.sent (List.replicate 1024 0) = none := by
  constructor
  · rintro ⟨bs, hsent, hsent'⟩
    have hlen : ((List.replicate 142 (0 : UInt8)).set 18 1).length = Hw7.frameLen := by
      rw [List.length_set, List.length_replicate]
      rfl
    have halike := (Hw7.sent_eq_iff List.length_replicate hlen).1 (hsent.trans hsent'.symm)
    exact absurd halike.1 (by decide)
  · exact Hw6.sent_eq_none (by rw [List.length_replicate]; rfl)

end RawClients
end PosixHw
