import PosixHw.Base.CString

/-!
# Programs that read lines

A turn of the program reads from the input and handles a text, and may stop: `Turn`.  `turns` makes
the turns one after the other and collects the texts.

The program reads ahead: a part of the input is in its buffer, and the file offset stands behind
that.  The program shares the offset, but not the buffer, with its children, so what they do decides
what it reads when the buffer is empty: `Sharing`.  It reads the lines as they stand if in every
turn the children leave the offset where it is, or a line that makes the program stop is already in
the buffer: `Undisturbed`.

`lines` are the lines of an input: those with a newline (`terminated`), and what comes after the
last newline (`final`) unless it is empty.  `upTo exits` are those up to the first one that `exits`.

`handles_iff` says for which inputs an undisturbed program handles exactly these and then stops, for
a program that does so with the terminated lines that are `ok`, and with no other line.
-/

namespace PosixHw
namespace Lines

open CString

/-! ### Lines -/

def terminated (input : List UInt8) : List (List UInt8) := (input.splitOn newline).dropLast

def final (input : List UInt8) : List UInt8 := (input.splitOn newline).getLastD []

def lines (input : List UInt8) : List (List UInt8) :=
  terminated input ++ if final input = [] then [] else [final input]

/-- The elements up to the first one with `p`. -/
def upTo {α : Type*} (p : α → Bool) : List α → List α
  | [] => []
  | a :: l => if p a then [a] else a :: upTo p l

/-- The bytes of the lines, each with its newline. -/
def bytes : List (List UInt8) → List UInt8
  | [] => []
  | l :: ls => l ++ newline :: bytes ls

section Lines

variable {s rest : List UInt8}

theorem terminated_line (hs : newline ∉ s) :
    terminated (s ++ newline :: rest) = s :: terminated rest := by
  rw [terminated, List.splitOn_append_cons_self_of_not_mem hs,
    List.dropLast_cons_of_ne_nil (List.splitOn_ne_nil _ _)]
  rfl

theorem final_line (hs : newline ∉ s) : final (s ++ newline :: rest) = final rest := by
  rw [final, List.splitOn_append_cons_self_of_not_mem hs, final]
  obtain ⟨t, ts, ht⟩ := List.exists_cons_of_ne_nil (List.splitOn_ne_nil newline rest)
  rw [ht]
  rfl

theorem terminated_of_notMem (hs : newline ∉ s) : terminated s = [] := by
  rw [terminated, List.splitOn_eq_singleton hs]
  rfl

theorem final_of_notMem (hs : newline ∉ s) : final s = s := by
  rw [final, List.splitOn_eq_singleton hs]
  rfl

theorem bytes_append (ls ks : List (List UInt8)) : bytes (ls ++ ks) = bytes ls ++ bytes ks := by
  induction ls with
  | nil => rfl
  | cons l ls ih =>
    show l ++ newline :: bytes (ls ++ ks) = l ++ newline :: bytes ls ++ bytes ks
    rw [ih, List.append_assoc, List.cons_append]

theorem mem_bytes {l : List UInt8} {ls : List (List UInt8)} (hl : l ∈ ls) {b : UInt8}
    (hb : b ∈ l) : b ∈ bytes ls := by
  obtain ⟨ks, ks', rfl⟩ := List.append_of_mem hl
  rw [bytes_append, bytes]
  exact List.mem_append_right _ (List.mem_append_left _ hb)

/-- The lines make up the input, and there is no newline within them. -/
theorem bytes_terminated (input : List UInt8) :
    bytes (terminated input) ++ final input = input ∧
      (∀ l ∈ terminated input, newline ∉ l) ∧ newline ∉ final input := by
  induction hn : input.length using Nat.strong_induction_on generalizing input with
  | _ n ih =>
    by_cases hnl : newline ∈ input
    · obtain ⟨l, rest, rfl, hl⟩ := List.eq_append_cons_of_mem hnl
      rw [List.length_append, List.length_cons] at hn
      obtain ⟨hbytes, hterm, hfinal⟩ := ih rest.length (by omega) rest rfl
      rw [terminated_line hl, final_line hl]
      refine ⟨?_, List.forall_mem_cons.2 ⟨hl, hterm⟩, hfinal⟩
      rw [bytes, List.append_assoc, List.cons_append, hbytes]
    · rw [terminated_of_notMem hnl, final_of_notMem hnl]
      exact ⟨rfl, List.forall_mem_nil _, hnl⟩

end Lines

section UpTo

variable {α : Type*} {p : α → Bool} {l ks : List α}

theorem exists_upTo_cons (p : α → Bool) (a : α) (l : List α) : ∃ ks, upTo p (a :: l) = a :: ks := by
  rw [upTo]
  split_ifs
  · exact ⟨[], rfl⟩
  · exact ⟨_, rfl⟩

theorem upTo_append (h : ∃ a ∈ l, p a = true) : upTo p (l ++ ks) = upTo p l := by
  induction l with
  | nil => obtain ⟨a, ha, -⟩ := h; cases ha
  | cons b l ih =>
    rw [List.cons_append, upTo, upTo]
    split_ifs with hb
    · rfl
    · obtain ⟨a, ha, hp⟩ := h
      have hmem : a ∈ l := (List.mem_cons.1 ha).resolve_left fun he => hb (he ▸ hp)
      rw [ih ⟨a, hmem, hp⟩]

theorem upTo_upTo (p : α → Bool) (l : List α) : upTo p (upTo p l) = upTo p l := by
  induction l with
  | nil => rfl
  | cons a l ih =>
    rw [upTo]
    split_ifs with ha
    · rw [upTo, if_pos ha]
    · rw [upTo, if_neg ha, ih]

theorem upTo_of_forall (h : ∀ a ∈ l, p a = false) : upTo p l = l := by
  induction l with
  | nil => rfl
  | cons a l ih =>
    obtain ⟨ha, hl⟩ := List.forall_mem_cons.1 h
    rw [upTo, if_neg (Bool.not_eq_true _ ▸ ha), ih hl]

theorem prefix_upTo (p : α → Bool) (l : List α) : upTo p l <+: l := by
  induction l with
  | nil => exact List.nil_prefix
  | cons a l ih =>
    rw [upTo]
    split_ifs
    · exact ⟨l, rfl⟩
    · exact List.prefix_cons_inj a |>.2 ih

theorem exists_upTo_iff : (∃ a ∈ upTo p l, p a = true) ↔ ∃ a ∈ l, p a = true := by
  refine ⟨fun ⟨a, ha, hp⟩ => ⟨a, (prefix_upTo p l).subset ha, hp⟩, fun h => ?_⟩
  induction l with
  | nil => exact h
  | cons b l ih =>
    rw [upTo]
    split_ifs with hb
    · exact ⟨b, List.mem_singleton_self b, hb⟩
    · obtain ⟨a, ha, hp⟩ := h
      have hmem : a ∈ l := (List.mem_cons.1 ha).resolve_left fun he => hb (he ▸ hp)
      obtain ⟨c, hc, hpc⟩ := ih ⟨a, hmem, hp⟩
      exact ⟨c, List.mem_cons_of_mem b hc, hpc⟩

end UpTo

/-! ### Turns -/

/-- What a turn does: it meets the end of the input, or it handles a text and stops, or goes on. -/
inductive Turn (σ : Type)
  | stop
  | last (text : List UInt8)
  | next (text : List UInt8) (s : σ) (rest : List UInt8)

/-- The text that is handled. -/
def Turn.text {σ : Type} : Turn σ → Option (List UInt8)
  | .stop => none
  | .last t => some t
  | .next t _ _ => some t

/-- The input: what the program has in its buffer, and what is behind the file offset. -/
structure Input where
  buffer : List UInt8
  rest : List UInt8

/-- What the program reads if nobody moves the offset. -/
def Input.bytes (f : Input) : List UInt8 := f.buffer ++ f.rest

/-- What happens besides in the turn `k`: how many of the bytes that it has not handled the program
has in its buffer after it, what is behind the offset when the children of the turn have ended, and
whether a call fails that ends the program. -/
structure Sharing where
  buffered : ℕ → ℕ
  left : ℕ → Input → List UInt8
  ends : ℕ → Bool

/-- The children of the turn `k` leave the offset where it is. -/
def Sharing.Leaves (w : Sharing) (k : ℕ) : Prop :=
  ∀ f : Input, f.buffer.length ≤ w.buffered k → w.left k f = f.rest

/-- The lines `ls` are read as they stand, from the turn `k` on: in no turn the program ends, and
whenever the children move the offset, the lines to come are in the buffer, up to one that exits. -/
structure Sharing.Undisturbed (w : Sharing) (exits : List UInt8 → Prop) (k : ℕ)
    (ls : List (List UInt8)) : Prop where
  goes : ∀ j, w.ends (k + j) = false
  reads : ∀ j, w.Leaves (k + j) ∨
    (∃ l ∈ ls, exits l) ∧ (bytes (ls.drop (j + 1))).length ≤ w.buffered (k + j)

/-- The input after the turn `k`, which has not handled the bytes `rest`. -/
def Sharing.after (w : Sharing) (k : ℕ) (rest : List UInt8) : Input where
  buffer := rest.take (w.buffered k)
  rest := w.left k ⟨rest.take (w.buffered k), rest.drop (w.buffered k)⟩

theorem Sharing.Leaves.after_bytes {w : Sharing} {k : ℕ} (h : w.Leaves k) (rest : List UInt8) :
    (w.after k rest).bytes = rest := by
  rw [Input.bytes, Sharing.after, h _ (List.length_take_le _ _)]
  exact List.take_append_drop _ _

/-- What the buffer holds is read, whatever the children do. -/
theorem Sharing.after_bytes_append {w : Sharing} {k : ℕ} {p : List UInt8}
    (hp : p.length ≤ w.buffered k) (rest : List UInt8) :
    ∃ r, (w.after k (p ++ rest)).bytes = p ++ r := by
  refine ⟨rest.take (w.buffered k - p.length) ++ (w.after k (p ++ rest)).rest, ?_⟩
  rw [Input.bytes, Sharing.after, List.take_append, List.take_of_length_le hp, List.append_assoc]

theorem Sharing.Undisturbed.tail {w : Sharing} {exits : List UInt8 → Prop} {k : ℕ}
    {l : List UInt8} {ls : List (List UInt8)} (h : w.Undisturbed exits k (l :: ls))
    (hl : ¬ exits l) : w.Undisturbed exits (k + 1) ls where
  goes j := Nat.add_right_comm k j 1 ▸ Nat.add_assoc k j 1 ▸ h.goes (j + 1)
  reads j := by
    have hj := h.reads (j + 1)
    rw [← Nat.add_assoc, Nat.add_right_comm] at hj
    refine hj.imp_right fun ⟨⟨a, ha, hexit⟩, hlen⟩ => ⟨⟨a, ?_, hexit⟩, hlen⟩
    exact (List.mem_cons.1 ha).resolve_left fun he => hl (he ▸ hexit)

section Turns

variable {σ : Type} (turn : σ → List UInt8 → Option (Turn σ)) (w : Sharing)

/-- At most `n` turns from the turn `k` on, with the texts that they handle; `none` if the program
does not stop in these, or has done something undefined. -/
def turns : ℕ → ℕ → σ → Input → Option (List (List UInt8))
  | 0, _, _, _ => none
  | n + 1, k, s, f =>
    match turn s f.bytes with
    | none => none
    | some .stop => some []
    | some (.last t) => some [t]
    | some (.next t s' rest) =>
      if w.ends k then some [t]
      else (turns n (k + 1) s' (w.after k rest)).map fun ts => t :: ts

/-- The program handles the texts `ts`, from the turn `k` on, and stops. -/
def HandlesFrom (k : ℕ) (s : σ) (f : Input) (ts : List (List UInt8)) : Prop :=
  ∃ n, turns turn w n k s f = some ts

/-- The program handles the texts `ts` of the input and stops. -/
def Handles (s : σ) (input : List UInt8) (ts : List (List UInt8)) : Prop :=
  HandlesFrom turn w 0 s ⟨[], input⟩ ts

variable {turn w} {k : ℕ} {s s' : σ} {f : Input} {input rest t : List UInt8}
  {ts : List (List UInt8)}

theorem HandlesFrom.of_last (h : turn s f.bytes = some (.last t)) :
    HandlesFrom turn w k s f ts ↔ ts = [t] := by
  constructor
  · rintro ⟨n | n, hn⟩
    · cases hn
    · rw [turns, h] at hn
      exact (Option.some.inj hn).symm
  · rintro rfl
    exact ⟨1, by rw [turns, h]⟩

theorem HandlesFrom.of_next (h : turn s f.bytes = some (.next t s' rest))
    (hw : w.ends k = false) :
    HandlesFrom turn w k s f (t :: ts) ↔
      HandlesFrom turn w (k + 1) s' (w.after k rest) ts := by
  have hgo : ¬ w.ends k = true := by rw [hw]; exact Bool.false_ne_true
  constructor
  · rintro ⟨n | n, hn⟩
    · cases hn
    · rw [turns, h] at hn
      obtain ⟨ts', hts', he⟩ := Option.map_eq_some_iff.1 ((if_neg hgo).symm.trans hn)
      exact ⟨n, hts'.trans (congrArg some (List.cons.inj he).2)⟩
  · rintro ⟨n, hn⟩
    refine ⟨n + 1, ?_⟩
    rw [turns, h]
    refine (if_neg hgo).trans ?_
    rw [hn, Option.map_some]

/-- The first text is that of the first turn. -/
theorem HandlesFrom.head (h : HandlesFrom turn w k s f (t :: ts)) :
    ∃ r, turn s f.bytes = some r ∧ r.text = some t := by
  obtain ⟨n | n, hn⟩ := h
  · cases hn
  · rw [turns] at hn
    split at hn
    · cases hn
    · cases hn
    · rename_i h
      exact ⟨_, h, congrArg List.head? (Option.some.inj hn)⟩
    · rename_i h
      refine ⟨_, h, ?_⟩
      split_ifs at hn
      · exact congrArg List.head? (Option.some.inj hn)
      · obtain ⟨ts', -, he⟩ := Option.map_eq_some_iff.1 hn
        exact congrArg some (List.cons.inj he).1

/-- So a text that the first turn does not handle is not the first one. -/
theorem not_handlesFrom_upTo {p : List UInt8 → Bool} {ls : List (List UInt8)}
    (h : ∀ r, turn s f.bytes = some r → r.text ≠ some t) :
    ¬ HandlesFrom turn w k s f (upTo p (t :: ls)) := by
  obtain ⟨ts, hts⟩ := exists_upTo_cons p t ls
  intro hh
  rw [hts] at hh
  obtain ⟨r, hr, htext⟩ := hh.head
  exact h r hr htext

theorem handlesFrom_nil : HandlesFrom turn w k s f [] ↔ turn s f.bytes = some .stop := by
  constructor
  · rintro ⟨n | n, hn⟩
    · cases hn
    · rw [turns] at hn
      split at hn
      · cases hn
      · assumption
      · cases hn
      · split_ifs at hn
        · cases hn
        · obtain ⟨ts', -, he⟩ := Option.map_eq_some_iff.1 hn
          cases he
  · intro h
    exact ⟨1, by rw [turns, h]⟩

/-! ### Which inputs are read right -/

variable {ok exits : List UInt8 → Prop} [DecidablePred exits] {ends : Prop}

/-- What a turn does with a line that has a newline, without one, and at the end of the input. -/
structure Reader (turn : σ → List UInt8 → Option (Turn σ)) (ok exits : List UInt8 → Prop)
    (ends : Prop) : Prop where
  exit : ∀ s l rest, newline ∉ l → 0 ∉ l → ok l → exits l →
    turn s (l ++ newline :: rest) = some (.last l)
  next : ∀ s l rest, newline ∉ l → 0 ∉ l → ok l → ¬ exits l →
    ∃ s', turn s (l ++ newline :: rest) = some (.next l s' rest)
  bad : ∀ s l rest r, newline ∉ l → 0 ∉ l → ¬ ok l → turn s (l ++ newline :: rest) = some r →
    r.text ≠ some l
  final : ∀ s l r, newline ∉ l → 0 ∉ l → l ≠ [] → turn s l = some r → r.text ≠ some l
  stop : ∀ s, turn s [] = some .stop ↔ ends

/-- What is made of the text after the last newline, or of the end of the input. -/
theorem Reader.handlesFrom_final (h : Reader turn ok exits ends) (hnl : newline ∉ f.bytes)
    (h0 : 0 ∉ f.bytes) :
    HandlesFrom turn w k s f
        (upTo (fun l => exits l) (if f.bytes = [] then [] else [f.bytes])) ↔
      ends ∧ f.bytes = [] := by
  by_cases hnil : f.bytes = []
  · rw [if_pos hnil, and_iff_left hnil]
    exact handlesFrom_nil.trans (hnil ▸ h.stop s)
  · rw [if_neg hnil]
    exact iff_of_false (not_handlesFrom_upTo fun r hr => h.final s _ r hnl h0 hnil hr)
      fun hh => hnil hh.2

/-- The lines `ls` go up to one that exits, or `r` is the text after the last newline. -/
theorem Reader.handlesFrom_iff (h : Reader turn ok exits ends) {ls : List (List UInt8)}
    {r : List UInt8} (hls : ∀ l ∈ ls, newline ∉ l ∧ 0 ∉ l)
    (hup : upTo (fun l => decide (exits l)) ls = ls)
    (hr : (∃ l ∈ ls, exits l) ∨ newline ∉ r ∧ 0 ∉ r) (hw : w.Undisturbed exits k ls)
    (hf : f.bytes = bytes ls ++ r) :
    HandlesFrom turn w k s f (upTo (fun l => exits l) (ls ++ if r = [] then [] else [r])) ↔
      (∀ l ∈ ls, ok l) ∧ (ends ∧ r = [] ∨ ∃ l ∈ ls, exits l) := by
  induction ls generalizing k s f r with
  | nil =>
    obtain ⟨hnl, h0⟩ : newline ∉ r ∧ 0 ∉ r := hr.resolve_left (by simp)
    obtain rfl : f.bytes = r := hf
    simpa using h.handlesFrom_final (w := w) (k := k) (s := s) hnl h0
  | cons l ls ih =>
    obtain ⟨⟨hl, h0⟩, hls⟩ := List.forall_mem_cons.1 hls
    have hbytes : f.bytes = l ++ newline :: (bytes ls ++ r) := by
      rw [hf, bytes, List.append_assoc, List.cons_append]
    by_cases hok : ok l
    · by_cases hex : exits l
      · have hturn : turn s f.bytes = some (.last l) := hbytes ▸ h.exit s l _ hl h0 hok hex
        have hnil : ls = [] := by
          rw [upTo, if_pos (decide_eq_true hex)] at hup
          exact (List.cons.inj hup).2.symm
        rw [List.cons_append, upTo, if_pos (decide_eq_true hex), HandlesFrom.of_last hturn, hnil]
        simp [hok, hex]
      · have hdec : ¬ decide (exits l) = true := by simpa using hex
        obtain ⟨s', hs'⟩ := h.next s l (bytes ls ++ r) hl h0 hok hex
        have hturn : turn s f.bytes = some (.next l s' (bytes ls ++ r)) := hbytes ▸ hs'
        have hup' : upTo (fun l => decide (exits l)) ls = ls := by
          rw [upTo, if_neg hdec] at hup
          exact (List.cons.inj hup).2
        have hgoes : w.ends k = false := hw.goes 0
        have hexists : (∃ a ∈ l :: ls, exits a) ↔ ∃ a ∈ ls, exits a := by simp [hex]
        rw [List.cons_append, upTo, if_neg hdec, HandlesFrom.of_next hturn hgoes,
          List.forall_mem_cons, and_iff_right hok, hexists]
        rw [hexists] at hr
        rcases hw.reads 0 with hleaves | ⟨hexit, hlen⟩
        · exact ih hls hup' hr (hw.tail hex) (hleaves.after_bytes _)
        · -- The lines that are in the buffer are read, and what comes after them is not.
          have hexit := hexists.1 hexit
          obtain ⟨r', hr'⟩ : ∃ r', (w.after k (bytes ls ++ r)).bytes = bytes ls ++ r' :=
            Sharing.after_bytes_append hlen r
          have hih := ih (s := s') hls hup' (.inl hexit) (hw.tail hex) hr'
          have hdecide : ∃ a ∈ ls, decide (exits a) = true := by simpa using hexit
          rw [upTo_append hdecide] at hih ⊢
          rw [hih]
          exact and_congr_right fun _ => iff_of_true (.inr hexit) (.inr hexit)
    · refine iff_of_false ?_ fun hh => hok (hh.1 l List.mem_cons_self)
      rw [List.cons_append]
      exact not_handlesFrom_upTo fun t ht => h.bad s l _ t hl h0 hok (hbytes ▸ ht)

/-- **Which inputs are read right**: undisturbed, the program handles the lines up to the first that
exits, and stops, exactly if all of these are `ok`, and one of them exits or the input ends after a
newline and the program stops there. -/
theorem Reader.handles_iff (h : Reader turn ok exits ends) (s : σ) (h0 : 0 ∉ input)
    (hw : w.Undisturbed exits 0 (upTo (fun l => exits l) (terminated input))) :
    Handles turn w s input (upTo (fun l => exits l) (lines input)) ↔
      (∀ l ∈ upTo (fun l => exits l) (terminated input), ok l) ∧
        (ends ∧ Lines.final input = [] ∨ ∃ l ∈ terminated input, exits l) := by
  obtain ⟨hbytes, hterm, hfinal⟩ := bytes_terminated input
  have hsubset : ∀ b ∈ bytes (terminated input) ++ Lines.final input, b ∈ input := fun b hb =>
    hbytes ▸ hb
  have hls : ∀ l ∈ upTo (fun l => decide (exits l)) (terminated input), newline ∉ l ∧ 0 ∉ l := by
    intro l hl
    have hmem := (prefix_upTo _ _).subset hl
    exact ⟨hterm l hmem, fun hb => h0 (hsubset 0 (List.mem_append_left _ (mem_bytes hmem hb)))⟩
  have hexists : (∃ l ∈ upTo (fun l => decide (exits l)) (terminated input), exits l) ↔
      ∃ l ∈ terminated input, exits l := by
    simpa using exists_upTo_iff (p := fun l => decide (exits l)) (l := terminated input)
  by_cases hexit : ∃ l ∈ terminated input, exits l
  · -- What comes after the line that exits is of no account.
    obtain ⟨ks, hks⟩ := prefix_upTo (fun l => decide (exits l)) (terminated input)
    have hdecide : ∃ l ∈ terminated input, decide (exits l) = true := by simpa using hexit
    have hinput : (⟨[], input⟩ : Input).bytes
        = bytes (upTo (fun l => decide (exits l)) (terminated input))
          ++ (bytes ks ++ Lines.final input) := by
      rw [← List.append_assoc, ← bytes_append, hks]
      exact hbytes.symm
    have hiff := h.handlesFrom_iff (s := s) hls (upTo_upTo _ _) (.inl (hexists.2 hexit)) hw hinput
    rw [upTo_append (exists_upTo_iff.2 hdecide), upTo_upTo, hexists] at hiff
    rw [Handles, lines, upTo_append hdecide, hiff]
    exact and_congr_right fun _ => iff_of_true (.inr hexit) (.inr hexit)
  · have hall : ∀ l ∈ terminated input, decide (exits l) = false := fun l hl =>
      decide_eq_false fun h => hexit ⟨l, hl, h⟩
    rw [upTo_of_forall hall] at hw hls ⊢
    exact h.handlesFrom_iff hls (upTo_of_forall hall)
      (.inr ⟨hfinal, fun hb => h0 (hsubset 0 (List.mem_append_right _ hb))⟩) hw hbytes.symm

end Turns

end Lines
end PosixHw
