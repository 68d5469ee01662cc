import PosixHw.Base.Lists
import PosixHw.Shell.Reading

/-!
# The shell with pipes: what is started for any text

Every call of `strtok` on a stage overwrites at most one space of what is left of it, so the words
already found stay where they are (`tokenLoop_written`).  The calls for `'|'` leave the first stage
and the second one apart, with a NUL after each, and the calls for `' '` on one of them do not touch
the other.

The guarded loops keep the first nine words of a stage, and only the first two tokens between bars
become stages.  So a text with two tokens or more is run as the first nine words of the first one
and the first nine of the second one, whatever else there is (`parse_tokens`).
-/

namespace PosixHw
namespace Shell

open CString

/-- The pointers `ps` point to the words `ws`, before the place `n` of the memory. -/
def Points (m : Mem) (n : ℕ) (ps : List ℕ) (ws : List (List UInt8)) : Prop :=
  List.Forall₂ (fun p w => p ≤ n ∧ str m p = w) ps ws

theorem argv_points {m : Mem} {n : ℕ} {ps : List ℕ} {ws : List (List UInt8)}
    (h : Points m n ps ws) (rest : List (Option ℕ)) :
    argv m (ps.map some ++ none :: rest) = some ws := by
  induction h with
  | nil => rfl
  | cons h _ ih =>
    rw [List.map_cons, List.cons_append, argv, ih, Option.map_some, h.2]

/-- The bytes after a NUL do not matter for the strings before it. -/
theorem Points.congr {m post : Mem} {ps : List ℕ} {ws : List (List UInt8)}
    (h : Points (m ++ 0 :: post) m.length ps ws) (post' : Mem) :
    Points (m ++ 0 :: post') m.length ps ws := by
  refine h.imp fun p w hp => ⟨hp.1, ?_⟩
  rw [← hp.2, str_congr hp.1]

/-! ### A stage -/

section Stage

variable {s : Mem} {w : List UInt8} {ws : List (List UInt8)}

theorem set_slot {a : Args} {front tail : List (Option ℕ)} {x : Option ℕ}
    (ha : a.slots = front ++ x :: tail) (y : Option ℕ) :
    ∃ a', a.set front.length y = some a' ∧ a'.slots = front ++ y :: tail := by
  have hlen := a.length_slots
  rw [ha, List.length_append, List.length_cons] at hlen
  refine ⟨_, if_pos (by omega), ?_⟩
  show a.slots.set front.length y = _
  rw [ha, set_append_length]

theorem exists_slot (a : Args) : ∃ x l, a.slots = x :: l := by
  refine List.exists_cons_of_ne_nil fun hnil => ?_
  have hlen := a.length_slots
  rw [hnil] at hlen
  cases hlen

/-- There is a slot behind the last word. -/
theorem exists_next_slot {a : Args} {front tail : List (Option ℕ)} {q : ℕ}
    (ha : a.slots = front ++ some q :: tail) (hlt : front.length + 1 < maxArgs) :
    ∃ x l, tail = x :: l := by
  apply List.exists_cons_of_ne_nil
  intro htail
  have hlen := a.length_slots
  rw [ha, htail, List.length_append, List.length_singleton] at hlen
  omega

theorem tokenLoop_stop {guarded : Bool} {a : Args} {front tail : List (Option ℕ)}
    (ha : a.slots = front ++ none :: tail) (room : ℕ) (t : Strtok) :
    tokenLoop guarded room a front.length t = some (a, front.length, t) := by
  have hget : a.slots[front.length]? = some none := by rw [ha, getElem?_append_length]
  cases room with
  | zero => rw [tokenLoop, if_pos (Or.inl hget)]
  | succ room => rw [tokenLoop, if_pos hget]

/-- One turn of the loop. -/
theorem tokenLoop_next (guarded : Bool) {a : Args} {front tail : List (Option ℕ)} {q : ℕ}
    {x r : Option ℕ} {t t' : Strtok} (ha : a.slots = front ++ some q :: x :: tail)
    (ht : strtok t none [space] = some (r, t')) (room : ℕ) :
    ∃ a', a'.slots = (front ++ [some q]) ++ r :: tail ∧
      tokenLoop guarded (room + 1) a front.length t
        = tokenLoop guarded room a' (front ++ [some q]).length t' := by
  have hget : a.slots[front.length]? = some (some q) := by rw [ha, getElem?_append_length]
  have hlen : (front ++ [some q]).length = front.length + 1 := by simp
  have hsplit : a.slots = (front ++ [some q]) ++ x :: tail := by rw [ha]; simp
  obtain ⟨a', hset, ha'⟩ := set_slot hsplit r
  refine ⟨a', ha', ?_⟩
  rw [hlen] at hset ⊢
  rw [tokenLoop, hget, if_neg (by simp), ht, Option.bind_some]
  simp only [hset, Option.bind_some]

/-- The loop finds the words that are left and ends at a NULL. -/
theorem tokenLoop_written (guarded : Bool) (pre post : Mem) {room : ℕ} {a : Args}
    {front tail : List (Option ℕ)} {q : ℕ} (h : Written space ws s)
    (hws : ∀ w ∈ ws, IsWord space w) (hroom : ws.length < room)
    (hfront : front.length + room + 1 = maxArgs) (ha : a.slots = front ++ some q :: tail) :
    ∃ s' ps rest saved a',
      tokenLoop guarded room a front.length ⟨pre ++ s ++ 0 :: post, some pre.length⟩
        = some (a', front.length + ws.length + 1, ⟨pre ++ s' ++ 0 :: post, saved⟩) ∧
      s'.length = s.length ∧ a'.slots = front ++ some q :: (ps.map some ++ none :: rest) ∧
      Points (pre ++ s' ++ 0 :: post) (pre ++ s').length ps ws := by
  induction ws generalizing room a front tail q s pre with
  | nil =>
    obtain ⟨room, rfl⟩ : ∃ k, room = k + 1 := ⟨room - 1, by omega⟩
    obtain ⟨x, tail, rfl⟩ := exists_next_slot ha (by omega)
    have ht : strtok ⟨pre ++ s ++ 0 :: post, some pre.length⟩ none [space] = _ :=
      (strtok_saved _ _ _).trans (scan_blank pre post (by decide) h)
    obtain ⟨a', ha', hnext⟩ := tokenLoop_next guarded ha ht room
    refine ⟨s, [], tail, some (pre ++ s).length, a', ?_, rfl, ?_, .nil⟩
    · rw [hnext, tokenLoop_stop ha']
      simp
    · rw [ha']
      simp
  | cons w ws ih =>
    obtain ⟨room, rfl⟩ : ∃ k, room = k + 1 := ⟨room - 1, by omega⟩
    rw [List.length_cons] at hroom
    obtain ⟨x, tail, rfl⟩ := exists_next_slot ha (by omega)
    obtain ⟨u, s', p, hscan, hrest, hlen, hword⟩ :=
      scan_written pre post (by decide) h (hws w List.mem_cons_self)
    obtain ⟨a', ha', hnext⟩ := tokenLoop_next guarded ha
      ((strtok_saved _ _ _).trans hscan) room
    obtain ⟨s'', ps, rest, saved, a'', hloop, hlen', ha'', hps⟩ := ih (pre ++ u) hrest
      (fun v hv => hws v (List.mem_cons_of_mem _ hv)) (show ws.length < room by omega)
      (by simp only [List.length_append, List.length_singleton]; omega) ha'
    -- the words that are found later leave the bytes of this one alone
    refine ⟨u ++ s'', p :: ps, rest, saved, a'', ?_, ?_, ?_, ?_⟩
    · rw [hnext, hloop]
      simp only [List.length_append, List.length_cons, List.length_nil, List.append_assoc]
      congr 3
      omega
    · rw [List.length_append, hlen', ← List.length_append, hlen]
    · rw [ha'']
      simp
    · rw [← List.append_assoc]
      exact .cons (hword s'' hlen') hps

/-- The calls of `strtok` that split a text of at most nine words, with their stores. -/
theorem tokens_written (guarded : Bool) (pre post : Mem) (h : Written space (w :: ws) s)
    (hw : ∀ v ∈ w :: ws, IsWord space v) (hlen : (w :: ws).length < maxArgs) (a : Args)
    (saved : Option ℕ) :
    ∃ s' p ps rest saved' t a₁ a',
      strtok ⟨pre ++ s ++ 0 :: post, saved⟩ (some pre.length) [space] = some (some p, t) ∧
      a.set 0 (some p) = some a₁ ∧
      tokenLoop guarded (maxArgs - 1) a₁ 0 t
        = some (a', (w :: ws).length, ⟨pre ++ s' ++ 0 :: post, saved'⟩) ∧
      s'.length = s.length ∧ a'.slots = (p :: ps).map some ++ none :: rest ∧
      Points (pre ++ s' ++ 0 :: post) (pre ++ s').length (p :: ps) (w :: ws) := by
  obtain ⟨u, s', p, hscan, hrest, hlen', hword⟩ :=
    scan_written pre post (by decide) h (hw w List.mem_cons_self)
  obtain ⟨x, tail, hslots⟩ := exists_slot a
  obtain ⟨a₁, hset, ha₁⟩ := set_slot (show a.slots = [] ++ x :: tail from hslots) (some p)
  obtain ⟨s'', ps, rest, saved', a', hloop, hlen'', ha', hps⟩ :=
    tokenLoop_written guarded (pre ++ u) post hrest
      (fun v hv => hw v (List.mem_cons_of_mem _ hv))
      (show ws.length < maxArgs - 1 by rw [List.length_cons] at hlen; omega) rfl ha₁
  refine ⟨u ++ s'', p, ps, rest, saved', _, a₁, a', hscan, hset, ?_, ?_, ?_, ?_⟩
  · rw [List.length_nil] at hloop
    rw [hloop, List.length_cons, Nat.zero_add, List.append_assoc pre]
  · rw [List.length_append, hlen'', ← List.length_append, hlen']
  · rw [ha']
    rfl
  · rw [← List.append_assoc]
    exact .cons (hword s'' hlen'') hps

/-- With as many words as slots the loop fills them all. -/
theorem tokenLoop_filled (guarded : Bool) (pre post : Mem) {room : ℕ} {a : Args}
    {front tail : List (Option ℕ)} {q : ℕ} (h : Written space ws s)
    (hws : ∀ w ∈ ws, IsWord space w) (hroom : room ≤ ws.length)
    (hfront : front.length + room + 1 = maxArgs) (ha : a.slots = front ++ some q :: tail) :
    ∃ s' ps saved a',
      tokenLoop guarded room a front.length ⟨pre ++ s ++ 0 :: post, some pre.length⟩
        = tokenLoop guarded 0 a' (front.length + room) ⟨pre ++ s' ++ 0 :: post, saved⟩ ∧
      s'.length = s.length ∧ a'.slots = front ++ some q :: ps.map some ∧
      Points (pre ++ s' ++ 0 :: post) (pre ++ s').length ps (ws.take room) := by
  induction room generalizing a front tail q s ws pre with
  | zero =>
    obtain rfl : tail = [] := by
      have hlen := a.length_slots
      rw [ha, List.length_append, List.length_cons] at hlen
      exact List.eq_nil_of_length_eq_zero (by omega)
    exact ⟨s, [], _, a, rfl, rfl, ha, .nil⟩
  | succ room ih =>
    obtain ⟨w, ws, rfl⟩ : ∃ w l, ws = w :: l := by
      refine List.exists_cons_of_ne_nil fun hnil => ?_
      rw [hnil] at hroom
      exact absurd hroom (by simp)
    rw [List.length_cons] at hroom
    obtain ⟨x, tail, rfl⟩ := exists_next_slot ha (by omega)
    obtain ⟨u, s', p, hscan, hrest, hlen, hword⟩ :=
      scan_written pre post (by decide) h (hws w List.mem_cons_self)
    obtain ⟨a', ha', hnext⟩ := tokenLoop_next guarded ha ((strtok_saved _ _ _).trans hscan) room
    obtain ⟨s'', ps, saved, a'', hloop, hlen', ha'', hps⟩ := ih (pre ++ u) hrest
      (fun v hv => hws v (List.mem_cons_of_mem _ hv)) (by omega)
      (by simp only [List.length_append, List.length_singleton]; omega) ha'
    have hindex : (front ++ [some q]).length + room = front.length + (room + 1) := by
      rw [List.length_append, List.length_singleton]
      omega
    refine ⟨u ++ s'', p :: ps, saved, a'', ?_, ?_, ?_, ?_⟩
    · rw [hnext, hloop, hindex, List.append_assoc pre]
    · rw [List.length_append, hlen', ← List.length_append, hlen]
    · rw [ha'']
      simp
    · rw [← List.append_assoc]
      exact .cons (hword s'' hlen') hps

/-- There the loop goes on, unless it is guarded, and stores outside of the array. -/
theorem tokenLoop_full (pre post : Mem) {room : ℕ} {a : Args} {front tail : List (Option ℕ)}
    {q : ℕ} (h : Written space ws s) (hws : ∀ w ∈ ws, IsWord space w) (hroom : room ≤ ws.length)
    (hfront : front.length + room + 1 = maxArgs) (ha : a.slots = front ++ some q :: tail) :
    tokenLoop false room a front.length ⟨pre ++ s ++ 0 :: post, some pre.length⟩ = none := by
  obtain ⟨s', ps, saved, a', hloop, -, ha', -⟩ :=
    tokenLoop_filled false pre post h hws hroom hfront ha
  have hget : a'.slots[front.length + room]? ≠ some none := by
    rw [ha', List.getElem?_append_right (Nat.le_add_right _ _)]
    intro hnone
    have hmem := List.mem_of_getElem? hnone
    simp at hmem
  rw [hloop, tokenLoop, if_neg (by simpa using hget)]

theorem tokens_full (pre post : Mem) (h : Written space (w :: ws) s)
    (hw : ∀ v ∈ w :: ws, IsWord space v) (hlen : maxArgs ≤ (w :: ws).length) (a : Args)
    (saved : Option ℕ) :
    ∃ p t a₁, strtok ⟨pre ++ s ++ 0 :: post, saved⟩ (some pre.length) [space] = some (some p, t) ∧
      a.set 0 (some p) = some a₁ ∧ tokenLoop false (maxArgs - 1) a₁ 0 t = none := by
  obtain ⟨u, s', p, hscan, hrest, -, -⟩ :=
    scan_written pre post (by decide) h (hw w List.mem_cons_self)
  obtain ⟨x, tail, hslots⟩ := exists_slot a
  obtain ⟨a₁, hset, ha₁⟩ := set_slot (show a.slots = [] ++ x :: tail from hslots) (some p)
  rw [List.length_cons] at hlen
  exact ⟨p, _, a₁, hscan, hset, tokenLoop_full (pre ++ u) post hrest
    (fun v hv => hw v (List.mem_cons_of_mem _ hv)) (Nat.sub_le_of_le_add hlen) rfl ha₁⟩

/-- A stage with at most nine words is split into them. -/
theorem splitStage_written (pre post : Mem) (h : Written space (w :: ws) s)
    (hw : ∀ v ∈ w :: ws, IsWord space v) (hlen : (w :: ws).length < maxArgs) (a : Args)
    (saved : Option ℕ) :
    ∃ s' p ps rest saved' a',
      splitStage a (some pre.length) ⟨pre ++ s ++ 0 :: post, saved⟩
        = some (a', ⟨pre ++ s' ++ 0 :: post, saved'⟩) ∧
      s'.length = s.length ∧ a'.slots = (p :: ps).map some ++ none :: rest ∧
      Points (pre ++ s' ++ 0 :: post) (pre ++ s').length (p :: ps) (w :: ws) := by
  obtain ⟨s', p, ps, rest, saved', t, a₁, a', htok, hset, hloop, hs', ha', hps⟩ :=
    tokens_written true pre post h hw hlen a saved
  obtain ⟨a'', hset', ha''⟩ := set_slot ha' none
  rw [List.length_map, hps.length_eq] at hset'
  refine ⟨s', p, ps, rest, saved', a'', ?_, hs', ha'', hps⟩
  simp only [splitStage, htok, Option.bind_some, hset, hloop, hset', Option.map_some]

/-- So is a line without a bar. -/
theorem splitLine_written (post : Mem) (h : Written space (w :: ws) s)
    (hw : ∀ v ∈ w :: ws, IsWord space v) (hlen : (w :: ws).length < maxArgs) (a : Args)
    (saved : Option ℕ) :
    ∃ s' p ps rest saved' a',
      splitLine a ⟨s ++ 0 :: post, saved⟩ = some (some p, a', ⟨s' ++ 0 :: post, saved'⟩) ∧
      a'.slots = (p :: ps).map some ++ none :: rest ∧
      Points (s' ++ 0 :: post) s'.length (p :: ps) (w :: ws) := by
  obtain ⟨s', p, ps, rest, saved', t, a₁, a', htok, hset, hloop, -, ha', hps⟩ :=
    tokens_written false [] post h hw hlen a saved
  refine ⟨s', p, ps, rest, saved', a', ?_, ha', hps⟩
  rw [List.nil_append, List.length_nil] at htok
  rw [List.nil_append] at hloop
  simp only [splitLine, htok, Option.bind_some, hset, hloop, Option.map_some]

/-- A line without a word: the first call returns NULL. -/
theorem splitLine_blank (post : Mem) (h : Written space [] s) (a : Args) (saved : Option ℕ) :
    ∃ a' t, splitLine a ⟨s ++ 0 :: post, saved⟩ = some (none, a', t) := by
  obtain ⟨x, tail, hslots⟩ := exists_slot a
  obtain ⟨a₁, hset, ha₁⟩ := set_slot (show a.slots = [] ++ x :: tail from hslots) none
  have hscan : scan (s ++ 0 :: post) 0 [space] = _ := scan_blank [] post (by decide) h
  have hloop : tokenLoop false (maxArgs - 1) a₁ ([] : List (Option ℕ)).length
      ⟨s ++ 0 :: post, some ([] ++ s).length⟩ = _ := tokenLoop_stop ha₁ _ _
  rw [List.length_nil] at hset hloop
  refine ⟨a₁, ⟨s ++ 0 :: post, some ([] ++ s).length⟩, ?_⟩
  simp only [splitLine, strtok_some, hscan, Option.bind_some, hset]
  exact congrArg (Option.map _) hloop

/-- A line of more than nine words: there is no slot for the tenth one's NULL. -/
theorem splitLine_full (post : Mem) (h : Written space (w :: ws) s)
    (hw : ∀ v ∈ w :: ws, IsWord space v) (hlen : maxArgs ≤ (w :: ws).length) (a : Args)
    (saved : Option ℕ) : splitLine a ⟨s ++ 0 :: post, saved⟩ = none := by
  obtain ⟨p, t, a₁, htok, hset, hloop⟩ := tokens_full [] post h hw hlen a saved
  rw [List.nil_append, List.length_nil] at htok
  simp only [splitLine, htok, Option.bind_some, hset, hloop, Option.map_none]

/-- **What becomes of a line without a bar**, by the number of its words. -/
theorem splitLine_cases (post : Mem) (h0 : 0 ∉ s) (a : Args) (saved : Option ℕ) :
    (words space s = [] ∧ ∃ a' t, splitLine a ⟨s ++ 0 :: post, saved⟩ = some (none, a', t)) ∨
    (words space s ≠ [] ∧ (words space s).length < maxArgs ∧
      ∃ p a' t, splitLine a ⟨s ++ 0 :: post, saved⟩ = some (some p, a', t)) ∨
    (maxArgs ≤ (words space s).length ∧ splitLine a ⟨s ++ 0 :: post, saved⟩ = none) := by
  have hwritten := written_words space s
  have hword : ∀ w ∈ words space s, IsWord space w := fun w hw => isWord_of_mem_words h0 hw
  cases hws : words space s with
  | nil =>
    rw [hws] at hwritten
    exact .inl ⟨rfl, splitLine_blank post hwritten a saved⟩
  | cons w ws =>
    rw [hws] at hwritten hword
    rcases lt_or_ge (w :: ws).length maxArgs with hlen | hlen
    · obtain ⟨s', p, ps, rest, saved', a', hsplit, -⟩ :=
        splitLine_written post hwritten hword hlen a saved
      exact .inr (.inl ⟨List.cons_ne_nil _ _, hlen, p, a', _, hsplit⟩)
    · exact .inr (.inr ⟨hlen, splitLine_full post hwritten hword hlen a saved⟩)

/-- A stage that is blank. -/
theorem splitStage_blank (pre post : Mem) (h : Written space [] s) (a : Args)
    (saved : Option ℕ) :
    ∃ rest saved' a', splitStage a (some pre.length) ⟨pre ++ s ++ 0 :: post, saved⟩
        = some (a', ⟨pre ++ s ++ 0 :: post, saved'⟩) ∧ a'.slots = none :: rest := by
  obtain ⟨x, tail, hslots⟩ := exists_slot a
  obtain ⟨a₁, hset, ha₁⟩ := set_slot (show a.slots = [] ++ x :: tail from hslots) none
  obtain ⟨a₂, hset', ha₂⟩ := set_slot ha₁ none
  have hscan := scan_blank pre post (by decide) h
  have hloop : tokenLoop true (maxArgs - 1) a₁ ([] : List (Option ℕ)).length
      ⟨pre ++ s ++ 0 :: post, some (pre ++ s).length⟩ = _ := tokenLoop_stop ha₁ _ _
  rw [List.length_nil] at hset hset' hloop
  refine ⟨tail, some (pre ++ s).length, a₂, ?_, ha₂⟩
  simp only [splitStage, strtok_some, hscan, Option.bind_some, hset, hloop, hset',
    Option.map_some]

/-- A stage with more than nine words is cut. -/
theorem splitStage_filled (pre post : Mem) (h : Written space (w :: ws) s)
    (hw : ∀ v ∈ w :: ws, IsWord space v) (hlen : maxArgs ≤ (w :: ws).length) (a : Args)
    (saved : Option ℕ) :
    ∃ s' ps rest saved' a',
      splitStage a (some pre.length) ⟨pre ++ s ++ 0 :: post, saved⟩
        = some (a', ⟨pre ++ s' ++ 0 :: post, saved'⟩) ∧
      s'.length = s.length ∧ a'.slots = ps.map some ++ none :: rest ∧
      Points (pre ++ s' ++ 0 :: post) (pre ++ s').length ps ((w :: ws).take (maxArgs - 1)) := by
  rw [List.length_cons] at hlen
  obtain ⟨u, s', p, hscan, hrest, hlen', hword⟩ :=
    scan_written pre post (by decide) h (hw w List.mem_cons_self)
  obtain ⟨x, tail, hslots⟩ := exists_slot a
  obtain ⟨a₁, hset, ha₁⟩ := set_slot (show a.slots = [] ++ x :: tail from hslots) (some p)
  have hroom : maxArgs - 1 ≤ ws.length := Nat.sub_le_of_le_add hlen
  obtain ⟨s'', ps, saved', a', hloop, hlen'', ha', hps⟩ := tokenLoop_filled true (pre ++ u) post
    hrest (fun v hv => hw v (List.mem_cons_of_mem _ hv)) hroom rfl ha₁
  rw [List.length_nil, Nat.zero_add, tokenLoop, if_pos (.inr rfl)] at hloop
  rw [List.length_nil] at hset
  -- the NULL goes over the tenth pointer
  have hps' : Points (pre ++ (u ++ s'') ++ 0 :: post) (pre ++ (u ++ s'')).length (p :: ps)
      (w :: ws.take (maxArgs - 1)) := by
    rw [← List.append_assoc]
    exact .cons (hword s'' hlen'') hps
  have hcount : (p :: ps).length = maxArgs - 1 + 1 := by
    rw [hps'.length_eq, List.length_cons, List.length_take_of_le hroom]
  obtain ⟨q, hq⟩ : ∃ q, (p :: ps).drop (maxArgs - 1) = [q] := by
    refine List.length_eq_one_iff.1 ?_
    rw [List.length_drop, hcount, Nat.add_sub_cancel_left]
  have hslots' : a'.slots = ((p :: ps).take (maxArgs - 1)).map some ++ some q :: [] := by
    have hsplit : ((p :: ps).take (maxArgs - 1) ++ (p :: ps).drop (maxArgs - 1)).map some
        = some p :: ps.map some := by
      rw [List.take_append_drop, List.map_cons]
    rw [ha', List.nil_append, ← hsplit, hq, List.map_append]
    rfl
  obtain ⟨a'', hset', ha''⟩ := set_slot hslots' none
  rw [List.length_map, List.length_take_of_le (by omega)] at hset'
  refine ⟨u ++ s'', (p :: ps).take (maxArgs - 1), [], saved', a'', ?_, ?_, ha'', ?_⟩
  · rw [← List.append_assoc pre]
    simp only [splitStage, strtok_some, hscan, Option.bind_some, hset, hloop, hset',
      Option.map_some]
  · rw [List.length_append, hlen'', ← List.length_append, hlen']
  · have htake : (w :: ws.take (maxArgs - 1)).take (maxArgs - 1)
        = (w :: ws).take (maxArgs - 1) := by
      show w :: (ws.take 9).take 8 = w :: ws.take 8
      rw [List.take_take]
      rfl
    rw [← htake]
    exact List.forall₂_take _ hps'

/-- **What a stage is split into**: the first nine of its words. -/
theorem splitStage_words (pre post : Mem) (h0 : 0 ∉ s) (a : Args) (saved : Option ℕ) :
    ∃ s' ps rest saved' a',
      splitStage a (some pre.length) ⟨pre ++ s ++ 0 :: post, saved⟩
        = some (a', ⟨pre ++ s' ++ 0 :: post, saved'⟩) ∧
      s'.length = s.length ∧ a'.slots = ps.map some ++ none :: rest ∧
      Points (pre ++ s' ++ 0 :: post) (pre ++ s').length ps
        ((words space s).take (maxArgs - 1)) := by
  have hwritten := written_words space s
  have hword : ∀ w ∈ words space s, IsWord space w := fun w hw => isWord_of_mem_words h0 hw
  cases hws : words space s with
  | nil =>
    rw [hws] at hwritten
    obtain ⟨rest, saved', a', hsplit, ha'⟩ := splitStage_blank pre post hwritten a saved
    exact ⟨s, [], rest, saved', a', hsplit, rfl, ha', .nil⟩
  | cons w ws =>
    rw [hws] at hwritten hword
    rcases lt_or_ge (w :: ws).length maxArgs with hlen | hlen
    · obtain ⟨s', p, ps, rest, saved', a', hsplit, hlen', ha', hps⟩ :=
        splitStage_written pre post hwritten hword hlen a saved
      refine ⟨s', p :: ps, rest, saved', a', hsplit, hlen', ha', ?_⟩
      rwa [List.take_of_length_le (Nat.le_sub_one_of_lt hlen)]
    · exact splitStage_filled pre post hwritten hword hlen a saved

theorem exec_points {m : Mem} {n p : ℕ} {ps : List ℕ} {w : List UInt8} {ws : List (List UInt8)}
    {a : Args} {rest : List (Option ℕ)} (ha : a.slots = (p :: ps).map some ++ none :: rest)
    (h : Points m n (p :: ps) (w :: ws)) : exec m (some p) a = some ⟨some w, w :: ws⟩ := by
  have hstr : str m p = w := by
    cases h with
    | cons hp _ => exact hp.2
  rw [exec, ha, argv_points h, Option.map_some, Option.map_some, hstr]

/-- `execvp` gets the words that the array points to. -/
theorem exec_slots {m : Mem} {n : ℕ} {ps : List ℕ} {a : Args} {rest : List (Option ℕ)}
    (ha : a.slots = ps.map some ++ none :: rest) (h : Points m n ps ws) :
    exec m (a.slots.getD 0 none) a = some ⟨ws.head?, ws⟩ := by
  have hfile : (a.slots.getD 0 none).map (str m) = ws.head? := by
    rw [ha]
    cases h with
    | nil => rfl
    | cons hp _ => exact congrArg some hp.2
  rw [exec, ha, argv_points h, Option.map_some, ← ha, hfile]

end Stage

/-! ### Two tokens -/

section Tokens

variable {s w w₁ w₂ : List UInt8} {ws : List (List UInt8)}

/-- A call that finds a token, with what it leaves behind it. -/
theorem scan_first {c : UInt8} (hc : c ≠ 0) (pre post : Mem) (h : Written c (w :: ws) s)
    (hw : IsWord c w) :
    ∃ n post' q, scan (pre ++ s ++ 0 :: post) pre.length [c]
        = some (some (pre ++ List.replicate n c).length,
            ⟨pre ++ List.replicate n c ++ w ++ 0 :: post', some q⟩) ∧
      (ws ≠ [] → ∃ s', Written c ws s' ∧ post' = s' ++ 0 :: post ∧
        q = (pre ++ List.replicate n c ++ w ++ [0]).length) := by
  cases h with
  | last n =>
    have hscan := scan_tok pre post (b := 0) (mem_gap : ∀ a ∈ List.replicate n c, a ∈ [c])
      hw.ne_nil hw.bytes (.inl rfl)
    rw [if_pos rfl] at hscan
    refine ⟨n, post, (pre ++ List.replicate n c ++ w).length, ?_, fun hne => absurd rfl hne⟩
    rw [← List.append_assoc]
    exact hscan
  | @cons n _ _ s' h =>
    have hscan := scan_tok pre (s' ++ 0 :: post) (b := c)
      (mem_gap : ∀ a ∈ List.replicate n c, a ∈ [c]) hw.ne_nil hw.bytes
      (.inr (List.mem_singleton_self c))
    rw [if_neg hc] at hscan
    refine ⟨n, s' ++ 0 :: post, (pre ++ List.replicate n c ++ w).length + 1, ?_,
      fun _ => ⟨s', h, rfl, ?_⟩⟩
    · have hassoc : pre ++ (List.replicate n c ++ w ++ c :: s') ++ 0 :: post
          = pre ++ List.replicate n c ++ w ++ c :: (s' ++ 0 :: post) := by simp
      rw [hassoc]
      exact hscan
    · exact (@List.length_append _ _ [0]).symm

/-- What the calls for the bar leave of the first two tokens. -/
theorem bars_tokens (post : Mem) (saved : Option ℕ) (h0 : 0 ∉ s)
    (hs : words bar s = w₁ :: w₂ :: ws) :
    ∃ pre k post' saved' t, strtok ⟨s ++ 0 :: post, saved⟩ (some 0) [bar]
        = some (some pre.length, t) ∧
      strtok t none [bar] = some (some (pre ++ w₁ ++ 0 :: List.replicate k bar).length,
        ⟨pre ++ w₁ ++ 0 :: List.replicate k bar ++ w₂ ++ 0 :: post', saved'⟩) := by
  have hword : ∀ w ∈ w₁ :: w₂ :: ws, IsWord bar w := fun w hw => isWord_of_mem_words h0 (hs ▸ hw)
  have hwritten := written_words bar s
  rw [hs] at hwritten
  obtain ⟨n, post₁, q, hscan, hrest⟩ :=
    scan_first (by decide) [] post hwritten (hword w₁ List.mem_cons_self)
  obtain ⟨s', hwritten', rfl, rfl⟩ := hrest (List.cons_ne_nil _ _)
  obtain ⟨k, post', q, hscan', -⟩ := scan_first (by decide)
    ([] ++ List.replicate n bar ++ w₁ ++ [0]) post hwritten'
    (hword w₂ (List.mem_cons_of_mem _ List.mem_cons_self))
  refine ⟨List.replicate n bar, k, post', some q, _, hscan, ?_⟩
  rw [strtok_saved]
  simpa using hscan'

/-- What `execvp` gets for a token. -/
def stage (w : List UInt8) : Exec := ⟨(words space w).head?, (words space w).take (maxArgs - 1)⟩

/-- **What is started for two tokens or more**: the first nine words of the first one, and the first
nine of the second one. -/
theorem parse_tokens (post : Mem) (a1 a2 : Args) (saved : Option ℕ) (h0 : 0 ∉ s)
    (hs : words bar s = w₁ :: w₂ :: ws) :
    ∃ a1' a2' t, parse a1 a2 (s ++ 0 :: post) saved
        = some (.piped (stage w₁) (stage w₂), a1', a2', t) ∧
      none ∈ a1'.slots ∧ none ∈ a2'.slots := by
  have hnul : ∀ w ∈ w₁ :: w₂ :: ws, 0 ∉ w := fun w hw => (isWord_of_mem_words h0 (hs ▸ hw)).nul
  have hhead : ∀ l : List (List UInt8), (l.take (maxArgs - 1)).head? = l.head? := fun l => by
    cases l <;> rfl
  obtain ⟨pre, k, post', saved', t, hcmd1, hcmd2⟩ := bars_tokens post saved h0 hs
  obtain ⟨s₁, ps₁, rest₁, saved₁, b₁, hsplit₁, hlen₁, ha₁, hps₁⟩ := splitStage_words pre
    (List.replicate k bar ++ w₂ ++ 0 :: post') (hnul w₁ List.mem_cons_self) a1 saved'
  -- the second stage, with the first one before it
  obtain ⟨s₂, ps₂, rest₂, saved₂, b₂, hsplit₂, -, ha₂, hps₂⟩ := splitStage_words
    (pre ++ s₁ ++ 0 :: List.replicate k bar) post'
    (hnul w₂ (List.mem_cons_of_mem _ List.mem_cons_self)) a2 saved₁
  have hmem₁ : pre ++ w₁ ++ 0 :: List.replicate k bar ++ w₂ ++ 0 :: post'
      = pre ++ w₁ ++ 0 :: (List.replicate k bar ++ w₂ ++ 0 :: post') := by simp
  have hmem₂ : pre ++ s₁ ++ 0 :: List.replicate k bar ++ w₂ ++ 0 :: post'
      = pre ++ s₁ ++ 0 :: (List.replicate k bar ++ w₂ ++ 0 :: post') := by simp
  have hplace : (pre ++ w₁ ++ 0 :: List.replicate k bar).length
      = (pre ++ s₁ ++ 0 :: List.replicate k bar).length := by
    simp [hlen₁]
  rw [hmem₁, hplace] at hcmd2
  rw [hmem₂] at hsplit₂
  have hps₁' : Points (pre ++ s₁ ++ 0 :: List.replicate k bar ++ s₂ ++ 0 :: post')
      (pre ++ s₁).length ps₁ ((words space w₁).take (maxArgs - 1)) := by
    have h := hps₁.congr (List.replicate k bar ++ s₂ ++ 0 :: post')
    simpa using h
  have hleft := exec_slots ha₁ hps₁'
  have hright := exec_slots ha₂ hps₂
  rw [hhead] at hleft hright
  refine ⟨b₁, b₂, ⟨pre ++ s₁ ++ 0 :: List.replicate k bar ++ s₂ ++ 0 :: post', saved₂⟩, ?_,
    by rw [ha₁]; simp, by rw [ha₂]; simp⟩
  simp only [parse, hcmd1, Option.bind_some, hcmd2, reduceCtorEq, if_false, hsplit₁, hsplit₂, hleft,
    hright, Option.map_some]
  rfl

end Tokens

end Shell
end PosixHw
