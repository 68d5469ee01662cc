import PosixHw.Receivers.Loops

/-!
# What the servers send back

The three `handle_client` call `send` once for each chunk and do not look at the result, which may
be less than the chunk.  The rest of the chunk is then missing from the stream, and what follows is
sent behind the gap.
-/

namespace PosixHw
namespace Receivers

open CString Run

/-- A chunk, and the number of its bytes that `send` accepts. -/
structure Exchange where
  chunk : Chunk
  accepted : ℕ
  pos : 0 < accepted
  le : accepted ≤ chunk.bytes.length

/-- The bytes that the socket accepts, where the calls of `send` return the numbers `ks`. -/
def stream : List Event → List ℕ → List UInt8
  | [], _ => []
  | .sent bytes :: es, k :: ks => bytes.take k ++ stream es ks
  | _ :: es, ks => stream es ks

/-- The socket accepts what was received, byte by byte. -/
def Server.Echoes (s : Server) (m : Buffer) (xs : List Exchange) : Prop :=
  ∃ es, s.handleClient m (xs.map Exchange.chunk) = some es ∧
    stream es (xs.map Exchange.accepted) = xs.flatMap fun x => x.chunk.bytes

/-- After the chunk is stored, the array holds a NUL. -/
def HasNul (m : Mem) (c : Chunk) : Prop := 0 ∈ c.bytes ++ m.drop c.bytes.length

instance (m : Mem) (c : Chunk) : Decidable (HasNul m c) := inferInstanceAs (Decidable (_ ∈ _))

variable {label : String} {m m' : Mem} {c : Chunk} {xs : List Exchange} {es : List Event}

theorem serve_defined (label : String) (hm : m.length = bufferSize) :
    (∃ r, serve label m c = some r) ↔ HasNul m c := by
  have hwrite : write m 0 c.bytes = some (c.bytes ++ m.drop c.bytes.length) := keep_eq hm c
  have hcstr : cstr (c.bytes ++ m.drop c.bytes.length) 0
      = if HasNul m c then some (str (c.bytes ++ m.drop c.bytes.length) 0) else none := rfl
  rw [serve, hwrite]
  show (∃ r, ((cstr _ 0).bind fun text => (read _ 0 c.bytes.length).bind fun bytes =>
    some (c.bytes ++ m.drop c.bytes.length, [line label text, .sent bytes])) = some r) ↔ _
  rw [hcstr, read_write hwrite]
  split_ifs with hnul
  · exact iff_of_true ⟨_, rfl⟩ hnul
  · refine iff_of_false ?_ hnul
    rintro ⟨r, hr⟩
    cases hr

/-- The loop goes through exactly if every print finds a NUL. -/
theorem loop_defined (label : String) (hm : m.length = bufferSize) {cs : List Chunk} :
    (∃ es, loop (serve label) m cs = some es) ↔ Along keep HasNul m cs := by
  induction cs generalizing m with
  | nil => exact iff_of_true ⟨[], rfl⟩ trivial
  | cons c cs ih =>
    constructor
    · rintro ⟨es, h⟩
      obtain ⟨⟨m', es'⟩, hserve, h⟩ := Option.bind_eq_some_iff.1 h
      obtain ⟨es'', hloop, -⟩ := Option.map_eq_some_iff.1 h
      obtain ⟨hkeep, -⟩ := serve_cases hserve
      refine ⟨(serve_defined label hm).1 ⟨_, hserve⟩, fun t ht => ?_⟩
      obtain rfl := Option.some.inj (hkeep.symm.trans ht)
      exact (ih ((length_write hkeep).trans hm)).1 ⟨es'', hloop⟩
    · rintro ⟨hnul, htail⟩
      obtain ⟨⟨m', es'⟩, hserve⟩ := (serve_defined label hm).2 hnul
      obtain ⟨hkeep, -⟩ := serve_cases hserve
      obtain ⟨es'', hloop⟩ := (ih ((length_write hkeep).trans hm)).2 (htail m' hkeep)
      exact ⟨es' ++ es'', by rw [loop, hserve, Option.bind_some, hloop, Option.map_some]⟩

/-- **What is accepted**: of each chunk the part that `send` took. -/
theorem stream_loop (h : loop (serve label) m (xs.map Exchange.chunk) = some es) :
    stream es (xs.map Exchange.accepted)
      = xs.flatMap fun x => x.chunk.bytes.take x.accepted := by
  induction xs generalizing m es with
  | nil =>
    cases h
    rfl
  | cons x xs ih =>
    obtain ⟨⟨m', es'⟩, hserve, h⟩ := Option.bind_eq_some_iff.1 h
    obtain ⟨es'', hloop, rfl⟩ := Option.map_eq_some_iff.1 h
    obtain ⟨-, text, -, rfl⟩ := serve_cases hserve
    rw [List.flatMap_cons, ← ih hloop]
    rfl

theorem length_accepted_le (xs : List Exchange) :
    (xs.flatMap fun x => x.chunk.bytes.take x.accepted).length
      ≤ (xs.flatMap fun x => x.chunk.bytes).length := by
  induction xs with
  | nil => exact le_rfl
  | cons x xs ih =>
    rw [List.flatMap_cons, List.flatMap_cons, List.length_append, List.length_append]
    exact Nat.add_le_add (List.length_take_le' _ _) ih

/-- Nothing is lost exactly if nothing is cut off: a byte that is missing is not made up for. -/
theorem accepted_eq_iff :
    (xs.flatMap fun x => x.chunk.bytes.take x.accepted) = (xs.flatMap fun x => x.chunk.bytes) ↔
      ∀ x ∈ xs, x.accepted = x.chunk.bytes.length := by
  induction xs with
  | nil => simp
  | cons x xs ih =>
    rw [List.flatMap_cons, List.flatMap_cons, List.forall_mem_cons, ← ih]
    constructor
    · intro h
      have hall : x.accepted = x.chunk.bytes.length := by
        have hlen := congrArg List.length h
        have hrest := length_accepted_le xs
        rw [List.length_append, List.length_append, List.length_take_of_le x.le] at hlen
        have hle := x.le
        omega
      refine ⟨hall, ?_⟩
      rw [hall, List.take_length] at h
      exact List.append_cancel_left h
    · rintro ⟨hall, hrest⟩
      rw [hall, List.take_length, hrest]

/-- **When a server returns the whole stream**: exactly if `send` accepts every chunk as a whole,
and the array holds a NUL whenever it is printed. -/
theorem echoes_iff (s : Server) (m : Buffer) (xs : List Exchange) :
    s.Echoes m xs ↔ (∀ x ∈ xs, x.accepted = x.chunk.bytes.length) ∧
      Along keep HasNul m.1 (xs.map Exchange.chunk) := by
  rw [← accepted_eq_iff, ← loop_defined s.label m.2]
  constructor
  · rintro ⟨es, hes, hstream⟩
    rw [stream_loop hes] at hstream
    exact ⟨hstream, es, hes⟩
  · rintro ⟨hstream, es, hes⟩
    exact ⟨es, hes, (stream_loop hes).trans hstream⟩

/-- Of the chunk "ab" only "a" is accepted. -/
theorem echo_lost : ¬ ∀ (s : Server) (m : Buffer) (xs : List Exchange), s.Echoes m xs := by
  intro hall
  let x : Exchange := ⟨⟨"ab".toUTF8.data.toList, by decide, by decide⟩, 1, by decide, by decide⟩
  obtain ⟨es, hes, hstream⟩ := hall .thread zeros [x]
  have haccepted : (Server.thread.handleClient zeros [x.chunk]).map (stream · [1])
      = some "a".toUTF8.data.toList := by
    decide +kernel
  have hall : (Server.thread.handleClient zeros [x.chunk]).map (stream · [1])
      = some "ab".toUTF8.data.toList := by
    rw [show Server.thread.handleClient zeros [x.chunk] = some es from hes]
    exact congrArg some hstream
  exact absurd (haccepted.symm.trans hall) (by decide)

end Receivers
end PosixHw
