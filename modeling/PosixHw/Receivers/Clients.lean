import PosixHw.Receivers.Echo

/-!
# The clients of hw2 and what comes back

A client sends its message and prints what one `read` returns, from an array of zeros.  The server
echoes chunk by chunk, and each `send` may accept less than a chunk, so what the client prints is a
part of its message, perhaps with gaps; it is the message exactly if no call has cut anything off.

The bytes that the server receives are the beginning of the message: the client does not look at
the result of `send` either.
-/

namespace PosixHw
namespace Receivers

open CString Run

/-- `message`: a text that fits into the array with its NUL. -/
structure Greeting where
  bytes : List UInt8
  nul_notMem : 0 ∉ bytes
  lt : bytes.length < bufferSize

/-- The clients of `server queue`, `pserver` and `pserver pool`. -/
def hello : Greeting := ⟨"Hello, Server!".toUTF8.data.toList, by decide, by decide⟩

/-- `buffer`, at first. -/
def clientBuffer : Mem := List.replicate bufferSize 0

/-- `main` of a client, once it is connected; `none` stands for a `read` that fails. -/
def Greeting.main (g : Greeting) : Option (List UInt8) → Option (List Event)
  | none => some [line "Message sent: " g.bytes,
      .printed "Error while reading.".toUTF8.data.toList]
  | some received => do
    let buffer ← write clientBuffer 0 received
    let text ← cstr buffer 0
    some [line "Message sent: " g.bytes, line "Message received: " text]

/-- What happens to the message on its way: the chunks in which its beginning arrives at the
server, and what is accepted of each on the way back. -/
structure Transfer (message : List UInt8) where
  exchanges : List Exchange
  arrives : (exchanges.flatMap fun x => x.chunk.bytes) <+: message

/-- What comes back. -/
def Transfer.back {message : List UInt8} (T : Transfer message) : List UInt8 :=
  T.exchanges.flatMap fun x => x.chunk.bytes.take x.accepted

/-- The server goes through the chunks, and after `k` bytes of what it sends the client
prints `t`. -/
def Greeting.Prints (g : Greeting) (s : Server) (m : Buffer) (T : Transfer g.bytes) (k : ℕ)
    (t : List UInt8) : Prop :=
  ∃ es, s.handleClient m (T.exchanges.map Exchange.chunk) = some es ∧
    g.main (some ((stream es (T.exchanges.map Exchange.accepted)).take k))
      = some [line "Message sent: " g.bytes, line "Message received: " t]

variable {g : Greeting} {message t u : List UInt8} {k : ℕ}

theorem line_inj {label : String} : line label t = line label u ↔ t = u := by
  unfold line
  rw [Event.printed.injEq, List.append_left_inj, List.append_right_inj]

/-! ### What comes back is a part of the message -/

theorem back_sublist_arrived (xs : List Exchange) :
    (xs.flatMap fun x => x.chunk.bytes.take x.accepted).Sublist
      (xs.flatMap fun x => x.chunk.bytes) := by
  induction xs with
  | nil => exact List.Sublist.refl _
  | cons x xs ih =>
    rw [List.flatMap_cons, List.flatMap_cons]
    exact (List.take_sublist _ _).append ih

theorem Transfer.back_sublist (T : Transfer message) : T.back.Sublist message :=
  (back_sublist_arrived T.exchanges).trans T.arrives.sublist

/-- Nothing is missing exactly if nothing has been cut off, there and back. -/
theorem Transfer.take_back_eq_iff (T : Transfer message) :
    T.back.take k = message ↔ (T.exchanges.flatMap fun x => x.chunk.bytes) = message ∧
      (∀ x ∈ T.exchanges, x.accepted = x.chunk.bytes.length) ∧ message.length ≤ k := by
  constructor
  · intro h
    have hlength : message.length = min k T.back.length := by rw [← List.length_take, h]
    -- a part of the message that is as long as the message is all of it
    have hback : T.back = message :=
      T.back_sublist.eq_of_length_le (hlength.trans_le (min_le_right _ _))
    have harrived : (T.exchanges.flatMap fun x => x.chunk.bytes) = message := by
      apply T.arrives.eq_of_length_le
      exact (congrArg List.length hback).ge.trans (back_sublist_arrived T.exchanges).length_le
    exact ⟨harrived, accepted_eq_iff.1 (hback.trans harrived.symm),
      hlength.trans_le (min_le_left _ _)⟩
  · rintro ⟨harrived, haccepted, hk⟩
    have hback : T.back = message := (accepted_eq_iff.2 haccepted).trans harrived
    rw [hback, List.take_of_length_le hk]

/-! ### What the client prints -/

/-- A part of the message, stored in the array of zeros, is the string that stands there. -/
theorem cstr_received (ht : t.Sublist g.bytes) :
    ∃ buffer, write clientBuffer 0 t = some buffer ∧ cstr buffer 0 = some t := by
  have hlt : t.length < bufferSize := ht.length_le.trans_lt g.lt
  have hbuffer : clientBuffer.drop t.length
      = 0 :: List.replicate (bufferSize - t.length - 1) 0 := by
    rw [clientBuffer, List.drop_replicate, ← List.replicate_succ]
    congr 1
    omega
  have hwrite : write clientBuffer 0 t
      = some (t ++ 0 :: List.replicate (bufferSize - t.length - 1) 0) := by
    rw [write_zero (by rw [clientBuffer, List.length_replicate]; exact hlt.le), hbuffer]
  -- the array of zeros ends what is printed
  have hnul : 0 ∉ t := fun h => g.nul_notMem (ht.subset h)
  exact ⟨_, hwrite, cstr_zero hnul⟩

/-- **A client prints what it has received**, if that is a part of its message. -/
theorem main_of_sublist (ht : t.Sublist g.bytes) :
    g.main (some t) = some [line "Message sent: " g.bytes, line "Message received: " t] := by
  obtain ⟨buffer, hwrite, hcstr⟩ := cstr_received ht
  show ((write clientBuffer 0 t).bind fun buffer => (cstr buffer 0).bind fun text => _) = _
  rw [hwrite, Option.bind_some, hcstr]
  rfl

/-- **The echo of a message.**  Whatever the server's array held and however the calls divide the
bytes: if the server finds a NUL whenever it prints, the client prints the first bytes of what the
server has sent, a part of the message; and it prints the message itself exactly if all of it has
arrived, each `send` has accepted its chunk, and one `read` has returned all that came back. -/
theorem prints_iff (g : Greeting) (s : Server) (m : Buffer) (T : Transfer g.bytes) (k : ℕ) :
    (∀ t, g.Prints s m T k t ↔
      Along keep HasNul m.1 (T.exchanges.map Exchange.chunk) ∧ t = T.back.take k) ∧
    (T.back.take k).Sublist g.bytes ∧
    (T.back.take k = g.bytes ↔ (T.exchanges.flatMap fun x => x.chunk.bytes) = g.bytes ∧
      (∀ x ∈ T.exchanges, x.accepted = x.chunk.bytes.length) ∧ g.bytes.length ≤ k) := by
  have hpart : (T.back.take k).Sublist g.bytes := (List.take_sublist _ _).trans T.back_sublist
  refine ⟨fun t => ?_, hpart, T.take_back_eq_iff⟩
  rw [← loop_defined s.label m.2]
  constructor
  · rintro ⟨es, hes, hmain⟩
    refine ⟨⟨es, hes⟩, ?_⟩
    rw [stream_loop hes] at hmain
    have hline := (main_of_sublist hpart).symm.trans hmain
    simp only [Option.some.injEq, List.cons.injEq, true_and, and_true] at hline
    exact (line_inj.1 hline).symm
  · rintro ⟨⟨es, hes⟩, rfl⟩
    refine ⟨es, hes, ?_⟩
    rw [stream_loop hes]
    exact main_of_sublist hpart

/-- The message arrives in one piece, and `send` accepts all of it, or five bytes. -/
def allAccepted : Transfer hello.bytes :=
  ⟨[⟨⟨hello.bytes, by decide, by decide⟩, 14, by decide, by decide⟩], by decide⟩
def fiveAccepted : Transfer hello.bytes :=
  ⟨[⟨⟨hello.bytes, by decide, by decide⟩, 5, by decide, by decide⟩], by decide⟩

/-- The client prints its message, or the `Hello` of it. -/
theorem prints_hello :
    hello.Prints .thread zeros allAccepted 1024 hello.bytes ∧
      hello.Prints .thread zeros fiveAccepted 1024 "Hello".toUTF8.data.toList := by
  constructor
  · exact ((prints_iff hello .thread zeros allAccepted 1024).1 _).2
      ⟨by decide +kernel, by decide +kernel⟩
  · exact ((prints_iff hello .thread zeros fiveAccepted 1024).1 _).2
      ⟨by decide +kernel, by decide +kernel⟩

end Receivers
end PosixHw
