import PosixHw.Base.Run
import PosixHw.Base.CString

/-!
# What the receive loops print

Five programs receive into an array of 1024 bytes and print it with `%s`.

* The loops of `handle_client` in `sockets/hw2` (`server queue`, `pserver`, `pserver pool`) print
  and send back what one `read` has stored, and end no string.  The array holds anything at first:
  the one of `server queue` is used again for the next client.
* The loops of `main` in `sockets/hw3` (`multicast`, `broadcast`) store a NUL after the datagram.

A turn of a loop is `none` if it reads or writes outside of the array.
-/

namespace PosixHw
namespace Receivers

open CString Run

/-- `BUFFER_SIZE`. -/
def bufferSize : ℕ := 1024

/-- The array. -/
abbrev Buffer : Type := { m : Mem // m.length = bufferSize }

/-- The bytes that a successful `read` returns. -/
structure Chunk where
  bytes : List UInt8
  pos : 0 < bytes.length
  le : bytes.length ≤ bufferSize

/-- The bytes that a successful `recvfrom` returns. -/
structure Datagram where
  bytes : List UInt8
  le : bytes.length ≤ bufferSize

/-- What can be seen from outside. -/
inductive Event
  | printed (line : List UInt8)
  | sent (bytes : List UInt8)
  | perror (s : String)
  deriving DecidableEq

/-- `printf(label "%s\n", ..)` for a string that has the bytes `text`. -/
def line (label : String) (text : List UInt8) : Event :=
  .printed (label.toUTF8.data.toList ++ text ++ [newline])

/-- Makes the turns of a loop. -/
def loop {α : Type} (turn : Mem → α → Option (Mem × List Event)) :
    Mem → List α → Option (List Event)
  | _, [] => some []
  | m, a :: as => (turn m a).bind fun r => (loop turn r.1 as).map fun es => r.2 ++ es

/-! ### The servers -/

/-- The body of the loop, after `read` has returned `c`. -/
def serve (label : String) (buffer : Mem) (c : Chunk) : Option (Mem × List Event) := do
  let buffer ← write buffer 0 c.bytes
  let text ← cstr buffer 0
  let bytes ← read buffer 0 c.bytes.length
  some (buffer, [line label text, .sent bytes])

inductive Server
  | queue
  | thread
  | pool (id : ℤ)

def Server.label : Server → String
  | .queue => "Received: "
  | .thread => "Received: "
  | .pool id => "Thread " ++ toString id ++ " received: "

/-- The loop of `handle_client`. -/
def Server.handleClient (s : Server) (buffer : Buffer) (cs : List Chunk) : Option (List Event) :=
  loop (serve s.label) buffer.1 cs

/-- What should be seen of a chunk. -/
def Server.report (s : Server) (c : Chunk) : List Event :=
  [line s.label (c.bytes.takeWhile (· ≠ 0)), .sent c.bytes]

/-! ### The receivers -/

/-- The body of the loop, for what `recvfrom` returned; `none` stands for a failure. -/
def receive (label : String) (buffer : Mem) : Option Datagram → Option (Mem × List Event)
  | none => some (buffer, [.perror "recvfrom failed"])
  | some d => do
    let buffer ← write buffer 0 d.bytes
    let buffer ← store buffer d.bytes.length 0
    let text ← cstr buffer 0
    some (buffer, [line label text])

inductive Receiver
  | multicast
  | broadcast

def Receiver.label : Receiver → String
  | .multicast => "Received multicast message: "
  | .broadcast => "Received broadcast message: "

/-- The loop of `main`. -/
def Receiver.main (r : Receiver) (buffer : Buffer) (ds : List (Option Datagram)) :
    Option (List Event) :=
  loop (receive r.label) buffer.1 ds

/-- What should be seen of a datagram. -/
def Receiver.report (r : Receiver) : Option Datagram → List Event
  | none => [.perror "recvfrom failed"]
  | some d => [line r.label (d.bytes.takeWhile (· ≠ 0))]

/-! ### Loops whose turns are right under a condition -/

section Loop

variable {α : Type} {turn : Mem → α → Option (Mem × List Event)} {next : Mem → α → Option Mem}
  {good : α → List Event} {I : Mem → Prop} {P : Mem → α → Prop} {m : Mem} {as : List α}

/-- If a turn shows what it should exactly under the condition `P`, then a loop does so exactly if
all its turns meet the condition. -/
theorem loop_eq_iff (hturn : ∀ m a m' es, turn m a = some (m', es) →
      es.length = (good a).length ∧ next m a = some m')
    (hgood : ∀ m a, I m → ((∃ m', turn m a = some (m', good a)) ↔ P m a))
    (hnext : ∀ m a m', I m → next m a = some m' → I m') (hm : I m) :
    loop turn m as = some (as.flatMap good) ↔ Along next P m as := by
  induction as generalizing m with
  | nil => exact iff_of_true rfl trivial
  | cons a as ih =>
    rw [loop, List.flatMap_cons]
    constructor
    · intro h
      obtain ⟨⟨m', es⟩, ht, h⟩ := Option.bind_eq_some_iff.1 h
      obtain ⟨es', hes', h⟩ := Option.map_eq_some_iff.1 h
      obtain ⟨hlen, hm'⟩ := hturn m a m' es ht
      obtain ⟨rfl, rfl⟩ := List.append_inj h hlen
      refine ⟨(hgood m a hm).1 ⟨m', ht⟩, fun m'' hm'' => ?_⟩
      obtain rfl : m' = m'' := Option.some.inj (hm'.symm.trans hm'')
      exact (ih (hnext m a m' hm hm')).1 hes'
    · rintro ⟨hP, htail⟩
      obtain ⟨m', ht⟩ := (hgood m a hm).2 hP
      obtain ⟨-, hm'⟩ := hturn m a m' _ ht
      rw [ht, Option.bind_some, (ih (hnext m a m' hm hm')).2 (htail m' hm'), Option.map_some]

end Loop

/-! ### Stored bytes -/

theorem line_injective {label : String} {s t : List UInt8} (h : line label s = line label t) :
    s = t := by
  rw [line, line, Event.printed.injEq, List.append_left_inj, List.append_right_inj] at h
  exact h

/-- After `read`: the bytes of the chunk, then those from before. -/
def keep (m : Mem) (c : Chunk) : Option Mem := write m 0 c.bytes

/-- The chunk has a NUL, or one stands after its place in the array. -/
def Ends (m : Mem) (c : Chunk) : Prop := 0 ∈ c.bytes ∨ m[c.bytes.length]? = some 0

instance (m : Mem) (c : Chunk) : Decidable (Ends m c) := inferInstanceAs (Decidable (_ ∨ _))

theorem keep_eq {m : Mem} (hm : m.length = bufferSize) (c : Chunk) :
    keep m c = some (c.bytes ++ m.drop c.bytes.length) :=
  write_zero (hm ▸ c.le)

theorem serve_cases {label : String} {m m' : Mem} {c : Chunk} {es : List Event}
    (h : serve label m c = some (m', es)) :
    keep m c = some m' ∧ ∃ text, cstr m' 0 = some text ∧ es = [line label text, .sent c.bytes] := by
  obtain ⟨m₁, h₁, h⟩ := Option.bind_eq_some_iff.1 h
  obtain ⟨text, htext, h⟩ := Option.bind_eq_some_iff.1 h
  obtain ⟨bytes, hbytes, h⟩ := Option.bind_eq_some_iff.1 h
  cases h
  have hsent : read m' 0 c.bytes.length = some c.bytes := read_write h₁
  rw [hsent, Option.some_inj] at hbytes
  exact ⟨h₁, text, htext, by rw [hbytes]⟩

/-- A turn of a server shows what it should exactly if the chunk ends with a NUL in the array. -/
theorem serve_iff (s : Server) {m : Mem} (hm : m.length = bufferSize) (c : Chunk) :
    (∃ m', serve s.label m c = some (m', s.report c)) ↔ Ends m c := by
  have hkeep := keep_eq hm c
  have hiff := cstr_append_eq_iff c.bytes (m.drop c.bytes.length)
  rw [List.head?_drop] at hiff
  rw [Ends, ← hiff]
  constructor
  · rintro ⟨m', h⟩
    obtain ⟨hm', text, htext, hes⟩ := serve_cases h
    obtain rfl := Option.some.inj (hkeep.symm.trans hm')
    rw [Server.report, List.cons.injEq] at hes
    rw [htext, line_injective hes.1]
  · intro h
    have hwrite : write m 0 c.bytes = some (c.bytes ++ m.drop c.bytes.length) := hkeep
    refine ⟨c.bytes ++ m.drop c.bytes.length, ?_⟩
    rw [serve, hwrite]
    show ((cstr _ 0).bind fun text => (read _ 0 c.bytes.length).bind fun bytes => _) = _
    rw [h, Option.bind_some, read_write hwrite]
    rfl

/-! ### Datagrams -/

/-- After `recvfrom`: the bytes of the datagram, a NUL, then those from before. -/
def keepDatagram (m : Mem) : Option Datagram → Option Mem
  | none => some m
  | some d => (write m 0 d.bytes).bind fun m => store m d.bytes.length 0

/-- There is room for a NUL. -/
def Fits (d : Option Datagram) : Prop := ∀ e, d = some e → e.bytes.length < bufferSize

theorem keepDatagram_eq {m : Mem} (hm : m.length = bufferSize) {d : Datagram}
    (hd : d.bytes.length < bufferSize) :
    ∃ r, keepDatagram m (some d) = some (d.bytes ++ 0 :: r) := by
  obtain ⟨b, r, hr⟩ : ∃ b r, m.drop d.bytes.length = b :: r :=
    List.exists_cons_of_ne_nil fun h => by
      rw [List.drop_eq_nil_iff] at h
      omega
  refine ⟨r, ?_⟩
  rw [keepDatagram, write_zero (by omega), Option.bind_some, hr]
  exact store_append

theorem keepDatagram_length {m m' : Mem} {d : Option Datagram}
    (h : keepDatagram m d = some m') : m'.length = m.length := by
  cases d with
  | none => cases h; rfl
  | some d =>
    obtain ⟨m₁, h₁, h⟩ := Option.bind_eq_some_iff.1 h
    rw [length_store h, length_write h₁]

theorem receive_cases {label : String} {m m' : Mem} {d : Datagram} {es : List Event}
    (h : receive label m (some d) = some (m', es)) :
    keepDatagram m (some d) = some m' ∧ ∃ text, cstr m' 0 = some text ∧ es = [line label text] := by
  obtain ⟨m₁, h₁, h⟩ := Option.bind_eq_some_iff.1 h
  obtain ⟨m₂, h₂, h⟩ := Option.bind_eq_some_iff.1 h
  obtain ⟨text, htext, h⟩ := Option.bind_eq_some_iff.1 h
  cases h
  exact ⟨by rw [keepDatagram, h₁, Option.bind_some, h₂], text, htext, rfl⟩

/-- A turn of a receiver shows what it should exactly if there is room for the NUL. -/
theorem receive_iff (r : Receiver) {m : Mem} (hm : m.length = bufferSize) (d : Option Datagram) :
    (∃ m', receive r.label m d = some (m', r.report d)) ↔ Fits d := by
  cases d with
  | none => exact iff_of_true ⟨m, rfl⟩ (fun _ h => by cases h)
  | some d =>
    constructor
    · rintro ⟨m', h⟩ _ ⟨⟩
      obtain ⟨hm', -⟩ := receive_cases h
      obtain ⟨m₁, h₁, h₂⟩ := Option.bind_eq_some_iff.1 hm'
      have hlen := store_lt h₂
      rwa [length_write h₁, hm] at hlen
    · intro hfits
      obtain ⟨l, hl⟩ := keepDatagram_eq hm (hfits d rfl)
      obtain ⟨m₁, h₁, h₂⟩ := Option.bind_eq_some_iff.1 hl
      refine ⟨d.bytes ++ 0 :: l, ?_⟩
      have htext := (cstr_append_eq_iff d.bytes (0 :: l)).2 (.inr rfl)
      rw [receive, h₁]
      show ((store m₁ d.bytes.length 0).bind fun b => (cstr b 0).bind fun text => _) = _
      rw [h₂, Option.bind_some, htext]
      rfl

/-- A receiver shows what it should exactly if there is room for every NUL. -/
theorem receives_iff (r : Receiver) (m : Buffer) (ds : List (Option Datagram)) :
    r.main m ds = some (ds.flatMap r.report) ↔ ∀ d ∈ ds, Fits d := by
  have hiff : r.main m ds = some (ds.flatMap r.report) ↔
      Along keepDatagram (fun _ d => Fits d) m.1 ds := by
    refine loop_eq_iff (I := fun m => m.length = bufferSize) ?_ ?_ ?_ m.2
    · intro m d m' es h
      cases d with
      | none => cases h; exact ⟨rfl, rfl⟩
      | some d =>
        obtain ⟨hm', text, -, rfl⟩ := receive_cases h
        exact ⟨rfl, hm'⟩
    · exact fun m d hm => receive_iff r hm d
    · exact fun m d m' hm h => (keepDatagram_length h).trans hm
  rw [hiff]
  refine ⟨fun h => h.forall_mem (I := fun m => m.length = bufferSize) ?_ m.2, Along.of_forall⟩
  intro m d hm hd
  cases d with
  | none => exact ⟨m, rfl, hm⟩
  | some d =>
    obtain ⟨l, hl⟩ := keepDatagram_eq hm (hd d rfl)
    exact ⟨_, hl, (keepDatagram_length hl).trans hm⟩

/-- **What the receive loops print.** A server prints the text of each chunk, and accesses nothing
outside of its array, exactly if each chunk has a NUL or meets one that is still in the array; a
receiver does so for each datagram exactly if none of them fills the array. -/
theorem reports_iff (s : Server) (r : Receiver) (m : Buffer) (cs : List Chunk)
    (ds : List (Option Datagram)) :
    (s.handleClient m cs = some (cs.flatMap s.report) ↔ Along keep Ends m.1 cs) ∧
    (r.main m ds = some (ds.flatMap r.report) ↔
      ∀ d, some d ∈ ds → d.bytes.length < bufferSize) := by
  constructor
  · refine loop_eq_iff (I := fun m => m.length = bufferSize) ?_ ?_ ?_ m.2
    · intro m c m' es h
      obtain ⟨hm', text, -, rfl⟩ := serve_cases h
      exact ⟨rfl, hm'⟩
    · exact fun m c hm => serve_iff s hm c
    · exact fun m c m' hm h => (length_write h).trans hm
  · have hfits : (∀ d, some d ∈ ds → d.bytes.length < bufferSize) ↔ ∀ d ∈ ds, Fits d :=
      ⟨fun h d hd e he => h e (he ▸ hd), fun h d hd => h _ hd d rfl⟩
    rw [hfits]
    exact receives_iff r m ds

/-- An array of zeros. -/
def zeros : Buffer := ⟨List.replicate bufferSize 0, List.length_replicate⟩

/-- After "secret", "xecret" is printed for the chunk "x"; a datagram that fills the array is
followed by a write outside of it. -/
theorem array_disclosed :
    (¬ ∀ (s : Server) (m : Buffer) (cs : List Chunk),
      s.handleClient m cs = some (cs.flatMap s.report)) ∧
    ¬ ∀ (r : Receiver) (m : Buffer) (ds : List (Option Datagram)),
      r.main m ds = some (ds.flatMap r.report) := by
  constructor
  · intro hall
    let secret : Chunk := ⟨"secret".toUTF8.data.toList, by decide, by decide⟩
    let x : Chunk := ⟨"x".toUTF8.data.toList, by decide, by decide⟩
    have hprinted : Server.thread.handleClient zeros [secret, x]
        = some [line "Received: " "secret".toUTF8.data.toList, .sent secret.bytes,
            line "Received: " "xecret".toUTF8.data.toList, .sent x.bytes] := by
      decide +kernel
    rw [hall] at hprinted
    exact absurd hprinted (by decide +kernel)
  · intro hall
    have hnone : Receiver.multicast.main zeros
        [some ⟨List.replicate bufferSize 120, List.length_replicate.le⟩] = none := by
      decide +kernel
    rw [hall] at hnone
    cases hnone

end Receivers
end PosixHw
