import PosixHw.Receivers.Clients

/-!
# The senders of hw3 and their receivers

A sender repeats one message for ever, and says for each `sendto` whether it has succeeded.  The
network may lose datagrams, repeat them and change their order; a receiver that gets nothing but
datagrams of its sender prints the message for each of them, whatever its array held.
-/

namespace PosixHw
namespace Receivers

/-- `MESSAGE` of the sender that a receiver listens to. -/
def Receiver.message : Receiver → Greeting
  | .multicast => ⟨"Hello, Multicast!".toUTF8.data.toList, by decide, by decide⟩
  | .broadcast => ⟨"Hello, Broadcast!".toUTF8.data.toList, by decide, by decide⟩

/-- What the sender says when `sendto` succeeds, before the message, and when it fails. -/
def Receiver.sentLabel : Receiver → String
  | .multicast => "Multicast message sent: "
  | .broadcast => "Broadcast message sent: "
def Receiver.failed : Receiver → String
  | .multicast => "Multicast message failed"
  | .broadcast => "Broadcast message failed"

/-- The body of the loop of the sender; `ok` says whether `sendto` succeeds. -/
def Receiver.send (r : Receiver) (ok : Bool) : List Event :=
  if ok then [.sent r.message.bytes, line r.sentLabel r.message.bytes] else [.perror r.failed]

/-- The loop of `main` of the sender. -/
def Receiver.sender (r : Receiver) (oks : List Bool) : List Event := oks.flatMap r.send

variable {r : Receiver} {oks : List Bool} {bs : List UInt8}

/-- Nothing but the message is sent. -/
theorem eq_message (h : .sent bs ∈ r.sender oks) : bs = r.message.bytes := by
  obtain ⟨ok, -, hsend⟩ := List.mem_flatMap.1 h
  cases ok with
  | true =>
    rcases List.mem_cons.1 hsend with heq | hline
    · exact Event.sent.inj heq
    · cases List.mem_singleton.1 hline
  | false => cases List.mem_singleton.1 hsend

/-- A sender says that it has sent the message as often as it has. -/
theorem count_sent (r : Receiver) (oks : List Bool) :
    (r.sender oks).count (.sent r.message.bytes) = oks.count true ∧
      (r.sender oks).count (line r.sentLabel r.message.bytes) = oks.count true := by
  induction oks with
  | nil => exact ⟨rfl, rfl⟩
  | cons ok oks ih =>
    have hcons : r.sender (ok :: oks) = r.send ok ++ r.sender oks := rfl
    rw [hcons, List.count_append, List.count_append, ih.1, ih.2]
    cases ok with
    | true =>
      rw [List.count_cons_self]
      constructor
      · simp [Receiver.send, line, Nat.add_comm]
      · simp [Receiver.send, line, Nat.add_comm]
    | false =>
      constructor
      · simp [Receiver.send]
      · simp [Receiver.send, line]

/-- What a receiver shows of a datagram with the message: all of it, as it has no NUL. -/
theorem report_message {d : Datagram} (h : d.bytes = r.message.bytes) :
    r.report (some d) = [line r.label r.message.bytes] := by
  have hnul : d.bytes.takeWhile (· ≠ 0) = d.bytes := by
    rw [List.takeWhile_eq_self_iff]
    intro b hb
    rw [h] at hb
    exact decide_eq_true fun hzero => r.message.nul_notMem (hzero ▸ hb)
  rw [Receiver.report, hnul, h]

/-- **Sender and receiver.**  However often `sendto` and `recvfrom` fail, and whichever of the
datagrams that have been sent arrive, in any order and number: the receiver prints the message once
for each that arrives and reports each failure, whatever its array held, and accesses nothing
outside of it; and the sender reports each message that it has sent. -/
theorem message_received (r : Receiver) (oks : List Bool) (m : Buffer)
    (ds : List (Option Datagram)) (hds : ∀ d, some d ∈ ds → .sent d.bytes ∈ r.sender oks) :
    r.main m ds = some (ds.map fun d =>
        if d.isSome then line r.label r.message.bytes else .perror "recvfrom failed") ∧
      (r.sender oks).count (.sent r.message.bytes)
        = (r.sender oks).count (line r.sentLabel r.message.bytes) := by
  have hbytes : ∀ d, some d ∈ ds → d.bytes = r.message.bytes := fun d hd => eq_message (hds d hd)
  have hfits : ∀ d ∈ ds, Fits d := by
    rintro _ hd e rfl
    rw [hbytes e hd]
    exact r.message.lt
  refine ⟨?_, (count_sent r oks).1.trans (count_sent r oks).2.symm⟩
  rw [(receives_iff r m ds).2 hfits, List.map_eq_flatMap]
  congr 1
  apply List.flatMap_congr
  intro d hd
  cases d with
  | none => rfl
  | some d => exact report_message (hbytes d hd)

/-- One datagram arrives twice, and one is lost. -/
theorem message_received_twice :
    Receiver.multicast.main zeros
        [some ⟨Receiver.multicast.message.bytes, by decide⟩, none,
          some ⟨Receiver.multicast.message.bytes, by decide⟩]
      = some [line "Received multicast message: " Receiver.multicast.message.bytes,
          .perror "recvfrom failed",
          line "Received multicast message: " Receiver.multicast.message.bytes] := by
  refine (message_received .multicast [true, false, true] zeros _ ?_).1
  intro d hd
  have hd : d.bytes = Receiver.multicast.message.bytes := by
    simp only [List.mem_cons, Option.some.injEq, reduceCtorEq, List.not_mem_nil, or_false,
      false_or, or_self] at hd
    rw [hd]
  rw [hd]
  exact List.mem_cons_self

end Receivers
end PosixHw
