import Mathlib.Tactic

/-!
# Message queues

A queue is the list of its messages, the oldest first.  A message is sent to the end; `receive p`
takes the oldest message that meets `p`, and without one the receiver has to wait.

`Event` is an entry of a history: which party has sent or received which message.
-/

namespace PosixHw
namespace MessageQueue

/-- A party: the server, or one of any number of clients. -/
inductive Party
  | server
  | client (i : ℕ)
  deriving DecidableEq

/-- The party is not the server. -/
def Party.isClient : Party → Bool
  | .server => false
  | .client _ => true

/-- What happens to messages of the type `μ`. -/
inductive Event (μ : Type*)
  | sent (party : Party) (m : μ)
  | received (party : Party) (m : μ)
  deriving DecidableEq

/-- The event is the return of a receive. -/
def Event.isReceived {μ : Type*} : Event μ → Bool
  | .sent _ _ => false
  | .received _ _ => true

/-- Takes the oldest message that meets `p`; the message, and the queue without it. -/
def receive {μ : Type*} (p : μ → Bool) (q : List μ) : Option (μ × List μ) :=
  (q.find? p).map fun m => (m, q.eraseP p)

section Receive

variable {μ : Type*} {p : μ → Bool} {m : μ}

@[simp] theorem receive_nil : receive p ([] : List μ) = none := rfl

theorem receive_singleton_of_pos (h : p m = true) : receive p [m] = some (m, []) := by
  rw [receive, List.find?_cons_of_pos h, List.eraseP_cons_of_pos h]
  rfl

theorem receive_singleton_of_neg (h : p m = false) : receive p [m] = none := by
  have hp : ¬ p m = true := by rw [h]; exact Bool.false_ne_true
  rw [receive, List.find?_cons_of_neg hp]
  rfl

end Receive

end MessageQueue
end PosixHw
