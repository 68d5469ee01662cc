import PosixHw.Base.MessageQueue
import PosixHw.Base.Run

/-!
# The handshake over a System V message queue

The programs `mq/system v/server.c` and `mq/system v/client.c`: one server and any number of
clients.  The greeting has the type 1 and a reply the type 2, and `msgrcv` asks for a type.

An action is one call of one process, and says whether the call succeeds; a process whose call
fails exits.  A call on a queue that is removed fails.  The prints have no effect on the others and
are part of the step before them.  `msgsnd` never waits for room: in every phase of the handshake
the queue has at most one message (`Phase.queue`, `run_at`).
-/

namespace PosixHw
namespace MessageQueue
namespace SystemV

open Run

/-- A message: its type, who has sent it, and its text. -/
structure Message where
  msgType : ℤ
  sender : Party
  msgText : String
  deriving DecidableEq

/-- The queue under the key. -/
inductive Queue
  | absent | present (q : List Message) | removed
  deriving DecidableEq

/-- The places of the server. -/
inductive ServerPc
  | get | send | receive | remove (reported : String) | done | exited
  deriving DecidableEq

/-- The places of a client. -/
inductive ClientPc
  | get | receive | send | done | exited
  deriving DecidableEq

/-- The queue, the processes, what has happened, and the messages that the queue had when it was
removed. -/
structure State where
  queue : Queue
  server : ServerPc
  client : ℕ → ClientPc
  log : List (Event Message)
  left : Option (List Message)

/-- A step of the server or of a client; `ok` says whether its call succeeds. -/
inductive Act
  | server (ok : Bool)
  | client (i : ℕ) (ok : Bool)

/-- The start: no queue. -/
def start : State := ⟨.absent, .get, fun _ => .get, [], none⟩

/-- The messages of the server and of a client. -/
def greeting : Message := ⟨1, .server, "Hi!"⟩
def reply (i : ℕ) : Message := ⟨2, .client i, "Hello!"⟩

/-- The server, or the client `i`, is at `pc`. -/
def State.setServer (s : State) (pc : ServerPc) : State := { s with server := pc }
def State.setClient (s : State) (i : ℕ) (pc : ClientPc) : State :=
  { s with client := Function.update s.client i pc }

/-- `msgsnd` to the queue `q`. -/
def State.send (s : State) (q : List Message) (m : Message) : State :=
  { s with queue := .present (q ++ [m]), log := s.log ++ [.sent m.sender m] }

/-- `msgrcv` takes the oldest message of the type `t` from the queue `q`, or waits for one. -/
def State.receive (s : State) (q : List Message) (party : Party) (t : ℤ) :
    Option (Message × State) :=
  (MessageQueue.receive (fun m => m.msgType = t) q).map fun (m, q) =>
    (m, { s with queue := .present q, log := s.log ++ [.received party m] })

/-- `main` of the server. -/
def serverStep (s : State) (ok : Bool) : Option State :=
  match s.server, ok, s.queue with
  | .get, true, .present _ => some (s.setServer .send)
  | .get, true, _ => some { s with server := .send, queue := .present [] }
  | .send, true, .present q => some ((s.send q greeting).setServer .receive)
  | .receive, true, .present q =>
    (s.receive q .server 2).map fun (m, s) => s.setServer (.remove m.msgText)
  | .remove _, true, .present q =>
    some { s with server := .done, queue := .removed, left := some q }
  | .done, _, _ => none
  | .exited, _, _ => none
  | _, _, _ => some (s.setServer .exited)

/-- `main` of the client `i`. -/
def clientStep (s : State) (i : ℕ) (ok : Bool) : Option State :=
  match s.client i, ok, s.queue with
  | .get, true, .present _ => some (s.setClient i .receive)
  | .receive, true, .present q =>
    (s.receive q (.client i) 1).map fun (_, s) => s.setClient i .send
  | .send, true, .present q => some ((s.send q (reply i)).setClient i .done)
  | .done, _, _ => none
  | .exited, _, _ => none
  | _, _, _ => some (s.setClient i .exited)

/-- One step of one process. -/
def step (s : State) : Act → Option State
  | .server ok => serverStep s ok
  | .client i ok => clientStep s i ok

/-! ### The phases of the handshake -/

/-- How far the handshake is; the client `i` is the one that receives the greeting. -/
inductive Phase
  | absent | created | greeted | taken (i : ℕ) | replied (i : ℕ) | answered (i : ℕ)
  | removed (i : ℕ)

/-- The queue. -/
def Phase.queue : Phase → Queue
  | .absent => .absent
  | .created | .taken _ | .answered _ => .present []
  | .greeted => .present [greeting]
  | .replied i => .present [reply i]
  | .removed _ => .removed

/-- What has happened. -/
def Phase.log : Phase → List (Event Message)
  | .absent | .created => []
  | .greeted => [.sent .server greeting]
  | .taken i => [.sent .server greeting, .received (.client i) greeting]
  | .replied i =>
    [.sent .server greeting, .received (.client i) greeting, .sent (.client i) (reply i)]
  | .answered i | .removed i =>
    [.sent .server greeting, .received (.client i) greeting, .sent (.client i) (reply i),
      .received .server (reply i)]

/-- What was left in the queue. -/
def Phase.left : Phase → Option (List Message)
  | .removed _ => some []
  | _ => none

/-- The places of the server between the greeting and the reply. -/
def ServerPc.waiting : ServerPc → Bool
  | .receive | .exited => true
  | .get | .send | .remove _ | .done => false

/-- Where the server may be. -/
def Phase.server : Phase → ServerPc → Bool
  | .greeted, pc | .taken _, pc | .replied _, pc => pc.waiting
  | .absent, .get | .absent, .exited | .created, .send | .created, .exited => true
  | .answered _, .remove _ | .answered _, .exited | .removed _, .done => true
  | _, _ => false

/-- The places of a client that has not received; it never will if it has exited. -/
def ClientPc.early : ClientPc → Bool
  | .get | .receive | .exited => true
  | .send | .done => false

/-- Where the client `j` may be. -/
def Phase.client : Phase → ℕ → ClientPc → Bool
  | .absent, _, pc | .created, _, pc | .greeted, _, pc => pc.early
  | .taken i, j, pc => if j = i then pc = .send ∨ pc = .exited else pc.early
  | .replied i, j, pc | .answered i, j, pc | .removed i, j, pc =>
    if j = i then pc = .done else pc.early

/-- The state `s` is in the phase `ph`. -/
structure At (ph : Phase) (s : State) : Prop where
  queue : s.queue = ph.queue
  log : s.log = ph.log
  left : s.left = ph.left
  server : ph.server s.server = true
  client : ∀ j, ph.client j (s.client j) = true

theorem at_start : At .absent start := ⟨rfl, rfl, rfl, rfl, fun _ => rfl⟩

theorem At.setServer {ph : Phase} {s : State} (h : At ph s) {pc : ServerPc}
    (hpc : ph.server pc = true) : At ph (s.setServer pc) :=
  ⟨h.queue, h.log, h.left, hpc, h.client⟩

/-- The client `i` moves, and perhaps the phase with it. -/
theorem At.client_update {ph ph' : Phase} {s : State} (h : At ph s) {i : ℕ} {pc : ClientPc}
    (hpc : ph'.client i pc = true)
    (hothers : ∀ j, j ≠ i → ph.client j (s.client j) = true → ph'.client j (s.client j) = true) :
    ∀ j, ph'.client j (Function.update s.client i pc j) = true := by
  intro j
  by_cases hj : j = i
  · subst hj
    rwa [Function.update_self]
  · rw [Function.update_of_ne hj]
    exact hothers j hj (h.client j)

theorem At.setClient {ph : Phase} {s : State} (h : At ph s) {i : ℕ} {pc : ClientPc}
    (hpc : ph.client i pc = true) : At ph (s.setClient i pc) :=
  ⟨h.queue, h.log, h.left, h.server, h.client_update hpc fun _ _ hj => hj⟩

/-! ### Steps -/

theorem Phase.server_exited {ph : Phase} {pc : ServerPc} (h : ph.server pc = true)
    (hpc : pc ≠ .done) : ph.server .exited = true := by
  cases ph with
  | removed i => cases pc with
    | done => exact absurd rfl hpc
    | get | send | receive | remove r | exited => cases h
  | absent | created | greeted | taken i | replied i | answered i => rfl

/-- A client that is about to send has taken the greeting. -/
theorem Phase.client_send {ph : Phase} {i : ℕ} (h : ph.client i .send = true) : ph = .taken i := by
  cases ph with
  | absent | created | greeted => cases h
  | taken k =>
    simp only [Phase.client] at h
    split_ifs at h with hi
    · rw [hi]
    · cases h
  | replied k | answered k | removed k =>
    simp only [Phase.client] at h
    split_ifs at h <;> cases h

theorem Phase.client_exited {ph : Phase} {j : ℕ} {pc : ClientPc} (h : ph.client j pc = true)
    (hpc : pc ≠ .done) : ph.client j .exited = true := by
  cases ph with
  | absent | created | greeted => rfl
  | taken i =>
    simp only [Phase.client] at h ⊢
    split_ifs <;> rfl
  | replied i | answered i | removed i =>
    simp only [Phase.client] at h ⊢
    split_ifs at h ⊢
    · exact absurd (of_decide_eq_true h) hpc
    · rfl

/-- A receive of another type waits. -/
theorem receive_other {s : State} {party : Party} {m : Message} {t : ℤ} (h : m.msgType ≠ t) :
    s.receive [m] party t = none := by
  have hnone : MessageQueue.receive (fun m : Message => decide (m.msgType = t)) [m] = none :=
    receive_singleton_of_neg (decide_eq_false h)
  rw [State.receive, hnone]
  rfl

/-- A receive of the type of the only message gets it. -/
theorem receive_only {s : State} {party : Party} {m : Message} {t : ℤ} (h : m.msgType = t) :
    s.receive [m] party t
      = some (m, { s with queue := .present [], log := s.log ++ [.received party m] }) := by
  have hsome : MessageQueue.receive (fun m : Message => decide (m.msgType = t)) [m]
      = some (m, []) := receive_singleton_of_pos (decide_eq_true h)
  rw [State.receive, hsome]
  rfl

/-- A step of the server leads to a phase. -/
theorem At.serverStep {ph : Phase} {s t : State} {ok : Bool} (h : At ph s)
    (hs : serverStep s ok = some t) : ∃ ph', At ph' t := by
  have hserver := h.server
  unfold SystemV.serverStep at hs
  rw [h.queue] at hs
  cases hpc : s.server with
  | get =>
    rw [hpc] at hs hserver
    cases ph with
    | absent =>
      cases ok with
      | true =>
        cases hs
        exact ⟨.created, rfl, h.log, h.left, rfl, h.client⟩
      | false =>
        cases hs
        exact ⟨.absent, h.setServer rfl⟩
    | created | greeted | taken i | replied i | answered i | removed i => cases hserver
  | send =>
    rw [hpc] at hs hserver
    cases ph with
    | created =>
      cases ok with
      | true =>
        cases hs
        have hlog : s.log ++ [.sent .server greeting] = Phase.greeted.log := by rw [h.log]; rfl
        exact ⟨.greeted, rfl, hlog, h.left, rfl, h.client⟩
      | false =>
        cases hs
        exact ⟨.created, h.setServer rfl⟩
    | absent | greeted | taken i | replied i | answered i | removed i => cases hserver
  | receive =>
    rw [hpc] at hs hserver
    cases ok with
    | false =>
      have hexit := Phase.server_exited hserver (by decide)
      cases ph <;> cases hs <;> exact ⟨_, h.setServer hexit⟩
    | true =>
      cases ph with
      | greeted =>
        -- the greeting has the other type
        rw [Phase.queue] at hs
        dsimp only at hs
        rw [receive_other (by decide)] at hs
        cases hs
      | taken i => cases hs
      | replied i =>
        rw [Phase.queue] at hs
        dsimp only at hs
        rw [receive_only (t := 2) rfl] at hs
        cases hs
        have hlog : s.log ++ [.received .server (reply i)] = (Phase.answered i).log := by
          rw [h.log]
          rfl
        exact ⟨.answered i, rfl, hlog, h.left, rfl, h.client⟩
      | absent | created | answered i | removed i => cases hserver
  | remove r =>
    rw [hpc] at hs hserver
    cases ph with
    | answered i =>
      cases ok with
      | true =>
        cases hs
        exact ⟨.removed i, rfl, h.log, rfl, rfl, h.client⟩
      | false =>
        cases hs
        exact ⟨.answered i, h.setServer rfl⟩
    | absent | created | greeted | taken i | replied i | removed i => cases hserver
  | done | exited =>
    rw [hpc] at hs
    cases hs

/-- A step of a client leads to a phase. -/
theorem At.clientStep {ph : Phase} {s t : State} {i : ℕ} {ok : Bool} (h : At ph s)
    (hs : clientStep s i ok = some t) : ∃ ph', At ph' t := by
  have hclient := h.client i
  unfold SystemV.clientStep at hs
  rw [h.queue] at hs
  cases hpc : s.client i with
  | get =>
    rw [hpc] at hs hclient
    have hexit := Phase.client_exited hclient (by decide)
    have hearly : ph.client i .receive = true := by
      cases ph with
      | absent | created | greeted => rfl
      | taken k | replied k | answered k | removed k =>
        simp only [Phase.client] at hclient ⊢
        split_ifs at hclient ⊢
        · cases hclient
        · rfl
    cases ok <;> cases ph <;> cases hs <;>
      first | exact ⟨_, h.setClient hearly⟩ | exact ⟨_, h.setClient hexit⟩
  | receive =>
    rw [hpc] at hs hclient
    have hexit := Phase.client_exited hclient (by decide)
    cases ok with
    | false => cases ph <;> cases hs <;> exact ⟨_, h.setClient hexit⟩
    | true =>
      cases ph with
      | absent | removed k =>
        cases hs
        exact ⟨_, h.setClient hexit⟩
      | created | taken k | answered k => cases hs
      | greeted =>
        rw [Phase.queue] at hs
        dsimp only at hs
        rw [receive_only (t := 1) rfl] at hs
        cases hs
        have hlog : s.log ++ [.received (.client i) greeting] = (Phase.taken i).log := by
          rw [h.log]
          rfl
        refine ⟨.taken i, rfl, hlog, h.left, h.server,
          h.client_update (by simp [Phase.client]) fun j hj hearly => ?_⟩
        rw [Phase.client, if_neg hj]
        exact hearly
      | replied k =>
        -- the reply has the other type
        have htype : (reply k).msgType ≠ 1 := by
          show (2 : ℤ) ≠ 1
          decide
        rw [Phase.queue] at hs
        dsimp only at hs
        rw [receive_other htype] at hs
        cases hs
  | send =>
    rw [hpc] at hs hclient
    obtain rfl := Phase.client_send hclient
    cases ok with
    | true =>
      cases hs
      have hlog : s.log ++ [.sent (.client i) (reply i)] = (Phase.replied i).log := by
        rw [h.log]
        rfl
      refine ⟨.replied i, rfl, hlog, h.left, h.server,
        h.client_update (by simp [Phase.client]) fun j hj hearly => ?_⟩
      simp only [Phase.client, if_neg hj] at hearly ⊢
      exact hearly
    | false =>
      cases hs
      exact ⟨.taken i, h.setClient (by simp [Phase.client])⟩
  | done | exited =>
    rw [hpc] at hs
    cases hs

/-! ### Runs -/

theorem run_at {as : List Act} {t : State} (h : run step start as = some t) : ∃ ph, At ph t := by
  refine run_invariant (I := fun s => ∃ ph, At ph s) (fun s a u hs hu => ?_) ⟨.absent, at_start⟩ h
  obtain ⟨ph, hph⟩ := hs
  cases a with
  | server ok => exact hph.serverStep hu
  | client i ok => exact hph.clientStep hu

/-- A client that has received has the greeting. -/
theorem At.client_past {ph : Phase} {s : State} (h : At ph s) {i : ℕ}
    (hi : s.client i = .send ∨ s.client i = .done) :
    Event.received (.client i) greeting ∈ s.log := by
  have hclient := h.client i
  have hlate : ClientPc.early (s.client i) = false := by
    rcases hi with hi | hi <;> rw [hi] <;> rfl
  rw [h.log]
  cases ph with
  | absent | created | greeted => exact absurd (hlate.symm.trans hclient) Bool.false_ne_true
  | taken k | replied k | answered k | removed k =>
    simp only [Phase.client] at hclient
    split_ifs at hclient with hik
    · subst hik
      simp [Phase.log]
    · exact absurd (hlate.symm.trans hclient) Bool.false_ne_true

/-- **The handshake is right in every run.**  Starting from no queue, the server receives only
messages that clients have sent, the clients receive only from the server, at most one of them
receives the greeting, only that one replies, and the queue is empty when the server removes it. -/
theorem handshake {as : List Act} {t : State} (h : run step start as = some t) :
    (∀ m, .received .server m ∈ t.log → m.sender.isClient = true ∧ .sent m.sender m ∈ t.log) ∧
    (∀ i m, .received (.client i) m ∈ t.log → m = greeting) ∧
    (∀ i j m m', .received (.client i) m ∈ t.log → .received (.client j) m' ∈ t.log → i = j) ∧
    (∀ i, t.client i = .send ∨ t.client i = .done → .received (.client i) greeting ∈ t.log) ∧
    (∀ i m, .sent (.client i) m ∈ t.log → .received (.client i) greeting ∈ t.log) ∧
    ∀ q, t.left = some q → q = [] := by
  obtain ⟨ph, hph⟩ := run_at h
  have hpast : ∀ i, t.client i = .send ∨ t.client i = .done →
      .received (.client i) greeting ∈ t.log := fun i hi => hph.client_past hi
  rw [hph.log] at hpast ⊢
  rw [hph.left]
  refine ⟨?_, ?_, ?_, hpast, ?_, ?_⟩
  · cases ph <;> simp [Phase.log, greeting, reply, Party.isClient]
  · cases ph <;> simp [Phase.log, greeting]
  · cases ph <;> simp +contextual [Phase.log, greeting]
  · cases ph <;> simp [Phase.log, greeting, reply]
  · cases ph <;> simp [Phase.left]

/-- Two clients start before the server's greeting is taken, and one of them waits until the queue
is removed. -/
def twoClients : List Act :=
  [.server true, .client 1 true, .client 0 true, .server true, .client 0 true, .client 0 true,
    .server true, .server true, .client 1 true]

theorem handshake_twoClients :
    ∃ t, run step start twoClients = some t ∧ t.server = .done ∧ t.client 1 = .exited ∧
      t.left = some [] ∧ ∀ i m, .received (.client i) m ∈ t.log → m = greeting := by
  obtain ⟨t, ht, hserver, hclient, q, hq⟩ : ∃ t, run step start twoClients = some t ∧
      t.server = .done ∧ t.client 1 = .exited ∧ ∃ q, t.left = some q := ⟨_, rfl, rfl, rfl, _, rfl⟩
  obtain ⟨-, hgreeting, -, -, -, hleft⟩ := handshake ht
  obtain rfl := hleft q hq
  exact ⟨t, ht, hserver, hclient, hq, hgreeting⟩

end SystemV
end MessageQueue
end PosixHw
