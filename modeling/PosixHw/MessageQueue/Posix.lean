import PosixHw.Base.MessageQueue
import PosixHw.Base.Run

/-!
# The handshake over a POSIX message queue

The programs `mq/posix/server.c` and `mq/posix/client.c`: one server and any number of clients.
Both directions share one queue.  An action is one call of one process, and says whether the call
succeeds; a process whose call fails exits.  `sleep` may take any time.

A queue that is unlinked loses its name, but who has it open goes on using it.  The prints and
`mq_close` have no effect on the others and are part of the step before them.
-/

namespace PosixHw
namespace MessageQueue
namespace Posix

open Run

/-- A message: who has sent it, and its text. -/
structure Message where
  sender : Party
  text : String
  deriving DecidableEq

/-- The places of the server. -/
inductive ServerPc
  | create | send | sleep | reopen | receive | unlink (reported : String) | done | exited
  deriving DecidableEq

/-- The places of a client. -/
inductive ClientPc
  | open | receive | reopen | send | done | exited
  deriving DecidableEq

/-- The name of the queue, its messages and its bound, the processes, and what has happened. -/
structure State where
  linked : Bool
  queue : List Message
  maxMsg : ℕ
  server : ServerPc
  client : ℕ → ClientPc
  log : List (Event Message)

/-- A step of the server or of a client; `ok` says whether its call succeeds. -/
inductive Act
  | server (ok : Bool)
  | client (i : ℕ) (ok : Bool)

/-- The start: no queue, or an empty one. -/
def start (linked : Bool) (maxMsg : ℕ) : State :=
  ⟨linked, [], maxMsg, .create, fun _ => .open, []⟩

/-- The messages of the server and of a client. -/
def greeting : Message := ⟨.server, "Hi!"⟩
def reply (i : ℕ) : Message := ⟨.client i, "Hello!"⟩

/-- `mq_send`; it waits for room. -/
def State.send (s : State) (m : Message) : Option State :=
  if s.queue.length < s.maxMsg then
    some { s with queue := s.queue ++ [m], log := s.log ++ [.sent m.sender m] }
  else none

/-- `mq_receive` takes the oldest message, or waits for one. -/
def State.receive (s : State) (party : Party) : Option (Message × State) :=
  (MessageQueue.receive (fun _ => true) s.queue).map fun (m, q) =>
    (m, { s with queue := q, log := s.log ++ [.received party m] })

/-- The process `i` is at `pc`. -/
def State.setClient (s : State) (i : ℕ) (pc : ClientPc) : State :=
  { s with client := Function.update s.client i pc }

/-- `main` of the server. -/
def serverStep (s : State) (ok : Bool) : Option State :=
  match s.server with
  | .create =>
    if ok then
      some { s with server := .send, linked := true, maxMsg := if s.linked then s.maxMsg else 10 }
    else some { s with server := .exited }
  | .send =>
    if ok then (s.send greeting).map fun s => { s with server := .sleep }
    else some { s with server := .exited }
  | .sleep => some { s with server := .reopen }
  | .reopen =>
    if ok && s.linked then some { s with server := .receive }
    else some { s with server := .exited }
  | .receive =>
    if ok then (s.receive .server).map fun (m, s) => { s with server := .unlink m.text }
    else some { s with server := .exited }
  | .unlink _ => some { s with server := .done, linked := !ok && s.linked }
  | .done => none
  | .exited => none

/-- `main` of the client `i`. -/
def clientStep (s : State) (i : ℕ) (ok : Bool) : Option State :=
  match s.client i with
  | .open =>
    if ok && s.linked then some (s.setClient i .receive) else some (s.setClient i .exited)
  | .receive =>
    if ok then (s.receive (.client i)).map fun (_, s) => s.setClient i .reopen
    else some (s.setClient i .exited)
  | .reopen =>
    if ok && s.linked then some (s.setClient i .send) else some (s.setClient i .exited)
  | .send =>
    if ok then (s.send (reply i)).map fun s => s.setClient i .done
    else some (s.setClient i .exited)
  | .done => none
  | .exited => none

/-- One step of one process. -/
def step (s : State) : Act → Option State
  | .server ok => serverStep s ok
  | .client i ok => clientStep s i ok

/-- What the handshake wants of an event: the server receives from a client, and a client from the
server. -/
def Proper : Event Message → Prop
  | .sent _ _ => True
  | .received .server m => m.sender.isClient = true
  | .received (.client _) m => m.sender.isClient = false

/-- The queue is read in turn: a client may receive as long as no process has, the server when one
has. -/
def InTurn (s : State) : Act → Prop
  | .server ok => s.server = .receive → ok = true → s.log.any Event.isReceived = true
  | .client i ok => s.client i = .receive → ok = true → s.log.any Event.isReceived = false

instance (s : State) : ∀ a, Decidable (InTurn s a)
  | .server _ => inferInstanceAs (Decidable (_ → _))
  | .client _ _ => inferInstanceAs (Decidable (_ → _))

/-! ### The phases of a handshake in turn -/

/-- How far the handshake is. -/
inductive Phase
  | quiet | greeted | taken (i : ℕ) | replied (i : ℕ) | answered (i : ℕ)

/-- The messages in the queue. -/
def Phase.queue : Phase → List Message
  | .quiet | .taken _ | .answered _ => []
  | .greeted => [greeting]
  | .replied i => [reply i]

/-- What has happened. -/
def Phase.log : Phase → List (Event Message)
  | .quiet => []
  | .greeted => [.sent .server greeting]
  | .taken i => [.sent .server greeting, .received (.client i) greeting]
  | .replied i =>
    [.sent .server greeting, .received (.client i) greeting, .sent (.client i) (reply i)]
  | .answered i =>
    [.sent .server greeting, .received (.client i) greeting, .sent (.client i) (reply i),
      .received .server (reply i)]

/-- The places of a client that has not received; it never will if it has exited. -/
def ClientPc.early : ClientPc → Bool
  | .open | .receive | .exited => true
  | .reopen | .send | .done => false

/-- The places of a client that has received and not replied. -/
def ClientPc.taking : ClientPc → Bool
  | .reopen | .send | .exited => true
  | .open | .receive | .done => false

/-- The places of the server before the greeting, between the greeting and the reply, and after
the reply. -/
def ServerPc.early : ServerPc → Bool
  | .create | .send | .exited => true
  | _ => false
def ServerPc.waiting : ServerPc → Bool
  | .sleep | .reopen | .receive | .exited => true
  | _ => false
def ServerPc.answered : ServerPc → Bool
  | .unlink _ | .done => true
  | _ => false

/-- Where the server may be. -/
def Phase.server : Phase → ServerPc → Bool
  | .quiet, pc => pc.early
  | .greeted, pc | .taken _, pc | .replied _, pc => pc.waiting
  | .answered _, pc => pc.answered

/-- Where the client `j` may be. -/
def Phase.client : Phase → ℕ → ClientPc → Bool
  | .quiet, _, pc | .greeted, _, pc => pc.early
  | .taken i, j, pc => if j = i then pc.taking else pc.early
  | .replied i, j, pc | .answered i, j, pc => if j = i then pc = .done else pc.early

/-- The state `s` is in the phase `ph`. -/
structure At (ph : Phase) (s : State) : Prop where
  queue : s.queue = ph.queue
  log : s.log = ph.log
  server : ph.server s.server = true
  client : ∀ j, ph.client j (s.client j) = true

theorem at_start (linked : Bool) (maxMsg : ℕ) : At .quiet (start linked maxMsg) :=
  ⟨rfl, rfl, rfl, fun _ => rfl⟩

/-- In every phase only proper events have happened. -/
theorem At.proper {ph : Phase} {s : State} (h : At ph s) : ∀ e ∈ s.log, Proper e := by
  rw [h.log]
  cases ph <;> simp [Phase.log, Proper, greeting, reply, Party.isClient]

/-- A process has received from the phase `taken` on. -/
theorem At.any_isReceived {ph : Phase} {s : State} (h : At ph s) :
    s.log.any Event.isReceived = match ph with
      | .quiet | .greeted => false
      | .taken _ | .replied _ | .answered _ => true := by
  rw [h.log]
  cases ph <;> rfl

theorem At.setClient {ph : Phase} {s : State} (h : At ph s) {i : ℕ} {pc : ClientPc}
    (hpc : ph.client i pc = true) : At ph (s.setClient i pc) := by
  refine ⟨h.queue, h.log, h.server, fun j => ?_⟩
  by_cases hj : j = i
  · subst hj
    simpa [State.setClient] using hpc
  · simpa [State.setClient, Function.update_of_ne hj] using h.client j

/-! ### The calls in each phase -/

theorem send_eq_some {s t : State} {m : Message} (h : s.send m = some t) :
    t = { s with queue := s.queue ++ [m], log := s.log ++ [.sent m.sender m] } := by
  unfold State.send at h
  split_ifs at h
  exact (Option.some.inj h).symm

/-- Whoever receives in a phase gets the only message of the queue. -/
theorem At.receive {ph : Phase} {s t : State} {m : Message} {party : Party} (h : At ph s)
    (hm : s.receive party = some (m, t)) :
    ph.queue = [m] ∧ t = { s with queue := [], log := s.log ++ [.received party m] } := by
  have hlen : ∀ m', ph.queue = [m'] → s.receive party
      = some (m', { s with queue := [], log := s.log ++ [.received party m'] }) := by
    intro m' hq
    rw [State.receive, h.queue, hq, receive_singleton_of_pos rfl]
    rfl
  have hnil : ph.queue = [] → s.receive party = none := by
    intro hq
    rw [State.receive, h.queue, hq, receive_nil]
    rfl
  cases ph with
  | quiet | taken i | answered i => exact nomatch (hnil rfl).symm.trans hm
  | greeted | replied i =>
    obtain ⟨rfl, rfl⟩ := Prod.mk.inj (Option.some.inj ((hlen _ rfl).symm.trans hm))
    exact ⟨rfl, rfl⟩

/-- The server moves within a phase. -/
theorem At.setServer {ph : Phase} {s : State} (h : At ph s) {pc : ServerPc}
    (hpc : ph.server pc = true) (linked : Bool) (maxMsg : ℕ) :
    At ph { s with server := pc, linked := linked, maxMsg := maxMsg } :=
  ⟨h.queue, h.log, hpc, h.client⟩

theorem Phase.server_mono {ph : Phase} {pc pc' : ServerPc}
    (hearly : pc.early = true → pc'.early = true)
    (hwaiting : pc.waiting = true → pc'.waiting = true)
    (hanswered : pc.answered = true → pc'.answered = true) (h : ph.server pc = true) :
    ph.server pc' = true := by
  cases ph with
  | quiet => exact hearly h
  | greeted | taken i | replied i => exact hwaiting h
  | answered i => exact hanswered h

/-- A client that is about to send has taken the greeting. -/
theorem Phase.client_send {ph : Phase} {i : ℕ} (h : ph.client i .send = true) : ph = .taken i := by
  cases ph with
  | quiet | greeted => cases h
  | taken k =>
    simp only [Phase.client] at h
    split_ifs at h with hi
    · rw [hi]
    · cases h
  | replied k | answered k =>
    simp only [Phase.client] at h
    split_ifs at h <;> cases h

theorem Phase.client_mono {ph : Phase} {j : ℕ} {pc pc' : ClientPc}
    (hearly : pc.early = true → pc'.early = true)
    (htaking : pc.taking = true → pc'.taking = true) (hdone : pc ≠ .done)
    (h : ph.client j pc = true) : ph.client j pc' = true := by
  cases ph with
  | quiet | greeted => exact hearly h
  | taken i =>
    simp only [Phase.client] at h ⊢
    split_ifs at h ⊢
    · exact htaking h
    · exact hearly h
  | replied i | answered i =>
    simp only [Phase.client] at h ⊢
    split_ifs at h ⊢
    · exact absurd (of_decide_eq_true h) hdone
    · exact hearly h

/-- A step of the server in turn leads to a phase. -/
theorem At.serverStep {ph : Phase} {s t : State} {ok : Bool} (h : At ph s)
    (hturn : InTurn s (.server ok)) (hs : serverStep s ok = some t) : ∃ ph', At ph' t := by
  have hserver := h.server
  unfold Posix.serverStep at hs
  cases hpc : s.server with
  | create =>
    rw [hpc] at hs hserver
    dsimp only at hs
    split_ifs at hs <;> cases hs
    · exact ⟨ph, h.setServer (Phase.server_mono (by decide) (by decide) (by decide) hserver) _ _⟩
    · exact ⟨ph, h.setServer (Phase.server_mono (by decide) (by decide) (by decide) hserver) _ _⟩
    · exact ⟨ph, h.setServer (Phase.server_mono (by decide) (by decide) (by decide) hserver) _ _⟩
  | send =>
    rw [hpc] at hs hserver
    cases ph with
    | quiet =>
      dsimp only at hs
      split_ifs at hs
      · -- the greeting is the only message
        obtain ⟨t', ht', rfl⟩ := Option.map_eq_some_iff.1 hs
        rw [send_eq_some ht', h.queue, h.log]
        exact ⟨.greeted, rfl, rfl, rfl, h.client⟩
      · cases hs
        exact ⟨.quiet, h.setServer rfl _ _⟩
    | greeted | taken i | replied i | answered i => cases hserver
  | sleep =>
    rw [hpc] at hs hserver
    cases hs
    exact ⟨ph, h.setServer (Phase.server_mono (by decide) (by decide) (by decide) hserver) _ _⟩
  | reopen =>
    rw [hpc] at hs hserver
    dsimp only at hs
    split_ifs at hs <;> cases hs
    · exact ⟨ph, h.setServer (Phase.server_mono (by decide) (by decide) (by decide) hserver) _ _⟩
    · exact ⟨ph, h.setServer (Phase.server_mono (by decide) (by decide) (by decide) hserver) _ _⟩
  | receive =>
    rw [hpc] at hs hserver
    dsimp only at hs
    split_ifs at hs with hok
    · obtain ⟨⟨m, t'⟩, hm, rfl⟩ := Option.map_eq_some_iff.1 hs
      obtain ⟨hq, rfl⟩ := h.receive hm
      have hany := hturn hpc hok
      rw [h.any_isReceived] at hany
      cases ph with
      | quiet | greeted => cases hany
      | taken i | answered i => cases hq
      | replied i =>
        obtain rfl : reply i = m := (List.cons.inj hq).1
        exact ⟨.answered i, rfl, by rw [h.log]; rfl, rfl, h.client⟩
    · cases hs
      exact ⟨ph, h.setServer (Phase.server_mono (by decide) (by decide) (by decide) hserver) _ _⟩
  | unlink r =>
    rw [hpc] at hs hserver
    cases hs
    have hstay : ph.server .done = true := by
      cases ph with
      | answered i => rfl
      | quiet | greeted | taken i | replied i => cases hserver
    exact ⟨ph, h.setServer hstay _ _⟩
  | done | exited =>
    rw [hpc] at hs
    cases hs

/-- A step of a client in turn leads to a phase. -/
theorem At.clientStep {ph : Phase} {s t : State} {i : ℕ} {ok : Bool} (h : At ph s)
    (hturn : InTurn s (.client i ok)) (hs : clientStep s i ok = some t) : ∃ ph', At ph' t := by
  have hclient := h.client i
  unfold Posix.clientStep at hs
  cases hpc : s.client i with
  | «open» =>
    rw [hpc] at hs hclient
    dsimp only at hs
    split_ifs at hs <;> cases hs
    · exact ⟨ph, h.setClient (Phase.client_mono (by decide) (by decide) (by decide) hclient)⟩
    · exact ⟨ph, h.setClient (Phase.client_mono (by decide) (by decide) (by decide) hclient)⟩
  | receive =>
    rw [hpc] at hs hclient
    dsimp only at hs
    split_ifs at hs with hok
    · obtain ⟨⟨m, t'⟩, hm, rfl⟩ := Option.map_eq_some_iff.1 hs
      obtain ⟨hq, rfl⟩ := h.receive hm
      have hany := hturn hpc hok
      rw [h.any_isReceived] at hany
      cases ph with
      | quiet => cases hq
      | greeted =>
        obtain rfl : greeting = m := (List.cons.inj hq).1
        refine ⟨.taken i, rfl, by rw [State.setClient, h.log]; rfl, h.server, fun j => ?_⟩
        by_cases hj : j = i
        · subst hj
          simp [Phase.client, State.setClient, ClientPc.taking]
        · simpa [Phase.client, State.setClient, hj] using h.client j
      | taken i | replied i | answered i => cases hany
    · cases hs
      exact ⟨ph, h.setClient (Phase.client_mono (by decide) (by decide) (by decide) hclient)⟩
  | reopen =>
    rw [hpc] at hs hclient
    dsimp only at hs
    split_ifs at hs <;> cases hs
    · exact ⟨ph, h.setClient (Phase.client_mono (by decide) (by decide) (by decide) hclient)⟩
    · exact ⟨ph, h.setClient (Phase.client_mono (by decide) (by decide) (by decide) hclient)⟩
  | send =>
    rw [hpc] at hs hclient
    dsimp only at hs
    split_ifs at hs
    · obtain ⟨t', ht', rfl⟩ := Option.map_eq_some_iff.1 hs
      obtain rfl := Phase.client_send hclient
      rw [send_eq_some ht']
      refine ⟨.replied i, by rw [State.setClient, h.queue]; rfl,
        by rw [State.setClient, h.log]; rfl, h.server, fun j => ?_⟩
      by_cases hj : j = i
      · subst hj
        simp [Phase.client, State.setClient]
      · simpa [Phase.client, State.setClient, hj] using h.client j
    · cases hs
      exact ⟨ph, h.setClient (Phase.client_mono (by decide) (by decide) (by decide) hclient)⟩
  | done | exited =>
    rw [hpc] at hs
    cases hs

/-! ### Out of turn -/

/-- Who receives out of turn gets what it should not. -/
theorem At.improper {ph : Phase} {s t : State} {a : Act} (h : At ph s) (hturn : ¬ InTurn s a)
    (hs : step s a = some t) : ∃ e ∈ t.log, ¬ Proper e := by
  cases a with
  | server ok =>
    obtain ⟨hpc, rfl, hany⟩ : s.server = .receive ∧ ok = true ∧
        ¬ s.log.any Event.isReceived = true := by simpa [InTurn] using hturn
    simp only [step, Posix.serverStep, hpc, if_true] at hs
    obtain ⟨⟨m, t'⟩, hm, rfl⟩ := Option.map_eq_some_iff.1 hs
    obtain ⟨hq, rfl⟩ := h.receive hm
    rw [h.any_isReceived] at hany
    cases ph with
    | quiet => cases hq
    | greeted =>
      -- the server's own greeting
      obtain rfl : greeting = m := (List.cons.inj hq).1
      exact ⟨.received .server greeting, by simp, Bool.false_ne_true⟩
    | taken i | replied i | answered i => exact absurd rfl hany
  | client i ok =>
    obtain ⟨hpc, rfl, hany⟩ : s.client i = .receive ∧ ok = true ∧
        s.log.any Event.isReceived = true := by simpa [InTurn] using hturn
    simp only [step, Posix.clientStep, hpc, if_true] at hs
    obtain ⟨⟨m, t'⟩, hm, rfl⟩ := Option.map_eq_some_iff.1 hs
    obtain ⟨hq, rfl⟩ := h.receive hm
    rw [h.any_isReceived] at hany
    cases ph with
    | quiet | greeted => cases hany
    | taken k | answered k => cases hq
    | replied k =>
      -- the reply of another client
      obtain rfl : reply k = m := (List.cons.inj hq).1
      exact ⟨.received (.client i) (reply k), by simp [State.setClient], Bool.noConfusion⟩

theorem send_log_grows {s t : State} {m : Message} (h : s.send m = some t) : s.log <+: t.log := by
  rw [send_eq_some h]
  exact List.prefix_append _ _

theorem receive_log_grows {s : State} {party : Party} {x : Message × State}
    (h : s.receive party = some x) : s.log <+: x.2.log := by
  obtain ⟨y, -, rfl⟩ := Option.map_eq_some_iff.1 h
  exact List.prefix_append _ _

/-- What has happened stays in the log. -/
theorem log_grows {s t : State} {a : Act} (hs : step s a = some t) : s.log <+: t.log := by
  -- a call that waits
  have hmap : ∀ {α : Type} {o : Option α} {f : α → State},
      (∀ x, o = some x → s.log <+: (f x).log) → o.map f = some t → s.log <+: t.log := by
    intro α o f hf h
    obtain ⟨x, hx, rfl⟩ := Option.map_eq_some_iff.1 h
    exact hf x hx
  cases a with
  | server ok =>
    simp only [step, Posix.serverStep] at hs
    split at hs
    · split_ifs at hs <;> exact Option.some.inj hs ▸ List.prefix_rfl
    · split_ifs at hs
      · refine hmap ?_ hs
        exact fun x h => (send_log_grows h : s.log <+: x.log)
      · exact Option.some.inj hs ▸ List.prefix_rfl
    · exact Option.some.inj hs ▸ List.prefix_rfl
    · split_ifs at hs <;> exact Option.some.inj hs ▸ List.prefix_rfl
    · split_ifs at hs
      · refine hmap ?_ hs
        exact fun _ h => receive_log_grows h
      · exact Option.some.inj hs ▸ List.prefix_rfl
    · exact Option.some.inj hs ▸ List.prefix_rfl
    · cases hs
    · cases hs
  | client i ok =>
    simp only [step, Posix.clientStep] at hs
    split at hs
    · split_ifs at hs <;> exact Option.some.inj hs ▸ List.prefix_rfl
    · split_ifs at hs
      · refine hmap ?_ hs
        exact fun _ h => receive_log_grows h
      · exact Option.some.inj hs ▸ List.prefix_rfl
    · split_ifs at hs <;> exact Option.some.inj hs ▸ List.prefix_rfl
    · split_ifs at hs
      · refine hmap ?_ hs
        exact fun x h => (send_log_grows h : s.log <+: x.log)
      · exact Option.some.inj hs ▸ List.prefix_rfl
    · cases hs
    · cases hs

/-! ### Runs -/

theorem At.run_proper_iff {ph : Phase} {s t : State} {as : List Act} (h : At ph s)
    (hs : run step s as = some t) : (∀ e ∈ t.log, Proper e) ↔ Along step InTurn s as := by
  have hcases := run_dichotomy (I := fun s => ∃ ph, At ph s) (J := fun s => ∃ e ∈ s.log, ¬ Proper e)
    (P := InTurn) (fun s a u hs hturn hu => ?_) (fun s a u hs hturn hu => ?_)
    (fun s a u hs hu => ?_) ⟨ph, h⟩ hs
  · rcases hcases with ⟨halong, ph', h'⟩ | ⟨halong, e, he, hbad⟩
    · exact iff_of_true h'.proper halong
    · exact iff_of_false (fun hproper => hbad (hproper e he)) halong
  · obtain ⟨ph', h'⟩ := hs
    cases a with
    | server ok => exact h'.serverStep hturn hu
    | client i ok => exact h'.clientStep hturn hu
  · obtain ⟨ph', h'⟩ := hs
    exact h'.improper hturn hu
  · obtain ⟨e, he, hbad⟩ := hs
    exact ⟨e, (log_grows hu).subset he, hbad⟩

/-- **The handshake is right exactly in turn.**  In a run from an empty queue, or from none, the
server receives only from clients and the clients only from the server, if and only if the first
process to receive is a client and the next one, if there is one, is the server. -/
theorem handshake_iff {linked : Bool} {maxMsg : ℕ} {as : List Act} {t : State}
    (h : run step (start linked maxMsg) as = some t) :
    (∀ e ∈ t.log, Proper e) ↔ Along step InTurn (start linked maxMsg) as :=
  (at_start linked maxMsg).run_proper_iff h

/-- The server opens the queue, greets, sleeps, opens it again and receives; all calls succeed. -/
def serverAlone : List Act := List.replicate 5 (.server true)

/-- The server greets, the client 0 receives and replies, and then the client 1 receives. -/
def twoClients : List Act :=
  [.server true, .server true, .client 0 true, .client 0 true, .client 0 true, .client 0 true,
    .client 1 true, .client 1 true]

/-- The server reports its own greeting if no client has received when its pause ends, and a client
can receive the reply of another one. -/
theorem ownGreeting :
    (run step (start false 10) serverAlone).map (fun s => (s.server, s.log))
      = some (.unlink "Hi!", [.sent .server greeting, .received .server greeting]) ∧
    (run step (start false 10) twoClients).map State.log
      = some [.sent .server greeting, .received (.client 0) greeting,
          .sent (.client 0) (reply 0), .received (.client 1) (reply 0)] :=
  ⟨by decide +kernel, by decide +kernel⟩

/-- The server greets, the client 0 receives and replies, and the server receives. -/
def inTurn : List Act :=
  [.server true, .server true, .client 0 true, .client 0 true, .client 0 true, .client 0 true,
    .server true, .server true, .server true]

theorem handshake_iff_inTurn :
    ∃ t, run step (start false 10) inTurn = some t ∧ t.server = .unlink "Hello!" ∧
      ∀ e ∈ t.log, Proper e := by
  have hturn : Along step InTurn (start false 10) inTurn := by decide +kernel
  obtain ⟨t, ht, hserver⟩ : ∃ t, run step (start false 10) inTurn = some t ∧
      t.server = .unlink "Hello!" := ⟨_, rfl, rfl⟩
  exact ⟨t, ht, hserver, (handshake_iff ht).2 hturn⟩

end Posix
end MessageQueue
end PosixHw
