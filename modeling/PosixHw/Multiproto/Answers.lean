import PosixHw.Multiproto.Basic

/-!
# What the server answers

Whatever the clients do, in any order: the datagrams are answered in the order in which they have
arrived, each once, with its own bytes and to its own sender, as far as they fit into the buffer;
and a TCP client gets back one piece at most, the beginning of what it has sent.

An empty datagram gets no answer (`recvfrom` returns 0, which is taken for an error).  A client that
goes on sending after its first piece gets nothing more: its connection is not read again.

The server calls `send` and `sendto` once for each answer, and nothing makes up for a call that
fails: what has been sent is `State.sent`.
-/

namespace PosixHw
namespace Multiproto

open Run

/-- The bytes that the client `c` sends over its connection. -/
def Act.bytes (c : ℕ) : Act → List UInt8
  | .data d bs => if d = c then bs else []
  | .server _ | .connect _ | .ended _ | .failed _ _ | .datagram _ => []

def sentBy (c : ℕ) (as : List Act) : List UInt8 := as.flatMap (Act.bytes c)

/-- The datagrams that arrive. -/
def Act.arrives : Act → List Datagram
  | .datagram d => [d]
  | .server _ | .connect _ | .data _ _ | .ended _ | .failed _ _ => []

def arrived (as : List Act) : List Datagram := as.flatMap Act.arrives

/-- The answer to a datagram. -/
def Datagram.answer (d : Datagram) : List Out :=
  if d.data = [] then [] else [.udp d.client (d.data.take bufferSize)]

/-- What has been read or received, and is about to be sent. -/
def Pc.sending : Pc → List Out
  | .print c data | .send c data => [.tcp c data]
  | .printUdp d | .sendto d => [.udp d.client d.data]
  | .prepare | .select | .testTcp | .accept | .read _ | .close _ | .testUdp | .recvfrom
  | .exited => []

/-- What has been passed to `send` and `sendto`, or is about to be. -/
def State.answers (s : State) : List Out := s.out.map Prod.fst ++ s.pc.sending

/-- What has been sent. -/
def State.sent (s : State) : List Out := (s.out.filter Prod.snd).map Prod.fst

/-- An answer over the connection `c`. -/
def Out.over (c : ℕ) : Out → List (List UInt8)
  | .tcp d bs => if d = c then [bs] else []
  | .udp _ _ => []

/-- An answer to a datagram. -/
def Out.datagram : Out → List Out
  | .tcp _ _ => []
  | .udp c bs => [.udp c bs]

/-- The answers over the connection `c`, and those that its client gets. -/
def State.over (s : State) (c : ℕ) : List (List UInt8) := s.answers.flatMap (Out.over c)
def State.gets (s : State) (c : ℕ) : List (List UInt8) := s.sent.flatMap (Out.over c)

/-- The connection has not been read. -/
def State.Unread (s : State) (c : ℕ) : Prop := s.next ≤ c ∨ c ∈ s.pending ∨ s.pc = .read c

/-- The pieces are one at most: the beginning of what has been sent. -/
def Piece (sent : List UInt8) (pieces : List (List UInt8)) : Prop :=
  pieces = [] ∨ ∃ bs, pieces = [bs] ∧ bs ≠ [] ∧ bs.length ≤ bufferSize ∧ bs <+: sent

/-- What holds of a state and of what has happened before it. -/
structure History (as : List Act) (s : State) : Prop where
  sound : Sound s
  received_le : s.received ≤ (arrived as).length
  datagrams : s.datagrams = (arrived as).drop s.received
  udp : s.answers.flatMap Out.datagram
    = ((arrived as).take s.received).flatMap Datagram.answer
  unread : ∀ c, s.Unread c → s.over c = [] ∧ (s.conn c).input = sentBy c as
  tcp : ∀ c, Piece (sentBy c as) (s.over c)

theorem sentBy_concat (c : ℕ) (as : List Act) (a : Act) :
    sentBy c (as ++ [a]) = sentBy c as ++ a.bytes c := by
  rw [sentBy, List.flatMap_append, List.flatMap_singleton]
  rfl

theorem arrived_concat (as : List Act) (a : Act) :
    arrived (as ++ [a]) = arrived as ++ a.arrives := by
  rw [arrived, List.flatMap_append, List.flatMap_singleton]
  rfl

theorem Piece.append {sent more : List UInt8} {pieces : List (List UInt8)}
    (h : Piece sent pieces) : Piece (sent ++ more) pieces := by
  rcases h with h | ⟨bs, h, hne, hle, hprefix⟩
  · exact .inl h
  · exact .inr ⟨bs, h, hne, hle, hprefix.trans (List.prefix_append _ _)⟩

theorem Piece.sublist {sent : List UInt8} {pieces pieces' : List (List UInt8)}
    (h : Piece sent pieces) (hsub : pieces'.Sublist pieces) : Piece sent pieces' := by
  rcases h with rfl | ⟨bs, rfl, hbs⟩
  · exact .inl (List.sublist_nil.1 hsub)
  · rcases List.sublist_singleton.1 hsub with rfl | rfl
    · exact .inl rfl
    · exact .inr ⟨bs, rfl, hbs⟩

/-- What has been sent is among the answers. -/
theorem sent_sublist (s : State) : s.sent.Sublist s.answers :=
  (List.filter_sublist.map _).trans (List.sublist_append_left _ _)

theorem gets_sublist (s : State) (c : ℕ) : (s.gets c).Sublist (s.over c) :=
  (sent_sublist s).flatMap _

/-- If no call fails, all of them have been sent. -/
theorem sent_eq {s : State} (hall : ∀ o ∈ s.out, o.2 = true) (hpc : s.pc.sending = []) :
    s.sent = s.answers := by
  rw [State.sent, State.answers, List.filter_eq_self.2 hall, hpc, List.append_nil]

section Steps

variable {as : List Act} {s t : State} {a : Act}

theorem history_start : History [] start where
  sound := sound_start
  received_le := le_rfl
  datagrams := rfl
  udp := rfl
  unread _ _ := ⟨rfl, rfl⟩
  tcp _ := .inl rfl

/-- The server goes on, and neither reads nor receives. -/
theorem History.move (h : History as s) (hsound : Sound t) (hanswers : t.answers = s.answers)
    (hconn : t.conn = s.conn) (hunread : ∀ c, t.Unread c → s.Unread c)
    (hdatagrams : t.datagrams = s.datagrams) (hreceived : t.received = s.received) :
    History as t where
  sound := hsound
  received_le := by
    rw [hreceived]
    exact h.received_le
  datagrams := by
    rw [hdatagrams, hreceived]
    exact h.datagrams
  udp := by
    rw [hanswers, hreceived]
    exact h.udp
  unread c hc := by
    rw [State.over, hanswers, hconn]
    exact h.unread c (hunread c hc)
  tcp c := by
    rw [State.over, hanswers]
    exact h.tcp c

/-- `read` returns the beginning of what the client has sent. -/
theorem History.readData (h : History as s) {c : ℕ} (hpc : s.pc = .read c)
    (hinput : (s.conn c).input ≠ [])
    (hsound : Sound { s with
      pc := .print c ((s.conn c).input.take bufferSize)
      conn := Function.update s.conn c
        { s.conn c with input := (s.conn c).input.drop bufferSize } }) :
    History as { s with
      pc := .print c ((s.conn c).input.take bufferSize)
      conn := Function.update s.conn c
        { s.conn c with input := (s.conn c).input.drop bufferSize } } := by
  obtain ⟨hnone, hsent⟩ := h.unread c (.inr (.inr hpc))
  have hopened : c ∈ s.opened := h.sound.current c (by rw [hpc]; exact List.mem_singleton_self c)
  have hanswers : s.answers = s.out.map Prod.fst := by
    rw [State.answers, hpc]
    exact List.append_nil _
  rw [State.over, hanswers] at hnone
  refine ⟨hsound, h.received_le, h.datagrams, ?_, fun d hd => ?_, fun d => ?_⟩
  · rw [← h.udp, hanswers, State.answers, List.flatMap_append]
    exact List.append_nil _
  · -- the connection that is read is neither pending nor to come
    have hdc : d ≠ c := by
      rintro rfl
      rcases hd with hd | hd | hd
      · exact absurd (h.sound.lt_next d (List.mem_append_right _ hopened)) (not_lt.2 hd)
      · exact List.disjoint_of_nodup_append h.sound.nodup hd hopened
      · cases hd
    have hd' : s.Unread d := by
      rcases hd with hd | hd | hd
      · exact .inl hd
      · exact .inr (.inl hd)
      · cases hd
    obtain ⟨hover, hin⟩ := h.unread d hd'
    rw [State.over, hanswers] at hover
    refine ⟨?_, ?_⟩
    · rw [State.over, State.answers, List.flatMap_append, hover]
      simp [Pc.sending, Out.over, hdc.symm]
    · show (Function.update s.conn c _ d).input = _
      rw [Function.update_of_ne hdc, hin]
  · rw [State.over, State.answers, List.flatMap_append]
    by_cases hdc : d = c
    · subst hdc
      -- this connection: nothing has gone back before
      refine .inr ⟨(s.conn d).input.take bufferSize, ?_, ?_, List.length_take_le _ _, ?_⟩
      · rw [hnone]
        simp [Pc.sending, Out.over]
      · intro hnil
        rcases List.take_eq_nil_iff.1 hnil with hzero | hnil
        · cases hzero
        · exact hinput hnil
      · rw [← hsent]
        exact List.take_prefix _ _
    · have hover := h.tcp d
      rw [State.over, hanswers] at hover
      simpa [Pc.sending, Out.over, Ne.symm hdc] using hover

/-- `recvfrom` returns the oldest datagram. -/
theorem History.recvfrom (h : History as s) {d : Datagram} {rest : List Datagram}
    (hpc : s.pc = .recvfrom) (hdatagrams : s.datagrams = d :: rest) (hsound : Sound t)
    (hsending : t.pc.sending = d.answer) (hout : t.out = s.out) (hconn : t.conn = s.conn)
    (hunread : ∀ c, t.Unread c → s.Unread c) (hrest : t.datagrams = rest)
    (hreceived : t.received = s.received + 1) : History as t := by
  have hdrop : (arrived as).drop s.received = d :: rest := h.datagrams.symm.trans hdatagrams
  have hget : (arrived as)[s.received]? = some d := by
    rw [← List.head?_drop, hdrop, List.head?_cons]
  have hanswers : s.answers = s.out.map Prod.fst := by
    rw [State.answers, hpc]
    exact List.append_nil _
  have hanswers' : t.answers = s.answers ++ d.answer := by
    rw [State.answers, hsending, hout, hanswers]
  have hdatagram : d.answer.flatMap Out.datagram = d.answer := by
    unfold Datagram.answer
    split_ifs <;> rfl
  -- an answer to a datagram is no piece of a connection
  have hover : ∀ c, t.over c = s.over c := by
    intro c
    have hnone : d.answer.flatMap (Out.over c) = [] := by
      unfold Datagram.answer
      split_ifs <;> rfl
    rw [State.over, State.over, hanswers', List.flatMap_append, hnone, List.append_nil]
  refine ⟨hsound, ?_, ?_, ?_, fun c hc => ?_, fun c => ?_⟩
  · rw [hreceived]
    exact (List.getElem?_eq_some_iff.1 hget).1
  · rw [hrest, hreceived, ← List.tail_drop, hdrop, List.tail_cons]
  · rw [hanswers', hreceived, List.flatMap_append, hdatagram, h.udp, List.take_add_one, hget,
      List.flatMap_append]
    exact congrArg _ (List.flatMap_singleton _ _).symm
  · rw [hover, hconn]
    exact h.unread c (hunread c hc)
  · rw [hover]
    exact h.tcp c

theorem History.serverStep (h : History as s) {ok : Bool} (hs : serverStep s ok = some t) :
    History as t := by
  have hsound : Sound t := h.sound.serverStep hs
  cases serverStep_cases hs with
  | accept c rest hpc hpending =>
    apply h.move hsound _ rfl _ rfl rfl
    · rw [State.answers, State.answers, hpc]
      rfl
    · intro d hd
      rcases hd with hd | hd | hd
      · exact .inl hd
      · exact .inr (.inl (by rw [hpending]; exact List.mem_cons_of_mem _ hd))
      -- the connection that is accepted was pending
      · obtain rfl := Pc.read.inj hd
        exact .inr (.inl (by rw [hpending]; exact List.mem_cons_self))
  | readData c hpc hinput => exact h.readData hpc hinput hsound
  | recvfrom d rest hpc hdatagrams hdata =>
    apply h.recvfrom hpc hdatagrams hsound _ rfl rfl _ rfl rfl
    · rw [Datagram.answer, if_neg hdata]
      rfl
    · rintro c (hc | hc | hc)
      · exact .inl hc
      · exact .inr (.inl hc)
      · cases hc
  | recvfromEmpty d rest hpc hdatagrams hdata =>
    apply h.recvfrom hpc hdatagrams hsound _ rfl rfl _ rfl rfl
    · rw [Datagram.answer, if_pos hdata]
      rfl
    · rintro c (hc | hc | hc)
      · exact .inl hc
      · exact .inr (.inl hc)
      · cases hc
  | send _ c data hpc _ | sigpipe c data hpc _ _ | sendto d hpc =>
    apply h.move hsound _ rfl _ rfl rfl
    · -- what was due is passed to the call
      rw [State.answers, State.answers, hpc, List.map_append]
      exact List.append_nil _
    · rintro d (hd | hd | hd)
      · exact .inl hd
      · exact .inr (.inl hd)
      · cases hd
  | prepare hpc | select hpc _ | selectFailed hpc | tcp hpc _ | noTcp hpc _ | acceptFailed hpc
  | readNothing _ hpc _ | print _ _ hpc _ | close _ hpc | udp hpc _ | noUdp hpc _
  | recvfromFailed hpc | printUdp _ hpc _ =>
    apply h.move hsound _ rfl _ rfl rfl
    · rw [State.answers, State.answers, hpc]
      rfl
    · rintro d (hd | hd | hd)
      · exact .inl hd
      · exact .inr (.inl hd)
      · cases hd

/-- A change to a connection that leaves its input. -/
theorem input_update {conn : ℕ → Conn} {c : ℕ} {k : Conn} (hk : k.input = (conn c).input) (d : ℕ) :
    (Function.update conn c k d).input = (conn d).input := by
  by_cases hdc : d = c
  · subst hdc
    rw [Function.update_self, hk]
  · rw [Function.update_of_ne hdc]

/-- What happens at the other end does not change what has been answered. -/
theorem History.world (h : History as s) (hsound : Sound t) (hout : t.out = s.out)
    (hpc : t.pc = s.pc) (hreceived : t.received = s.received)
    (hdatagrams : t.datagrams = s.datagrams ++ a.arrives)
    (hunread : ∀ c, t.Unread c → s.Unread c)
    (hinput : ∀ c, (t.conn c).input = (s.conn c).input ++ a.bytes c) :
    History (as ++ [a]) t := by
  have hanswers : t.answers = s.answers := by rw [State.answers, State.answers, hout, hpc]
  have hover : ∀ c, t.over c = s.over c := fun c => by rw [State.over, State.over, hanswers]
  refine ⟨hsound, ?_, ?_, ?_, fun c hc => ?_, fun c => ?_⟩
  · rw [hreceived, arrived_concat, List.length_append]
    exact h.received_le.trans (Nat.le_add_right _ _)
  · rw [hdatagrams, h.datagrams, hreceived, arrived_concat,
      List.drop_append_of_le_length h.received_le]
  · rw [hanswers, hreceived, arrived_concat, List.take_append_of_le_length h.received_le]
    exact h.udp
  · obtain ⟨hnone, hsent⟩ := h.unread c (hunread c hc)
    exact ⟨(hover c).trans hnone, by rw [hinput, hsent, sentBy_concat]⟩
  · rw [hover, sentBy_concat]
    exact (h.tcp c).append

/-- The history of a step of the server is that of the state before it. -/
theorem History.server (h : History as t) (ok : Bool) : History (as ++ [.server ok]) t := by
  apply h.world h.sound rfl rfl rfl _ (fun _ hc => hc) _
  · exact (List.append_nil _).symm
  · exact fun c => (List.append_nil _).symm

theorem History.step (h : History as s) (hs : step s a = some t) : History (as ++ [a]) t := by
  have hsound : Sound t := h.sound.step hs
  cases a with
  | server ok => exact (h.serverStep hs).server ok
  | connect buffer =>
    cases hs
    apply h.world hsound rfl rfl rfl _ _ _
    · exact (List.append_nil _).symm
    · rintro c (hc | hc | hc)
      · exact .inl (Nat.le_of_succ_le hc)
      -- the new connection is the next one
      · rcases List.mem_append.1 hc with hc | hc
        · exact .inr (.inl hc)
        · exact .inl (List.mem_singleton.1 hc).ge
      · exact .inr (.inr hc)
    · intro d
      rw [input_update]
      · exact (List.append_nil _).symm
      · rfl
  | data c bs =>
    simp only [Multiproto.step] at hs
    split_ifs at hs
    cases hs
    apply h.world hsound rfl rfl rfl _ (fun _ hd => hd) _
    · exact (List.append_nil _).symm
    · intro d
      by_cases hdc : d = c
      · subst hdc
        show (Function.update s.conn d _ d).input = _
        rw [Function.update_self, Act.bytes, if_pos rfl]
      · show (Function.update s.conn c _ d).input = _
        rw [Function.update_of_ne hdc, Act.bytes, if_neg (Ne.symm hdc), List.append_nil]
  | ended c | failed c pipe =>
    simp only [Multiproto.step] at hs
    split_ifs at hs
    cases hs
    apply h.world hsound rfl rfl rfl _ (fun _ hd => hd) _
    · exact (List.append_nil _).symm
    · intro d
      rw [input_update]
      · exact (List.append_nil _).symm
      · rfl
  | datagram d =>
    cases hs
    apply h.world hsound rfl rfl rfl rfl (fun _ hc => hc) _
    exact fun c => (List.append_nil _).symm

end Steps

theorem run_historical {as : List Act} {s : State} (h : run step start as = some s) :
    History as s :=
  run_history (fun _ _ _ _ hs ht => hs.step ht) history_start h

/-- **What is answered.**  After every run, the server has called `sendto`, or is about to, for the
datagrams that have been received, once for each in their order, and the others are waiting; and for
every TCP client it has called `send` not at all, or once with the beginning of what the client has
sent.  What the clients get of this is what those calls have sent that have not failed. -/
theorem answers_of_run {as : List Act} {s : State} (h : run step start as = some s) :
    (s.answers.flatMap Out.datagram = ((arrived as).take s.received).flatMap Datagram.answer ∧
      s.datagrams = (arrived as).drop s.received) ∧
    (∀ c, Piece (sentBy c as) (s.over c) ∧ Piece (sentBy c as) (s.gets c)) ∧
    s.sent.Sublist s.answers ∧
    ((∀ o ∈ s.out, o.2 = true) → s.pc.sending = [] → s.sent = s.answers) := by
  have hhistory := run_historical h
  refine ⟨⟨hhistory.udp, hhistory.datagrams⟩, fun c => ⟨hhistory.tcp c, ?_⟩, sent_sublist s,
    sent_eq⟩
  exact (hhistory.tcp c).sublist (gets_sublist s c)

/-- A client sends twice before it is read, and then another one sends a datagram. -/
def twoClients : List Act :=
  [.connect zeros, .data 0 [104], .data 0 [105], .server true, .server true, .server true,
    .server true, .server true, .server true, .datagram ⟨1, [33], zeros⟩, .server true,
    .server true, .server true, .server true, .server true, .server true, .server true,
    .server true, .server true]

theorem answers_of_run_twoClients :
    ∃ s, run step start twoClients = some s ∧ s.gets 0 = [[104, 105]] ∧
      s.sent.flatMap Out.datagram = [.udp 1 [33]] := by
  obtain ⟨s, hs, hreceived, hall, hpc, hgets⟩ : ∃ s, run step start twoClients = some s ∧
      s.received = 1 ∧ (∀ o ∈ s.out, o.2 = true) ∧ s.pc.sending = [] ∧ s.gets 0 = [[104, 105]] :=
    ⟨_, rfl, by decide +kernel, by decide +kernel, by decide +kernel, by decide +kernel⟩
  obtain ⟨⟨hudp, -⟩, -, -, hsent⟩ := answers_of_run hs
  refine ⟨s, hs, hgets, ?_⟩
  rw [hsent hall hpc, hudp, hreceived]
  rfl

end Multiproto
end PosixHw
