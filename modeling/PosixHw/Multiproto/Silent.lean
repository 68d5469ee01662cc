import PosixHw.Multiproto.Basic

/-!
# Clients that keep silent

The server reads from a connection as soon as it is accepted, and that read waits for the client.
Until the client moves, nothing else that is pending is served.

* `Item` is something that is pending: a connection, or a datagram.
* `Clear` says that the server gets through with what it is at, and with the connections and the
  datagrams that it takes first (`State.accepts` and `State.receives`): a read returns at once, the
  array can be printed, and `send` does not raise SIGPIPE.
* `served_iff` says that the server takes the item by its own steps if and only if its way is clear.

An own step either takes the item or leaves its way as clear as before (`Sound.ownStep`), and it
brings the server nearer to `select` or takes something else (`State.distance`).
-/

namespace PosixHw
namespace Multiproto

open Run

/-- Something that a client waits for: the connection that is accepted when `n` have been, or the
datagram that is received when `n` have been. -/
inductive Item
  | connection (n : ℕ)
  | datagram (n : ℕ)

/-- It has arrived, and is not taken yet. -/
def Item.Pending (s : State) : Item → Prop
  | .connection n => s.accepted ≤ n ∧ n < s.accepted + s.pending.length
  | .datagram n => s.received ≤ n ∧ n < s.received + s.datagrams.length

/-- It is accepted or received. -/
def Item.Taken (s : State) : Item → Prop
  | .connection n => n < s.accepted
  | .datagram n => n < s.received

/-- The server takes it by its own steps. -/
def Served (x : Item) (s : State) : Prop := ∃ t, Reachable ownStep s t ∧ x.Taken t

/-- How many connections may be accepted before the next datagram is received. -/
def State.turns (s : State) : ℕ :=
  match s.pc with
  | .testTcp => (if .tcp ∈ s.readfds then 1 else 0) + if .udp ∈ s.readfds then 0 else 1
  | .accept => 1 + if .udp ∈ s.readfds then 0 else 1
  | .read _ | .print _ _ | .send _ _ | .close _ | .testUdp => if .udp ∈ s.readfds then 0 else 1
  | .prepare | .select | .printUdp _ | .sendto _ => 1
  | .recvfrom | .exited => 0

/-- How many datagrams may be received until `k` more connections are accepted, and the next one is
about to be. -/
def State.rounds (s : State) (k : ℕ) : ℕ :=
  match s.pc with
  | .testTcp =>
    if .tcp ∈ s.readfds then if .udp ∈ s.readfds then k else k - 1 else k + 1
  | .accept => if .udp ∈ s.readfds then k else k - 1
  | .read _ | .print _ _ | .send _ _ | .close _ | .testUdp =>
    if .udp ∈ s.readfds then k + 1 else k
  | .prepare | .select | .printUdp _ | .sendto _ => k
  | .recvfrom => k + 1
  | .exited => 0

/-- How many connections, and how many datagrams, may be taken before the item is. -/
def State.accepts (s : State) : Item → ℕ
  | .connection n => n - s.accepted
  | .datagram n => n - s.received + s.turns
def State.receives (s : State) : Item → ℕ
  | .connection n => s.rounds (n - s.accepted)
  | .datagram n => n - s.received

/-- A `send` on the connection does not raise SIGPIPE. -/
def Conn.Safe (c : Conn) : Prop := c.failed = true → c.pipe = false

/-- `handle_tcp_client` returns, and the server goes on: a read returns at once, and what it returns
can be printed and sent. -/
def Conn.Passes (c : Conn) : Prop :=
  c.ready = true ∧ (c.input ≠ [] → HasNul (c.input.take bufferSize) c.buffer ∧ c.Safe)

/-- `handle_udp_client` can print what it receives. -/
def Datagram.Passes (d : Datagram) : Prop := d.data ≠ [] → HasNul (d.data.take bufferSize) d.buffer

/-- The server runs, and gets through with the connection or datagram that it is at. -/
def Pc.Passes (conn : ℕ → Conn) : Pc → Prop
  | .read c => (conn c).Passes
  | .print c data => HasNul data (conn c).buffer ∧ (conn c).Safe
  | .send c _ => (conn c).Safe
  | .printUdp d => HasNul d.data d.buffer
  | .prepare | .select | .testTcp | .accept | .close _ | .testUdp | .recvfrom | .sendto _ => True
  | .exited => False

/-- The server gets through with what it is at, and with all that it takes before the item. -/
structure Clear (x : Item) (s : State) : Prop where
  current : s.pc.Passes s.conn
  conns : ∀ c ∈ s.pending.take (s.accepts x), (s.conn c).Passes
  datagrams : ∀ d ∈ s.datagrams.take (s.receives x), d.Passes

instance (s : State) : ∀ x : Item, Decidable (x.Pending s)
  | .connection _ => inferInstanceAs (Decidable (_ ∧ _))
  | .datagram _ => inferInstanceAs (Decidable (_ ∧ _))

instance (c : Conn) : Decidable c.Safe := inferInstanceAs (Decidable (_ → _))

instance (c : Conn) : Decidable c.Passes := inferInstanceAs (Decidable (_ ∧ (_ → _)))

instance (d : Datagram) : Decidable d.Passes := inferInstanceAs (Decidable (_ → _))

instance (conn : ℕ → Conn) : ∀ pc : Pc, Decidable (pc.Passes conn)
  | .read c => inferInstanceAs (Decidable (conn c).Passes)
  | .print _ _ => inferInstanceAs (Decidable (_ ∧ _))
  | .send c _ => inferInstanceAs (Decidable (conn c).Safe)
  | .printUdp _ => inferInstanceAs (Decidable (HasNul _ _))
  | .prepare | .select | .testTcp | .accept | .close _ | .testUdp | .recvfrom | .sendto _ =>
    inferInstanceAs (Decidable True)
  | .exited => inferInstanceAs (Decidable False)

theorem clear_iff {x : Item} {s : State} : Clear x s ↔ s.pc.Passes s.conn ∧
    (∀ c ∈ s.pending.take (s.accepts x), (s.conn c).Passes) ∧
    ∀ d ∈ s.datagrams.take (s.receives x), d.Passes :=
  ⟨fun h => ⟨h.current, h.conns, h.datagrams⟩, fun h => ⟨h.1, h.2.1, h.2.2⟩⟩

instance (x : Item) (s : State) : Decidable (Clear x s) := decidable_of_iff' _ clear_iff

/-- The steps to the next connection or datagram that is taken. -/
def State.rank (s : State) : ℕ :=
  match s.pc with
  | .read _ => 9
  | .print _ _ => 8
  | .send _ _ | .close _ | .printUdp _ => 7
  | .testUdp => if .udp ∈ s.readfds then 2 else 6
  | .sendto _ => 6
  | .prepare => 5
  | .select => 4
  | .testTcp => 3
  | .accept => 2
  | .recvfrom => 1
  | .exited => 0

/-- What is pending, with the steps to the next that is taken. -/
def State.distance (s : State) : ℕ := 10 * (s.pending.length + s.datagrams.length) + s.rank

/-! ### Own steps -/

section Own

variable {s t : State} {x : Item}

/-- What an own step does to the item. -/
structure Progress (x : Item) (s t : State) : Prop where
  distance : t.distance < s.distance
  item : x.Taken t ∧ Clear x s ∨ x.Pending t ∧ (Clear x t ↔ Clear x s)

/-- A step that takes nothing and leaves the same connections ahead. -/
theorem Progress.of_same (hpending : x.Pending s) (hrank : t.rank < s.rank)
    (hp : t.pending = s.pending) (hd : t.datagrams = s.datagrams) (ha : t.accepted = s.accepted)
    (hr : t.received = s.received) (hclear : Clear x t ↔ Clear x s) : Progress x s t := by
  refine ⟨?_, .inr ⟨?_, hclear⟩⟩
  · unfold State.distance
    rw [hp, hd]
    omega
  · cases x with
    | connection n =>
      unfold Item.Pending at hpending ⊢
      rwa [ha, hp]
    | datagram n =>
      unfold Item.Pending at hpending ⊢
      rwa [hr, hd]

/-- A step to another place, with the same connections and datagrams ahead. -/
theorem Progress.of_move (hp : x.Pending s) (hrank : t.rank < s.rank)
    (hcurrent : t.pc.Passes t.conn ↔ s.pc.Passes s.conn) (hturns : t.turns = s.turns)
    (hrounds : ∀ k, t.rounds k = s.rounds k) (hconn : t.conn = s.conn)
    (hpending : t.pending = s.pending) (hd : t.datagrams = s.datagrams)
    (ha : t.accepted = s.accepted) (hr : t.received = s.received) : Progress x s t := by
  refine .of_same hp hrank hpending hd ha hr ?_
  have haccepts : t.accepts x = s.accepts x := by
    cases x with
    | connection n => simp only [State.accepts, ha]
    | datagram n => simp only [State.accepts, hr, hturns]
  have hreceives : t.receives x = s.receives x := by
    cases x with
    | connection n => simp only [State.receives, ha, hrounds]
    | datagram n => simp only [State.receives, hr]
  rw [clear_iff, clear_iff, hcurrent, haccepts, hreceives, hconn, hpending, hd]

/-- `select` returns what is ready; then a connection is accepted only if one is pending, and a
datagram is received only if one has arrived. -/
theorem Sound.progress_select (h : Sound s) (hp : x.Pending s) (hpc : s.pc = .select) :
    Progress x s { s with pc := .testTcp, readfds := s.readfds.filter s.ready } := by
  have htcp : Fd.tcp ∈ s.readfds.filter s.ready ↔ s.pending ≠ [] := by
    rw [h.atSelect hpc, List.mem_filter]
    simp [State.ready]
  have hudp : Fd.udp ∈ s.readfds.filter s.ready ↔ s.datagrams ≠ [] := by
    rw [h.atSelect hpc, List.mem_filter]
    simp [State.ready]
  refine .of_same hp ?_ rfl rfl rfl rfl ?_
  · simp only [State.rank, hpc]
    omega
  · rw [clear_iff, clear_iff, hpc]
    refine and_congr Iff.rfl ?_
    cases x with
    | connection n =>
      have hne : s.pending ≠ [] := by
        rintro hnil
        obtain ⟨h₁, h₂⟩ := hp
        rw [hnil, List.length_nil] at h₂
        omega
      simp only [State.accepts, State.receives, State.rounds, hpc, if_pos (htcp.2 hne), hudp]
      by_cases hnil : s.datagrams = []
      · rw [hnil, List.take_nil, List.take_nil]
      · rw [if_pos hnil]
    | datagram n =>
      have hne : s.datagrams ≠ [] := by
        rintro hnil
        obtain ⟨h₁, h₂⟩ := hp
        rw [hnil, List.length_nil] at h₂
        omega
      simp only [State.accepts, State.receives, State.turns, hpc, if_pos (hudp.2 hne), htcp]
      by_cases hnil : s.pending = []
      · rw [hnil, List.take_nil, List.take_nil]
      · rw [if_pos hnil]

/-- The oldest connection is accepted. -/
theorem progress_accept (hp : x.Pending s) (hpc : s.pc = .accept) {c : ℕ} {rest : List ℕ}
    (hpending : s.pending = c :: rest) (ht : t = { s with
      pc := .read c, pending := rest, opened := s.opened ++ [c], accepted := s.accepted + 1 }) :
    Progress x s t := by
  -- the same is ahead, unless it is the item that is accepted
  have hsame : ∀ k, s.accepts x = k + 1 → t.accepts x = k → t.receives x = s.receives x →
      (Clear x t ↔ Clear x s) := by
    intro k hs' ht' hreceives
    rw [clear_iff, clear_iff, hs', ht', hreceives, hpending, List.take_succ_cons,
      List.forall_mem_cons, hpc, ht]
    simp only [Pc.Passes, true_and, and_assoc]
  subst ht
  refine ⟨?_, ?_⟩
  · simp only [State.distance, State.rank, hpc, hpending, List.length_cons]
    omega
  · cases x with
    | connection n =>
      obtain ⟨h₁, h₂⟩ := hp
      rw [hpending, List.length_cons] at h₂
      by_cases hn : n = s.accepted
      · subst hn
        refine .inl ⟨Nat.lt_succ_self _, clear_iff.2 ?_⟩
        simp [State.accepts, State.receives, State.rounds, hpc, Pc.Passes]
      · refine .inr ⟨⟨?_, ?_⟩, hsame (n - (s.accepted + 1)) ?_ rfl ?_⟩
        · show s.accepted + 1 ≤ n
          omega
        · show n < s.accepted + 1 + rest.length
          omega
        · show n - s.accepted = n - (s.accepted + 1) + 1
          omega
        · simp only [State.receives, State.rounds, hpc]
          split_ifs <;> omega
    | datagram n =>
      refine .inr ⟨hp, hsame (n - s.received + if .udp ∈ s.readfds then 0 else 1) ?_ rfl rfl⟩
      simp only [State.accepts, State.turns, hpc]
      omega

/-- The oldest datagram is received. -/
theorem progress_recvfrom (hp : x.Pending s) (hpc : s.pc = .recvfrom) {d : Datagram}
    {rest : List Datagram} (hdatagrams : s.datagrams = d :: rest) (ht : t.datagrams = rest)
    (hr : t.received = s.received + 1) (hpending : t.pending = s.pending)
    (ha : t.accepted = s.accepted) (hconn : t.conn = s.conn) (hrank : t.rank < 10)
    (hcurrent : t.pc.Passes t.conn ↔ d.Passes) (hturns : t.turns = 1)
    (hrounds : ∀ k, t.rounds k = k) : Progress x s t := by
  -- the same is ahead, unless it is the item that is received
  have hsame : ∀ k, s.receives x = k + 1 → t.receives x = k → t.accepts x = s.accepts x →
      (Clear x t ↔ Clear x s) := by
    intro k hs' ht' haccepts
    rw [clear_iff, clear_iff, hs', ht', haccepts, hdatagrams, List.take_succ_cons,
      List.forall_mem_cons, hpc, ht, hcurrent, hpending, hconn]
    simp only [Pc.Passes, true_and]
    exact and_left_comm
  refine ⟨?_, ?_⟩
  · have hrank' : s.rank = 1 := by simp only [State.rank, hpc]
    unfold State.distance
    rw [hpending, ht, hdatagrams, List.length_cons]
    omega
  · cases x with
    | connection n =>
      obtain ⟨h₁, h₂⟩ := hp
      refine .inr ⟨⟨?_, ?_⟩, hsame (n - s.accepted) ?_ ?_ ?_⟩
      · rwa [ha]
      · rwa [ha, hpending]
      · simp only [State.receives, State.rounds, hpc]
      · rw [State.receives, hrounds, ha]
      · simp only [State.accepts, ha]
    | datagram n =>
      obtain ⟨h₁, h₂⟩ := hp
      rw [hdatagrams, List.length_cons] at h₂
      by_cases hn : n = s.received
      · subst hn
        refine .inl ⟨by rw [Item.Taken, hr]; exact Nat.lt_succ_self _, clear_iff.2 ?_⟩
        simp [State.accepts, State.receives, State.turns, hpc, Pc.Passes]
      · refine .inr ⟨⟨?_, ?_⟩, hsame (n - (s.received + 1)) ?_ ?_ ?_⟩
        · rw [hr]
          omega
        · rw [hr, ht]
          omega
        · show n - s.received = n - (s.received + 1) + 1
          omega
        · rw [State.receives, hr]
        · have hturns' : s.turns = 0 := by simp only [State.turns, hpc]
          simp only [State.accepts, hr, hturns, hturns']
          omega

/-- A read that returns takes its connection from the way. -/
theorem Sound.progress_read (h : Sound s) (hp : x.Pending s) {c : ℕ} (hpc : s.pc = .read c)
    (hrank : t.rank < 9) (hcurrent : t.pc.Passes t.conn ↔ (s.conn c).Passes)
    (hturns : t.turns = s.turns) (hrounds : ∀ k, t.rounds k = s.rounds k)
    (hpending : t.pending = s.pending) (hd : t.datagrams = s.datagrams)
    (ha : t.accepted = s.accepted) (hr : t.received = s.received)
    (hconn : ∀ d, d ≠ c → t.conn d = s.conn d) : Progress x s t := by
  have hc : c ∈ s.opened := h.current c (by rw [hpc]; exact List.mem_singleton_self c)
  have haccepts : t.accepts x = s.accepts x := by
    cases x with
    | connection n => simp only [State.accepts, ha]
    | datagram n => simp only [State.accepts, hr, hturns]
  have hreceives : t.receives x = s.receives x := by
    cases x with
    | connection n => simp only [State.receives, ha, hrounds]
    | datagram n => simp only [State.receives, hr]
  -- the other connections ahead are as they were
  have hother : ∀ d ∈ s.pending.take (s.accepts x), t.conn d = s.conn d := by
    intro d hd
    refine hconn d ?_
    rintro rfl
    exact (List.nodup_append.1 h.nodup).2.2 d (List.mem_of_mem_take hd) d hc rfl
  refine .of_same hp ?_ hpending hd ha hr ?_
  · have hrank' : s.rank = 9 := by simp only [State.rank, hpc]
    omega
  · rw [clear_iff, clear_iff, hcurrent, haccepts, hreceives, hpending, hd, hpc]
    refine and_congr Iff.rfl (and_congr ?_ Iff.rfl)
    exact forall₂_congr fun d hd => by rw [hother d hd]

/-- An own step takes the item, or leaves its way as clear as before. -/
theorem Sound.ownStep (h : Sound s) (hp : x.Pending s) (hs : ownStep s () = some t) :
    Progress x s t := by
  have hstep : Multiproto.serverStep s true = some t := hs
  cases serverStep_cases hstep with
  | select hpc _ => exact h.progress_select hp hpc
  | accept c rest hpc hpending => exact progress_accept hp hpc hpending rfl
  | recvfrom d rest hpc hdatagrams hdata =>
    refine progress_recvfrom hp hpc hdatagrams rfl rfl rfl rfl rfl (by simp [State.rank]) ?_ rfl
      fun _ => rfl
    exact ⟨fun hnul _ => hnul, fun hpasses => hpasses hdata⟩
  | recvfromEmpty d rest hpc hdatagrams hdata =>
    refine progress_recvfrom hp hpc hdatagrams rfl rfl rfl rfl rfl (by simp [State.rank]) ?_ rfl
      fun _ => rfl
    exact iff_of_true trivial fun hne => absurd hdata hne
  | readData c hpc hinput =>
    refine h.progress_read hp hpc (by simp [State.rank]) ?_ (by simp only [State.turns, hpc])
      (fun k => by simp only [State.rounds, hpc]) rfl rfl rfl rfl fun d hd =>
        Function.update_of_ne hd _ _
    -- what is read is printed and sent
    have hready : (s.conn c).ready = true := by simp [Conn.ready, hinput]
    simp only [Pc.Passes, Function.update_self, Conn.Passes, hready, true_and]
    exact ⟨fun hpasses _ => hpasses, fun hpasses => hpasses hinput⟩
  | readNothing c hpc hready =>
    obtain ⟨hinput, hready⟩ := hready rfl
    refine h.progress_read hp hpc (by simp [State.rank]) ?_ (by simp only [State.turns, hpc])
      (fun k => by simp only [State.rounds, hpc]) rfl rfl rfl rfl fun _ _ => rfl
    exact iff_of_true trivial ⟨hready, fun hne => absurd hinput hne⟩
  | sigpipe c data hpc hfailed hpipe =>
    refine .of_same hp (by simp [State.rank, hpc]) rfl rfl rfl rfl (iff_of_false ?_ ?_)
    · exact fun hclear => hclear.current
    · intro hclear
      have hsafe := hclear.current
      rw [hpc] at hsafe
      exact Bool.false_ne_true ((hsafe hfailed).symm.trans hpipe)
  | print c data hpc hnul =>
    refine .of_move hp (by simp [State.rank, hpc]) ?_ (by simp only [State.turns, hpc])
      (fun k => by simp only [State.rounds, hpc]) rfl rfl rfl rfl rfl
    rw [hpc]
    exact (and_iff_right hnul).symm
  | printUdp d hpc hnul =>
    refine .of_move hp (by simp [State.rank, hpc]) ?_ (by simp only [State.turns, hpc])
      (fun k => by simp only [State.rounds, hpc]) rfl rfl rfl rfl rfl
    rw [hpc]
    exact iff_of_true trivial hnul
  | send sent c data hpc hsafe =>
    refine .of_move hp ?_ ?_ (by simp only [State.turns, hpc])
      (fun k => by simp only [State.rounds, hpc]) rfl rfl rfl rfl rfl
    · simp only [State.rank, hpc]
      split_ifs <;> omega
    · rw [hpc]
      exact iff_of_true trivial hsafe
  | prepare hpc | sendto d hpc =>
    refine .of_move hp (by simp [State.rank, hpc]) (by rw [hpc]; rfl)
      (by simp only [State.turns, hpc]) (fun k => by simp only [State.rounds, hpc])
      rfl rfl rfl rfl rfl
  | close c hpc =>
    refine .of_move hp ?_ (by rw [hpc]; rfl) (by simp only [State.turns, hpc])
      (fun k => by simp only [State.rounds, hpc]) rfl rfl rfl rfl rfl
    simp only [State.rank, hpc]
    split_ifs <;> omega
  | tcp hpc hmem =>
    refine .of_move hp (by simp [State.rank, hpc]) (by rw [hpc]; rfl)
      (by simp only [State.turns, hpc, if_pos hmem])
      (fun k => by simp only [State.rounds, hpc, if_pos hmem]) rfl rfl rfl rfl rfl
  | noTcp hpc hmem =>
    -- `select` has found something
    have hudp : Fd.udp ∈ s.readfds := by
      obtain ⟨fd, hfd⟩ := List.exists_mem_of_ne_nil _ (h.found hpc)
      rcases h.watched fd hfd with rfl | rfl
      · exact absurd hfd hmem
      · exact hfd
    refine .of_move hp (by simp [State.rank, hpc, hudp]) (by rw [hpc]; rfl)
      (by simp only [State.turns, hpc, if_neg hmem, Nat.zero_add])
      (fun k => by simp only [State.rounds, hpc, if_neg hmem, if_pos hudp]) rfl rfl rfl rfl rfl
  | udp hpc hmem =>
    refine .of_move hp (by simp [State.rank, hpc, hmem]) (by rw [hpc]; rfl)
      (by simp only [State.turns, hpc, if_pos hmem])
      (fun k => by simp only [State.rounds, hpc, if_pos hmem]) rfl rfl rfl rfl rfl
  | noUdp hpc hmem =>
    refine .of_move hp (by simp [State.rank, hpc, hmem]) (by rw [hpc]; rfl)
      (by simp only [State.turns, hpc, if_neg hmem])
      (fun k => by simp only [State.rounds, hpc, if_neg hmem]) rfl rfl rfl rfl rfl

/-- If the way is clear, the server can move. -/
theorem Sound.own_defined (h : Sound s) (hp : x.Pending s) (hclear : Clear x s) :
    ∃ t, Multiproto.ownStep s () = some t := by
  have hcurrent := hclear.current
  unfold Multiproto.ownStep Multiproto.serverStep
  cases hpc : s.pc with
  | prepare | testTcp | send c bs | close c | testUdp | sendto d => exact ⟨_, rfl⟩
  | select =>
    have hne : s.readfds.filter s.ready ≠ [] := by
      rw [h.atSelect hpc]
      intro hnil
      have hnone : ¬ s.ready .tcp = true ∧ ¬ s.ready .udp = true := by
        simpa [List.filter_eq_nil_iff] using hnil
      have hempty : s.pending = [] ∧ s.datagrams = [] := by simpa [State.ready] using hnone
      cases x with
      | connection n =>
        obtain ⟨h₁, h₂⟩ := hp
        rw [hempty.1, List.length_nil] at h₂
        omega
      | datagram n =>
        obtain ⟨h₁, h₂⟩ := hp
        rw [hempty.2, List.length_nil] at h₂
        omega
    dsimp only
    rw [if_pos rfl, if_neg hne]
    exact ⟨_, rfl⟩
  | accept =>
    obtain ⟨c, rest, hpending⟩ := List.exists_cons_of_ne_nil (h.tcp (.inl hpc))
    dsimp only
    rw [if_pos rfl, hpending]
    exact ⟨_, rfl⟩
  | read c =>
    rw [hpc] at hcurrent
    have hready : (s.conn c).ready = true := hcurrent.1
    dsimp only
    unfold Multiproto.readStep
    split_ifs with hfail hinput hended
    · exact ⟨_, rfl⟩
    · exact ⟨_, rfl⟩
    · exact ⟨_, rfl⟩
    · simp only [Conn.ready] at hready
      simp_all
  | print c bs =>
    rw [hpc] at hcurrent
    dsimp only
    rw [if_pos hcurrent.1]
    exact ⟨_, rfl⟩
  | recvfrom =>
    obtain ⟨d, rest, hdatagrams⟩ := List.exists_cons_of_ne_nil (h.udp (.inl hpc))
    dsimp only
    rw [if_pos rfl, hdatagrams]
    exact ⟨_, rfl⟩
  | printUdp d =>
    rw [hpc] at hcurrent
    have hnul : HasNul d.data d.buffer := hcurrent
    dsimp only
    rw [if_pos hnul]
    exact ⟨_, rfl⟩
  | exited =>
    rw [hpc] at hcurrent
    exact hcurrent.elim

end Own

/-! ### Runs -/

theorem Sound.served_iff_clear {s : State} {x : Item} (h : Sound s) (hp : x.Pending s) :
    Served x s ↔ Clear x s := by
  induction hd : s.distance using Nat.strong_induction_on generalizing s with
  | _ d ih =>
    constructor
    · rintro ⟨t, ⟨us, hus⟩, htaken⟩
      cases us with
      | nil =>
        -- nothing is taken before it is pending no more
        cases hus
        cases x with
        | connection n => exact absurd htaken (Nat.not_lt.2 hp.1)
        | datagram n => exact absurd htaken (Nat.not_lt.2 hp.1)
      | cons u us =>
        obtain ⟨s₁, hs₁, hus⟩ := run_cons_eq_some.1 hus
        have hprogress := h.ownStep hp hs₁
        rcases hprogress.item with ⟨-, hclear⟩ | ⟨hp₁, hclear⟩
        · exact hclear
        · exact hclear.1 ((ih _ (hd ▸ hprogress.distance) (h.serverStep hs₁) hp₁ rfl).1
            ⟨t, ⟨us, hus⟩, htaken⟩)
    · intro hclear
      obtain ⟨s₁, hs₁⟩ := h.own_defined hp hclear
      have hprogress := h.ownStep hp hs₁
      rcases hprogress.item with ⟨htaken, -⟩ | ⟨hp₁, hiff⟩
      · exact ⟨s₁, ⟨[()], by rw [run_singleton, hs₁]⟩, htaken⟩
      · obtain ⟨t, ⟨us, hus⟩, htaken⟩ :=
          (ih _ (hd ▸ hprogress.distance) (h.serverStep hs₁) hp₁ rfl).2 (hiff.2 hclear)
        exact ⟨t, ⟨() :: us, run_cons_eq_some.2 ⟨s₁, hs₁, hus⟩⟩, htaken⟩

/-- **When a silent client stops the others.**  In every reachable state, the server takes a pending
connection or datagram by its own steps if and only if it has not ended, a read returns at once on
the connection that it is at and on each that it accepts first, and what it reads and receives
before the item can be printed and sent. -/
theorem served_iff {as : List Act} {s : State} (h : run step start as = some s) {x : Item}
    (hp : x.Pending s) : Served x s ↔ Clear x s := (run_sound h).served_iff_clear hp

/-- A client connects, sends nothing, and the server accepts it; then another client connects, and a
datagram arrives. -/
def silentClient : List Act :=
  [.connect zeros, .server true, .server true, .server true, .server true, .connect zeros,
    .datagram ⟨7, [72, 105], zeros⟩]

/-- The server waits in `read`, and takes neither the connection nor the datagram. -/
theorem silentClient_blocks :
    ∃ s, run step start silentClient = some s ∧ s.pc = .read 0 ∧ (ownStep s ()).isNone = true ∧
      (Item.connection 1).Pending s ∧ ¬ Served (.connection 1) s ∧
      (Item.datagram 0).Pending s ∧ ¬ Served (.datagram 0) s := by
  obtain ⟨s, hs, hpc, hnone, hconnection, hclear, hdatagram, hclear'⟩ : ∃ s,
      run step start silentClient = some s ∧ s.pc = .read 0 ∧ (ownStep s ()).isNone = true ∧
      (Item.connection 1).Pending s ∧ ¬ Clear (.connection 1) s ∧
      (Item.datagram 0).Pending s ∧ ¬ Clear (.datagram 0) s :=
    ⟨_, rfl, rfl, rfl, by decide +kernel, by decide +kernel, by decide +kernel, by decide +kernel⟩
  have hsound := run_sound hs
  exact ⟨s, hs, hpc, hnone, hconnection, mt (hsound.served_iff_clear hconnection).1 hclear,
    hdatagram, mt (hsound.served_iff_clear hdatagram).1 hclear'⟩

/-- When the first client has sent something and the second one has closed its end, the datagram is
received and the connection is accepted. -/
theorem served_iff_ended :
    ∃ s, run step start (silentClient ++ [.data 0 [72, 105], .ended 1]) = some s ∧
      Served (.datagram 0) s ∧ Served (.connection 1) s := by
  obtain ⟨s, hs, hdatagram, hclear, hconnection, hclear'⟩ : ∃ s,
      run step start (silentClient ++ [.data 0 [72, 105], .ended 1]) = some s ∧
      (Item.datagram 0).Pending s ∧ Clear (.datagram 0) s ∧
      (Item.connection 1).Pending s ∧ Clear (.connection 1) s :=
    ⟨_, rfl, by decide +kernel, by decide +kernel, by decide +kernel, by decide +kernel⟩
  exact ⟨s, hs, (served_iff hs hdatagram).2 hclear, (served_iff hs hconnection).2 hclear'⟩

/-- What has arrived before the connection broke is read, and the `send` ends the server. -/
example : (run step start [.connect zeros, .data 0 [72, 105], .ended 0, .failed 0 true,
    .server true, .server true, .server true, .server true, .server true, .server true,
    .server true]).map State.pc = some .exited := by
  decide +kernel

end Multiproto
end PosixHw
