import PosixHw.Multiproto.Basic

/-!
# Connections that the server abandons

A connection is read once, right after it is accepted.  If that read returns data, the connection
stays open, whether or not `send` succeeds, and the server never looks at it again: `select` waits
for the two sockets only.

`abandoned_iff` says that this is the only way to lose a connection: whenever the server is at
`select`, it waits on all open connections if and only if no read has returned data so far.
-/

namespace PosixHw
namespace Multiproto

open Run

/-- Every open connection is among the descriptors that the server waits on. -/
def Watching (s : State) : Prop := ∀ c ∈ s.opened, Fd.conn c ∈ s.readfds

/-- If the server reads now, there is no data: the client has sent nothing before it closed or broke
the connection. -/
def NoData (s : State) : Act → Prop
  | .server true => ∀ c ∈ s.pc.current, s.pc = .read c → (s.conn c).input = []
  | _ => True

instance (s : State) : ∀ a, Decidable (NoData s a)
  | .server true =>
    inferInstanceAs (Decidable (∀ c ∈ s.pc.current, s.pc = .read c → (s.conn c).input = []))
  | .server false | .connect _ | .data _ _ | .ended _ | .failed _ _ | .datagram _ =>
    inferInstanceAs (Decidable True)

/-- The server has only the connection open that it is about to read or to close. -/
structure Clean (s : State) : Prop where
  opened : s.opened = s.pc.current
  print : ∀ c bs, s.pc ≠ .print c bs
  send : ∀ c bs, s.pc ≠ .send c bs

/-- An open connection that the server is not about to read or to close. -/
def Lost (s : State) : Prop := ∃ c ∈ s.opened, s.pc ≠ .read c ∧ s.pc ≠ .close c

section Steps

variable {s t : State}

/-- Away from `handle_tcp_client` no connection is open. -/
theorem Clean.of_idle (hopened : t.opened = []) (hpc : t.pc.current = []) : Clean t := by
  refine ⟨hopened.trans hpc.symm, fun c bs hprint => ?_, fun c bs hsend => ?_⟩
  · rw [hprint] at hpc
    cases hpc
  · rw [hsend] at hpc
    cases hpc

theorem Lost.of_idle {c : ℕ} (hc : c ∈ t.opened) (hpc : t.pc.current = []) : Lost t := by
  refine ⟨c, hc, fun hread => ?_, fun hclose => ?_⟩
  · rw [hread] at hpc
    cases hpc
  · rw [hclose] at hpc
    cases hpc

theorem Clean.step (h : Clean s) {a : Act} (hdata : NoData s a) (hs : step s a = some t) :
    Clean t := by
  cases a with
  | server ok =>
    cases serverStep_cases hs with
    | accept _ _ hpc _ =>
      have hopened : s.opened = [] := by rw [h.opened, hpc]; rfl
      exact ⟨by rw [hopened]; rfl, by simp, by simp⟩
    | readData c hpc hinput =>
      exact absurd (hdata c (by rw [hpc]; exact List.mem_singleton_self c) hpc) hinput
    | readNothing _ hpc _ =>
      -- without data the connection is closed
      exact ⟨by rw [h.opened, hpc]; rfl, by simp, by simp⟩
    | print c data hpc _ => exact absurd hpc (h.print c data)
    | send _ c data hpc _ | sigpipe c data hpc _ _ => exact absurd hpc (h.send c data)
    | close c hpc =>
      refine ⟨?_, by simp, by simp⟩
      rw [h.opened, hpc]
      exact List.erase_cons_head c []
    | prepare hpc | select hpc _ | selectFailed hpc | tcp hpc _ | noTcp hpc _ | acceptFailed hpc
    | udp hpc _ | noUdp hpc _ | recvfrom _ _ hpc _ _ | recvfromEmpty _ _ hpc _ _
    | recvfromFailed hpc | printUdp _ hpc _ | sendto _ hpc =>
      exact .of_idle (by rw [h.opened, hpc]; rfl) rfl
  | connect buffer | datagram d =>
    cases hs
    exact ⟨h.opened, h.print, h.send⟩
  | data c bs | ended c | failed c pipe =>
    simp only [Multiproto.step] at hs
    split_ifs at hs
    cases hs
    exact ⟨h.opened, h.print, h.send⟩

/-- A read that returns data loses the connection. -/
theorem Sound.lost (h : Sound s) {a : Act} (hdata : ¬ NoData s a)
    (hs : Multiproto.step s a = some t) : Lost t := by
  cases a with
  | server ok =>
    cases ok with
    | false => exact absurd trivial hdata
    | true =>
      obtain ⟨c, hc, hpc, hinput⟩ : ∃ c ∈ s.pc.current, s.pc = .read c ∧
          (s.conn c).input ≠ [] := by
        simpa [NoData] using hdata
      have hopened := h.current c hc
      simp only [Multiproto.step, Multiproto.serverStep, hpc, Multiproto.readStep] at hs
      rw [if_neg (by simp), if_pos hinput] at hs
      cases hs
      exact ⟨c, hopened, by simp, by simp⟩
  | connect buffer | data c bs | ended c | failed c pipe | datagram d =>
    exact absurd trivial hdata

/-- A connection that is lost stays lost. -/
theorem Lost.step (h : Lost s) (hsound : Sound s) {a : Act} (hs : step s a = some t) : Lost t := by
  obtain ⟨c, hc, hread, hclose⟩ := h
  cases a with
  | server ok =>
    cases serverStep_cases hs with
    | accept d rest hpc hpending =>
      -- the new connection is another one
      have hne : d ≠ c := by
        rintro rfl
        have hnodup := hsound.nodup
        rw [hpending] at hnodup
        exact (List.nodup_cons.1 hnodup).1 (List.mem_append_right _ hc)
      exact ⟨c, List.mem_append_left _ hc, fun he => hne (Pc.read.inj he), by simp⟩
    | readData _ hpc _ | print _ _ hpc _ => exact ⟨c, hc, by simp, by simp⟩
    | readNothing d hpc _ =>
      exact ⟨c, hc, by simp, fun he => hread (Pc.close.inj he ▸ hpc)⟩
    | close d hpc =>
      have hne : c ≠ d := fun he => hclose (he ▸ hpc)
      exact .of_idle ((List.mem_erase_of_ne hne).2 hc) rfl
    | prepare hpc | select hpc _ | selectFailed hpc | tcp hpc _ | noTcp hpc _ | acceptFailed hpc
    | send _ _ _ hpc _ | sigpipe _ _ hpc _ _ | udp hpc _ | noUdp hpc _ | recvfrom _ _ hpc _ _
    | recvfromEmpty _ _ hpc _ _ | recvfromFailed hpc | printUdp _ hpc _ | sendto _ hpc =>
      exact .of_idle hc rfl
  | connect buffer | datagram d =>
    cases hs
    exact ⟨c, hc, hread, hclose⟩
  | data d bs | ended d | failed d pipe =>
    simp only [Multiproto.step] at hs
    split_ifs at hs
    cases hs
    exact ⟨c, hc, hread, hclose⟩

end Steps

/-! ### Runs -/

/-- At `select` the server waits on no connection. -/
theorem Sound.watching_iff {s : State} (h : Sound s) : Watching s ↔ s.opened = [] := by
  constructor
  · intro hw
    by_contra hne
    obtain ⟨c, hc⟩ := List.exists_mem_of_ne_nil _ hne
    rcases h.watched _ (hw c hc) with he | he <;> cases he
  · intro hnil c hc
    rw [hnil] at hc
    cases hc

theorem Clean.run_iff {s t : State} {as : List Act} (h : Clean s) (hsound : Sound s)
    (hs : run Multiproto.step s as = some t) (ht : t.pc = .select) :
    Watching t ↔ Along Multiproto.step NoData s as := by
  rcases run_dichotomy (I := fun u => Clean u ∧ Sound u) (J := fun u => Lost u ∧ Sound u)
    (P := NoData) (fun _ _ _ hu hdata hv => ⟨hu.1.step hdata hv, hu.2.step hv⟩)
    (fun _ _ _ hu hdata hv => ⟨hu.2.lost hdata hv, hu.2.step hv⟩)
    (fun _ _ _ hu hv => ⟨hu.1.step hu.2 hv, hu.2.step hv⟩) ⟨h, hsound⟩ hs with
    ⟨halong, hclean, hsound'⟩ | ⟨halong, ⟨c, hc, -⟩, hsound'⟩
  · refine iff_of_true (hsound'.watching_iff.2 ?_) halong
    rw [hclean.opened, ht]
    rfl
  · refine iff_of_false (fun hw => ?_) halong
    rw [hsound'.watching_iff.1 hw] at hc
    cases hc

/-- **When the server abandons a connection.**  Whenever the server is at `select`, it waits on all
connections that it has accepted and not closed, if and only if none of its reads has returned
data. -/
theorem abandoned_iff {as : List Act} {t : State} (h : run step start as = some t)
    (ht : t.pc = .select) : Watching t ↔ Along step NoData start as :=
  Clean.run_iff ⟨rfl, nofun, nofun⟩ sound_start h ht

/-- A client connects and sends `Hi`, and the server goes once through its loop. -/
def oneMessage : List Act :=
  [.connect zeros, .data 0 [72, 105], .server true, .server true, .server true, .server true,
    .server true, .server true, .server true, .server true, .server true]

/-- The client has its echo, and is not waited on; when it sends more and closes its end, the server
stays at `select`. -/
theorem oneMessage_abandoned :
    (∃ s, run step start oneMessage = some s ∧ s.pc = .select ∧ s.opened = [0] ∧
      s.readfds = [.tcp, .udp] ∧ s.out = [(.tcp 0 [72, 105], true)]) ∧
    ((run step start (oneMessage ++ [.data 0 [72, 105], .ended 0])).bind
      fun s => step s (.server true)).isNone = true ∧
    (run step start (oneMessage ++ [.data 0 [72, 105], .ended 0])).isSome = true :=
  ⟨⟨_, rfl, rfl, rfl, rfl, rfl⟩, by decide +kernel, by decide +kernel⟩

/-- A client connects and closes its end. -/
def noMessage : List Act :=
  [.connect zeros, .ended 0, .server true, .server true, .server true, .server true, .server true,
    .server true, .server true, .server true]

theorem abandoned_iff_noMessage :
    ∃ t, run step start noMessage = some t ∧ t.pc = .select ∧ Watching t := by
  obtain ⟨t, ht, hpc⟩ : ∃ t, run step start noMessage = some t ∧ t.pc = .select := ⟨_, rfl, rfl⟩
  exact ⟨t, ht, hpc, (abandoned_iff ht hpc).2 (by decide +kernel)⟩

end Multiproto
end PosixHw
