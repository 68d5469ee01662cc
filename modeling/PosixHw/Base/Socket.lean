import Mathlib.Tactic
import PosixHw.Base.Ownership

/-!
# Connections and their descriptors

The kernel's side of a listening server.  A connection is a number, given out in the order in
which clients connect; it is pending until `accept` returns a descriptor for it, then open under
that descriptor, and closed after `close`.  Descriptors are reused: `accept` may return any
number that is not open.

* `Sockets` carries, as fields, that each connection is in exactly one of the three places;
* `Custody S holds` says that every open descriptor has exactly one owner.  `Custody.accept`,
  `Custody.transfer` and `Custody.close` are the three ways in which a server may change owners.
-/

namespace PosixHw

/-- The connections: how many there have been, those not yet accepted (oldest first), the one
behind each open descriptor, and those closed (in this order). -/
structure Sockets where
  next : ℕ
  pending : List ℕ
  conn : ℕ → Option ℕ
  closed : List ℕ
  pending_nodup : pending.Nodup
  closed_nodup : closed.Nodup
  conn_inj : ∀ {fd fd' c}, conn fd = some c → conn fd' = some c → fd = fd'
  pending_closed : ∀ c ∈ pending, c ∉ closed
  conn_pending : ∀ {fd c}, conn fd = some c → c ∉ pending
  conn_closed : ∀ {fd c}, conn fd = some c → c ∉ closed
  lt_next : ∀ c, c < next ↔ c ∈ pending ∨ c ∈ closed ∨ ∃ fd, conn fd = some c

namespace Sockets

/-- No client has connected. -/
def init : Sockets where
  next := 0
  pending := []
  conn _ := none
  closed := []
  pending_nodup := List.nodup_nil
  closed_nodup := List.nodup_nil
  conn_inj h := by cases h
  pending_closed := by simp
  conn_pending h := by cases h
  conn_closed h := by cases h
  lt_next := by simp

variable (S : Sockets)

theorem next_notMem_pending : S.next ∉ S.pending := fun h =>
  lt_irrefl _ ((S.lt_next _).2 (Or.inl h))

theorem next_notMem_closed : S.next ∉ S.closed := fun h =>
  lt_irrefl _ ((S.lt_next _).2 (Or.inr (Or.inl h)))

theorem conn_ne_next (fd : ℕ) : S.conn fd ≠ some S.next := fun h =>
  lt_irrefl _ ((S.lt_next _).2 (Or.inr (Or.inr ⟨fd, h⟩)))

/-- A client connects. -/
def connect : Sockets where
  next := S.next + 1
  pending := S.pending ++ [S.next]
  conn := S.conn
  closed := S.closed
  pending_nodup := List.nodup_append.2 ⟨S.pending_nodup, List.nodup_singleton _, by
    rintro c hc d hd rfl
    exact S.next_notMem_pending (List.mem_singleton.1 hd ▸ hc)⟩
  closed_nodup := S.closed_nodup
  conn_inj := S.conn_inj
  pending_closed := by
    intro c hc
    rcases List.mem_append.1 hc with hc | hc
    · exact S.pending_closed c hc
    · rw [List.mem_singleton.1 hc]; exact S.next_notMem_closed
  conn_pending := by
    intro fd c h hc
    rcases List.mem_append.1 hc with hc | hc
    · exact S.conn_pending h hc
    · exact S.conn_ne_next fd (List.mem_singleton.1 hc ▸ h)
  conn_closed := S.conn_closed
  lt_next c := by
    rw [List.mem_append, List.mem_singleton, Nat.lt_succ_iff_lt_or_eq, S.lt_next]
    tauto

variable {S}

/-- The oldest pending connection `c` becomes open under the free descriptor `fd`. -/
def establish (S : Sockets) (fd c : ℕ) (rest : List ℕ) (hp : S.pending = c :: rest)
    (hfd : S.conn fd = none) : Sockets where
  next := S.next
  pending := rest
  conn := Function.update S.conn fd (some c)
  closed := S.closed
  pending_nodup := (List.nodup_cons.1 (hp ▸ S.pending_nodup)).2
  closed_nodup := S.closed_nodup
  conn_inj := by
    have hc : ∀ {fd'}, S.conn fd' ≠ some c := fun h => S.conn_pending h (by simp [hp])
    intro fd₁ fd₂ d h₁ h₂
    by_cases e₁ : fd₁ = fd <;> by_cases e₂ : fd₂ = fd
    · rw [e₁, e₂]
    · subst e₁
      rw [Function.update_self, Option.some.injEq] at h₁
      rw [Function.update_of_ne e₂, ← h₁] at h₂
      exact absurd h₂ hc
    · subst e₂
      rw [Function.update_self, Option.some.injEq] at h₂
      rw [Function.update_of_ne e₁, ← h₂] at h₁
      exact absurd h₁ hc
    · rw [Function.update_of_ne e₁] at h₁
      rw [Function.update_of_ne e₂] at h₂
      exact S.conn_inj h₁ h₂
  pending_closed d hd := S.pending_closed d (by simp [hp, hd])
  conn_pending := by
    intro fd' d h hd
    by_cases e : fd' = fd
    · subst e
      rw [Function.update_self, Option.some.injEq] at h
      exact (List.nodup_cons.1 (hp ▸ S.pending_nodup)).1 (h ▸ hd)
    · rw [Function.update_of_ne e] at h
      exact S.conn_pending h (by simp [hp, hd])
  conn_closed := by
    intro fd' d h
    by_cases e : fd' = fd
    · subst e
      rw [Function.update_self, Option.some.injEq] at h
      exact h ▸ S.pending_closed c (by simp [hp])
    · rw [Function.update_of_ne e] at h
      exact S.conn_closed h
  lt_next d := by
    rw [S.lt_next, hp, List.mem_cons]
    constructor
    · rintro ((rfl | h) | h | ⟨fd', h⟩)
      · exact Or.inr (Or.inr ⟨fd, Function.update_self ..⟩)
      · exact Or.inl h
      · exact Or.inr (Or.inl h)
      · refine Or.inr (Or.inr ⟨fd', ?_⟩)
        rwa [Function.update_of_ne]
        rintro rfl
        rw [hfd] at h; cases h
    · rintro (h | h | ⟨fd', h⟩)
      · exact Or.inl (Or.inr h)
      · exact Or.inr (Or.inl h)
      · by_cases e : fd' = fd
        · subst e
          rw [Function.update_self, Option.some.injEq] at h
          exact Or.inl (Or.inl h.symm)
        · rw [Function.update_of_ne e] at h
          exact Or.inr (Or.inr ⟨fd', h⟩)

/-- `accept` returning the descriptor `fd`; not enabled while no connection is pending, nor with
a descriptor that is open. -/
def accept (S : Sockets) (fd : ℕ) : Option Sockets :=
  match hp : S.pending with
  | [] => none
  | c :: rest => if hfd : S.conn fd = none then some (S.establish fd c rest hp hfd) else none

/-- The connection `c` behind `fd` is closed. -/
def drop (S : Sockets) (fd c : ℕ) (hfd : S.conn fd = some c) : Sockets where
  next := S.next
  pending := S.pending
  conn := Function.update S.conn fd none
  closed := S.closed ++ [c]
  pending_nodup := S.pending_nodup
  closed_nodup := List.nodup_append.2 ⟨S.closed_nodup, List.nodup_singleton _, by
    rintro d hd e he rfl
    exact S.conn_closed hfd (List.mem_singleton.1 he ▸ hd)⟩
  conn_inj := by
    intro fd₁ fd₂ d h₁ h₂
    rw [Function.update_apply] at h₁ h₂
    split_ifs at h₁ h₂
    exact S.conn_inj h₁ h₂
  pending_closed d hd := by
    rw [List.mem_append, List.mem_singleton]
    rintro (h | rfl)
    · exact S.pending_closed d hd h
    · exact S.conn_pending hfd hd
  conn_pending := by
    intro fd' d h
    rw [Function.update_apply] at h
    split_ifs at h
    exact S.conn_pending h
  conn_closed := by
    intro fd' d h
    rw [Function.update_apply] at h
    split_ifs at h with e
    rw [List.mem_append, List.mem_singleton]
    rintro (h' | rfl)
    · exact S.conn_closed h h'
    · exact e (S.conn_inj h hfd)
  lt_next d := by
    rw [S.lt_next, List.mem_append, List.mem_singleton]
    constructor
    · rintro (h | h | ⟨fd', h⟩)
      · exact Or.inl h
      · exact Or.inr (Or.inl (Or.inl h))
      · by_cases e : fd' = fd
        · subst e
          rw [hfd, Option.some.injEq] at h
          exact Or.inr (Or.inl (Or.inr h.symm))
        · exact Or.inr (Or.inr ⟨fd', by rwa [Function.update_of_ne e]⟩)
    · rintro (h | (h | rfl) | ⟨fd', h⟩)
      · exact Or.inl h
      · exact Or.inr (Or.inl h)
      · exact Or.inr (Or.inr ⟨fd, hfd⟩)
      · rw [Function.update_apply] at h
        split_ifs at h
        exact Or.inr (Or.inr ⟨fd', h⟩)

/-- `close(fd)`; on a descriptor that is not open it fails and changes nothing. -/
def close (S : Sockets) (fd : ℕ) : Sockets :=
  match h : S.conn fd with
  | some c => S.drop fd c h
  | none => S

/-- What a successful `accept` does. -/
theorem accept_cases {S' : Sockets} {fd : ℕ} (h : S.accept fd = some S') :
    ∃ c, S.pending = c :: S'.pending ∧ S.conn fd = none ∧
      S'.conn = Function.update S.conn fd (some c) ∧ S'.closed = S.closed := by
  unfold accept at h
  split at h
  · cases h
  · rename_i c rest hp
    split_ifs at h with hfd
    cases h
    exact ⟨c, hp, hfd, rfl, rfl⟩

/-- Some descriptor is free: only finitely many connections have been made. -/
theorem exists_free (S : Sockets) : ∃ fd, S.conn fd = none := by
  by_contra hall
  have hconn : ∀ fd, ∃ c, S.conn fd = some c := fun fd =>
    Option.ne_none_iff_exists'.1 fun h => hall ⟨fd, h⟩
  choose f hf using hconn
  have hlt : ∀ fd, f fd < S.next := fun fd => (S.lt_next _).2 (Or.inr (Or.inr ⟨fd, hf fd⟩))
  refine not_injective_infinite_finite (fun fd => (⟨f fd, hlt fd⟩ : Fin S.next)) fun a b h => ?_
  rw [Fin.mk.injEq] at h
  exact S.conn_inj (hf a) (h ▸ hf b)

/-- While a connection is pending, `accept` can return a descriptor for the oldest one. -/
theorem exists_accept {c : ℕ} {rest : List ℕ} (hp : S.pending = c :: rest) :
    ∃ fd S', S.accept fd = some S' ∧ S'.conn fd = some c := by
  obtain ⟨fd, hfd⟩ := S.exists_free
  refine ⟨fd, S.establish fd c rest hp hfd, ?_, Function.update_self ..⟩
  unfold accept
  split
  · rename_i h
    rw [hp] at h; cases h
  · rename_i d rest' h
    have := h
    rw [hp, List.cons.injEq] at this
    obtain ⟨rfl, rfl⟩ := this
    rw [dif_pos hfd]

theorem close_pending (fd : ℕ) : (S.close fd).pending = S.pending := by
  unfold close
  split <;> rfl

theorem close_next (fd : ℕ) : (S.close fd).next = S.next := by
  unfold close
  split <;> rfl

/-- What closing an open descriptor does. -/
theorem close_of_conn {fd c : ℕ} (h : S.conn fd = some c) :
    (S.close fd).conn = Function.update S.conn fd none ∧ (S.close fd).closed = S.closed ++ [c] ∧
      (S.close fd).pending = S.pending := by
  unfold close
  split
  · rename_i d hd
    rw [h, Option.some.injEq] at hd
    subst hd
    exact ⟨rfl, rfl, rfl⟩
  · rename_i hn
    rw [h] at hn; cases hn

end Sockets

/-! ### Owners -/

/-- Every open descriptor is held by exactly one owner, and no other descriptor is held. -/
structure Custody {O : Type*} (S : Sockets) (holds : O → Option ℕ) : Prop where
  isOpen : ∀ {o fd}, holds o = some fd → ∃ c, S.conn fd = some c
  held : ∀ {fd c}, S.conn fd = some c → ∃ o, holds o = some fd
  inj : ∀ {o o' fd}, holds o = some fd → holds o' = some fd → o = o'

namespace Custody

variable {O : Type*} {S S' : Sockets} {holds : O → Option ℕ} {o o' : O} {fd c : ℕ}

/-- The resource behind a descriptor is its connection. -/
theorem iff_ownership : Custody S holds ↔ Ownership S.conn holds :=
  ⟨fun h => ⟨h.isOpen, h.held, h.inj⟩, fun h => ⟨h.isLive, h.held, h.inj⟩⟩

theorem init : Custody Sockets.init fun _ : O => none :=
  iff_ownership.2 Ownership.init

/-- Custody depends on the table of open descriptors alone. -/
theorem congr (h : Custody S holds) (hc : S'.conn = S.conn) : Custody S' holds := by
  rw [iff_ownership] at h ⊢
  rwa [hc]

/-- An open descriptor has exactly one owner. -/
theorem existsUnique (h : Custody S holds) (hfd : S.conn fd = some c) :
    ∃! o, holds o = some fd :=
  (iff_ownership.1 h).existsUnique hfd

variable [DecidableEq O]

/-- An owner with free hands takes a descriptor that has just been opened. -/
theorem accept (h : Custody S holds) (ho : holds o = none) (hfd : S.conn fd = none)
    (hc : S'.conn = Function.update S.conn fd (some c)) :
    Custody S' (Function.update holds o (some fd)) :=
  iff_ownership.2 ((iff_ownership.1 h).acquire ho hfd hc)

/-- A descriptor passes from `o` to `o'`, whose hands are free. -/
theorem transfer (h : Custody S holds) (ho : holds o = some fd) (ho' : holds o' = none)
    (hc : S'.conn = S.conn) :
    Custody S' (Function.update (Function.update holds o none) o' (some fd)) :=
  congr (iff_ownership.2 ((iff_ownership.1 h).transfer ho ho')) hc

/-- The owner of a descriptor closes it. -/
theorem close (h : Custody S holds) (ho : holds o = some fd)
    (hc : S'.conn = Function.update S.conn fd none) :
    Custody S' (Function.update holds o none) :=
  iff_ownership.2 ((iff_ownership.1 h).release ho hc)

end Custody
end PosixHw
