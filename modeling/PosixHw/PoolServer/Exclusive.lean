import PosixHw.PoolServer.Slots

/-!
# The thread-pool server: nothing is used twice

`holds` is the socket that `main` or a worker has in hand.  Every open connection has exactly one
such owner, in every run and on every failure branch (`held_step`).  With the bookkeeping of
`Slots` this gives `pool_exclusive`.
-/

namespace PosixHw
namespace PoolServer

open Run

/-- The accepted socket that `main` has neither handed to a worker nor closed. -/
def MainPc.socket : MainPc → Option ℕ
  | .lock fd | .test fd | .wait fd | .take fd | .unlock fd _ | .create fd _
  | .failed fd _ => some fd
  | _ => none

/-- The socket that a worker has not closed. -/
def Worker.socket (w : Worker) : Option ℕ :=
  match w.pc with
  | .serve => some w.clientSocket
  | _ => none

/-- The socket that a thread has in hand. -/
def holds (s : State) : Thr → Option ℕ
  | .main => s.main.socket
  | .worker i => s.workers[i]?.bind Worker.socket

/-- Every open connection has exactly one owner. -/
def Held (s : State) : Prop := Custody s.sockets (holds s)

theorem main_ne_worker (i : ℕ) : Thr.main ≠ .worker i := nofun

theorem held_start : Held start := by
  have : holds start = fun _ => none := by
    funext t
    cases t <;> rfl
  rw [Held, this]
  exact Custody.init

section Steps

variable {s : State} {fd i : ℕ} {id : ℤ} {w : Worker} {p : WorkerPc}

/-- `main` goes on with the socket `r` in hand. -/
theorem holds_main {s' : State} {r : Option ℕ} (hm : s'.main.socket = r)
    (hw : s'.workers = s.workers) : holds s' = Function.update (holds s) .main r := by
  funext t
  cases t with
  | main => rw [Function.update_self]; exact hm
  | worker i => rw [Function.update_of_ne (main_ne_worker i).symm]; simp only [holds, hw]

/-- The worker `i` goes on with the socket `r` in hand. -/
theorem holds_worker {s' : State} {r : Option ℕ} (hi : s.workers[i]? = some w)
    (hp : Worker.socket { w with pc := p } = r) (hm : s'.main = s.main)
    (hw : s'.workers = s.workers.set i { w with pc := p }) :
    holds s' = Function.update (holds s) (.worker i) r := by
  obtain ⟨hlt, -⟩ := List.getElem?_eq_some_iff.1 hi
  funext t
  cases t with
  | main => rw [Function.update_of_ne (main_ne_worker i)]; simp only [holds, hm]
  | worker j =>
    by_cases e : j = i
    · subst e
      rw [Function.update_self]
      simp only [holds, hw, List.getElem?_set_self hlt, Option.bind_some, hp]
    · rw [Function.update_of_ne (by simpa using e)]
      simp only [holds, hw, List.getElem?_set_ne (Ne.symm e)]

/-- Steps after which everybody has the same in hand. -/
theorem Held.congr {s' : State} (h : Held s) (hh : holds s' = holds s)
    (hS : s'.sockets.conn = s.sockets.conn) : Held s' := by
  rw [Held, hh]
  exact Custody.congr h hS

/-- Steps of `main` with the same socket in hand. -/
theorem Held.main {s' : State} (h : Held s) (hm : s'.main.socket = s.main.socket)
    (hw : s'.workers = s.workers) (hS : s'.sockets.conn = s.sockets.conn) : Held s' := by
  refine h.congr ?_ hS
  rw [holds_main hm hw]
  exact Function.update_eq_self ..

/-- Steps of a worker with the same socket in hand. -/
theorem Held.worker {s' : State} (h : Held s) (hi : s.workers[i]? = some w)
    (hp : Worker.socket { w with pc := p } = w.socket) (hm : s'.main = s.main)
    (hw : s'.workers = s.workers.set i { w with pc := p })
    (hS : s'.sockets.conn = s.sockets.conn) : Held s' := by
  refine h.congr ?_ hS
  have : w.socket = holds s (.worker i) := by simp only [holds, hi, Option.bind_some]
  rw [holds_worker hi (hp.trans this) hm hw]
  exact Function.update_eq_self ..

theorem held_accept {S : Sockets} (h : Held s) (hm : s.main = .accept)
    (hS : s.sockets.accept fd = some S) : Held { s with sockets := S, main := .lock fd } := by
  obtain ⟨c, -, hfd, hconn, -⟩ := Sockets.accept_cases hS
  have hh : holds { s with sockets := S, main := .lock fd }
      = Function.update (holds s) .main (some fd) := holds_main rfl rfl
  rw [Held, hh]
  exact Custody.accept h (by simp only [holds, hm, MainPc.socket]) hfd hconn

theorem held_create (h : Held s) (hm : s.main = .create fd id) :
    Held { s with workers := s.workers ++ [⟨fd, id, .serve⟩], main := .read } := by
  have hh : holds { s with workers := s.workers ++ [⟨fd, id, .serve⟩], main := .read }
      = Function.update (Function.update (holds s) .main none) (.worker s.workers.length)
          (some fd) := by
    funext t
    cases t with
    | main => rw [Function.update_of_ne (main_ne_worker _), Function.update_self]; rfl
    | worker j =>
      by_cases e : j = s.workers.length
      · subst e
        rw [Function.update_self]
        simp only [holds, List.getElem?_concat_length]
        rfl
      · rw [Function.update_of_ne (by simpa using e),
          Function.update_of_ne (main_ne_worker j).symm]
        simp only [holds]
        by_cases hj : j < s.workers.length
        · rw [List.getElem?_append_left hj]
        · rw [List.getElem?_eq_none (by simp; omega), List.getElem?_eq_none (by omega)]
  rw [Held, hh]
  refine Custody.transfer h (by simp only [holds, hm, MainPc.socket]) ?_ rfl
  simp only [holds, List.getElem?_eq_none le_rfl, Option.bind_none]

theorem held_abandon (h : Held s) (hm : s.main = .failed fd id) :
    Held { s with
      sockets := s.sockets.close fd
      main := .accept
      dropped := s.dropped ++ [id] } := by
  have ho : holds s .main = some fd := by simp only [holds, hm, MainPc.socket]
  obtain ⟨c, hc⟩ := h.isOpen ho
  have hh : holds { s with
      sockets := s.sockets.close fd
      main := .accept
      dropped := s.dropped ++ [id] } = Function.update (holds s) .main none := holds_main rfl rfl
  rw [Held, hh]
  exact Custody.close h ho (Sockets.close_of_conn hc).1

theorem held_close (h : Held s) (hi : s.workers[i]? = some w) (hw : w.pc = .serve) :
    Held { s with
      workers := s.workers.set i { w with pc := .lock }
      sockets := s.sockets.close w.clientSocket } := by
  have ho : holds s (.worker i) = some w.clientSocket := by
    simp only [holds, hi, Option.bind_some, Worker.socket, hw]
  obtain ⟨c, hc⟩ := h.isOpen ho
  have hh : holds { s with
      workers := s.workers.set i { w with pc := .lock }
      sockets := s.sockets.close w.clientSocket } = Function.update (holds s) (.worker i) none :=
    holds_worker hi rfl rfl rfl
  rw [Held, hh]
  exact Custody.close h ho (Sockets.close_of_conn hc).1

end Steps

theorem held_step (s : State) (a : Action) (s' : State) (h : Held s) (hs : step s a = some s') :
    Held s' := by
  cases step_cases hs with
  | connect => exact h.main rfl rfl rfl
  | accept hm hS => exact held_accept h hm hS
  | create hm => exact held_create h hm
  | abandon hm => exact held_abandon h hm
  | close hi hw => exact held_close h hi hw
  | acceptFailed => exact h
  | echo hi hw => exact h
  | wake hw => exact h.main rfl rfl rfl
  | workerLock hi hw hx => exact h.worker hi (by simp [Worker.socket, hw]) rfl rfl rfl
  | write hi hw => exact h.worker hi (by simp [Worker.socket, hw]) rfl rfl rfl
  | workerUnlock hi hw => exact h.worker hi (by simp [Worker.socket, hw]) rfl rfl rfl
  | free hi hw => exact h.worker hi (by simp [Worker.socket, hw]) rfl rfl rfl
  | lock hm hx => exact h.main (by rw [hm]; rfl) rfl rfl
  | wait hm hc => exact h.main (by rw [hm]; rfl) rfl rfl
  | enter hm hc => exact h.main (by rw [hm]; rfl) rfl rfl
  | relock hm hw hx => exact h.main (by rw [hm]; rfl) rfl rfl
  | take hm => exact h.main (by rw [hm]; rfl) rfl rfl
  | unlock hm => exact h.main (by rw [hm]; rfl) rfl rfl
  | createFailed hm => exact h.main (by rw [hm]; rfl) rfl rfl
  | read hm hp => exact h.main (by rw [hm]; rfl) rfl rfl
  | lockReturn hm hx => exact h.main (by rw [hm]; rfl) rfl rfl
  | put hm hc => exact h.main (by rw [hm]; rfl) rfl rfl
  | unlockReturn hm => exact h.main (by rw [hm]; rfl) rfl rfl

/-- The index at which the next step of `main` accesses `available_threads` or `threads`. -/
def State.index (s : State) : Option ℤ :=
  match s.main with
  | .take _ => some (s.threadCount - 1)
  | .create _ id => some id
  | .put _ => some s.threadCount
  | _ => none

end PoolServer
end PosixHw
