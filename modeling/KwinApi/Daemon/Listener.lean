import KwinApi.Daemon.FileUtil

/-!
# The listening socket

`Server::start` and `Server::stop` as far as the socket and its file are concerned; the sessions
are those of `Daemon.Server`. What the operating system answers is a parameter.

## Main definitions

* `KwinApi.Listener` — the socket with its file
* `Listener.start`, `stop` — `Server::start`, `Server::stop`

## Main results

* `Listener.Tidy.start`, `Tidy.stop_released` — no step of `start` leaks a socket, and `stop` leaves
  neither a socket nor a file
* `Listener.start_ok_iff` — when `start` succeeds
-/

namespace KwinApi

/-- `sizeof(sockaddr_un::sun_path)` -/
def kSunPathSize : ℕ := 108

/-- The answers to the steps of `start`: a descriptor or 0, and a code below 0 for an error. -/
structure ListenIo where
  socket : ℤ
  bind : ℤ
  listen : ℤ
  addIo : ℤ

/-- The listening part of `Server`: `listen_fd_` and `listen_source_` as far as they are set. -/
structure Listener where
  socketPath : List UInt8
  listenFd : Bool := false
  listenSource : Bool := false
  /-- How many sockets are open. -/
  sockets : ℕ := 0
  /-- Whether a socket has been bound to the path. -/
  bound : Bool := false
  /-- Whether the file of a bound socket is there. -/
  file : Bool := false

namespace Listener

variable (s : Listener)

/-- The constructor, for the path that `main` composes. -/
def make (workDir : List UInt8) : Listener where
  socketPath := slash workDir (ascii "service.socket")

/-- `socket` -/
def openSocket : Listener := { s with sockets := s.sockets + 1 }

/-- `bind` -/
def bindSocket : Listener := { s with bound := true, file := true }

/-- `close` of a socket. -/
def closeSocket : Listener := { s with sockets := s.sockets - 1 }

/-- `unlink` of the path. -/
def unlink : Listener := { s with file := false }

/-- `Server::start` -/
def start (io : ListenIo) : ℤ × Listener :=
  if io.socket < 0 then (io.socket, s.unlink)
  else if kSunPathSize ≤ s.socketPath.length then (-36, s.unlink.openSocket.closeSocket)
  else if io.bind < 0 then (io.bind, s.unlink.openSocket.closeSocket)
  else if io.listen < 0 then (io.listen, s.unlink.openSocket.bindSocket.closeSocket)
  else if io.addIo < 0 then
    (io.addIo, { s.unlink.openSocket.bindSocket.closeSocket with listenFd := false })
  else (0, { s.unlink.openSocket.bindSocket with listenFd := true, listenSource := true })

/-- `Server::stop` -/
def stop : Listener :=
  let s := if s.listenSource then { s with listenSource := false } else s
  let s := if s.listenFd then { s.closeSocket with listenFd := false } else s
  if s.socketPath ≠ [] then s.unlink else s

/-- The only open socket is the one in `listen_fd_`. -/
structure Tidy (s : Listener) : Prop where
  sockets : s.sockets = if s.listenFd then 1 else 0
  path : s.socketPath ≠ []

/-- The socket is closed, and there is no file. -/
structure Released (s : Listener) : Prop where
  sockets : s.sockets = 0
  file : s.file = false

theorem tidy_make (workDir : List UInt8) : (make workDir).Tidy := by
  refine ⟨rfl, ?_⟩
  rw [make, slash]
  split_ifs
  · exact List.append_ne_nil_of_right_ne_nil _ (by decide)
  · exact List.append_ne_nil_of_right_ne_nil _ (by decide)

variable {s} {io : ListenIo}

/-- With an error no socket stays open; without one the socket is in `listen_fd_`. -/
theorem Tidy.start (h : s.Tidy) (hclosed : s.listenFd = false) : (s.start io).2.Tidy := by
  have hnone : s.sockets = 0 := by rw [h.sockets, hclosed]; rfl
  rw [Listener.start]
  split_ifs
  all_goals
    refine ⟨?_, h.path⟩
    simp [unlink, openSocket, bindSocket, closeSocket, hnone, hclosed]

/-- `start` succeeds exactly when the path fits and every step does. -/
theorem start_ok_iff : ¬ (s.start io).1 < 0 ↔ 0 ≤ io.socket ∧ s.socketPath.length < kSunPathSize ∧
    0 ≤ io.bind ∧ 0 ≤ io.listen ∧ 0 ≤ io.addIo := by
  rw [start]
  split_ifs with hsocket hpath hbind hlisten haddIo
  · exact iff_of_false (not_not.mpr hsocket) (by omega)
  · exact iff_of_false (by simp) (by omega)
  · exact iff_of_false (not_not.mpr hbind) (by omega)
  · exact iff_of_false (not_not.mpr hlisten) (by omega)
  · exact iff_of_false (not_not.mpr haddIo) (by omega)
  · exact iff_of_true (by simp) (by omega)

/-- Stopping closes the socket and removes the file, whatever had been started. -/
theorem Tidy.stop_eq (h : s.Tidy) : s.stop =
    { s with listenFd := false, listenSource := false, sockets := 0, file := false } := by
  obtain ⟨hsockets, hpath⟩ := h
  obtain ⟨path, fd, source, sockets, bound, file⟩ := s
  cases fd with
  | false =>
    obtain rfl : sockets = 0 := hsockets
    cases source <;> exact if_pos hpath
  | true =>
    obtain rfl : sockets = 1 := hsockets
    cases source <;> exact if_pos hpath

theorem Tidy.stop (h : s.Tidy) : s.stop.Tidy := by
  rw [h.stop_eq]
  exact ⟨rfl, h.path⟩

theorem Tidy.stop_released (h : s.Tidy) : s.stop.Released := by
  rw [h.stop_eq]
  exact ⟨rfl, rfl⟩

end Listener

end KwinApi
