import KwinApi.Daemon.Poll
import KwinApi.Proto.Reader

/-!
# A client session

`ClientSession` of `client_session.cpp` with its object `/cli{id}`: the callback of the io source
reads until the socket has no more or the RX buffer is full, answers a pending `poll`, flushes,
and decides whether the connection is over. A session whose io source could not be added is
dropped by the server before anything else happens, so sessions here have one.

Log lines are left out, except for the counter `discarded_seen_` that decides about one of them.

## Main definitions

* `KwinApi.Session` — the session, with `make`, `push`, `onRxDrained`, `updateIoEvents`
* `KwinApi.Client.readAll` — the read loop of `handle_io`
* `KwinApi.Session.handleIo` — the callback of the io source
* `KwinApi.SessionLink` — a session with its socket, and everything that can happen to it

## Main results

* `KwinApi.Client.readAll_result_ne` — the read loop ends
-/

namespace KwinApi

/-! ### The read loop -/

namespace Client

/-- The read loop of `handle_io`, for `n` more calls of `Client::read` after this one. -/
def readTimes (bo : ByteOrder) : ℕ → Client → Peer → List ReadAnswer → ReadOut
  | 0, c, p, answers => c.read bo p answers
  | n + 1, c, p, answers =>
    let out := c.read bo p answers
    if out.result = .progress then readTimes bo n out.client out.peer out.answers else out

/-- The read loop of `handle_io`: read while there is progress. Every `Client::read` takes an
answer of the kernel, except for one that makes the decision about a complete header. -/
def readAll (bo : ByteOrder) (c : Client) (p : Peer) (answers : List ReadAnswer) : ReadOut :=
  readTimes bo (2 * answers.length + 1) c p answers

/-- A turn with progress that read nothing has begun a payload. -/
theorem ready_of_headerDone_ret {c c' : Client} (h : c.headerDone = .ret .progress c') :
    c'.Ready := by
  rw [headerDone] at h
  split_ifs at h <;> cases h <;> simp [Ready]

theorem length_readLoop_lt {bo : ByteOrder} {c : Client} {p : Peer} {answers : List ReadAnswer}
    (h : (c.readLoop bo p answers).result = .progress) :
    (c.readLoop bo p answers).answers.length < answers.length := by
  induction answers generalizing c p with
  | nil => cases h
  | cons a as ih =>
    simp only [readLoop] at h ⊢
    split at h
    · exact (ih h).trans (Nat.lt_succ_self _)
    · cases h
    · cases h
    · cases h
    · split at h
      · exact (ih h).trans (Nat.lt_succ_self _)
      · exact Nat.lt_succ_self _

open Classical in
/-- How many calls of `Client::read` can still make progress. -/
noncomputable def callsLeft (c : Client) (answers : List ReadAnswer) : ℕ :=
  2 * answers.length + if c.Ready then 0 else 1

theorem callsLeft_read_lt {bo : ByteOrder} {c : Client} {p : Peer} {answers : List ReadAnswer}
    (h : (c.read bo p answers).result = .progress) :
    (c.read bo p answers).client.callsLeft (c.read bo p answers).answers <
      c.callsLeft answers := by
  have hloop : ∀ {c' : Client}, (c'.readLoop bo p answers).result = .progress →
      (c'.readLoop bo p answers).client.callsLeft (c'.readLoop bo p answers).answers <
        c.callsLeft answers := by
    intro c' hc'
    have hlt := length_readLoop_lt hc'
    rw [callsLeft, callsLeft]
    split_ifs <;> omega
  rw [read] at h ⊢
  split_ifs at h ⊢ with hfd hp hready
  · have hnot : ¬ c.Ready := not_not.mpr hready
    split at h
    · rename_i r c' hc'
      cases h
      have hr := ready_of_headerDone_ret hc'
      rw [callsLeft, callsLeft, if_pos hr, if_neg hnot]
      exact Nat.lt_succ_self _
    · exact hloop h
  · exact hloop h

theorem readTimes_result_ne {bo : ByteOrder} {n : ℕ} {c : Client} {p : Peer}
    {answers : List ReadAnswer} (h : c.callsLeft answers ≤ n) :
    (readTimes bo n c p answers).result ≠ .progress := by
  induction n generalizing c p answers with
  | zero =>
    intro hr
    have hlt := callsLeft_read_lt hr
    omega
  | succ n ih =>
    rw [readTimes]
    split_ifs with hr
    · have hlt := callsLeft_read_lt hr
      exact ih (by omega)
    · exact hr

/-- **The read loop ends**: it has not stopped in the middle of progress. -/
theorem readAll_result_ne (bo : ByteOrder) (c : Client) (p : Peer) (answers : List ReadAnswer) :
    (c.readAll bo p answers).result ≠ .progress := by
  refine readTimes_result_ne ?_
  rw [callsLeft]
  split_ifs <;> omega

end Client

/-! ### The session -/

/-- The events an io source is watched for. -/
structure IoMask where
  epollin : Bool
  epollout : Bool
  deriving DecidableEq, Repr

/-- The events a callback reports. Hangups are reported whatever the mask is. -/
structure Revents where
  epollin : Bool
  epollout : Bool
  hangup : Bool

/-- One accepted client connection. The io source is `none` while it is switched off. -/
structure Session where
  id : ℕ
  client : Client
  port : PollPort
  ioSource : Option IoMask
  rxPaused : Bool
  discardedSeen : ℕ

namespace Session

/-- The constructor. -/
def make (id : ℕ) (fd : ℤ) (rxCap txCap : ℕ) : Except String Session := do
  let client ← Client.make fd rxCap txCap
  return { id, client, port := .init, ioSource := some ⟨true, false⟩, rxPaused := false,
           discardedSeen := 0 }

/-- What the constructor makes. -/
theorem eq_of_make {id : ℕ} {fd : ℤ} {rxCap txCap : ℕ} {s : Session}
    (h : make id fd rxCap txCap = .ok s) :
    ∃ c, Client.make fd rxCap txCap = .ok c ∧ s = ⟨id, c, .init, some ⟨true, false⟩, false, 0⟩ := by
  rw [make] at h
  cases hc : Client.make fd rxCap txCap with
  | error e => rw [hc] at h; cases h
  | ok c =>
    rw [hc] at h
    cases h
    exact ⟨c, rfl, rfl⟩

/-- Watch for input while reading is not paused, and for room while bytes are queued. -/
def updateIoEvents (s : Session) : Session :=
  let mask : IoMask := ⟨!s.rxPaused, s.client.tx.pending⟩
  { s with ioSource := if mask = ⟨false, false⟩ then none else some mask }

/-- Queue one message for the socket. -/
def push (bo : ByteOrder) (s : Session) (msg : List UInt8) : Except Errno Unit × Session :=
  match s.client.push bo msg with
  | (.ok (), c) => (.ok (), { s with client := c }.updateIoEvents)
  | (.error e, c) => (.error e, { s with client := c })

/-- The queue was drained: lift the pause of a full RX buffer. -/
def onRxDrained (s : Session) : Session :=
  if s.rxPaused then { s with rxPaused := false, client := s.client.rxResume }.updateIoEvents
  else s

/-- What the functions of `dbus_util.cpp` did to the queue and the port, and `on_drained`. -/
def answered (s : Session) (r : RxBuffer × PollPort × Bool) : Session :=
  let s := { s with client := { s.client with rx := r.1 }, port := r.2.1 }
  if r.2.2 then s.onRxDrained else s

/-- `ClientDBusObject::on_rx_messages` -/
def onRxMessages (s : Session) : Session := s.answered (maybeReplyPendingPoll s.port s.client.rx)

/-- `ClientDBusObject::handle_poll` -/
def handlePoll (s : Session) (call : PollCall) : Session :=
  s.answered (handlePollRequest s.port s.client.rx call)

/-- The readable part of `handle_io`: read, then answer a pending `poll`. The flag says that the
connection is over. -/
def drainInput (bo : ByteOrder) (s : Session) (p : Peer) (answers : List ReadAnswer) :
    Session × Peer × Bool :=
  let out := s.client.readAll bo p answers
  let s := { s with
    client := out.client
    rxPaused := s.rxPaused || decide (out.result = ReadResult.paused) }
  let s := if 0 < s.client.rx.messages then s.onRxMessages else s
  let s := { s with discardedSeen := max s.discardedSeen s.client.discardedFrames }
  (s, out.peer, decide (out.result = ReadResult.eof ∨ out.result = ReadResult.error))

/-- The writable part of `handle_io`. -/
def flushOutput (s : Session) (answers : List SendAnswer) : Session × Bool :=
  match s.client.flush answers with
  | (.ok _, c) => ({ s with client := c }, false)
  | (.error _, c) => ({ s with client := c }, true)

/-- `ClientSession::handle_io`. The flag says that the connection is over. -/
def handleIo (bo : ByteOrder) (s : Session) (p : Peer) (revents : Revents)
    (reads : List ReadAnswer) (sends : List SendAnswer) : Session × Peer × Bool :=
  let (s, p, closeConn) := if revents.epollin then s.drainInput bo p reads else (s, p, false)
  let (s, closeConn) :=
    if revents.epollout ∧ ¬ closeConn then s.flushOutput sends else (s, closeConn)
  let closeConn := closeConn || (revents.hangup && !s.client.tx.pending)
  (if closeConn then s else s.updateIoEvents, p, closeConn)

/-- The destructor: `/cli{id}` is gone, and a pending request with it. -/
def destroy (s : Session) : Session := { s with port := s.port.cancel, ioSource := none }

end Session

/-! ### A session in use -/

/-- A session with its socket, while it exists. -/
structure SessionLink where
  session : Session
  peer : Peer
  alive : Bool

/-- What can happen to a session: its io source reports events, a `poll` or `push` call comes in,
the timer of a pending `poll` fires, or the server destroys it. -/
inductive SessionOp where
  | io (revents : Revents) (reads : List ReadAnswer) (sends : List SendAnswer)
  | poll (call : PollCall)
  | push (msg : List UInt8)
  | timeout
  | destroy

namespace SessionLink

/-- A fresh session in front of a byte stream, which its peer closes at the end or not. -/
def init (s : Session) (stream : List UInt8) (closed : Bool) : SessionLink :=
  ⟨s, ⟨stream, [], closed, []⟩, true⟩

/-- The session is destroyed. -/
def destroy (l : SessionLink) : SessionLink :=
  { l with session := l.session.destroy, alive := false }

/-- `ClientSession::on_io`, for the events the io source is watched for. -/
def onIo (bo : ByteOrder) (l : SessionLink) (revents : Revents) (reads : List ReadAnswer)
    (sends : List SendAnswer) : SessionLink :=
  match l.session.ioSource with
  | none => l
  | some mask =>
    let revents := { revents with
      epollin := revents.epollin && mask.epollin
      epollout := revents.epollout && mask.epollout }
    let r := l.session.handleIo bo l.peer revents reads sends
    let l := { l with session := r.1, peer := r.2.1 }
    if r.2.2 then l.destroy else l

/-- One thing that happens. A session that was destroyed is not there any more; a timer fires while
there is one. -/
def step (bo : ByteOrder) (l : SessionLink) (op : SessionOp) : SessionLink :=
  if ¬ l.alive then l
  else
    match op with
    | .io revents reads sends => l.onIo bo revents reads sends
    | .poll call => { l with session := l.session.handlePoll call }
    | .push msg => { l with session := (l.session.push bo msg).2 }
    | .timeout =>
      if l.session.port.waiter.timer.isSome then
        { l with session :=
          { l.session with port := l.session.port.onTimeout l.session.client.rx } }
      else l
    | .destroy => l.destroy

end SessionLink

end KwinApi
