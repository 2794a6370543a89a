import KwinApi.Daemon.Session
import KwinApi.Daemon.Text
import KwinApi.Lib.Lines
import Mathlib.Data.List.AList
import Mathlib.Data.List.Forall2

/-!
# The line server

`SocketServer` of `socket_server.cpp`, which the framed protocol has replaced, answers commands of
one line each. A client is looked up by its descriptor, reads are gathered until there is no more
input, complete lines are answered in order, and what the socket does not take waits in a buffer.

What the status callback returns, if one is set, is a part of the event. `received`, `sent` and
`lastRead` are records of the model: the bytes read from a client, the bytes `send` has taken, and
what the read loop of the last callback has read and how it ended; `gone` holds the clients that
were closed. The listening socket and its file are left out, and so are log lines.

## Main definitions

* `KwinApi.SocketClient.processLines`, `flushWrites`, `handleClientIo` — one callback
* `KwinApi.SocketServer`, `SocketServer.step` — the table of clients
* `KwinApi.LineLink.Connected`, `LineLink.Closed` — what a client has been told

## Main results

* `KwinApi.SocketClient.processLines_spec` — the lines of a buffer
* `KwinApi.line_server_transcript` — every client over every run
-/

namespace KwinApi

/-- The most bytes a client may have unread. -/
def kMaxReadBuf : ℕ := 64 * 1024

/-- A `Client` of the server. `events` is what its io source is watched for. -/
structure SocketClient where
  readBuf : List UInt8
  writeBuf : List UInt8
  closing : Bool
  events : IoMask

/-- How the read loop ends: there is no more input, the peer has closed its side, or the client is
to be closed at once. -/
inductive ReadEnd where
  | drained
  | eof
  | close
  deriving DecidableEq, Repr

/-- The read loop: what it appends to the read buffer, and how it ends. -/
def readInput (buf : List UInt8) : List SysRead → List UInt8 × ReadEnd
  | [] => ([], .drained)
  | .bytes bs :: reads =>
    if kMaxReadBuf < (buf ++ bs).length then (bs, .close)
    else
      let r := readInput (buf ++ bs) reads
      (bs ++ r.1, r.2)
  | .zero :: _ => ([], .eof)
  | .errno .EAGAIN :: _ => ([], .drained)
  | .errno .EINTR :: reads => readInput buf reads
  | .errno _ :: _ => ([], .close)

/-- A line without the carriage return at its end. -/
def trimCr (line : List UInt8) : List UInt8 :=
  if line.getLast? = some 13 then line.dropLast else line

/-- What `flush_writes` has sent, what is left, and whether `send` has failed. -/
structure Flushed where
  sent : List UInt8
  left : List UInt8
  failed : Bool

/-- `flush_writes` -/
def flushWrites (buf : List UInt8) : List SendAnswer → Flushed
  | [] => ⟨[], buf, false⟩
  | a :: sends =>
    if buf = [] then ⟨[], [], false⟩
    else
      match a with
      | .accept k =>
        let r := flushWrites (buf.drop (k + 1)) sends
        { r with sent := buf.take (k + 1) ++ r.sent }
      | .eintr => flushWrites buf sends
      | .eagain => ⟨[], buf, false⟩
      | .fail _ => ⟨[], buf, true⟩

namespace SocketClient

/-- A client that was just accepted. -/
def fresh : SocketClient := ⟨[], [], false, ⟨true, false⟩⟩

/-- `queue_response` -/
def queueResponse (c : SocketClient) (data : List UInt8) : SocketClient :=
  { c with writeBuf := c.writeBuf ++ data }

/-- `process_lines` -/
def processLines (status : Option (List UInt8)) (c : SocketClient) : SocketClient :=
  if h : (10 : UInt8) ∈ c.readBuf then
    let nl := c.readBuf.idxOf 10
    let line := trimCr (c.readBuf.take nl)
    let c' := { c with readBuf := c.readBuf.drop (nl + 1) }
    if line = ascii "ping" then processLines status (c'.queueResponse (ascii "pong\n"))
    else if line = ascii "status" then
      processLines status (c'.queueResponse (status.getD (ascii "ok") ++ ascii "\n"))
    else if line = ascii "quit" then { c' with closing := true }
    else processLines status (c'.queueResponse (ascii "echo " ++ line ++ ascii "\n"))
  else c
termination_by c.readBuf.length
decreasing_by
  all_goals
    have hpos := List.length_pos_of_mem h
    simp only [queueResponse, List.length_drop]
    omega

end SocketClient

/-- A client with its history. -/
structure LineLink where
  client : SocketClient
  received : List UInt8
  sent : List UInt8
  lastRead : List UInt8 × ReadEnd

namespace LineLink

/-- A client that was just accepted. -/
def fresh : LineLink := ⟨.fresh, [], [], ([], .drained)⟩

/-- `handle_client_io`: the client afterwards, and whether it stays open. -/
def handleClientIo (l : LineLink) (status : Option (List UInt8)) (revents : Revents)
    (reads : List SysRead) (sends : List SendAnswer) : LineLink × Bool :=
  let input := if revents.epollin then readInput l.client.readBuf reads else ([], .drained)
  let received := l.received ++ input.1
  let c := { l.client with readBuf := l.client.readBuf ++ input.1 }
  if input.2 = .close then (⟨c, received, l.sent, input⟩, false)
  else
    let c := if c.closing then c else c.processLines status
    let out := flushWrites c.writeBuf sends
    let c : SocketClient :=
      { c with writeBuf := out.left, closing := c.closing || out.failed }
    let sent := l.sent ++ out.sent
    if c.closing = true ∨ input.2 = .eof then (⟨c, received, sent, input⟩, false)
    else if revents.hangup = true ∧ c.writeBuf = [] then (⟨c, received, sent, input⟩, false)
    else (⟨{ c with events := ⟨true, c.writeBuf ≠ []⟩ }, received, sent, input⟩, true)

end LineLink

/-- What `accept4` returns: a descriptor, and whether its io source can be added; or an error. -/
inductive Accept4 where
  | connection (fd : ℤ) (added : Bool)
  | errno (e : Errno)

/-- The server. -/
structure SocketServer where
  maxClients : ℕ
  clients : AList fun _ : ℤ => LineLink
  gone : List LineLink

/-- What can happen: connections wait to be accepted, the io source of a descriptor reports events,
or the server is stopped. -/
inductive SocketServerEvent where
  | accept (answers : List Accept4)
  | io (fd : ℤ) (status : Option (List UInt8)) (revents : Revents) (reads : List SysRead)
      (sends : List SendAnswer)
  | stop

namespace SocketServer

/-- The constructor. -/
def make (maxClients : ℤ) : SocketServer :=
  ⟨if 0 < maxClients then maxClients.toNat else 64, ∅, []⟩

/-- `accept_clients`. A descriptor that is in the table keeps its client. -/
def acceptClients (s : SocketServer) : List Accept4 → SocketServer
  | [] => s
  | .errno e :: answers => if e = .EINTR then s.acceptClients answers else s
  | .connection fd added :: answers =>
    if s.maxClients ≤ s.clients.keys.length then s.acceptClients answers
    else if added = false then s
    else if fd ∈ s.clients then s.acceptClients answers
    else { s with clients := s.clients.insert fd .fresh }.acceptClients answers

/-- `on_client_io`. A descriptor without a client is ignored. -/
def onClientIo (s : SocketServer) (fd : ℤ) (status : Option (List UInt8)) (revents : Revents)
    (reads : List SysRead) (sends : List SendAnswer) : SocketServer :=
  match s.clients.lookup fd with
  | none => s
  | some l =>
    let r := l.handleClientIo status revents reads sends
    if r.2 then { s with clients := s.clients.insert fd r.1 }
    else { s with clients := s.clients.erase fd, gone := s.gone ++ [r.1] }

/-- One thing that happens. -/
def step (s : SocketServer) : SocketServerEvent → SocketServer
  | .accept answers => s.acceptClients answers
  | .io fd status revents reads sends => s.onClientIo fd status revents reads sends
  | .stop => { s with clients := ∅, gone := s.gone ++ s.clients.entries.map Sigma.snd }

/-- A run. -/
def run (s : SocketServer) (evs : List SocketServerEvent) : SocketServer := evs.foldl step s

end SocketServer

/-! ### Commands and replies -/

/-- The commands in a stream: its complete lines. -/
def commands (s : List UInt8) : List (List UInt8) := (Lines.complete 10 s).map trimCr

/-- What a command is answered with. The status is any text. -/
inductive Replies : List UInt8 → List UInt8 → Prop where
  | ping : Replies (ascii "ping") (ascii "pong\n")
  | status (text : List UInt8) : Replies (ascii "status") (text ++ ascii "\n")
  | echo {line : List UInt8} (hping : line ≠ ascii "ping") (hstatus : line ≠ ascii "status")
      (hquit : line ≠ ascii "quit") : Replies line (ascii "echo " ++ line ++ ascii "\n")

/-- The commands in front of the first `quit`. -/
def beforeQuit (lines : List (List UInt8)) : List (List UInt8) :=
  lines.takeWhile fun line => line ≠ ascii "quit"

namespace LineLink

/-- What the last callback has read and did not look at, as its read loop closed the client: it was
too much, or a read failed. -/
def unanswered (l : LineLink) : List UInt8 := if l.lastRead.2 = .close then l.lastRead.1 else []

/-- A client that is connected: it has not quit, every line of it has its reply, and these were sent
or are queued in order; its io source waits for room exactly when something is queued. -/
structure Connected (l : LineLink) : Prop where
  closing : l.client.closing = false
  kept : l.lastRead.2 ≠ .close
  unread : l.client.readBuf = Lines.rest 10 l.received
  short : l.client.readBuf.length ≤ kMaxReadBuf
  stays : ascii "quit" ∉ commands l.received
  replies : ∃ replies, List.Forall₂ Replies (commands l.received) replies ∧
    l.sent ++ l.client.writeBuf = replies.flatten
  epollin : l.client.events.epollin = true
  epollout : l.client.events.epollout = true ↔ l.client.writeBuf ≠ []

/-- A client that is gone: of what was read from it, without what the callback that closed it did
not look at, the lines in front of the first `quit` have their replies, and these were sent or were
still queued in order. -/
def Closed (l : LineLink) : Prop :=
  ∃ seen replies, l.received = seen ++ l.unanswered ∧
    List.Forall₂ Replies (beforeQuit (commands seen)) replies ∧
    l.sent ++ l.client.writeBuf = replies.flatten

end LineLink

/-! ### One callback -/

/-- What a client sends in addition are further commands. -/
theorem commands_append (s t : List UInt8) :
    commands (s ++ t) = commands s ++ commands (Lines.rest 10 s ++ t) := by
  rw [commands, commands, commands, Lines.complete_append, List.map_append]

theorem beforeQuit_of_not_mem {lines : List (List UInt8)} (h : ascii "quit" ∉ lines) :
    beforeQuit lines = lines := by
  refine List.takeWhile_eq_self_iff.mpr fun line hline => ?_
  simp only [decide_eq_true_eq]
  rintro rfl
  exact h hline

theorem beforeQuit_append {lines more : List (List UInt8)} (h : ascii "quit" ∉ lines) :
    beforeQuit (lines ++ more) = lines ++ beforeQuit more := by
  refine List.takeWhile_append_of_pos fun line hline => ?_
  simp only [decide_eq_true_eq]
  rintro rfl
  exact h hline

namespace SocketClient

/-- `process_lines` answers the commands in front of the first `quit`, which sets the flag. -/
structure Processed (c c' : SocketClient) : Prop where
  replies : ∃ replies, List.Forall₂ Replies (beforeQuit (commands c.readBuf)) replies ∧
    c'.writeBuf = c.writeBuf ++ replies.flatten
  closing : c'.closing = true ↔ c.closing = true ∨ ascii "quit" ∈ commands c.readBuf
  unread : ascii "quit" ∉ commands c.readBuf → c'.readBuf = Lines.rest 10 c.readBuf

/-- One line is answered. -/
theorem Processed.cons {c c' : SocketClient} {reply : List UInt8}
    (hmem : (10 : UInt8) ∈ c.readBuf)
    (hreply : Replies (trimCr (c.readBuf.take (c.readBuf.idxOf 10))) reply)
    (hne : trimCr (c.readBuf.take (c.readBuf.idxOf 10)) ≠ ascii "quit")
    (h : ({ c with readBuf := c.readBuf.drop (c.readBuf.idxOf 10 + 1) } :
      SocketClient).queueResponse reply |>.Processed c') : c.Processed c' := by
  obtain ⟨hlines, hrest⟩ := Lines.complete_of_mem hmem
  have hcommands : commands c.readBuf = trimCr (c.readBuf.take (c.readBuf.idxOf 10)) ::
      commands (c.readBuf.drop (c.readBuf.idxOf 10 + 1)) := by
    rw [commands, hlines]
    rfl
  obtain ⟨⟨replies, hreplies, hwrite⟩, hclosing, hunread⟩ := h
  refine ⟨⟨reply :: replies, ?_, ?_⟩, ?_, ?_⟩
  · rw [hcommands, beforeQuit, List.takeWhile_cons_of_pos (by simpa using hne)]
    exact .cons hreply hreplies
  · rw [hwrite, List.flatten_cons, ← List.append_assoc]
    rfl
  · rw [hclosing, hcommands, List.mem_cons]
    simp only [queueResponse, Ne.symm hne, false_or]
  · intro hquit
    rw [hcommands, List.mem_cons, not_or] at hquit
    rw [hunread hquit.2, hrest]
    rfl

theorem processLines_spec (status : Option (List UInt8)) (c : SocketClient) :
    c.Processed (c.processLines status) ∧
      (c.processLines status).events = c.events := by
  induction hn : c.readBuf.length using Nat.strong_induction_on generalizing c with
  | _ n ih =>
    subst hn
    rw [processLines]
    split_ifs with hmem
    swap
    · have hnone : commands c.readBuf = [] := by
        rw [commands, Lines.complete_of_not_mem hmem]
        rfl
      refine ⟨⟨⟨[], ?_, (List.append_nil _).symm⟩, ?_, fun _ => ?_⟩, rfl⟩
      · rw [hnone]
        exact .nil
      · simp [hnone]
      · rw [Lines.rest_of_not_mem hmem]
    have hpos := List.length_pos_of_mem hmem
    have hnext : ∀ reply, let c' := ({ c with
          readBuf := c.readBuf.drop (c.readBuf.idxOf 10 + 1) } : SocketClient).queueResponse reply
        c'.Processed (c'.processLines status) ∧ (c'.processLines status).events = c.events := by
      intro reply c'
      refine ih _ ?_ c' rfl
      show (c.readBuf.drop _).length < _
      rw [List.length_drop]
      omega
    simp only
    split_ifs with hping hstatus hquit
    · refine ⟨Processed.cons hmem ?_ ?_ (hnext _).1, (hnext _).2⟩
      · rw [hping]
        exact .ping
      · rw [hping]
        decide
    · refine ⟨Processed.cons hmem ?_ ?_ (hnext _).1, (hnext _).2⟩
      · rw [hstatus]
        exact .status _
      · rw [hstatus]
        decide
    · obtain ⟨hlines, -⟩ := Lines.complete_of_mem hmem
      have hcommands : commands c.readBuf =
          ascii "quit" :: commands (c.readBuf.drop (c.readBuf.idxOf 10 + 1)) := by
        rw [commands, hlines, List.map_cons, hquit]
        rfl
      refine ⟨⟨⟨[], ?_, (List.append_nil _).symm⟩, ?_, fun hnot => ?_⟩, rfl⟩
      · rw [hcommands, beforeQuit, List.takeWhile_cons_of_neg (by simp)]
        exact .nil
      · simp [hcommands]
      · rw [hcommands] at hnot
        exact absurd List.mem_cons_self hnot
    · exact ⟨Processed.cons hmem (.echo hping hstatus hquit) hquit (hnext _).1, (hnext _).2⟩

end SocketClient

/-- `flush_writes` loses nothing. -/
theorem flushWrites_spec (buf : List UInt8) (sends : List SendAnswer) :
    (flushWrites buf sends).sent ++ (flushWrites buf sends).left = buf := by
  induction sends generalizing buf with
  | nil => rfl
  | cons a sends ih =>
    rw [flushWrites.eq_def]
    simp only
    split_ifs with hempty
    · exact hempty.symm
    cases a with
    | accept k =>
      simp only
      rw [List.append_assoc, ih, List.take_append_drop]
    | eintr => exact ih buf
    | eagain | fail => rfl

/-- The read loop stops before a client has too much unread, or closes it. -/
theorem length_readInput {buf : List UInt8} (h : buf.length ≤ kMaxReadBuf) (reads : List SysRead)
    (hopen : (readInput buf reads).2 ≠ .close) :
    (buf ++ (readInput buf reads).1).length ≤ kMaxReadBuf := by
  induction reads generalizing buf with
  | nil => rwa [readInput, List.append_nil]
  | cons a reads ih =>
    cases a with
    | bytes bs =>
      rw [readInput] at hopen ⊢
      split_ifs at hopen ⊢ with hlong
      · exact absurd rfl hopen
      · rw [← List.append_assoc]
        exact ih (Nat.not_lt.mp hlong) hopen
    | zero => rwa [readInput, List.append_nil]
    | errno e =>
      cases e with
      | EAGAIN => rwa [readInput, List.append_nil]
      | EINTR => exact ih h hopen
      | EBADF | EBUSY | EINVAL | EMSGSIZE | ENOBUFS | ENOTCONN | other => exact absurd rfl hopen

namespace LineLink

theorem connected_fresh : fresh.Connected where
  closing := rfl
  kept := by decide
  unread := rfl
  short := Nat.zero_le _
  stays := List.not_mem_nil
  replies := ⟨[], .nil, rfl⟩
  epollin := rfl
  epollout := by simp [fresh, SocketClient.fresh]

/-- Everything that was read is answered when the read loop has not closed the client. -/
theorem unanswered_of_ne {l : LineLink} (h : l.lastRead.2 ≠ .close) : l.unanswered = [] := if_neg h

/-- A client that is closed while it is connected. -/
theorem Connected.closed {l : LineLink} (h : l.Connected) : l.Closed := by
  obtain ⟨replies, hreplies, hsent⟩ := h.replies
  refine ⟨l.received, replies, ?_, ?_, hsent⟩
  · rw [unanswered_of_ne h.kept, List.append_nil]
  · rwa [beforeQuit_of_not_mem h.stays]

/-- The commands of a connected client, once more was read, are answered up to the first `quit`. -/
theorem Connected.served {l : LineLink} (h : l.Connected) (got : List UInt8)
    (status : Option (List UInt8)) (sends : List SendAnswer) :
    let c := SocketClient.processLines status
      ⟨l.client.readBuf ++ got, l.client.writeBuf, false, l.client.events⟩
    let out := flushWrites c.writeBuf sends
    (∃ replies, List.Forall₂ Replies (beforeQuit (commands (l.received ++ got))) replies ∧
      l.sent ++ out.sent ++ out.left = replies.flatten) ∧
    (c.closing = true ↔ ascii "quit" ∈ commands (l.received ++ got)) ∧
    (c.closing = false → c.readBuf = Lines.rest 10 (l.received ++ got)) := by
  intro c out
  obtain ⟨replies, hreplies, hsent⟩ := h.replies
  obtain ⟨⟨⟨more, hmore, hwrite⟩, hclosing, hunread⟩, -⟩ := SocketClient.processLines_spec status
    ⟨l.client.readBuf ++ got, l.client.writeBuf, false, l.client.events⟩
  have hcommands : commands (l.received ++ got) =
      commands l.received ++ commands (l.client.readBuf ++ got) := by
    rw [commands_append, h.unread]
  have hquit : c.closing = true ↔ ascii "quit" ∈ commands (l.received ++ got) := by
    rw [hcommands, List.mem_append]
    simpa [h.stays] using hclosing
  refine ⟨⟨replies ++ more, ?_, ?_⟩, hquit, fun hopen => ?_⟩
  · rw [hcommands, beforeQuit_append h.stays]
    exact List.rel_append hreplies hmore
  · rw [List.append_assoc, flushWrites_spec, hwrite, List.flatten_append, ← hsent,
      List.append_assoc]
  · have hnot := mt hquit.mpr (Bool.eq_false_iff.mp hopen)
    rw [hcommands, List.mem_append, not_or] at hnot
    rw [Lines.rest_append, ← h.unread]
    exact hunread hnot.2

/-- **What a callback preserves.** -/
theorem Connected.handleClientIo {l : LineLink} (h : l.Connected) (status : Option (List UInt8))
    (revents : Revents) (reads : List SysRead) (sends : List SendAnswer) :
    ((l.handleClientIo status revents reads sends).2 = true →
      (l.handleClientIo status revents reads sends).1.Connected) ∧
    ((l.handleClientIo status revents reads sends).2 = false →
      (l.handleClientIo status revents reads sends).1.Closed) := by
  rw [LineLink.handleClientIo]
  generalize hinput : (if revents.epollin then readInput l.client.readBuf reads
    else ([], .drained)) = input
  have hshort : input.2 ≠ .close → (l.client.readBuf ++ input.1).length ≤ kMaxReadBuf := by
    intro hopen
    rw [← hinput] at hopen ⊢
    split_ifs at hopen ⊢
    · exact length_readInput h.short reads hopen
    · rw [List.append_nil]
      exact h.short
  obtain ⟨⟨replies, hreplies, hsent⟩, hquit, hunread⟩ := h.served input.1 status sends
  have htold : input.2 ≠ .close → ∀ l' : LineLink, l'.received = l.received ++ input.1 →
      l'.lastRead = input → l'.sent ++ l'.client.writeBuf = replies.flatten → l'.Closed := by
    intro hopen l' hreceived hlast hall
    refine ⟨_, replies, ?_, hreplies, hall⟩
    rw [unanswered_of_ne (hlast ▸ hopen), List.append_nil, hreceived]
  simp only [h.closing, Bool.false_eq_true, if_false, Bool.or_eq_true]
  split_ifs with hclose hdone hhangup
  · refine ⟨by simp, fun _ => ?_⟩
    obtain ⟨told, hanswered, hall⟩ := h.replies
    refine ⟨l.received, told, ?_, ?_, hall⟩
    · rw [unanswered, if_pos hclose]
    · rwa [beforeQuit_of_not_mem h.stays]
  · exact ⟨by simp, fun _ => htold hclose _ rfl rfl hsent⟩
  · exact ⟨by simp, fun _ => htold hclose _ rfl rfl hsent⟩
  · refine ⟨fun _ => ?_, by simp⟩
    obtain ⟨hopen, -⟩ := not_or.mp hdone
    obtain ⟨hstays, hflushed⟩ := not_or.mp hopen
    have hstays := Bool.eq_false_iff.mpr hstays
    have hrest := hunread hstays
    have hnot : ascii "quit" ∉ commands (l.received ++ input.1) := by
      rwa [Bool.eq_false_iff, Ne, hquit] at hstays
    refine ⟨?_, hclose, hrest, ?_, hnot, ⟨replies, ?_, hsent⟩, rfl, by simp⟩
    · exact Bool.or_eq_false_iff.mpr ⟨hstays, Bool.eq_false_iff.mpr hflushed⟩
    · simp only
      rw [hrest, Lines.rest_append, ← h.unread]
      exact (Lines.length_rest_le _ _).trans (hshort hclose)
    · rwa [beforeQuit_of_not_mem hnot] at hreplies

end LineLink

/-! ### The table -/

namespace SocketServer

/-- There are no more clients than allowed, and each of them has been answered. -/
structure Inv (limit : ℕ) (s : SocketServer) : Prop where
  max : s.maxClients = limit
  count : s.clients.keys.length ≤ limit
  connected : ∀ fd l, s.clients.lookup fd = some l → l.Connected
  closed : ∀ l ∈ s.gone, l.Closed

variable {limit : ℕ} {s : SocketServer}

theorem inv_make (maxClients : ℤ) :
    (make maxClients).Inv (if 0 < maxClients then maxClients.toNat else 64) where
  max := rfl
  count := Nat.zero_le _
  connected := by
    intro fd l hl
    rw [make, AList.lookup_empty] at hl
    cases hl
  closed := by
    intro l hl
    cases hl

/-- A client is put into the table. -/
theorem Inv.insert (h : s.Inv limit) {fd : ℤ} {l : LineLink} (hl : l.Connected)
    (hroom : fd ∈ s.clients ∨ s.clients.keys.length < limit) :
    Inv limit { s with clients := s.clients.insert fd l } := by
  refine ⟨h.max, ?_, fun fd' l' hl' => ?_, h.closed⟩
  · have hlen : ((s.clients.insert fd l).keys).length = (s.clients.keys.erase fd).length + 1 := by
      rw [AList.keys_insert, List.length_cons]
    have hcount := h.count
    rw [hlen]
    rcases hroom with hmem | hlt
    · have hkey : fd ∈ s.clients.keys := hmem
      rw [List.length_erase_of_mem hkey]
      have hpos := List.length_pos_of_mem hkey
      omega
    · have hle := List.length_erase_le (l := s.clients.keys) (a := fd)
      omega
  · by_cases hfd : fd' = fd
    · subst hfd
      rw [AList.lookup_insert, Option.some.injEq] at hl'
      exact hl' ▸ hl
    · rw [AList.lookup_insert_ne hfd] at hl'
      exact h.connected fd' l' hl'

theorem Inv.acceptClients (h : s.Inv limit) (answers : List Accept4) :
    (s.acceptClients answers).Inv limit := by
  induction answers generalizing s with
  | nil => exact h
  | cons a answers ih =>
    cases a with
    | errno e =>
      rw [SocketServer.acceptClients]
      split_ifs
      · exact ih h
      · exact h
    | connection fd added =>
      rw [SocketServer.acceptClients]
      split_ifs with hfull hadded hmem
      · exact ih h
      · exact h
      · exact ih h
      · refine ih (h.insert LineLink.connected_fresh (Or.inr ?_))
        rw [h.max] at hfull
        exact Nat.not_le.mp hfull

theorem Inv.onClientIo (h : s.Inv limit) (fd : ℤ) (status : Option (List UInt8))
    (revents : Revents) (reads : List SysRead) (sends : List SendAnswer) :
    (s.onClientIo fd status revents reads sends).Inv limit := by
  rw [SocketServer.onClientIo]
  split
  · exact h
  · rename_i l hl
    obtain ⟨hopen, hclosed⟩ :=
      (h.connected fd l hl).handleClientIo status revents reads sends
    simp only
    split_ifs with hstays
    · exact h.insert (hopen hstays) (Or.inl (AList.lookup_isSome.mp (by rw [hl]; rfl)))
    · refine ⟨h.max, ?_, fun fd' l' hl' => ?_, ?_⟩
      · refine le_trans ?_ h.count
        rw [AList.keys_erase]
        exact List.length_erase_le
      · by_cases hfd : fd' = fd
        · subst hfd
          rw [AList.lookup_erase] at hl'
          cases hl'
        · rw [AList.lookup_erase_ne hfd] at hl'
          exact h.connected fd' l' hl'
      · exact List.forall_mem_append.mpr
          ⟨h.closed, List.forall_mem_singleton.mpr (hclosed (Bool.eq_false_iff.mpr hstays))⟩

/-- **What a step preserves.** -/
theorem Inv.step (h : s.Inv limit) (ev : SocketServerEvent) : (s.step ev).Inv limit := by
  cases ev with
  | accept answers => exact h.acceptClients answers
  | io fd status revents reads sends => exact h.onClientIo fd status revents reads sends
  | stop =>
    refine ⟨h.max, Nat.zero_le _, fun fd l hl => ?_, List.forall_mem_append.mpr ⟨h.closed, ?_⟩⟩
    · rw [SocketServer.step, AList.lookup_empty] at hl
      cases hl
    · intro l hl
      obtain ⟨⟨fd, l'⟩, hmem, rfl⟩ := List.mem_map.mp hl
      exact (h.connected fd l' (AList.mem_lookup_iff.mpr hmem)).closed

theorem Inv.steps (h : s.Inv limit) (evs : List SocketServerEvent) : (s.run evs).Inv limit :=
  List.foldlRecOn evs SocketServer.step h fun _ hs ev _ => hs.step ev

end SocketServer

/-- **Every client is told the replies to its lines, in order.** In every state of every run there
are no more clients than allowed. A client that is connected has not sent `quit`, has at most 64 KiB
unread, which are what stands behind its last line, and what was sent to it and what is queued are
the replies to all its lines, however they arrived in parts; its io source waits for room exactly
when something is queued. What a client that is gone was sent and what it left queued are the
replies to the lines before its first `quit`; what its last callback read is only left out when the
read loop closed the client, as it had too much unread or a read failed. -/
theorem line_server_transcript (maxClients : ℤ) (evs : List SocketServerEvent) :
    let s := (SocketServer.make maxClients).run evs
    s.clients.keys.length ≤ (if 0 < maxClients then maxClients.toNat else 64) ∧
      (∀ fd l, s.clients.lookup fd = some l → l.Connected) ∧ ∀ l ∈ s.gone, l.Closed := by
  intro s
  have hinv := (SocketServer.inv_make maxClients).steps evs
  exact ⟨hinv.count, hinv.connected, hinv.closed⟩

/-- A line in two parts, and a `quit` with a line behind it. -/
example : ((SocketServer.make 4).run [.accept [.connection 7 true],
    .io 7 none ⟨true, false, false⟩ [.bytes (ascii "pi"), .errno .EAGAIN] [],
    .io 7 none ⟨true, false, false⟩ [.bytes (ascii "ng\nquit\nping\n")] [.accept 99]]).gone.map
      LineLink.sent = [ascii "pong\n"] := by
  decide +kernel

end KwinApi
