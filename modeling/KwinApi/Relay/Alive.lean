import KwinApi.Daemon.Intake
import KwinApi.Relay.Round

/-!
# A session that stays alive

Besides `poll` calls, what happens to a session that stays alive takes bytes in and may wake the
request that is pending, which then gets a text. When no bytes are taken in and no request is
pending, it leaves the port and the queue alone.

## Main definitions

* `KwinApi.SessionLink.Fit` — a session that is alive, with everything that is known of one
* `KwinApi.SessionLink.Goes` — what happens besides `poll` calls

## Main results

* `KwinApi.SessionLink.Fit.goes` — everything that can happen
* `KwinApi.SessionLink.Fit.takes` — a callback that finds bytes takes some
* `KwinApi.SessionLink.Fit.alive_io` — a client that stays connected keeps its session
-/

namespace KwinApi

open Framing LongPoll

variable {bo : ByteOrder} {stream : List UInt8} {cap : ℕ}

namespace Session

variable {s : Session}

theorem rx_answered (s : Session) (r : RxBuffer × PollPort × Bool) :
    (s.answered r).client.rx = r.1 := by
  rw [answered]
  simp only
  split_ifs
  · rw [onRxDrained]
    split_ifs <;> rfl
  · rfl

/-- What the readable part of a callback leaves: what was read, or an empty queue when that woke a
request. -/
theorem drainInput_cases (s : Session) (p : Peer) (reads : List ReadAnswer) :
    (s.drainInput bo p reads).1.client = (s.client.readAll bo p reads).client ∧
        (s.drainInput bo p reads).1.port = s.port ∨
      (s.drainInput bo p reads).1.client.rx.messages = 0 ∧
        s.port.Wakes (s.drainInput bo p reads).1.port := by
  simp only [drainInput]
  split_ifs with hmessages
  · rw [onRxMessages]
    rcases maybeReplyPendingPoll_cases s.port (s.client.readAll bo p reads).client.rx with
      heq | ⟨hrx, hwakes⟩
    · rw [heq]
      exact Or.inl ⟨rfl, rfl⟩
    · right
      rw [rx_answered, hrx, port_answered]
      exact ⟨RxBuffer.messages_drain _, hwakes⟩
  · exact Or.inl ⟨rfl, rfl⟩

theorem flushOutput_fst (s : Session) (sends : List SendAnswer) :
    ∃ tx, (s.flushOutput sends).1 = { s with client := { s.client with tx } } := by
  rw [flushOutput, Client.flush]
  split_ifs
  · exact ⟨s.client.tx, rfl⟩
  · simp only
    split
    · rename_i hc
      exact ⟨_, by rw [← (Prod.mk.inj hc).2]⟩
    · rename_i hc
      exact ⟨_, by rw [← (Prod.mk.inj hc).2]⟩

/-- After reading, a callback only touches the TX queue and the mask. -/
theorem handleIo_input (s : Session) (p : Peer) (revents : Revents) (reads : List ReadAnswer)
    (sends : List SendAnswer) :
    let d := if revents.epollin then s.drainInput bo p reads else (s, p, false)
    let r := s.handleIo bo p revents reads sends
    (∃ tx, r.1.client = { d.1.client with tx }) ∧ r.1.port = d.1.port ∧ r.2.1 = d.2.1 := by
  intro d r
  rcases hd : (if revents.epollin then s.drainInput bo p reads else (s, p, false)) with
    ⟨s', p', closeConn⟩
  obtain ⟨tx, hflush⟩ := s'.flushOutput_fst sends
  simp only [d, r, handleIo, hd]
  split_ifs
  · rw [hflush]
    exact ⟨⟨tx, rfl⟩, rfl, trivial⟩
  · rw [updateIoEvents, hflush]
    exact ⟨⟨tx, rfl⟩, rfl, trivial⟩
  · exact ⟨⟨s'.client.tx, rfl⟩, rfl, trivial⟩
  · exact ⟨⟨s'.client.tx, rfl⟩, rfl, trivial⟩

/-- A callback does not end the session when the client stays connected and nothing fails. -/
theorem handleIo_goesOn {handed : List (List UInt8)} {p : Peer}
    (h : Reading bo stream cap handed s.client p) (hfd : 0 ≤ s.client.fd)
    (hopen : p.closed = false) {revents : Revents} (hhangup : revents.hangup = false)
    {reads : List ReadAnswer} (hreads : ∀ a ∈ reads, a.Calm) {sends : List SendAnswer}
    (hsends : ∀ e, .fail e ∉ sends) :
    (s.handleIo bo p revents reads sends).2.1.closed = false ∧
      (s.handleIo bo p revents reads sends).2.2 = false := by
  have hread := h.readAll_goesOn hfd hopen hreads
  have hin : ∀ s' p' closeConn,
      (if revents.epollin then s.drainInput bo p reads else (s, p, false)) = (s', p', closeConn) →
      p'.closed = false ∧ closeConn = false ∧ 0 ≤ s'.client.fd := by
    intro s' p' closeConn hd
    have hfd' : 0 ≤ s'.client.fd := by
      rw [(sameOut_of_readable hd).fd]
      exact hfd
    split_ifs at hd
    · rw [drainInput] at hd
      obtain ⟨-, hd⟩ := Prod.mk.inj hd
      obtain ⟨rfl, rfl⟩ := Prod.mk.inj hd
      exact ⟨hread.closed, by simp [hread.eof, hread.error], hfd'⟩
    · cases hd
      exact ⟨hopen, rfl, hfd'⟩
  rcases hd : (if revents.epollin then s.drainInput bo p reads else (s, p, false)) with
    ⟨s', p', closeConn⟩
  obtain ⟨hclosed, rfl, hfd'⟩ := hin s' p' closeConn hd
  have hflush := flushOutput_of_calm hfd' hsends
  simp only [handleIo, hd, hhangup]
  refine ⟨hclosed, ?_⟩
  split_ifs <;> simp [hflush]

end Session

namespace SessionLink

variable {l : SessionLink}

/-- A session that is alive, with everything that is known of one. -/
structure Fit (bo : ByteOrder) (stream : List UInt8) (cap : ℕ) (l : SessionLink) : Prop where
  inv : l.Inv bo stream cap
  alive : l.alive = true
  pause : l.session.PauseOk
  mask : l.session.MaskOk
  fd : 0 ≤ l.session.client.fd

theorem Fit.step (h : l.Fit bo stream cap) (op : SessionOp)
    (halive : (l.step bo op).alive = true) : (l.step bo op).Fit bo stream cap := by
  refine ⟨h.inv.step op, halive, pauseOk_step h.pause op, maskOk_step (fun _ => h.mask) op halive,
    ?_⟩
  rcases @Outbound.queueStep bo ⟨l, [], []⟩ op h.fd with ⟨hsame, -⟩ | ⟨top, hfd, -⟩
  · exact hsame.fd.symm ▸ h.fd
  · exact hfd ▸ h.fd

theorem Fit.reading (h : l.Fit bo stream cap) :
    ∃ handed, Reading bo stream cap handed l.session.client l.peer := by
  obtain ⟨m, part, hc, -⟩ := h.inv
  exact ⟨m.handed, ⟨m.queue, part, hc.decodes⟩, hc.capacity, hc.stream, hc.calls⟩

/-- A callback reads nothing, or what one read loop takes. -/
theorem Fit.io_cases (h : l.Fit bo stream cap) {revents : Revents} {reads : List ReadAnswer}
    {sends : List SendAnswer} (halive : (l.step bo (.io revents reads sends)).alive = true) :
    let l' := l.step bo (.io revents reads sends)
    let out := l.session.client.readAll bo l.peer reads
    (l.session.rxPaused = true ∨ revents.epollin = false) ∧ l'.peer = l.peer ∧
        l'.session.port = l.session.port ∧
        (∃ tx, l'.session.client = { l.session.client with tx }) ∨
      l'.peer = out.peer ∧
        ((∃ tx, l'.session.client = { out.client with tx }) ∧
            l'.session.port = l.session.port ∨
          l'.session.client.rx.messages = 0 ∧ l.session.port.Wakes l'.session.port) := by
  intro l' out
  have hstep : l' = l.onIo bo revents reads sends := by
    simp only [l']
    rw [SessionLink.step, if_neg (not_not.mpr h.alive)]
  have hmask := h.mask
  rw [Session.MaskOk, Session.interest] at hmask
  rw [onIo] at hstep
  rcases hio : l.session.ioSource with _ | mask
  · -- The io source is switched off while reading is paused.
    rw [hio] at hstep hmask
    split_ifs at hmask with hoff
    rw [hstep]
    exact Or.inl ⟨Or.inl hoff.1, rfl, rfl, l.session.client.tx, rfl⟩
  · rw [hio] at hstep hmask
    simp only at hstep
    have hepollin : mask.epollin = !l.session.rxPaused := by
      split_ifs at hmask
      rw [Option.some.inj hmask]
    generalize hrev : ({ revents with
      epollin := revents.epollin && mask.epollin
      epollout := revents.epollout && mask.epollout } : Revents) = rev at hstep
    have hin : rev.epollin = (revents.epollin && !l.session.rxPaused) := by
      rw [← hrev, ← hepollin]
    obtain ⟨⟨tx, hclient⟩, hport, hpeer⟩ :=
      @Session.handleIo_input bo l.session l.peer rev reads sends
    split_ifs at hstep with hclose
    · have hgone : l'.alive = true := halive
      rw [hstep] at hgone
      cases hgone
    rw [hstep]
    by_cases hread : rev.epollin = true
    · rw [if_pos hread] at hclient hport hpeer
      refine Or.inr ⟨hpeer, ?_⟩
      rcases @Session.drainInput_cases bo l.session l.peer reads with
        ⟨hout, hsame⟩ | ⟨hnone, hwakes⟩
      · exact Or.inl ⟨⟨tx, hclient.trans (by rw [hout])⟩, hport.trans hsame⟩
      · refine Or.inr ⟨?_, hport ▸ hwakes⟩
        show (l.session.handleIo bo l.peer rev reads sends).1.client.rx.messages = 0
        rw [hclient]
        exact hnone
    · rw [if_neg hread] at hclient hport hpeer
      refine Or.inl ⟨?_, hpeer, hport, tx, hclient⟩
      rw [hin] at hread
      cases hp : l.session.rxPaused with
      | true => exact Or.inl rfl
      | false => exact Or.inr (by simpa [hp] using hread)

/-- What happens to a session besides `poll` calls: it may take bytes in, and wake a request. -/
structure Goes (l l' : SessionLink) : Prop where
  port : l'.session.port = l.session.port ∨ l.session.port.Wakes l'.session.port
  inbox : l'.peer.inbox.length ≤ l.peer.inbox.length
  /-- A decoder that is not clear takes nothing. -/
  blocked : ¬ l.session.client.Clear → l'.peer.inbox.length = l.peer.inbox.length
  /-- A clear decoder that takes nothing stays clear. -/
  clear : l'.peer.inbox.length = l.peer.inbox.length → l.session.client.Clear →
    l'.session.client.Clear
  /-- Without bytes and without a request nothing happens. -/
  idle : l'.peer.inbox.length = l.peer.inbox.length → l.session.port.waiter.msg = none →
    l'.session.port = l.session.port ∧
      l'.session.client.rx.messages = l.session.client.rx.messages ∧
      (l'.session.client.Clear → l.session.client.Clear)

/-- Only the TX queue and the port are touched. -/
theorem goes_of_same {l' : SessionLink}
    (hport : l'.session.port = l.session.port ∨ l.session.port.Wakes l'.session.port)
    (hpeer : l'.peer = l.peer) (hclient : ∃ tx, l'.session.client = { l.session.client with tx }) :
    l.Goes l' := by
  obtain ⟨tx, hclient⟩ := hclient
  have hclear : l'.session.client.Clear ↔ l.session.client.Clear := by
    rw [hclient]
    exact Iff.rfl
  refine ⟨hport, by rw [hpeer], fun _ => by rw [hpeer], fun _ => hclear.mpr, fun _ hfree => ?_⟩
  exact ⟨hport.resolve_right (PollPort.not_wakes_of_free hfree), by rw [hclient], hclear.mp⟩

theorem Fit.goes_io (h : l.Fit bo stream cap) (hcap : kMaxMessageLen + 2 ≤ cap)
    {revents : Revents} {reads : List ReadAnswer} {sends : List SendAnswer}
    (halive : (l.step bo (.io revents reads sends)).alive = true) :
    l.Goes (l.step bo (.io revents reads sends)) := by
  have hfit := h.step (.io revents reads sends) halive
  obtain ⟨handed, hreading⟩ := h.reading
  obtain ⟨hout, hpre⟩ := hreading.readAll reads
  have hle := hreading.length_inbox hout hpre
  rcases h.io_cases halive with ⟨-, hpeer, hport, hclient⟩ | ⟨hpeer, hread⟩
  · exact goes_of_same (Or.inl hport) hpeer hclient
  generalize l.step bo (.io revents reads sends) = l' at *
  have hblocked : ¬ l.session.client.Clear → l'.peer.inbox.length = l.peer.inbox.length := by
    intro hnot
    rw [hpeer, hreading.readAll_blocked h.fd hnot]
  rcases hread with ⟨⟨tx, hclient⟩, hport⟩ | ⟨hnone, hwakes⟩
  · have hclear : l'.session.client.Clear ↔
        (l.session.client.readAll bo l.peer reads).client.Clear := by
      rw [hclient]
      exact Iff.rfl
    refine ⟨Or.inl hport, by rwa [hpeer], hblocked, fun hsame hc => ?_, fun hsame _ => ?_⟩
    · rw [hpeer] at hsame
      exact hclear.mpr (hreading.readAll_idle h.fd hc hsame).1
    · rw [hpeer] at hsame
      refine ⟨hport, ?_⟩
      by_cases hc : l.session.client.Clear
      · refine ⟨?_, fun _ => hc⟩
        rw [hclient]
        exact (hreading.readAll_idle h.fd hc hsame).2
      · rw [hclear, hclient, hreading.readAll_blocked h.fd hc]
        exact ⟨rfl, fun hpaused => Or.inl (hpaused.resolve_right fun hrun => by cases hrun.1)⟩
  · refine ⟨Or.inr hwakes, by rwa [hpeer], hblocked, fun _ _ => ?_, fun _ hfree => ?_⟩
    · exact hfit.inv.clear_of_messages hfit.pause hcap hnone
    · exact absurd hwakes (PollPort.not_wakes_of_free hfree)

/-- **What happens to a session that stays alive.** -/
theorem Fit.goes (h : l.Fit bo stream cap) (hcap : kMaxMessageLen + 2 ≤ cap) {op : SessionOp}
    (hpoll : ∀ call, op ≠ .poll call) (halive : (l.step bo op).alive = true) :
    l.Goes (l.step bo op) := by
  cases op with
  | io revents reads sends => exact h.goes_io hcap halive
  | poll call => exact absurd rfl (hpoll call)
  | push msg =>
    rw [SessionLink.step, if_neg (not_not.mpr h.alive)]
    refine goes_of_same (Or.inl (l.session.port_push msg)) rfl ?_
    simp only [Session.push, Client.push]
    split_ifs
    · exact ⟨l.session.client.tx, rfl⟩
    · split
      · rename_i hc
        exact ⟨_, by rw [← (Prod.mk.inj hc).2]; rfl⟩
      · rename_i hc
        exact ⟨_, by rw [← (Prod.mk.inj hc).2]⟩
  | timeout =>
    rw [SessionLink.step, if_neg (not_not.mpr h.alive)]
    simp only
    split_ifs with htimer
    · refine goes_of_same (Or.inr ?_) rfl ⟨l.session.client.tx, rfl⟩
      obtain ⟨m, part, hc, -⟩ := h.inv
      rw [hc.serves.timer] at htimer
      obtain ⟨request, hrequest⟩ := Option.isSome_iff_exists.mp htimer
      exact PollPort.wakes_reply hrequest _ _
    · exact goes_of_same (Or.inl rfl) rfl ⟨l.session.client.tx, rfl⟩
  | destroy =>
    rw [SessionLink.step, if_neg (not_not.mpr h.alive)] at halive
    cases halive

/-- **A callback that finds bytes takes some**, when the decoder is clear. -/
theorem Fit.takes (h : l.Fit bo stream cap) (hclear : l.session.client.Clear)
    (hin : l.peer.inbox ≠ []) {revents : Revents} (hepollin : revents.epollin = true) {k : ℕ}
    {as : List ReadAnswer} {sends : List SendAnswer}
    (halive : (l.step bo (.io revents (.deliver k :: as) sends)).alive = true) :
    (l.step bo (.io revents (.deliver k :: as) sends)).peer.inbox.length <
      l.peer.inbox.length := by
  obtain ⟨handed, hreading⟩ := h.reading
  have hrun : l.session.client.rxPaused = false :=
    hclear.elim hreading.not_paused And.left
  rcases h.io_cases halive with ⟨hoff, -⟩ | ⟨hpeer, -⟩
  · rw [h.pause.agree, hrun, hepollin] at hoff
    rcases hoff with hoff | hoff <;> cases hoff
  · rw [hpeer]
    exact hreading.readAll_takes h.fd hclear hin k as

/-- A callback in which the client stays connected and nothing fails. -/
theorem Fit.alive_io (h : l.Fit bo stream cap) (hopen : l.peer.closed = false)
    {revents : Revents} (hhangup : revents.hangup = false) {reads : List ReadAnswer}
    (hreads : ∀ a ∈ reads, a.Calm) {sends : List SendAnswer} (hsends : ∀ e, .fail e ∉ sends) :
    (l.step bo (.io revents reads sends)).alive = true ∧
      (l.step bo (.io revents reads sends)).peer.closed = false := by
  obtain ⟨handed, hreading⟩ := h.reading
  rw [SessionLink.step, if_neg (not_not.mpr h.alive), onIo]
  split
  · exact ⟨h.alive, hopen⟩
  · rename_i mask hmask
    obtain ⟨hclosed, hend⟩ := @Session.handleIo_goesOn bo stream cap l.session handed l.peer
      hreading h.fd hopen { revents with
        epollin := revents.epollin && mask.epollin
        epollout := revents.epollout && mask.epollout } hhangup reads hreads sends hsends
    simp only [hend]
    exact ⟨h.alive, hclosed⟩

end SessionLink

end KwinApi
