import KwinApi.Daemon.Config
import KwinApi.Daemon.PollProtocol

/-!
# Read backpressure

A session pauses reading when the RX buffer cannot hold the frame whose header it has read, and
resumes once a `poll` has drained the buffer. The protocol promises that a single message can never
exceed the buffer. That is true of the default capacity, and the configuration accepts capacities
of which it is not: then a legal frame can stop the session for good.

## Main definitions

* `KwinApi.Session.PauseOk` — the flags of a pause agree, and it has a reason
* `KwinApi.Resumable` — the queue is not empty, and the next `poll` makes the reader go on
* `KwinApi.announcedLen` — the length announced by the frame that is being received

## Main results

* `KwinApi.SessionLink.pauseOk_run` — over a whole run
* `KwinApi.resumable_iff` — a paused session can be resumed exactly when the frame fits an empty
  buffer
* `KwinApi.stuck_run` — otherwise it never reads another byte
* `KwinApi.paused_reader_resumes` — both, and which capacities rule the second one out
-/

namespace KwinApi

open Framing LongPoll

/-- The length announced by the frame that is being received, once its header is complete. -/
def announcedLen (bo : ByteOrder) (consumed : List UInt8) : ℕ :=
  bo.decode (remainder (wireHeader bo) consumed)

/-- A paused session can go on: a complete message is queued, and the next `poll` drains the queue,
lifts the pause and watches for input again; then the pending frame fits, and the next
`Client::read` begins its payload. -/
def Resumable (bo : ByteOrder) (l : SessionLink) : Prop :=
  1 ≤ l.session.client.rx.messages ∧ ∀ call : PollCall, call.Valid →
    let l' := l.step bo (.poll call)
    l'.session.client.rx.messages = 0 ∧ l'.session.rxPaused = false ∧
      (∃ mask, l'.session.ioSource = some mask ∧ mask.epollin = true) ∧
      l'.session.client.rx.canFit (announcedLen bo l'.peer.consumed) = true ∧
      ∀ answers, (l'.session.client.read bo l'.peer answers).result = .progress ∧
        (l'.session.client.read bo l'.peer answers).client.rxState = .payload

/-! ### The flags of a pause -/

namespace Client

/-- A paused decoder has an open socket and a frame that does not fit. -/
def PauseOk (c : Client) : Prop :=
  c.rxPaused = true → 0 ≤ c.fd ∧ c.rx.canFit c.msgLen.toNat = false

variable {bo : ByteOrder} {c : Client}

/-- A turn or a read that began without a pause ends in one exactly when it says so. -/
structure Ends (r : ReadResult) (c : Client) : Prop where
  flag : c.rxPaused = decide (r = .paused)
  ok : c.PauseOk

theorem PauseOk.of_running (h : c.rxPaused = false) : c.PauseOk := fun hp =>
  absurd (h.symm.trans hp) (by decide)

theorem Ends.of_running {r : ReadResult} (h : c.rxPaused = false) (hr : r ≠ .paused) :
    Ends r c := ⟨by rw [h, decide_eq_false hr], .of_running h⟩

theorem ends_headerDone (h : c.rxPaused = false) (hfd : 0 ≤ c.fd) :
    match c.headerDone with
    | .loop c' => c'.rxPaused = false ∧ 0 ≤ c'.fd
    | .ret r c' => Ends r c' := by
  rw [headerDone]
  split_ifs with h0 hbig hfit
  · exact ⟨h, hfd⟩
  · exact .of_running h (by decide)
  · exact .of_running h (by decide)
  · exact ⟨rfl, fun _ => ⟨hfd, by simpa using hfit⟩⟩

theorem ends_onBytes (h : c.rxPaused = false) (hfd : 0 ≤ c.fd) (bs : List UInt8) :
    match c.onBytes bo bs with
    | .loop c' => c'.rxPaused = false ∧ 0 ≤ c'.fd
    | .ret r c' => Ends r c' := by
  rw [onBytes]
  cases hs : c.rxState with
  | header =>
    simp only
    split_ifs
    · exact .of_running h (by decide)
    · exact @ends_headerDone (c.storeHeader bo bs) h hfd
  | payload =>
    simp only
    split_ifs
    · exact .of_running h (by decide)
    · exact .of_running h (by decide)
  | discardOversized =>
    simp only
    split_ifs
    · exact .of_running h (by decide)
    · exact .of_running h (by decide)

theorem rxPaused_offer (c : Client) : c.offer.rxPaused = c.rxPaused := by
  rw [offer]
  split <;> rfl

theorem fd_offer (c : Client) : c.offer.fd = c.fd := by
  rw [offer]
  split <;> rfl

theorem ends_readLoop (h : c.rxPaused = false) (hfd : 0 ≤ c.fd) (p : Peer)
    (answers : List ReadAnswer) :
    Ends (c.readLoop bo p answers).result (c.readLoop bo p answers).client := by
  induction answers generalizing c p with
  | nil => exact .of_running ((rxPaused_offer c).trans h) (by simp [readLoop])
  | cons a as ih =>
    have hoffer : c.offer.rxPaused = false := (rxPaused_offer c).trans h
    have hfd' : 0 ≤ c.offer.fd := by rwa [fd_offer]
    simp only [readLoop]
    split
    · exact ih hoffer hfd' _
    · exact .of_running hoffer (by simp)
    · exact .of_running hoffer (by simp)
    · exact .of_running hoffer (by simp)
    · rename_i bs hbs
      have hbytes := @ends_onBytes bo c.offer hoffer hfd' bs
      split
      · rename_i c' hc'
        rw [hc'] at hbytes
        exact ih hbytes.1 hbytes.2 _
      · rename_i r c' hc'
        rw [hc'] at hbytes
        exact hbytes

theorem PauseOk.read (h : c.PauseOk) (p : Peer) (answers : List ReadAnswer) :
    let out := c.read bo p answers
    out.client.rxPaused = (c.rxPaused || decide (out.result = .paused)) ∧ out.client.PauseOk := by
  rw [Client.read]
  by_cases hfd : c.fd < 0
  · rw [if_pos hfd]
    exact ⟨by simp, h⟩
  rw [if_neg hfd]
  by_cases hp : c.rxPaused = true
  · rw [if_pos hp]
    exact ⟨by simp [hp], h⟩
  have hrun : c.rxPaused = false := by simpa using hp
  have hopen : 0 ≤ c.fd := not_lt.mp hfd
  rw [if_neg hp]
  -- without a pause before, the flag says how this read ended
  have hends : ∀ out : ReadOut, Ends out.result out.client →
      out.client.rxPaused = (c.rxPaused || decide (out.result = .paused)) ∧ out.client.PauseOk := by
    intro out hout
    exact ⟨by rw [hrun, hout.flag, Bool.false_or], hout.ok⟩
  split_ifs
  · have hdone := ends_headerDone hrun hopen
    split
    · rename_i r c' hc'
      rw [hc'] at hdone
      exact hends _ hdone
    · rename_i c' hc'
      rw [hc'] at hdone
      exact hends _ (ends_readLoop hdone.1 hdone.2 p answers)
  · exact hends _ (ends_readLoop hrun hopen p answers)

theorem PauseOk.readAll (h : c.PauseOk) (p : Peer) (answers : List ReadAnswer) :
    let out := c.readAll bo p answers
    out.client.rxPaused = (c.rxPaused || decide (out.result = .paused)) ∧ out.client.PauseOk := by
  have htimes : ∀ n (c : Client) (p : Peer) (answers : List ReadAnswer), c.PauseOk →
      (c.readTimes bo n p answers).client.rxPaused =
        (c.rxPaused || decide ((c.readTimes bo n p answers).result = .paused)) ∧
      (c.readTimes bo n p answers).client.PauseOk := by
    intro n
    induction n with
    | zero => exact fun c p answers h => h.read p answers
    | succ n ih =>
      intro c p answers h
      rw [readTimes]
      split_ifs with hprog
      · obtain ⟨hflag, hok⟩ := @PauseOk.read bo c h p answers
        obtain ⟨hflag', hok'⟩ := ih _ (c.read bo p answers).peer (c.read bo p answers).answers hok
        refine ⟨?_, hok'⟩
        rw [hflag', hflag, hprog]
        simp
      · exact h.read p answers
  exact htimes _ c p answers h

end Client

namespace Session

/-- The two flags of a pause agree, and the pause has a reason. -/
structure PauseOk (s : Session) : Prop where
  agree : s.rxPaused = s.client.rxPaused
  ok : s.client.PauseOk

variable {bo : ByteOrder} {s : Session}

theorem PauseOk.onRxDrained (hagree : s.rxPaused = s.client.rxPaused) : s.onRxDrained.PauseOk := by
  rw [Session.onRxDrained]
  split_ifs with hp
  · exact ⟨rfl, .of_running rfl⟩
  · have hrun : s.rxPaused = false := by simpa using hp
    exact ⟨hagree, .of_running (hagree.symm.trans hrun)⟩

/-- The queue was drained, or left alone. -/
theorem PauseOk.answered (h : s.PauseOk) {r : RxBuffer × PollPort × Bool}
    (hr : r.2.2 = true ∨ r.1 = s.client.rx) : (s.answered r).PauseOk := by
  rw [Session.answered]
  by_cases hflag : r.2.2 = true
  · simp only [hflag, if_true]
    exact .onRxDrained h.agree
  · simp only [hflag]
    have hrx : r.1 = s.client.rx := hr.resolve_left hflag
    exact ⟨h.agree, fun hp => by rw [hrx]; exact h.ok hp⟩

theorem drained_or_kept_maybeReplyPendingPoll (p : PollPort) (queue : RxBuffer) :
    (maybeReplyPendingPoll p queue).2.2 = true ∨ (maybeReplyPendingPoll p queue).1 = queue := by
  rw [maybeReplyPendingPoll]
  split_ifs
  · exact .inr rfl
  · exact .inl rfl

theorem drained_or_kept_handlePollRequest (p : PollPort) (queue : RxBuffer) (call : PollCall) :
    (handlePollRequest p queue call).2.2 = true ∨ (handlePollRequest p queue call).1 = queue := by
  rw [handlePollRequest]
  rcases call with ⟨timeout, timer⟩
  cases timeout with
  | error e => exact .inr rfl
  | ok timeout =>
    simp only
    split_ifs
    · exact .inr rfl
    · exact .inr rfl
    · exact .inl rfl
    · exact .inr rfl
    · split <;> exact .inr rfl

theorem PauseOk.onRxMessages (h : s.PauseOk) : s.onRxMessages.PauseOk :=
  h.answered (drained_or_kept_maybeReplyPendingPoll s.port s.client.rx)

theorem PauseOk.handlePoll (h : s.PauseOk) (call : PollCall) : (s.handlePoll call).PauseOk :=
  h.answered (drained_or_kept_handlePollRequest s.port s.client.rx call)

theorem PauseOk.drainInput (h : s.PauseOk) (p : Peer) (answers : List ReadAnswer) :
    (s.drainInput bo p answers).1.PauseOk := by
  obtain ⟨hflag, hok⟩ := @Client.PauseOk.readAll bo s.client h.ok p answers
  rw [← h.agree] at hflag
  simp only [Session.drainInput]
  split_ifs
  · have hread : ({ s with
        client := (s.client.readAll bo p answers).client
        rxPaused := s.rxPaused || decide ((s.client.readAll bo p answers).result = .paused) } :
          Session).PauseOk := ⟨hflag.symm, hok⟩
    exact ⟨hread.onRxMessages.agree, hread.onRxMessages.ok⟩
  · exact ⟨hflag.symm, hok⟩

theorem PauseOk.flushOutput (h : s.PauseOk) (answers : List SendAnswer) :
    (s.flushOutput answers).1.PauseOk := by
  have hc : (s.client.flush answers).2.rxPaused = s.client.rxPaused ∧
      (s.client.flush answers).2.PauseOk := by
    rw [Client.flush]
    split_ifs
    · exact ⟨rfl, h.ok⟩
    · exact ⟨rfl, h.ok⟩
  rw [Session.flushOutput]
  split <;> rename_i hr <;> rw [hr] at hc <;> exact ⟨h.agree.trans hc.1.symm, hc.2⟩

theorem PauseOk.push (h : s.PauseOk) (msg : List UInt8) : (s.push bo msg).2.PauseOk := by
  have hc : (s.client.push bo msg).2.rxPaused = s.client.rxPaused ∧
      (s.client.push bo msg).2.PauseOk := by
    rw [Client.push]
    split_ifs
    · exact ⟨rfl, h.ok⟩
    · exact ⟨rfl, h.ok⟩
  rw [Session.push]
  split <;> rename_i hr <;> rw [hr] at hc <;> exact ⟨h.agree.trans hc.1.symm, hc.2⟩

theorem PauseOk.handleIo (h : s.PauseOk) (p : Peer) (revents : Revents) (reads : List ReadAnswer)
    (sends : List SendAnswer) : (s.handleIo bo p revents reads sends).1.PauseOk := by
  have hread : (if revents.epollin then s.drainInput bo p reads else (s, p, false)).1.PauseOk := by
    split_ifs
    · exact h.drainInput p reads
    · exact h
  simp only [Session.handleIo]
  split_ifs at hread ⊢ <;> first
    | exact hread
    | exact hread.flushOutput sends
    | exact ⟨hread.agree, hread.ok⟩
    | exact ⟨(hread.flushOutput sends).agree, (hread.flushOutput sends).ok⟩

end Session

theorem SessionLink.pauseOk_step {bo : ByteOrder} {l : SessionLink} (h : l.session.PauseOk)
    (op : SessionOp) : (l.step bo op).session.PauseOk := by
  unfold SessionLink.step
  by_cases halive : l.alive = true
  · rw [if_neg (not_not.mpr halive)]
    cases op with
    | io revents reads sends =>
      simp only [SessionLink.onIo]
      split
      · exact h
      · have hio := fun rev => @Session.PauseOk.handleIo bo _ h l.peer rev reads sends
        split_ifs
        · exact ⟨(hio _).agree, (hio _).ok⟩
        · exact hio _
    | poll call => exact h.handlePoll call
    | push msg => exact h.push msg
    | timeout =>
      simp only
      split_ifs
      · exact ⟨h.agree, h.ok⟩
      · exact h
    | destroy => exact ⟨h.agree, h.ok⟩
  · rwa [if_pos halive]

/-- **In every state of a run the flags of a pause agree, and a pause has a reason.** -/
theorem SessionLink.pauseOk_run {bo : ByteOrder} {l : SessionLink} (h : l.session.PauseOk)
    (ops : List SessionOp) : (ops.foldl (SessionLink.step bo) l).session.PauseOk := by
  induction ops generalizing l with
  | nil => exact h
  | cons op ops ih => exact ih (pauseOk_step h op)

theorem Session.pauseOk_make {id : ℕ} {fd : ℤ} {rxCap txCap : ℕ} {s : Session}
    (h : Session.make id fd rxCap txCap = .ok s) : s.PauseOk := by
  obtain ⟨c, hc, rfl⟩ := Session.eq_of_make h
  obtain ⟨rx, tx, -, -, rfl⟩ := Client.eq_of_make hc
  exact ⟨rfl, .of_running rfl⟩

/-! ### Pausing and resuming -/

/-- At a complete header there are no payload bytes, and the announced length is in `msg_len_`. -/
theorem Client.Decodes.atHeader {bo : ByteOrder} {c : Client} {S part : List UInt8}
    {handed q : List (List UInt8)} (h : c.Decodes bo S handed q part) (hs : c.rxState = .header)
    (hread : c.haveRead.toNat = kHeaderLen) :
    part = [] ∧ Legal c.msgLen.toNat ∧ announcedLen bo S = c.msgLen.toNat := by
  obtain ⟨-, ⟨done, cur, rfl, hwf, hstage, -, -⟩, -⟩ := h
  rw [announcedLen, remainder_flatMap_append hwf hstage.unfinished]
  cases hstage with
  | header _ hle hlegal =>
    refine ⟨rfl, hlegal hread, ?_⟩
    rw [hread, List.take_of_length_le (by rw [length_headerBytes]), decode_headerBytes]
  | payload _ hs' => exact absurd (hs.symm.trans hs') (by decide)
  | discard _ hs' => exact absurd (hs.symm.trans hs') (by decide)

/-- With the pause lifted, a frame that fits is begun. -/
theorem Client.read_of_canFit {bo : ByteOrder} {c : Client} {p : Peer} (hfd : 0 ≤ c.fd)
    (hrun : c.rxPaused = false) (hs : c.rxState = .header) (hread : c.haveRead.toNat = kHeaderLen)
    (hlegal : Legal c.msgLen.toNat) (hfit : c.rx.canFit c.msgLen.toNat = true)
    (answers : List ReadAnswer) :
    (c.read bo p answers).result = .progress ∧ (c.read bo p answers).client.rxState = .payload := by
  have hne : c.msgLen ≠ 0 := by
    intro h0
    have hpos := hlegal.1
    rw [h0] at hpos
    exact absurd hpos (by decide)
  have hdone : c.headerDone = .ret .progress { c with rxState := .payload, haveRead := 0 } := by
    rw [headerDone, if_neg hne, if_neg (not_lt.mpr hlegal.2), if_pos hfit]
  rw [read, if_neg (not_lt.mpr hfd), if_neg (by simp [hrun]), if_pos ⟨hs, hread.ge⟩, hdone]
  exact ⟨rfl, rfl⟩

/-- Where there is no room for a frame that fits an empty buffer, messages are queued. -/
theorem Client.Decodes.messages_pos {bo : ByteOrder} {c : Client} {S : List UInt8}
    {handed q : List (List UInt8)} {n : ℕ} (h : c.Decodes bo S handed q [])
    (hfull : c.rx.canFit n = false) (hle : n + 2 ≤ c.rx.capacity) : 0 < c.rx.messages := by
  by_contra hzero
  have hq : q = [] := h.holds.eq_nil_of_messages (by omega)
  have hlen := h.holds.len
  rw [h.holds.completeLen, hq] at hlen
  have hfit : c.rx.canFit n = true := by
    simp only [RxBuffer.canFit, decide_eq_true_eq]
    simp only [sealed, List.flatMap_nil, List.length_nil] at hlen
    omega
  exact absurd (hfull.symm.trans hfit) (by decide)

/-- **A paused session can be resumed exactly when its frame fits an empty buffer.** -/
theorem resumable_iff {bo : ByteOrder} {stream : List UInt8} {cap : ℕ} {l : SessionLink}
    (h : l.Inv bo stream cap) (hok : l.session.PauseOk) (halive : l.alive = true)
    (hpaused : l.session.rxPaused = true) :
    Resumable bo l ↔ announcedLen bo l.peer.consumed + 2 ≤ cap := by
  obtain ⟨m, part, hc, hquiet, -, -⟩ := h
  have hp : l.session.client.rxPaused = true := hok.agree ▸ hpaused
  obtain ⟨hs, hread⟩ := hc.decodes.paused hp
  obtain ⟨rfl, hlegal, hann⟩ := hc.decodes.atHeader hs hread
  obtain ⟨hfd, hfull⟩ := hok.ok hp
  have hdrained := hc.decodes.drainQueue.holds
  have hlen : l.session.client.rx.drainQueue.2.len = 1 := by
    rw [hdrained.len, hdrained.completeLen]
    rfl
  have hcap : l.session.client.rx.drainQueue.2.capacity = cap :=
    ((RxBuffer.capacity_drain _).trans (RxBuffer.capacity_poll _)).trans hc.capacity
  have hstep : ∀ call : PollCall, l.step bo (.poll call) =
      { l with session := l.session.handlePoll call } := by
    intro call
    unfold SessionLink.step
    rw [if_neg (not_not.mpr halive)]
  constructor
  · rintro ⟨-, hpoll⟩
    have hcall : PollCall.Valid ⟨.ok 0, ⟨.ok 0, .ok ()⟩⟩ := ⟨0, rfl, le_rfl, by decide⟩
    obtain ⟨-, -, -, hfit, -⟩ := hpoll _ hcall
    obtain ⟨m', -, hc'⟩ := hc.handlePoll ⟨.ok 0, ⟨.ok 0, .ok ()⟩⟩
    have hlen' := hc'.decodes.holds.len
    have hcl' := hc'.decodes.holds.completeLen
    have hcap' := hc'.capacity
    simp only [hstep, RxBuffer.canFit, decide_eq_true_eq] at hfit
    omega
  · intro hle
    have hmsgs : 1 ≤ l.session.client.rx.messages := by
      have hcap' := hc.capacity
      exact hc.decodes.messages_pos hfull (by omega)
    refine ⟨hmsgs, fun call hcall => ?_⟩
    have hfree : l.session.port.waiter.msg = none := by
      by_contra hne
      have hnil := hquiet (hc.serves.msg ▸ hne)
      have hzero := hc.serves.messages
      rw [hnil, List.length_nil] at hzero
      omega
    have hanswer := handlePollRequest_of_messages hfree hmsgs hcall
    have hrx := congrArg Prod.fst hanswer
    have hflag := congrArg (fun r => r.2.2) hanswer
    have hfit : l.session.client.rx.drainQueue.2.canFit l.session.client.msgLen.toNat = true := by
      simp only [RxBuffer.canFit, decide_eq_true_eq]
      omega
    have hpoll : l.session.handlePoll call = { l.session with
        client := { l.session.client with
          rx := l.session.client.rx.drainQueue.2
          rxPaused := false }
        port := (handlePollRequest l.session.port l.session.client.rx call).2.1
        rxPaused := false }.updateIoEvents := by
      rw [Session.handlePoll, Session.answered, hflag, hrx]
      simp only [if_true, Session.onRxDrained, hpaused]
      rfl
    simp only [hstep, hpoll]
    refine ⟨RxBuffer.messages_drain _, rfl, ⟨⟨true, l.session.client.tx.pending⟩, ?_, rfl⟩, ?_, ?_⟩
    · rfl
    · show RxBuffer.canFit _ _ = true
      rw [hann]
      exact hfit
    · intro answers
      refine Client.read_of_canFit ?_ ?_ ?_ ?_ ?_ ?_ answers
      · exact hfd
      · rfl
      · exact hs
      · exact hread
      · exact hlegal
      · exact hfit

/-! ### A frame that never fits -/

/-- The decoder has the header of a frame of length `L` and has read `S`. -/
structure Client.AtFrame (L : ℕ) (S : List UInt8) (c : Client) (p : Peer) : Prop where
  state : c.rxState = .header
  read : c.haveRead.toNat = kHeaderLen
  announced : c.msgLen.toNat = L
  consumed : p.consumed = S

variable {bo : ByteOrder} {stream S : List UInt8} {cap L : ℕ}

/-- A frame that does not fit an empty buffer is never begun, and nothing behind it is read. -/
theorem Client.AtFrame.read_stuck {c : Client} {port : PollPort} {p : Peer}
    {m : Mailbox (List UInt8) Reply} {part : List UInt8} (h : c.AtFrame L S p)
    (hc : ClientServes bo stream cap c port p m part) (hbig : cap < L + 2)
    (answers : List ReadAnswer) :
    (c.read bo p answers).result ≠ .progress ∧
      (c.read bo p answers).client.AtFrame L S (c.read bo p answers).peer := by
  rw [Client.read]
  by_cases hfd : c.fd < 0
  · rw [if_pos hfd]
    exact ⟨by simp, h⟩
  rw [if_neg hfd]
  by_cases hp : c.rxPaused = true
  · rw [if_pos hp]
    exact ⟨by simp, h⟩
  obtain ⟨-, hlegal, -⟩ := hc.decodes.atHeader h.state h.read
  have hne : c.msgLen ≠ 0 := by
    intro h0
    have hpos := hlegal.1
    rw [h0] at hpos
    exact absurd hpos (by decide)
  have hfull : ¬ c.rx.canFit c.msgLen.toNat = true := by
    have hlen := hc.decodes.holds.len
    have hcl := hc.decodes.holds.completeLen
    have hcap := hc.capacity
    have hann := h.announced
    simp only [RxBuffer.canFit, decide_eq_true_eq]
    omega
  have hdone : c.headerDone = .ret .paused { c with rxPaused := true } := by
    rw [headerDone, if_neg hne, if_neg (not_lt.mpr hlegal.2), if_neg hfull]
  rw [if_neg hp, if_pos ⟨h.state, h.read.ge⟩, hdone]
  exact ⟨by simp, h.state, h.read, h.announced, h.consumed⟩

theorem Client.AtFrame.readAll_stuck {c : Client} {port : PollPort} {p : Peer}
    {m : Mailbox (List UInt8) Reply} {part : List UInt8} (h : c.AtFrame L S p)
    (hc : ClientServes bo stream cap c port p m part) (hbig : cap < L + 2)
    (answers : List ReadAnswer) :
    (c.readAll bo p answers).client.AtFrame L S (c.readAll bo p answers).peer := by
  obtain ⟨hres, hat⟩ := h.read_stuck hc hbig answers
  rw [Client.readAll, Client.readTimes]
  simp only [if_neg hres]
  exact hat

theorem Client.AtFrame.answered {s : Session} {p : Peer} (h : s.client.AtFrame L S p)
    (r : RxBuffer × PollPort × Bool) : (s.answered r).client.AtFrame L S p := by
  rw [Session.answered]
  split_ifs
  · rw [Session.onRxDrained]
    split_ifs <;> exact ⟨h.state, h.read, h.announced, h.consumed⟩
  · exact ⟨h.state, h.read, h.announced, h.consumed⟩

theorem Client.AtFrame.flushOutput {s : Session} {p : Peer} (h : s.client.AtFrame L S p)
    (answers : List SendAnswer) : (s.flushOutput answers).1.client.AtFrame L S p := by
  have hc : (s.client.flush answers).2.AtFrame L S p := by
    rw [Client.flush]
    split_ifs <;> exact ⟨h.state, h.read, h.announced, h.consumed⟩
  rw [Session.flushOutput]
  split <;> rename_i hr <;> rwa [hr] at hc

theorem Client.AtFrame.push {s : Session} {p : Peer} (h : s.client.AtFrame L S p)
    (msg : List UInt8) : (s.push bo msg).2.client.AtFrame L S p := by
  have hc : (s.client.push bo msg).2.AtFrame L S p := by
    rw [Client.push]
    split_ifs <;> exact ⟨h.state, h.read, h.announced, h.consumed⟩
  rw [Session.push]
  split <;> rename_i hr <;> rwa [hr] at hc

theorem Client.AtFrame.handleIo {s : Session} {p : Peer} {m : Mailbox (List UInt8) Reply}
    {part : List UInt8} (h : s.client.AtFrame L S p)
    (hc : ClientServes bo stream cap s.client s.port p m part) (hbig : cap < L + 2)
    (revents : Revents) (reads : List ReadAnswer) (sends : List SendAnswer) :
    (s.handleIo bo p revents reads sends).1.client.AtFrame L S
      (s.handleIo bo p revents reads sends).2.1 := by
  have hall := h.readAll_stuck hc hbig reads
  have hread : let r := if revents.epollin then s.drainInput bo p reads else (s, p, false)
      r.1.client.AtFrame L S r.2.1 := by
    split_ifs
    · simp only [Session.drainInput]
      split_ifs
      · exact Client.AtFrame.answered hall _
      · exact hall
    · exact h
  simp only [Session.handleIo]
  split_ifs at hread ⊢ <;> first | exact hread | exact hread.flushOutput sends

/-- **A session in front of a frame that never fits reads nothing more**, whatever happens. -/
theorem stuck_run {l : SessionLink} (hinv : l.Inv bo stream cap)
    (h : l.session.client.AtFrame L S l.peer) (hbig : cap < L + 2) (ops : List SessionOp) :
    (ops.foldl (SessionLink.step bo) l).peer.consumed = S := by
  induction ops generalizing l with
  | nil => exact h.consumed
  | cons op ops ih =>
    refine ih (hinv.step op) ?_
    unfold SessionLink.step
    by_cases halive : l.alive = true
    · rw [if_neg (not_not.mpr halive)]
      obtain ⟨m, part, hc, -⟩ := hinv
      cases op with
      | io revents reads sends =>
        simp only [SessionLink.onIo]
        split
        · exact h
        · split_ifs
          · exact h.handleIo hc hbig _ reads sends
          · exact h.handleIo hc hbig _ reads sends
      | poll call => exact h.answered _
      | push msg => exact h.push msg
      | timeout =>
        simp only
        split_ifs <;> exact h
      | destroy => exact h
    · rwa [if_pos halive]

/-! ### The longest legal frame in a small buffer -/

/-- The header of a frame of the maximum length, in little-endian order. -/
def longestHeader : List UInt8 := [64, 66, 15, 0]

/-- A session that is sent the header of a longest frame, and reads it. -/
def afterLongestHeader (s : Session) : SessionLink :=
  (SessionLink.init s longestHeader false).step .little (.io ⟨true, false, false⟩ [.deliver 3] [])

/-- The header is complete, and the payload does not fit. -/
theorem Client.onBytes_longestHeader {c : Client} (hs : c.rxState = .header)
    (hhave : c.haveRead = 0) (hmsg : c.msgLen = 0) (hfull : c.rx.canFit kMaxMessageLen = false) :
    c.onBytes .little longestHeader =
      .ret .paused { c with msgLen := 1000000, haveRead := 4, rxPaused := true } := by
  have hstore : c.storeHeader .little longestHeader =
      { c with msgLen := 1000000, haveRead := 4 } := by
    rw [Client.storeHeader, hhave, hmsg]
    rfl
  have hread : ¬ (4 : UInt32).toNat < kHeaderLen := by decide
  have hne : (1000000 : UInt32) ≠ 0 := by decide
  have hlen : (1000000 : UInt32).toNat = kMaxMessageLen := rfl
  rw [Client.onBytes, hs]
  simp only [hstore, if_neg hread, Client.headerDone, if_neg hne, hlen, gt_iff_lt,
    lt_self_iff_false, if_false, hfull, Bool.false_eq_true, hs]

theorem Client.readAll_longestHeader {c : Client} (hfd : 0 ≤ c.fd) (hrun : c.rxPaused = false)
    (hs : c.rxState = .header) (hhave : c.haveRead = 0) (hmsg : c.msgLen = 0)
    (hfull : c.rx.canFit kMaxMessageLen = false) (calls : List ReadCall) :
    let out := c.readAll .little ⟨longestHeader, [], false, calls⟩ [.deliver 3]
    out.result = .paused ∧
      out.client = { c with msgLen := 1000000, haveRead := 4, rxPaused := true } := by
  have hwant : c.want = 4 := by
    rw [want, hs, hhave]
    rfl
  have hoffer : c.offer = c := by
    rw [offer, hs]
  have hstart : ¬ (c.rxState = .header ∧ kHeaderLen ≤ c.haveRead.toNat) := by
    rw [hhave]
    exact fun h => absurd h.2 (by decide)
  have hloop : c.readLoop .little ⟨longestHeader, [], false, calls⟩ [.deliver 3] =
      ⟨.paused, { c with msgLen := 1000000, haveRead := 4, rxPaused := true },
        Peer.record ⟨longestHeader, [], false, calls⟩ c 4 longestHeader, []⟩ := by
    have hbytes : Peer.sysRead ⟨longestHeader, [], false, calls⟩ 4 (.deliver 3) =
      .bytes longestHeader := rfl
    simp only [readLoop, hwant, hbytes, hoffer, onBytes_longestHeader hs hhave hmsg hfull]
  have hread : c.read .little ⟨longestHeader, [], false, calls⟩ [.deliver 3] =
      c.readLoop .little ⟨longestHeader, [], false, calls⟩ [.deliver 3] := by
    rw [read, if_neg (not_lt.mpr hfd), if_neg (by simp [hrun]), if_neg hstart]
  rw [readAll, readTimes, hread, hloop]
  exact ⟨rfl, rfl⟩

theorem afterLongestHeader_of_full {s : Session} (hfd : 0 ≤ s.client.fd)
    (hrun : s.client.rxPaused = false) (hs : s.client.rxState = .header)
    (hhave : s.client.haveRead = 0) (hmsg : s.client.msgLen = 0)
    (hmsgs : s.client.rx.messages = 0) (hfull : s.client.rx.canFit kMaxMessageLen = false)
    (hio : s.ioSource = some ⟨true, false⟩) :
    (afterLongestHeader s).alive = true ∧ (afterLongestHeader s).session.rxPaused = true ∧
      (afterLongestHeader s).session.client.msgLen.toNat = kMaxMessageLen := by
  obtain ⟨hres, hclient⟩ := Client.readAll_longestHeader hfd hrun hs hhave hmsg hfull []
  have hafter : afterLongestHeader s =
      (SessionLink.init s longestHeader false).onIo .little ⟨true, false, false⟩ [.deliver 3] [] :=
    rfl
  rw [hafter, SessionLink.onIo]
  simp only [SessionLink.init, hio, Session.handleIo, Session.drainInput, hres, hclient, hmsgs]
  exact ⟨rfl, Bool.or_true _, rfl⟩

/-- A buffer that cannot hold the longest frame is paused by its header. -/
theorem afterLongestHeader_paused {cap : ℕ} {s : Session}
    (h : Session.make 1 3 cap 64 = .ok s) (hsmall : effectiveCap cap < kMaxMessageLen + 2) :
    (afterLongestHeader s).alive = true ∧ (afterLongestHeader s).session.rxPaused = true ∧
      (afterLongestHeader s).session.client.msgLen.toNat = kMaxMessageLen := by
  obtain ⟨c, hc, rfl⟩ := Session.eq_of_make h
  obtain ⟨rx, tx, hrx, -, rfl⟩ := Client.eq_of_make hc
  obtain ⟨hq, hcap⟩ := RxBuffer.Holds.make hrx
  have hfull : rx.canFit kMaxMessageLen = false := by
    have hlen := hq.len
    have hcl := hq.completeLen
    have hcap' : rx.capacity = effectiveCap cap := hcap
    simp only [RxBuffer.canFit, decide_eq_false_iff_not]
    simp only [sealed, List.flatMap_nil, List.length_nil] at hlen hcl
    omega
  exact afterLongestHeader_of_full (show (0 : ℤ) ≤ 3 by decide) rfl rfl rfl rfl hq.messages
    hfull rfl

/-! ### When a paused reader can be resumed -/

/-- An accepted capacity gives a session. -/
theorem AcceptedRxCap.exists_session {cap : ℕ} (h : AcceptedRxCap cap) :
    ∃ s, Session.make 1 3 cap 64 = .ok s := by
  have htwo : ¬ (if cap = 0 then kDefaultBufferCap else cap) < 2 := by
    have hmin : 2 ≤ kMinBufferCap := by decide
    have hdefault : 2 ≤ kDefaultBufferCap := by decide
    rcases h.eq_zero_or_le with rfl | hle
    · rwa [if_pos rfl, not_lt]
    · rw [if_neg (by omega)]
      omega
  rw [Session.make, Client.make, RxBuffer.make, if_neg htwo]
  exact ⟨_, rfl⟩

/-- Every paused state that a session with the RX capacity `cap` can reach is resumable. -/
def AlwaysResumable (cap : ℕ) : Prop :=
  ∀ (bo : ByteOrder) (id : ℕ) (fd : ℤ) (txCap : ℕ) (s : Session),
    Session.make id fd cap txCap = .ok s → ∀ (stream : List UInt8) (closed : Bool)
    (ops : List SessionOp),
      let l := ops.foldl (SessionLink.step bo) (.init s stream closed)
      l.alive = true → l.session.rxPaused = true → Resumable bo l

/-- A paused session has a legal frame in front of it. -/
theorem atFrame_of_paused {l : SessionLink} (h : l.Inv bo stream cap) (hok : l.session.PauseOk)
    (hpaused : l.session.rxPaused = true) :
    l.session.client.AtFrame (announcedLen bo l.peer.consumed) l.peer.consumed l.peer ∧
      Legal (announcedLen bo l.peer.consumed) := by
  obtain ⟨m, part, hc, -⟩ := h
  obtain ⟨hs, hread⟩ := hc.decodes.paused (hok.agree ▸ hpaused)
  obtain ⟨-, hlegal, hann⟩ := hc.decodes.atHeader hs hread
  rw [hann]
  exact ⟨⟨hs, hread, rfl, rfl⟩, hlegal⟩

/-- **A paused reader can be resumed exactly when its frame fits an empty buffer**, and otherwise
it never reads another byte. So a capacity that the configuration accepts is free of such frames
exactly when the longest legal frame fits. All this is about capacities below `2 ^ 33` bytes, for
which the counter of the queued messages cannot wrap. -/
theorem paused_reader_resumes (cap : ℕ) (hcounter : cap < 2 ^ 33) :
    (∀ (bo : ByteOrder) (id : ℕ) (fd : ℤ) (txCap : ℕ) (s : Session),
      Session.make id fd cap txCap = .ok s → ∀ (stream : List UInt8) (closed : Bool)
      (ops : List SessionOp),
        let l := ops.foldl (SessionLink.step bo) (.init s stream closed)
        l.session.client.rx.messages < 2 ^ 32 ∧
        (l.alive = true → l.session.rxPaused = true →
          (Resumable bo l ↔ announcedLen bo l.peer.consumed + 2 ≤ effectiveCap cap) ∧
          (¬ Resumable bo l → ∀ later : List SessionOp,
            (later.foldl (SessionLink.step bo) l).peer.consumed = l.peer.consumed))) ∧
    (AcceptedRxCap cap → (AlwaysResumable cap ↔ kMaxMessageLen + 2 ≤ effectiveCap cap)) := by
  refine ⟨?_, ?_⟩
  · intro bo id fd txCap s h stream closed ops l
    have hinv : l.Inv bo stream (effectiveCap cap) := SessionLink.inv_run h bo stream closed ops
    refine ⟨hinv.messages_lt (effectiveCap_lt hcounter), fun halive hpaused => ?_⟩
    have hok : l.session.PauseOk := SessionLink.pauseOk_run (Session.pauseOk_make h) ops
    have hiff := resumable_iff hinv hok halive hpaused
    refine ⟨hiff, fun hnot later => ?_⟩
    have hbig : effectiveCap cap < announcedLen bo l.peer.consumed + 2 := by
      by_contra hle
      exact hnot (hiff.mpr (by omega))
    exact stuck_run hinv (atFrame_of_paused hinv hok hpaused).1 hbig later
  · intro hcap
    constructor
    · intro hall
      by_contra hsmall
      -- the header of a longest frame stops a fresh session
      obtain ⟨s, hs⟩ := hcap.exists_session
      obtain ⟨halive, hpaused, hmsg⟩ := afterLongestHeader_paused hs (by omega)
      have hinv : (afterLongestHeader s).Inv .little longestHeader (effectiveCap cap) :=
        SessionLink.inv_run hs .little longestHeader false
          [.io ⟨true, false, false⟩ [.deliver 3] []]
      have hok : (afterLongestHeader s).session.PauseOk :=
        SessionLink.pauseOk_step (Session.pauseOk_make hs) _
      have hres : Resumable .little (afterLongestHeader s) :=
        hall .little 1 3 64 s hs longestHeader false [.io ⟨true, false, false⟩ [.deliver 3] []]
          halive hpaused
      have hle := (resumable_iff hinv hok halive hpaused).mp hres
      rw [← (atFrame_of_paused hinv hok hpaused).1.announced, hmsg] at hle
      exact hsmall hle
    · intro hle bo id fd txCap s h stream closed ops l halive hpaused
      have hinv : l.Inv bo stream (effectiveCap cap) := SessionLink.inv_run h bo stream closed ops
      have hok : l.session.PauseOk := SessionLink.pauseOk_run (Session.pauseOk_make h) ops
      have hlegal := (atFrame_of_paused hinv hok hpaused).2
      exact (resumable_iff hinv hok halive hpaused).mpr
        (le_trans (Nat.add_le_add_right hlegal.2 2) hle)

/-- A session whose second frame waits for the first one to be polled. -/
theorem paused_reader_resumes_eight : ∃ s, Session.make 1 3 8 64 = .ok s ∧
    let l := [SessionOp.io ⟨true, false, false⟩ (List.replicate 9 (.deliver 7)) []].foldl
      (SessionLink.step .little) (.init s [3, 0, 0, 0, 49, 50, 51, 4, 0, 0, 0] false)
    (Resumable .little l ↔ announcedLen .little l.peer.consumed + 2 ≤ effectiveCap 8) :=
  ⟨_, rfl, ((((paused_reader_resumes 8 (by decide)).1 .little 1 3 64 _ rfl
    [3, 0, 0, 0, 49, 50, 51, 4, 0, 0, 0] false
    [.io ⟨true, false, false⟩ (List.replicate 9 (.deliver 7)) []]).2 (by decide)) (by decide)).1⟩

/-- With the smallest capacity that is accepted, the header of a frame of 100 bytes stops a fresh
session: its queue is empty, and a `poll` does not make it go on. -/
theorem paused_reader_stuck : AcceptedRxCap 64 ∧ ∃ s, Session.make 1 3 64 64 = .ok s ∧
    let l := [SessionOp.io ⟨true, false, false⟩ [.deliver 3] []].foldl (SessionLink.step .little)
      (.init s [100, 0, 0, 0] false)
    l.alive = true ∧ l.session.rxPaused = true ∧ l.session.client.rx.messages = 0 ∧
      (l.step .little (.poll ⟨.ok 0, ⟨.ok 0, .ok ()⟩⟩)).session.rxPaused = true ∧
      ¬ Resumable .little l := by
  refine ⟨?_, _, rfl, by decide, by decide, by decide, by decide, fun h => absurd h.1 (by decide)⟩
  let env : Env := fun key =>
    if key = kEnvRxBufferCap then some (ascii "64")
    else if key = kEnvScriptPath then some (ascii "/kwinscript.js")
    else if key = kEnvPluginName then some (ascii "kwin-api")
    else none
  exact ⟨ascii "/", env, [], by decide, by decide⟩

end KwinApi
