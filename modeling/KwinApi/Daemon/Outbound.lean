import KwinApi.Daemon.Interest
import KwinApi.Daemon.Teardown

/-!
# The way out of a session

The method `push` of `/cli{id}` (`ClientDBusObject::handle_push`) queues a message in the TX ring of
the session, and answers with a text that is empty on success. The ring is flushed by the callback
of the io source when the socket has room, in between everything else that callback does.

`wire` and `pushed` are records of the model: the bytes `send` has taken in the callbacks, and the
payloads of the `push` calls with the texts they were answered with. A D-Bus string holds no NUL, so
`strlen` is its length.

## Main definitions

* `KwinApi.Session.handlePush` — the method, with its reply texts
* `KwinApi.Outbound` — a session in use with its history towards the socket
* `KwinApi.Outbound.queue` — its TX queue, as a `TxLink`
* `KwinApi.SessionOp.writable` — a callback in which the socket takes something

## Main results

* `KwinApi.Outbound.queueStep` — whatever happens to a session is at most one operation of its TX
  queue
* `KwinApi.outbound_fifo` — over a whole run, with the reply of the next `push`
* `KwinApi.outbound_drains` — once the pushes stop, the queue empties
-/

namespace KwinApi

open Region

variable {bo : ByteOrder}

/-! ### The method `push` -/

/-- The text a `push` is answered with. -/
def pushReply : Except Errno Unit → String
  | .ok () => ""
  | .error .EMSGSIZE => "message exceeds 1 MB"
  | .error .ENOBUFS => "write buffer full"
  | .error .ENOTCONN => "client gone"
  | .error _ => "cannot queue message"

/-- `ClientDBusObject::handle_push`, for what reading the argument gave. An error is answered by
sd-bus. -/
def Session.handlePush (bo : ByteOrder) (s : Session) :
    Except Errno (Option (List UInt8)) → Except Errno String × Session
  | .error e => (.error e, s)
  | .ok none => (.error .EINVAL, s)
  | .ok (some msg) =>
    let r := s.push bo msg
    (.ok (pushReply r.1), r.2)

/-- The reply is empty exactly when the message was queued. -/
theorem pushReply_eq_empty {r : Except Errno Unit} : pushReply r = "" ↔ r = .ok () := by
  rcases r with e | ⟨⟩
  · refine iff_of_false ?_ (by simp)
    cases e <;> simp [pushReply]
  · exact iff_of_true rfl rfl

/-- The socket takes something in this callback. -/
def SessionOp.writable : SessionOp → Bool
  | .io revents _ (.accept _ :: _) => revents.epollout
  | _ => false

theorem SessionOp.exists_of_writable {op : SessionOp} (h : op.writable = true) :
    ∃ revents reads k sends, op = .io revents reads (.accept k :: sends) ∧
      revents.epollout = true := by
  rw [writable.eq_def] at h
  split at h
  · exact ⟨_, _, _, _, rfl, h⟩
  · cases h

/-! ### What leaves the TX queue alone -/

namespace Client

/-- The TX queue and the socket are the same. -/
structure SameOut (c c' : Client) : Prop where
  tx : c'.tx = c.tx
  fd : c'.fd = c.fd

theorem SameOut.refl (c : Client) : c.SameOut c := ⟨rfl, rfl⟩

theorem SameOut.trans {c c' c'' : Client} (h : c.SameOut c') (h' : c'.SameOut c'') :
    c.SameOut c'' := ⟨h'.tx.trans h.tx, h'.fd.trans h.fd⟩

theorem sameOut_offer (c : Client) : c.SameOut c.offer := by
  rw [offer]
  split <;> exact ⟨rfl, rfl⟩

theorem sameOut_headerDone (c : Client) : c.SameOut c.headerDone.client := by
  rw [headerDone]
  split_ifs <;> exact ⟨rfl, rfl⟩

theorem sameOut_onBytes (c : Client) (bs : List UInt8) :
    c.SameOut (c.onBytes bo bs).client := by
  rw [onBytes]
  split
  · simp only
    split_ifs
    · exact ⟨rfl, rfl⟩
    · have hstore : c.SameOut (c.storeHeader bo bs) := ⟨rfl, rfl⟩
      exact hstore.trans (sameOut_headerDone _)
  · simp only
    split_ifs <;> exact ⟨rfl, rfl⟩
  · simp only
    split_ifs <;> exact ⟨rfl, rfl⟩

theorem sameOut_readLoop (c : Client) (p : Peer) (answers : List ReadAnswer) :
    c.SameOut (c.readLoop bo p answers).client := by
  induction answers generalizing c p with
  | nil => exact sameOut_offer c
  | cons a as ih =>
    have hoffer := sameOut_offer c
    simp only [readLoop]
    split
    · exact hoffer.trans (ih _ _)
    · exact hoffer
    · exact hoffer
    · exact hoffer
    · rename_i bs _
      have hbytes := hoffer.trans (@sameOut_onBytes bo c.offer bs)
      split
      · rename_i c' hc'
        rw [hc'] at hbytes
        exact hbytes.trans (ih _ _)
      · rename_i r c' hc'
        rwa [hc'] at hbytes

theorem sameOut_read (c : Client) (p : Peer) (answers : List ReadAnswer) :
    c.SameOut (c.read bo p answers).client := by
  rw [read]
  split_ifs
  · exact .refl c
  · exact .refl c
  · have hdone := sameOut_headerDone c
    split
    · rename_i r c' hc'
      rwa [hc'] at hdone
    · rename_i c' hc'
      rw [hc'] at hdone
      exact hdone.trans (sameOut_readLoop _ _ _)
  · exact sameOut_readLoop c p answers

theorem sameOut_readAll (c : Client) (p : Peer) (answers : List ReadAnswer) :
    c.SameOut (c.readAll bo p answers).client := by
  rw [readAll]
  generalize 2 * answers.length + 1 = n
  induction n generalizing c p answers with
  | zero => exact sameOut_read c p answers
  | succ n ih =>
    have hread := @sameOut_read bo c p answers
    rw [readTimes]
    split_ifs
    · exact hread.trans (ih _ _ _)
    · exact hread

end Client

/-- A `send` that accepts something takes at least one byte. -/
theorem TxBuffer.flush_accept {t : TxBuffer} (hlen : t.len ≠ 0) (k : ℕ)
    (answers : List SendAnswer) : (t.flush (.accept k :: answers)).2.2 ≠ [] := by
  have hprefix : ∀ (t : TxBuffer) (sent : List UInt8) (answers : List SendAnswer),
      sent <+: (t.flushLoop sent answers).2.1 := by
    intro t sent answers
    induction answers generalizing t sent with
    | nil =>
      rw [TxBuffer.flushLoop]
      split_ifs <;> exact List.prefix_refl _
    | cons a answers ih =>
      rw [TxBuffer.flushLoop]
      split_ifs
      · exact List.prefix_refl _
      · cases a with
        | accept k => exact (List.prefix_append _ _).trans (ih _ _)
        | eintr => exact ih _ _
        | eagain => exact List.prefix_refl _
        | fail e => exact List.prefix_refl _
  have hsent : (t.flush (.accept k :: answers)).2.2 =
      (t.flushLoop [] (.accept k :: answers)).2.1 := by
    rw [flush]
    split <;> simp_all
  have hhead := t.head_lt
  have hslice : (slice t.data t.head (min (k + 1) (min t.len (t.capacity - t.head)))).length =
      min (k + 1) (min t.len (t.capacity - t.head)) :=
    length_slice (by rw [t.size]; omega)
  intro hnil
  have hpre := hprefix ((t.offer (min t.len (t.capacity - t.head))).accept
    (min (k + 1) (min t.len (t.capacity - t.head)))) ([] ++
      slice t.data t.head (min (k + 1) (min t.len (t.capacity - t.head)))) answers
  rw [hsent, flushLoop, if_neg hlen] at hnil
  simp only at hnil
  rw [hnil, List.prefix_nil, List.nil_append] at hpre
  rw [hpre, List.length_nil] at hslice
  omega

namespace Session

theorem sameOut_answered (s : Session) (r : RxBuffer × PollPort × Bool) :
    s.client.SameOut (s.answered r).client := by
  rw [answered]
  simp only
  split_ifs
  · rw [onRxDrained]
    split_ifs <;> exact ⟨rfl, rfl⟩
  · exact ⟨rfl, rfl⟩

theorem sameOut_onRxMessages {c : Client} {s : Session} (h : c.SameOut s.client) :
    c.SameOut s.onRxMessages.client := h.trans (sameOut_answered s _)

theorem sameOut_drainInput (s : Session) (p : Peer) (answers : List ReadAnswer) :
    s.client.SameOut (s.drainInput bo p answers).1.client := by
  have hread := @Client.sameOut_readAll bo s.client p answers
  simp only [drainInput]
  split_ifs
  · exact sameOut_onRxMessages hread
  · exact hread

/-- The readable part of a callback. -/
theorem sameOut_of_readable {s s' : Session} {p p' : Peer} {revents : Revents}
    {reads : List ReadAnswer} {closeConn : Bool}
    (hd : (if revents.epollin then s.drainInput bo p reads else (s, p, false)) =
      (s', p', closeConn)) : s.client.SameOut s'.client := by
  split_ifs at hd
  · rw [show s' = (s.drainInput bo p reads).1 by rw [hd]]
    exact sameOut_drainInput s p reads
  · cases hd
    exact .refl _

/-! ### The bytes that leave -/

/-- The bytes `send` takes in one `handle_io`. -/
def ioSent (bo : ByteOrder) (s : Session) (p : Peer) (revents : Revents)
    (reads : List ReadAnswer) (sends : List SendAnswer) : List UInt8 :=
  let (s, _, closeConn) := if revents.epollin then s.drainInput bo p reads else (s, p, false)
  if revents.epollout ∧ ¬ closeConn ∧ 0 ≤ s.client.fd then (s.client.tx.flush sends).2.2 else []

theorem sameOut_flushOutput_of_gone {s : Session} (hfd : s.client.fd < 0)
    (sends : List SendAnswer) : s.client.SameOut (s.flushOutput sends).1.client := by
  rw [flushOutput, Client.flush, if_pos hfd]
  exact .refl _

theorem flushOutput_of_open {s : Session} (hfd : 0 ≤ s.client.fd) (sends : List SendAnswer) :
    (s.flushOutput sends).1.client.tx = (s.client.tx.flush sends).2.1 ∧
      (s.flushOutput sends).1.client.fd = s.client.fd := by
  rcases hr : s.client.tx.flush sends with ⟨n | e, t, sent⟩
  · simp [flushOutput, Client.flush, not_lt.mpr hfd, hr]
  · simp [flushOutput, Client.flush, not_lt.mpr hfd, hr]

theorem push_of_open {s : Session} (hfd : 0 ≤ s.client.fd) (msg : List UInt8) :
    (s.push bo msg).1 = (s.client.tx.push bo msg).1 ∧
      (s.push bo msg).2.client.tx = (s.client.tx.push bo msg).2 ∧
      (s.push bo msg).2.client.fd = s.client.fd := by
  rcases hr : s.client.tx.push bo msg with ⟨e | ⟨⟩, t⟩
  · simp [push, Client.push, not_lt.mpr hfd, hr]
  · simp [push, Client.push, not_lt.mpr hfd, hr, updateIoEvents]

/-- What one `handle_io` is for the TX queue: nothing, or one flush. -/
inductive IoOut (bo : ByteOrder) (s : Session) (p : Peer) (revents : Revents)
    (reads : List ReadAnswer) (sends : List SendAnswer) : Prop where
  | none (sent : s.ioSent bo p revents reads sends = [])
      (same : s.client.SameOut (s.handleIo bo p revents reads sends).1.client)
  | flush (sent : s.ioSent bo p revents reads sends = (s.client.tx.flush sends).2.2)
      (tx : (s.handleIo bo p revents reads sends).1.client.tx = (s.client.tx.flush sends).2.1)
      (fd : (s.handleIo bo p revents reads sends).1.client.fd = s.client.fd)

theorem ioOut (s : Session) (p : Peer) (revents : Revents) (reads : List ReadAnswer)
    (sends : List SendAnswer) : IoOut bo s p revents reads sends := by
  rcases hd : (if revents.epollin then s.drainInput bo p reads else (s, p, false)) with
    ⟨s', p', closeConn⟩
  have hread := sameOut_of_readable hd
  by_cases hout : revents.epollout ∧ ¬ closeConn
  · rcases lt_or_ge s'.client.fd 0 with hfd | hfd
    · refine .none ?_ ?_
      · simp only [ioSent, hd]
        exact if_neg fun hsend => absurd hsend.2.2 (not_le.mpr hfd)
      · simp only [handleIo, hd, if_pos hout]
        have hsame := hread.trans (sameOut_flushOutput_of_gone hfd sends)
        split_ifs
        · exact hsame
        · exact ⟨hsame.tx, hsame.fd⟩
    · obtain ⟨htx, hfd'⟩ := flushOutput_of_open hfd sends
      refine .flush ?_ ?_ ?_
      · simp only [ioSent, hd]
        rw [if_pos ⟨hout.1, hout.2, hfd⟩, hread.tx]
      · simp only [handleIo, hd, if_pos hout]
        rw [← hread.tx, ← htx]
        split_ifs <;> rfl
      · simp only [handleIo, hd, if_pos hout]
        rw [← hread.fd, ← hfd']
        split_ifs <;> rfl
  · refine .none ?_ ?_
    · simp only [ioSent, hd]
      exact if_neg fun hsend => hout ⟨hsend.1, hsend.2.1⟩
    · simp only [handleIo, hd, if_neg hout]
      split_ifs
      · exact hread
      · exact ⟨hread.tx, hread.fd⟩

/-- In a callback that does not end the session, the queue is flushed if the socket has room. -/
theorem ioSent_of_open {s : Session} {p : Peer} {revents : Revents} {reads : List ReadAnswer}
    {sends : List SendAnswer} (hfd : 0 ≤ s.client.fd) (hout : revents.epollout = true)
    (hopen : (s.handleIo bo p revents reads sends).2.2 = false) :
    s.ioSent bo p revents reads sends = (s.client.tx.flush sends).2.2 := by
  rcases hd : (if revents.epollin then s.drainInput bo p reads else (s, p, false)) with
    ⟨s', p', closeConn⟩
  have hread := sameOut_of_readable hd
  have hnot : ¬ closeConn = true := by
    rintro rfl
    simp [handleIo, hd] at hopen
  simp only [ioSent, hd]
  rw [if_pos ⟨hout, hnot, by rw [hread.fd]; exact hfd⟩, hread.tx]

end Session

/-! ### A session in use -/

/-- A session with its history towards the socket: the bytes `send` has taken, and the payloads of
the `push` calls with their replies. -/
structure Outbound where
  link : SessionLink
  wire : List UInt8
  pushed : List (List UInt8 × String)

/-- The events a callback handles, of those reported. -/
def IoMask.watched (mask : IoMask) (revents : Revents) : Revents :=
  { revents with
    epollin := revents.epollin && mask.epollin
    epollout := revents.epollout && mask.epollout }

/-- The bytes `send` takes when this happens. -/
def SessionLink.sent (bo : ByteOrder) (l : SessionLink) : SessionOp → List UInt8
  | .io revents reads sends =>
    if l.alive then
      match l.session.ioSource with
      | none => []
      | some mask => l.session.ioSent bo l.peer (mask.watched revents) reads sends
    else []
  | _ => []

/-- The `push` calls that are answered when this happens. Without a session there is no object. -/
def SessionLink.replied (bo : ByteOrder) (l : SessionLink) :
    SessionOp → List (List UInt8 × String)
  | .push msg =>
    if l.alive then
      match (l.session.handlePush bo (.ok (some msg))).1 with
      | .ok reply => [(msg, reply)]
      | .error _ => []
    else []
  | _ => []

/-- A `push` call is answered once, or there is no object. -/
theorem SessionLink.replied_push (l : SessionLink) (msg : List UInt8) :
    l.replied bo (.push msg) = [] ∨ ∃ reply, l.replied bo (.push msg) = [(msg, reply)] := by
  simp only [replied]
  split_ifs
  · split
    · exact Or.inr ⟨_, rfl⟩
    · exact Or.inl rfl
  · exact Or.inl rfl

namespace Outbound

/-- A fresh session. -/
def init (s : Session) (stream : List UInt8) (closed : Bool) : Outbound :=
  ⟨.init s stream closed, [], []⟩

/-- One thing that happens. -/
def step (bo : ByteOrder) (o : Outbound) (op : SessionOp) : Outbound where
  link := o.link.step bo op
  wire := o.wire ++ o.link.sent bo op
  pushed := o.pushed ++ o.link.replied bo op

/-- A run. -/
def run (bo : ByteOrder) (o : Outbound) (ops : List SessionOp) : Outbound := ops.foldl (step bo) o

/-- The payloads whose `push` was answered with the empty text. -/
def accepted (o : Outbound) : List (List UInt8) := (o.pushed.filter (·.2 = "")).map Prod.fst

/-- The TX queue with its history. -/
def queue (o : Outbound) : TxLink := ⟨o.link.session.client.tx, o.wire, o.accepted⟩

theorem link_run (o : Outbound) (ops : List SessionOp) :
    (o.run bo ops).link = ops.foldl (SessionLink.step bo) o.link := by
  induction ops generalizing o with
  | nil => rfl
  | cons op ops ih => exact ih (o.step bo op)

/-- What something that happens is for the TX queue: nothing, or one of its operations. -/
inductive QueueStep (bo : ByteOrder) (o o' : Outbound) : Prop where
  | none (same : o.link.session.client.SameOut o'.link.session.client) (wire : o'.wire = o.wire)
      (accepted : o'.accepted = o.accepted)
  | op (t : TxOp) (fd : o'.link.session.client.fd = o.link.session.client.fd)
      (queue : o'.queue = o.queue.step bo t)

/-- A callback of the io source. -/
theorem queueStep_io (o : Outbound) (revents : Revents) (reads : List ReadAnswer)
    (sends : List SendAnswer) : QueueStep bo o (o.step bo (.io revents reads sends)) := by
  have haccepted : (o.step bo (.io revents reads sends)).accepted = o.accepted := by
    simp [accepted, step, SessionLink.replied]
  by_cases halive : o.link.alive = true
  swap
  · refine .none ?_ ?_ haccepted
    · simp only [step, SessionLink.step, if_pos halive]
      exact .refl _
    · simp [step, SessionLink.sent, halive]
  have hlink : (o.step bo (.io revents reads sends)).link = o.link.onIo bo revents reads sends := by
    simp only [step, SessionLink.step, if_neg (not_not.mpr halive)]
  cases hio : o.link.session.ioSource with
  | none =>
    refine .none ?_ ?_ haccepted
    · rw [hlink, SessionLink.onIo, hio]
      exact .refl _
    · simp [step, SessionLink.sent, hio]
  | some mask =>
    have hclient : (o.link.onIo bo revents reads sends).session.client =
        (o.link.session.handleIo bo o.link.peer (mask.watched revents) reads sends).1.client := by
      simp only [SessionLink.onIo, hio]
      split_ifs <;> rfl
    have hsent : o.link.sent bo (.io revents reads sends) =
        o.link.session.ioSent bo o.link.peer (mask.watched revents) reads sends := by
      simp only [SessionLink.sent, halive, if_true, hio]
    rcases @Session.ioOut bo o.link.session o.link.peer (mask.watched revents) reads sends with
      ⟨hnone, hsame⟩ | ⟨hflush, htx, hfd⟩
    · refine .none ?_ ?_ haccepted
      · rw [hlink, hclient]
        exact hsame
      · simp only [step]
        rw [hsent, hnone, List.append_nil]
    · refine .op (.flush sends) ?_ ?_
      · rw [hlink, hclient, hfd]
      · rw [queue, haccepted, hlink, hclient, htx]
        simp only [step, hsent, hflush]
        rfl

/-- A `push` call. -/
theorem queueStep_push (o : Outbound) (msg : List UInt8) (hfd : 0 ≤ o.link.session.client.fd) :
    QueueStep bo o (o.step bo (.push msg)) := by
  have hwire : (o.step bo (.push msg)).wire = o.wire := List.append_nil _
  by_cases halive : o.link.alive = true
  swap
  · refine .none ?_ hwire ?_
    · simp only [step, SessionLink.step, if_pos halive]
      exact .refl _
    · simp [accepted, step, SessionLink.replied, halive]
  obtain ⟨hr, htx, hfd'⟩ := @Session.push_of_open bo o.link.session hfd msg
  have hlink : (o.step bo (.push msg)).link.session = (o.link.session.push bo msg).2 := by
    simp only [step, SessionLink.step, if_neg (not_not.mpr halive)]
  have hpushed : (o.step bo (.push msg)).pushed =
      o.pushed ++ [(msg, pushReply (o.link.session.client.tx.push bo msg).1)] := by
    simp only [step, SessionLink.replied, if_pos halive, Session.handlePush, hr]
  refine .op (.push msg) (by rw [hlink, hfd']) ?_
  rw [queue, hlink, htx, hwire, accepted, hpushed, List.filter_append, List.map_append]
  rcases hp : o.link.session.client.tx.push bo msg with ⟨e | ⟨⟩, t⟩
  · have hne : pushReply (.error e) ≠ "" := by
      rw [Ne, pushReply_eq_empty]
      simp
    simp [TxLink.step, queue, hp, hne, accepted]
  · simp [TxLink.step, queue, hp, pushReply, accepted]

/-- **What happens to a session is one operation of its TX queue, or none.** -/
theorem queueStep (o : Outbound) (op : SessionOp) (hfd : 0 ≤ o.link.session.client.fd) :
    QueueStep bo o (o.step bo op) := by
  cases op with
  | io revents reads sends => exact queueStep_io o revents reads sends
  | push msg => exact queueStep_push o msg hfd
  | poll call =>
    refine .none ?_ (List.append_nil _) (by simp [accepted, step, SessionLink.replied])
    simp only [step, SessionLink.step]
    split_ifs
    · exact Session.sameOut_answered _ _
    · exact .refl _
  | timeout =>
    refine .none ?_ (List.append_nil _) (by simp [accepted, step, SessionLink.replied])
    simp only [step, SessionLink.step]
    split_ifs <;> exact .refl _
  | destroy =>
    refine .none ?_ (List.append_nil _) (by simp [accepted, step, SessionLink.replied])
    simp only [step, SessionLink.step]
    split_ifs <;> exact .refl _

/-- The TX queue of a session in use is a run of its own, and the session is woken up when it has
something to send. -/
structure Inv (bo : ByteOrder) (cap : ℕ) (o : Outbound) : Prop where
  fd : 0 ≤ o.link.session.client.fd
  run : ∃ t, ∃ ts : List TxOp, TxBuffer.make cap = .ok t ∧
    o.queue = ts.foldl (TxLink.step bo) (.init t)
  mask : o.link.alive = true → o.link.session.MaskOk

variable {cap : ℕ} {o : Outbound}

/-- It is a FIFO of whole frames. -/
theorem Inv.refines (h : o.Inv bo cap) : o.queue.Refines bo cap := by
  obtain ⟨t, ts, ht, hqueue⟩ := h.run
  rw [hqueue]
  exact TxLink.refines_run ht ts

theorem Inv.step (h : o.Inv bo cap) (op : SessionOp) : (o.step bo op).Inv bo cap := by
  have hmask : (o.step bo op).link.alive = true → (o.step bo op).link.session.MaskOk :=
    SessionLink.maskOk_step h.mask op
  obtain ⟨t, ts, ht, hqueue⟩ := h.run
  rcases @queueStep bo o op h.fd with ⟨hsame, hwire, haccepted⟩ | ⟨top, hfd, hstep⟩
  · refine ⟨by rw [hsame.fd]; exact h.fd, ⟨t, ts, ht, ?_⟩, hmask⟩
    rw [← hqueue, queue, hsame.tx, hwire, haccepted]
    rfl
  · refine ⟨by rw [hfd]; exact h.fd, ⟨t, ts ++ [top], ht, ?_⟩, hmask⟩
    rw [hstep, hqueue, List.foldl_append, List.foldl_cons, List.foldl_nil]

theorem Inv.steps (h : o.Inv bo cap) (ops : List SessionOp) : (o.run bo ops).Inv bo cap :=
  List.foldlRecOn ops (Outbound.step bo) h fun _ ho op _ => ho.step op

theorem inv_init {id : ℕ} {fd : ℤ} {rxCap txCap : ℕ} {s : Session}
    (h : Session.make id fd rxCap txCap = .ok s) (hfd : 0 ≤ fd) (stream : List UInt8)
    (closed : Bool) : (init s stream closed).Inv bo (effectiveCap txCap) := by
  have hmask := Session.maskOk_make h
  obtain ⟨c, hc, rfl⟩ := Session.eq_of_make h
  obtain ⟨rx, tx, -, htx, rfl⟩ := Client.eq_of_make hc
  exact ⟨hfd, ⟨tx, [], htx, rfl⟩, fun _ => hmask⟩

/-! ### The next reply -/

/-- What the next `push` is answered with. -/
theorem Inv.handlePush (h : o.Inv bo cap) (msg : List UInt8) :
    let tx := o.link.session.client.tx
    let r := o.link.session.handlePush bo (.ok (some msg))
    (r.1 = .ok "" ↔
        msg.length ≤ kMaxMessageLen ∧ tx.len + kHeaderLen + msg.length ≤ cap) ∧
      (r.1 = .ok "message exceeds 1 MB" ↔ kMaxMessageLen < msg.length) ∧
      (r.1 = .ok "write buffer full" ↔
        msg.length ≤ kMaxMessageLen ∧ cap < tx.len + kHeaderLen + msg.length) ∧
      (r.1 ≠ .ok "" → r.2 = o.link.session) := by
  intro tx r
  have hcap : tx.capacity = cap := h.refines.capacity_eq
  have hfd := not_lt.mpr h.fd
  have hr : ∀ e, tx.push bo msg = (.error e, tx) →
      r = (.ok (pushReply (.error e)), o.link.session) := by
    intro e he
    have he : o.link.session.client.tx.push bo msg = (.error e, o.link.session.client.tx) := he
    simp only [r, Session.handlePush, Session.push, Client.push, if_neg hfd, he]
  rcases Nat.lt_or_ge kMaxMessageLen msg.length with hlong | hmax
  · rw [hr _ (TxBuffer.push_of_too_long hlong)]
    simp [pushReply, hlong]
  rcases Nat.lt_or_ge cap (tx.len + kHeaderLen + msg.length) with hfull | hfits
  · rw [hr _ (TxBuffer.push_of_full hmax (hcap ▸ hfull))]
    simp [pushReply, hmax, hfull]
  · have hok : (tx.push bo msg).1 = .ok () :=
      (h.refines.inv.push_of_fits bo hmax (hcap ▸ hfits)).1
    have hpush := (@Session.push_of_open bo o.link.session h.fd msg).1
    have hreply : r.1 = .ok "" := by
      simp only [r, Session.handlePush, hpush.trans hok, pushReply]
    rw [hreply]
    simp [hmax, hfits]

/-! ### Draining the queue -/

/-- Without a `push`, what leaves the queue is what the socket takes. -/
theorem Inv.len_step (h : o.Inv bo cap) {op : SessionOp} (hquiet : ∀ msg, op ≠ .push msg) :
    (o.step bo op).link.session.client.tx.len + (o.link.sent bo op).length =
      o.link.session.client.tx.len ∧ (o.step bo op).accepted = o.accepted := by
  have haccepted : (o.step bo op).accepted = o.accepted := by
    cases op with
    | push msg => exact absurd rfl (hquiet msg)
    | _ => simp [accepted, Outbound.step, SessionLink.replied]
  have hfifo : o.wire ++ o.link.session.client.tx.queuedBytes =
      o.accepted.flatMap (frameBytes bo) := h.refines.fifo
  have hfifo' : o.wire ++ o.link.sent bo op ++ (o.step bo op).link.session.client.tx.queuedBytes =
      (o.step bo op).accepted.flatMap (frameBytes bo) := (h.step op).refines.fifo
  have hlen := h.refines.inv.length_queuedBytes
  have hlen' := (h.step op).refines.inv.length_queuedBytes
  rw [haccepted, ← hfifo, List.append_assoc] at hfifo'
  have hbytes := congrArg List.length (List.append_cancel_left hfifo')
  rw [List.length_append] at hbytes
  simp only [queue] at hlen hlen'
  exact ⟨by omega, haccepted⟩

/-- A callback in which the socket takes something shortens the queue. -/
theorem Inv.len_step_lt (h : o.Inv bo cap) {op : SessionOp} (hop : op.writable = true)
    (halive : (o.step bo op).link.alive = true) (hlen : o.link.session.client.tx.len ≠ 0) :
    (o.step bo op).link.session.client.tx.len < o.link.session.client.tx.len := by
  obtain ⟨revents, reads, k, sends, rfl, hout⟩ := SessionOp.exists_of_writable hop
  have hquiet : ∀ msg, SessionOp.io revents reads (.accept k :: sends) ≠ .push msg := fun _ =>
    SessionOp.noConfusion
  have hlen_step := (h.len_step hquiet).1
  have hbefore : o.link.alive = true := by
    by_contra hgone
    simp only [Outbound.step, SessionLink.step, if_pos hgone] at halive
    exact hgone halive
  have hio : o.link.session.ioSource = some ⟨!o.link.session.rxPaused, true⟩ := by
    rw [h.mask hbefore, Session.interest, if_neg fun hoff => hlen hoff.2,
      decide_eq_true (Nat.pos_of_ne_zero hlen)]
  have hsent : o.link.sent bo (.io revents reads (.accept k :: sends)) =
      (o.link.session.client.tx.flush (.accept k :: sends)).2.2 := by
    simp only [SessionLink.sent, if_pos hbefore, hio]
    refine Session.ioSent_of_open h.fd (by simp [IoMask.watched, hout]) ?_
    simp only [Outbound.step, SessionLink.step, if_neg (not_not.mpr hbefore), SessionLink.onIo,
      hio] at halive
    split_ifs at halive with hclose
    · exact absurd halive Bool.false_ne_true
    · exact Bool.eq_false_iff.mpr hclose
  have hpos := List.length_pos_of_ne_nil (TxBuffer.flush_accept hlen k sends)
  rw [← hsent] at hpos
  omega

/-- With the pushes over, the queue is empty after as many such callbacks as it has bytes. -/
theorem Inv.len_run (h : o.Inv bo cap) (ops : List SessionOp)
    (hquiet : ∀ op ∈ ops, ∀ msg, op ≠ .push msg)
    (halive : (o.run bo ops).link.alive = true)
    (hmany : o.link.session.client.tx.len ≤ ops.countP SessionOp.writable) :
    (o.run bo ops).link.session.client.tx.len = 0 ∧ (o.run bo ops).accepted = o.accepted := by
  induction ops generalizing o with
  | nil => exact ⟨Nat.le_zero.mp hmany, rfl⟩
  | cons op ops ih =>
    obtain ⟨hop, hquiet⟩ := List.forall_mem_cons.mp hquiet
    obtain ⟨hlen, haccepted⟩ := h.len_step hop
    have hafter : (o.step bo op).link.alive = true := by
      by_contra hgone
      have hend := @SessionLink.run_of_gone bo _ (Bool.eq_false_iff.mpr hgone) ops
      rw [link_run, List.foldl_cons] at halive
      rw [← hend] at hgone
      exact hgone halive
    have hmany' : (o.step bo op).link.session.client.tx.len ≤ ops.countP SessionOp.writable := by
      rw [List.countP_cons] at hmany
      split_ifs at hmany with hop'
      · rcases Nat.eq_zero_or_pos o.link.session.client.tx.len with hzero | hpos
        · omega
        · have hlt := h.len_step_lt hop' hafter (Nat.pos_iff_ne_zero.mp hpos)
          omega
      · omega
    obtain ⟨hzero, hsame⟩ := ih (h.step op) hquiet halive hmany'
    exact ⟨hzero, hsame.trans haccepted⟩

end Outbound

/-! ### The whole run -/

/-- **A session hands its messages to the socket in order and whole.** In every state of every run,
what the socket has taken and what is queued are the frames of the messages whose `push` was
answered with the empty text, in the order of the calls. The reply of a `push` says whether the
message was queued and if not, why; a message that is refused changes nothing. -/
theorem outbound_fifo (bo : ByteOrder) {id : ℕ} {fd : ℤ} {rxCap txCap : ℕ} {s : Session}
    (h : Session.make id fd rxCap txCap = .ok s) (hfd : 0 ≤ fd) (stream : List UInt8)
    (closed : Bool) (ops : List SessionOp) :
    let o := (Outbound.init s stream closed).run bo ops
    let tx := o.link.session.client.tx
    o.wire ++ tx.queuedBytes = o.accepted.flatMap (frameBytes bo) ∧
      tx.queuedBytes.length = tx.len ∧ tx.len ≤ effectiveCap txCap ∧
      ∀ msg, let r := o.link.session.handlePush bo (.ok (some msg))
        (r.1 = .ok "" ↔ msg.length ≤ kMaxMessageLen ∧
          tx.len + kHeaderLen + msg.length ≤ effectiveCap txCap) ∧
        (r.1 = .ok "message exceeds 1 MB" ↔ kMaxMessageLen < msg.length) ∧
        (r.1 = .ok "write buffer full" ↔ msg.length ≤ kMaxMessageLen ∧
          effectiveCap txCap < tx.len + kHeaderLen + msg.length) ∧
        (r.1 ≠ .ok "" → r.2 = o.link.session) := by
  intro o tx
  have hinv : o.Inv bo (effectiveCap txCap) := (Outbound.inv_init h hfd stream closed).steps ops
  have hle : tx.len ≤ tx.capacity := hinv.refines.inv.len_le
  have hcap : tx.capacity = effectiveCap txCap := hinv.refines.capacity_eq
  exact ⟨hinv.refines.fifo, hinv.refines.inv.length_queuedBytes, hcap ▸ hle, hinv.handlePush⟩

/-- A message that is on its way, and one that is too much for the ring. -/
theorem outbound_fifo_nine : ∃ s, Session.make 1 3 8 9 = .ok s ∧
    let o := (Outbound.init s [] false).run .little [.push [49], .push [50]]
    o.wire ++ o.link.session.client.tx.queuedBytes = o.accepted.flatMap (frameBytes .little) :=
  ⟨_, rfl, (@outbound_fifo .little 1 3 8 9 _ rfl (by decide) [] false [.push [49], .push [50]]).1⟩

/-- **Once the pushes stop, the queue empties.** However a run went on so far, callbacks in which
the socket takes something, as many as there are bytes queued and with anything else in between,
hand all of it over, unless the session ends before; then only input is waited for. -/
theorem outbound_drains (bo : ByteOrder) {id : ℕ} {fd : ℤ} {rxCap txCap : ℕ} {s : Session}
    (h : Session.make id fd rxCap txCap = .ok s) (hfd : 0 ≤ fd) (stream : List UInt8)
    (closed : Bool) (ops more : List SessionOp)
    (hquiet : ∀ op ∈ more, ∀ msg, op ≠ .push msg) :
    let o := (Outbound.init s stream closed).run bo ops
    let o' := o.run bo more
    o'.link.alive = true →
      o.link.session.client.tx.len ≤ more.countP SessionOp.writable →
      o'.wire = o.accepted.flatMap (frameBytes bo) ∧ o'.accepted = o.accepted ∧
        o'.link.session.client.tx.queuedBytes = [] ∧
        o'.link.session.ioSource =
          if o'.link.session.rxPaused then none else some ⟨true, false⟩ := by
  intro o o' halive hmany
  have hinv : o.Inv bo (effectiveCap txCap) := (Outbound.inv_init h hfd stream closed).steps ops
  have hinv' : o'.Inv bo (effectiveCap txCap) := hinv.steps more
  obtain ⟨hzero, haccepted⟩ := hinv.len_run more hquiet halive hmany
  have hempty : o'.link.session.client.tx.queuedBytes = [] :=
    List.eq_nil_of_length_eq_zero (hinv'.refines.inv.length_queuedBytes.trans hzero)
  have hfifo : o'.wire ++ o'.link.session.client.tx.queuedBytes =
      o'.accepted.flatMap (frameBytes bo) := hinv'.refines.fifo
  rw [hempty, List.append_nil] at hfifo
  refine ⟨hfifo.trans (congrArg _ haccepted), haccepted, hempty, ?_⟩
  have hzero : o'.link.session.client.tx.len = 0 := hzero
  rw [hinv'.mask halive, Session.interest]
  cases hpaused : o'.link.session.rxPaused <;> simp [hzero]

/-- One message, of which `send` takes a byte at a time. -/
theorem outbound_drains_five : ∃ s, Session.make 1 3 8 64 = .ok s ∧
    let o := (Outbound.init s [] false).run .little [.push [49]]
    let writable := SessionOp.io ⟨false, true, false⟩ [] [.accept 0]
    (o.run .little (List.replicate 5 writable)).wire = o.accepted.flatMap (frameBytes .little) := by
  refine ⟨_, rfl, ?_⟩
  refine (@outbound_drains .little 1 3 8 64 _ rfl (by decide) [] false [.push [49]]
    (List.replicate 5 (.io ⟨false, true, false⟩ [] [.accept 0])) ?_ ?_ ?_).1
  · intro op hop msg
    rw [(List.mem_replicate.mp hop).2]
    exact SessionOp.noConfusion
  · decide +kernel
  · decide +kernel

end KwinApi
