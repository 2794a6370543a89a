import KwinApi.Daemon.Requests
import KwinApi.Lib.Run

/-!
# The poll protocol of both objects

Whatever happens to `/daemon` or to `/cli{id}`, the object goes on standing for a long-poll mailbox
in which nobody waits in vain. What the callers of `poll` see follows from the laws of the mailbox.

## Main definitions

* `KwinApi.PollsServed` — the protocol, as a property of an object, the messages that arrived and
  the number of `poll` calls
* `KwinApi.PollsAnswered` — what the timer and a `poll` call do next
* `KwinApi.SessionLink.Inv`, `DaemonLink.Inv` — the two objects as mailboxes

## Main results

* `KwinApi.PollPort.Serves.pollsServed`, `Serves.pollsAnswered` — the mailbox gives the protocol
* `KwinApi.SessionLink.inv_run`, `DaemonLink.inv_run` — the two runs
* `KwinApi.poll_protocol` — every request gets its reply, and no wake-up is lost
-/

namespace KwinApi

open Framing LongPoll

/-! ### Batches without NUL bytes -/

/-- Every byte of an array text is a byte of a payload or one of the three brackets and commas. -/
theorem mem_splice {x : UInt8} {ps : List (List UInt8)} (h : x ∈ splice ps) :
    x = kOpen ∨ x = kClose ∨ x = kComma ∨ ∃ p ∈ ps, x ∈ p := by
  rw [splice, List.mem_cons, List.mem_append, List.mem_singleton] at h
  rcases h with h | h | h
  · exact .inl h
  · by_cases hnil : ps = []
    · subst hnil
      cases h
    · have hsealed : x ∈ sealed ps := by
        rw [sealed_eq_intercalate hnil]
        exact List.mem_append_left _ h
      obtain ⟨p, hp, hx⟩ := List.mem_flatMap.mp hsealed
      rcases List.mem_append.mp hx with hx | hx
      · exact .inr (.inr (.inr ⟨p, hp, hx⟩))
      · exact .inr (.inr (.inl (List.mem_singleton.mp hx)))
  · exact .inr (.inl h)

theorem cString_splice {ps : List (List UInt8)} (h : ∀ p ∈ ps, (0 : UInt8) ∉ p) :
    cString (splice ps) = splice ps := by
  refine cString_of_not_mem fun hmem => ?_
  rcases mem_splice hmem with h0 | h0 | h0 | ⟨p, hp, hx⟩
  · exact absurd h0 (by decide)
  · exact absurd h0 (by decide)
  · exact absurd h0 (by decide)
  · exact h p hp hx

/-! ### The protocol -/

/-- What a reply hands over: a batch, as the array text of all messages that were queued, or
nothing in the case of a refusal. -/
def Sent.HandsOver (s : Sent) : Option (List (List UInt8)) → Prop
  | some batch => s.reply = .text (splice batch) ∧ batch.length = s.queued
  | none => s.reply.IsRefusal

/-- The protocol of an object that has the messages `arrived` and was polled `polls` times. Requests
are numbered from 0 on. -/
structure PollsServed (port : PollPort) (queue : RxBuffer) (arrived : List (List UInt8))
    (alive : Bool) (polls : ℕ) : Prop where
  /-- Every request was replied to once, or is pending, or was pending at the end. -/
  one_reply : (port.sent.map Sent.request ++ port.waiter.msg.toList ++ port.dropped.toList).Perm
    (List.range polls)
  /-- A request stays without a reply only when the object is destroyed, and then none is
  pending. -/
  dropped : port.dropped ≠ none → alive = false
  destroyed : alive = false → port.waiter.msg = none
  /-- The timer exists exactly while a request is pending. -/
  timer : port.waiter.timer.isSome = port.waiter.msg.isSome
  /-- No request is pending while a message is queued. -/
  no_lost_wakeup : port.waiter.msg ≠ none → queue.messages = 0
  /-- The batches, in the order of the replies, and the queue are what arrived. -/
  batches : ∃ (outcomes : List (Option (List (List UInt8)))) (queued : List (List UInt8)),
    List.Forall₂ Sent.HandsOver port.sent outcomes ∧
      outcomes.reduceOption.flatten ++ queued = arrived ∧ queue.messages = queued.length ∧
      queue.data.take queue.completeLen = kOpen :: sealed queued
  /-- The empty array is sent only when nothing is queued. -/
  empty_reply : ∀ s ∈ port.sent, s.reply = .text (ascii "[]") → s.queued = 0
  /-- The number of queued messages is one the counter of the source can hold. -/
  counter : queue.messages < 2 ^ 32

/-- What an object that exists does next: `expired` is its port after the timer has fired, and
`polled call` its port after one more `poll` call. -/
structure PollsAnswered (port : PollPort) (queue : RxBuffer) (expired : PollPort)
    (polled : PollCall → PollPort) : Prop where
  /-- The timer answers the pending request with the empty array, at an empty queue, and nothing is
  pending after that. -/
  timeout : expired.waiter = ⟨none, none⟩ ∧ expired.sent = port.sent ++
    port.waiter.msg.toList.map fun request => ⟨request, 0, .text (ascii "[]")⟩
  /-- A call in range that nobody waits in front of gets all messages that are queued. -/
  immediate : ∀ call : PollCall, call.Valid → port.waiter.msg = none → 0 < queue.messages →
    ∃ batch, queue.data.take queue.completeLen = kOpen :: sealed batch ∧
      (polled call).sent = port.sent ++ [⟨port.requests, queue.messages, .text (splice batch)⟩]

/-- The outcome of an answer of the mailbox. -/
def outcome (a : Answer (List UInt8) Reply) : Option (List (List UInt8)) :=
  match a.result with
  | .ok ms => some ms
  | .error _ => none

theorem reduceOption_map_outcome (as : List (Answer (List UInt8) Reply)) :
    (as.map outcome).reduceOption.flatten = as.flatMap Answer.messages := by
  induction as with
  | nil => rfl
  | cons a as ih =>
    rw [List.map_cons, List.flatMap_cons, ← ih, outcome, Answer.messages]
    cases a.result with
    | ok ms => rfl
    | error r => rfl

/-- A reply hands over what its answer does. -/
theorem Sent.Stands.handsOver {s : Sent} {a : Answer (List UInt8) Reply} (h : s.Stands a)
    (hnul : ∀ x ∈ a.messages, (0 : UInt8) ∉ x)
    (hwhole : ∀ ms, a.result = .ok ms → ms.length = a.queued) : s.HandsOver (outcome a) := by
  have hreply := h.reply
  rw [outcome]
  rw [Answer.messages] at hnul
  cases hr : a.result with
  | ok ms =>
    rw [hr] at hreply hnul
    exact ⟨hreply.trans (congrArg _ (cString_splice hnul)), (hwhole ms hr).trans h.queued.symm⟩
  | error r =>
    rw [hr] at hreply
    exact hreply.1 ▸ hreply.2

theorem handsOver_outcomes {sent : List Sent} {as : List (Answer (List UInt8) Reply)}
    (h : List.Forall₂ Sent.Stands sent as)
    (hnul : ∀ a ∈ as, ∀ x ∈ a.messages, (0 : UInt8) ∉ x)
    (hwhole : ∀ a ∈ as, ∀ ms, a.result = .ok ms → ms.length = a.queued) :
    List.Forall₂ Sent.HandsOver sent (as.map outcome) := by
  induction h with
  | nil => exact .nil
  | @cons s a sent as hs h ih =>
    have ha : a ∈ a :: as := List.mem_cons_self
    refine .cons (hs.handsOver (hnul a ha) (hwhole a ha)) (ih ?_ ?_)
    · intro b hb
      exact hnul b (List.mem_cons_of_mem a hb)
    · intro b hb
      exact hwhole b (List.mem_cons_of_mem a hb)

theorem exists_answer {sent : List Sent} {as : List (Answer (List UInt8) Reply)}
    (h : List.Forall₂ Sent.Stands sent as) {s : Sent} (hs : s ∈ sent) :
    ∃ a ∈ as, s.Stands a := by
  induction h with
  | nil => cases hs
  | @cons t a sent as ht h ih =>
    rcases List.mem_cons.mp hs with rfl | hs
    · exact ⟨a, List.mem_cons_self, ht⟩
    · obtain ⟨b, hb, hsb⟩ := ih hs
      exact ⟨b, List.mem_cons_of_mem a hb, hsb⟩

/-- Only no message at all is written as the empty array, when no message is empty. -/
theorem eq_nil_of_splice {ps : List (List UInt8)} (hne : ∀ p ∈ ps, p ≠ [])
    (h : splice ps = ascii "[]") : ps = [] := by
  cases ps with
  | nil => rfl
  | cons p ps =>
    have hp : 0 < p.length := List.length_pos_iff.mpr (hne p (by simp))
    have hlen := congrArg List.length h
    have htwo : (ascii "[]").length = 2 := rfl
    have hle : p.length ≤ ([kComma].intercalate (p :: ps)).length := by
      cases ps with
      | nil => simp [List.intercalate]
      | cons p' ps =>
        rw [List.intercalate_cons_cons, List.length_append, List.length_append]
        omega
    rw [splice, List.length_cons, List.length_append, List.length_singleton, htwo] at hlen
    omega

namespace PollPort.Serves

variable {p : PollPort} {queue : RxBuffer} {m : Mailbox (List UInt8) Reply} {part : List UInt8}

/-- The requests of the replies are those of the answers. -/
theorem map_request (h : p.Serves queue m part) :
    p.sent.map Sent.request = m.answers.map Answer.request := by
  have hall : List.Forall₂ (fun a b => a = b) (p.sent.map Sent.request)
      (m.answers.map Answer.request) := by
    rw [List.forall₂_map_left_iff, List.forall₂_map_right_iff]
    exact h.sent.imp fun s a hs => hs.request
  exact List.forall₂_eq_eq_eq ▸ hall

/-- What is queued has arrived. -/
theorem queue_subset (h : p.Serves queue m part) : m.queue ⊆ m.arrived := by
  rw [← h.served.handed]
  exact List.subset_append_right _ _

/-- **The mailbox gives the protocol.** -/
theorem pollsServed (h : p.Serves queue m part) (hquiet : m.Quiet) {alive : Bool}
    (hgood : ∀ x ∈ m.arrived, x ≠ [] ∧ (0 : UInt8) ∉ x)
    (hdropped : m.abandoned ≠ none → alive = false)
    (hgone : alive = false → m.waiting = none) (hcap : queue.capacity < 2 ^ 33) :
    PollsServed p queue m.arrived alive p.requests := by
  have hmem : ∀ a ∈ m.answers, ∀ x ∈ a.messages, x ∈ m.arrived := by
    intro a ha x hx
    rw [← h.served.handed]
    exact List.mem_append_left _ (List.mem_flatMap.mpr ⟨a, ha, hx⟩)
  refine ⟨?_, fun hd => hdropped (h.dropped ▸ hd), fun ha => h.msg.trans (hgone ha), h.timer,
    fun hw => ?_, ⟨m.answers.map outcome, m.queue, ?_, ?_, h.messages, h.holds.take_completeLen⟩,
    fun s hs htext => ?_, h.holds.messages_lt (fun x hx => (hgood x (h.queue_subset hx)).1) hcap⟩
  · rw [h.map_request, h.msg, h.dropped, h.requests]
    exact h.served.account
  · rw [h.messages, hquiet (h.msg ▸ hw), List.length_nil]
  · exact handsOver_outcomes h.sent (fun a ha x hx => (hgood x (hmem a ha x hx)).2) h.served.whole
  · rw [reduceOption_map_outcome]
    exact h.served.handed
  · obtain ⟨a, ha, hsa⟩ := exists_answer h.sent hs
    have hreply := hsa.reply
    cases hr : a.result with
    | ok ms =>
      have hms : ∀ x ∈ ms, x ≠ [] ∧ (0 : UInt8) ∉ x := by
        intro x hx
        refine hgood x (hmem a ha x ?_)
        rwa [Answer.messages, hr]
      rw [hr, htext] at hreply
      have hsplice := (Reply.text.inj hreply).symm
      rw [cString_splice fun x hx => (hms x hx).2] at hsplice
      have hnil : ms = [] := eq_nil_of_splice (fun x hx => (hms x hx).1) hsplice
      rw [hsa.queued, ← h.served.whole a ha ms hr, hnil, List.length_nil]
    | error r =>
      rw [hr, htext] at hreply
      have hrefusal : Reply.IsRefusal (.text (ascii "[]")) := hreply.1 ▸ hreply.2
      exact absurd hrefusal (by simp only [Reply.IsRefusal]; decide)

/-- Nothing is pending, and the timer agrees. -/
theorem waiter_of_none (h : p.Serves queue m part) (hmsg : p.waiter.msg = none) :
    p.waiter = ⟨none, none⟩ := by
  have htimer := h.timer
  rw [hmsg, Option.isSome_none, Option.isSome_eq_false_iff, Option.isNone_iff_eq_none] at htimer
  rcases hw : p.waiter with ⟨msg, timer⟩
  rw [hw] at hmsg htimer
  exact congrArg₂ PollWaiter.mk hmsg htimer

/-- A timer that does not exist has nothing to answer. -/
theorem onTimeout_of_none (h : p.Serves queue m part) (htimer : ¬ p.waiter.timer.isSome = true) :
    p.onTimeout queue = p := by
  have hmsg : p.waiter.msg = none := by
    rw [h.timer, Bool.not_eq_true, Option.isSome_eq_false_iff, Option.isNone_iff_eq_none] at htimer
    exact htimer
  rw [PollPort.onTimeout, PollPort.reply, hmsg]

/-- **What the mailbox answers next.** -/
theorem pollsAnswered (h : p.Serves queue m part) (hquiet : m.Quiet)
    (hgood : ∀ x ∈ m.arrived, x ≠ [] ∧ (0 : UInt8) ∉ x) :
    PollsAnswered p queue (p.onTimeout queue) fun call =>
      (KwinApi.handlePollRequest p queue call).2.1 := by
  refine ⟨?_, fun call hcall hfree hmsgs => ⟨m.queue, h.holds.take_completeLen, ?_⟩⟩
  · rw [PollPort.onTimeout, PollPort.reply]
    cases hmsg : p.waiter.msg with
    | none => exact ⟨h.waiter_of_none hmsg, (List.append_nil _).symm⟩
    | some request =>
      have hzero : queue.messages = 0 := by
        rw [h.messages, hquiet (by rw [← h.msg, hmsg]; simp), List.length_nil]
      refine ⟨rfl, ?_⟩
      rw [hzero]
      rfl
  · have hbatch : cString queue.drainQueue.1 = splice m.queue := by
      rw [h.holds.drainQueue.1]
      exact cString_splice fun x hx => (hgood x (h.queue_subset hx)).2
    rw [handlePollRequest_of_messages hfree hmsgs hcall, ← hbatch]
    rfl

end PollPort.Serves

/-! ### The client objects -/

theorem Reading.readAll {bo : ByteOrder} {stream : List UInt8} {cap : ℕ}
    {handed : List (List UInt8)} {c : Client} {p : Peer} (h : Reading bo stream cap handed c p)
    (answers : List ReadAnswer) :
    let out := c.readAll bo p answers
    Reading bo stream cap handed out.client out.peer ∧ p.consumed <+: out.peer.consumed := by
  have htimes : ∀ n (c : Client) (p : Peer) (answers : List ReadAnswer),
      Reading bo stream cap handed c p →
      Reading bo stream cap handed (c.readTimes bo n p answers).client
        (c.readTimes bo n p answers).peer ∧
      p.consumed <+: (c.readTimes bo n p answers).peer.consumed := by
    intro n
    induction n with
    | zero => exact fun c p answers h => ⟨(h.read answers).1, c.consumed_read bo p answers⟩
    | succ n ih =>
      intro c p answers h
      rw [Client.readTimes]
      split_ifs
      · obtain ⟨hr, hpre⟩ := ih _ _ (c.read bo p answers).answers (h.read answers).1
        exact ⟨hr, (c.consumed_read bo p answers).trans hpre⟩
      · exact ⟨(h.read answers).1, c.consumed_read bo p answers⟩
  exact htimes _ c p answers h

/-- A client, its port and its socket stand for the mailbox `m`; the decoder has handed over and
queued what the mailbox has. -/
structure ClientServes (bo : ByteOrder) (stream : List UInt8) (cap : ℕ) (c : Client)
    (port : PollPort) (p : Peer) (m : Mailbox (List UInt8) Reply) (part : List UInt8) : Prop where
  serves : port.Serves c.rx m part
  decodes : c.Decodes bo p.consumed m.handed m.queue part
  capacity : c.rx.capacity = cap
  stream : p.consumed ++ p.inbox = stream
  calls : ∀ r ∈ p.calls, r.Safe

namespace ClientServes

variable {bo : ByteOrder} {stream : List UInt8} {cap : ℕ} {c : Client} {port : PollPort}
  {p : Peer} {m : Mailbox (List UInt8) Reply} {part : List UInt8}

/-- What arrived are the legal payloads of the frames read in full. -/
theorem arrived (h : ClientServes bo stream cap c port p m part) :
    m.arrived = legalPayloads (frames (wireHeader bo) p.consumed) := by
  rw [h.decodes.legalPayloads, h.serves.served.handed]

theorem arrived_subset (h : ClientServes bo stream cap c port p m part) :
    m.arrived ⊆ legalPayloads (frames (wireHeader bo) stream) := by
  obtain ⟨ms, hms⟩ := h.decodes.legalPayloads_append p.inbox
  rw [← h.stream, hms, ← h.serves.served.handed]
  exact List.subset_append_left _ _

/-- The payloads of legal frames are not empty. -/
theorem ne_nil_of_arrived (h : ClientServes bo stream cap c port p m part) :
    ∀ x ∈ m.arrived, x ≠ [] := by
  intro x hx
  obtain ⟨f, hf, rfl⟩ := List.mem_map.mp (h.arrived_subset hx)
  have hlegal : Legal f.payload.length := by simpa using (List.mem_filter.mp hf).2
  exact List.length_pos_iff.mp hlegal.1

/-- **The read loop** is an arrival. -/
theorem readAll (h : ClientServes bo stream cap c port p m part) (answers : List ReadAnswer) :
    let out := c.readAll bo p answers
    ∃ ms part', ClientServes bo stream cap out.client port out.peer (m.arrive ms) part' := by
  have hreading : Reading bo stream cap m.handed c p :=
    ⟨⟨m.queue, part, h.decodes⟩, h.capacity, h.stream, h.calls⟩
  obtain ⟨⟨⟨q, part', hd⟩, hcap, hstream, hcalls⟩, T, hT⟩ := hreading.readAll answers
  obtain ⟨ms, hms⟩ := h.decodes.legalPayloads_append T
  rw [hT, hd.legalPayloads, List.append_assoc, List.append_cancel_left_eq] at hms
  subst hms
  exact ⟨ms, part', ⟨hd.holds, h.serves.msg, h.serves.timer, h.serves.requests, h.serves.sent,
    h.serves.dropped, h.serves.served.arrive ms⟩, hd, hcap, hstream, hcalls⟩

/-- The port has answered, and the pause may have been lifted. -/
theorem answered {s : Session} {m' : Mailbox (List UInt8) Reply} {r : RxBuffer × PollPort × Bool}
    (h : ClientServes bo stream cap s.client port p m part) (hr : r.2.1.Serves r.1 m' part)
    (hdrains : Drains s.client.rx m m' r) :
    ClientServes bo stream cap (s.answered r).client (s.answered r).port p m' part := by
  obtain ⟨rx, port', flag⟩ := r
  have hresumed : ∀ (t : Session), ClientServes bo stream cap t.client t.port p m' part →
      ClientServes bo stream cap t.onRxDrained.client t.onRxDrained.port p m' part := by
    intro t ht
    rw [Session.onRxDrained]
    split_ifs
    · exact ⟨ht.serves, ht.decodes.rxResume, ht.capacity, ht.stream, ht.calls⟩
    · exact ht
  rcases hdrains with ⟨rfl, rfl, hq, hhanded⟩ | ⟨rfl, rfl, hq, hhanded⟩
  · refine ⟨hr, ?_, h.capacity, h.stream, h.calls⟩
    rw [hq, hhanded]
    exact h.decodes
  · refine hresumed _ ⟨hr, ?_, ?_, h.stream, h.calls⟩
    · rw [hq, hhanded]
      exact h.decodes.drainQueue
    · rw [← h.capacity]
      exact (RxBuffer.capacity_drain _).trans (RxBuffer.capacity_poll _)

theorem setTx (h : ClientServes bo stream cap c port p m part) (tx : TxBuffer) :
    ClientServes bo stream cap { c with tx := tx } port p m part :=
  ⟨h.serves, h.decodes.setTx tx, h.capacity, h.stream, h.calls⟩

variable {s : Session}

theorem updateIoEvents (h : ClientServes bo stream cap s.client s.port p m part) :
    ClientServes bo stream cap s.updateIoEvents.client s.updateIoEvents.port p m part := h

/-- **The messages that came in wake the pending request.** -/
theorem onRxMessages (h : ClientServes bo stream cap s.client s.port p m part) :
    ClientServes bo stream cap s.onRxMessages.client s.onRxMessages.port p m.wake part := by
  obtain ⟨hserves, hdrains⟩ := h.serves.maybeReplyPendingPoll
  exact h.answered hserves hdrains

/-- **One `poll` call.** -/
theorem handlePoll (h : ClientServes bo stream cap s.client s.port p m part) (call : PollCall) :
    ∃ m', Mailbox.Requested m m' ∧
      ClientServes bo stream cap (s.handlePoll call).client (s.handlePoll call).port p m' part := by
  obtain ⟨m', hreq, hserves, hdrains⟩ :=
    h.serves.handlePollRequest call
  exact ⟨m', hreq, h.answered hserves hdrains⟩

/-- **The readable part of the callback**: messages arrive, and a pending request is woken. -/
theorem drainInput (h : ClientServes bo stream cap s.client s.port p m part)
    (answers : List ReadAnswer) :
    let r := s.drainInput bo p answers
    ∃ ms part', ClientServes bo stream cap r.1.client r.1.port r.2.1 (m.arrive ms).wake part' := by
  obtain ⟨ms, part', hread⟩ := h.readAll answers
  refine ⟨ms, part', ?_⟩
  let t : Session := { s with
    client := (s.client.readAll bo p answers).client
    rxPaused := s.rxPaused || decide ((s.client.readAll bo p answers).result = .paused) }
  have ht : ClientServes bo stream cap t.client t.port (s.client.readAll bo p answers).peer
    (m.arrive ms) part' := hread
  simp only [Session.drainInput]
  split_ifs with hmsgs
  · exact ht.onRxMessages
  · rw [Mailbox.wake_of_nil (hread.decodes.holds.eq_nil_of_messages (Nat.eq_zero_of_not_pos hmsgs))]
    exact ht

theorem flushOutput (h : ClientServes bo stream cap s.client s.port p m part)
    (answers : List SendAnswer) :
    ClientServes bo stream cap (s.flushOutput answers).1.client (s.flushOutput answers).1.port p m
      part := by
  have hflush : ClientServes bo stream cap (s.client.flush answers).2 s.port p m part := by
    rw [Client.flush]
    split_ifs
    · exact h
    · exact h.setTx _
  rw [Session.flushOutput]
  split <;> rename_i hc <;> rwa [hc] at hflush

theorem push (h : ClientServes bo stream cap s.client s.port p m part) (msg : List UInt8) :
    ClientServes bo stream cap (s.push bo msg).2.client (s.push bo msg).2.port p m part := by
  have hpush : ClientServes bo stream cap (s.client.push bo msg).2 s.port p m part := by
    rw [Client.push]
    split_ifs
    · exact h
    · exact h.setTx _
  rw [Session.push]
  split <;> rename_i hc <;> rwa [hc] at hpush

/-- **One callback of the io source** is an arrival followed by a wake-up: what comes after reading
leaves the mailbox alone. -/
theorem handleIo (h : ClientServes bo stream cap s.client s.port p m part) (hquiet : m.Quiet)
    (revents : Revents) (reads : List ReadAnswer) (sends : List SendAnswer) :
    let r := s.handleIo bo p revents reads sends
    ∃ ms part', ClientServes bo stream cap r.1.client r.1.port r.2.1 (m.arrive ms).wake part' := by
  have hread : ∃ ms part',
      let r := if revents.epollin then s.drainInput bo p reads else (s, p, false)
      ClientServes bo stream cap r.1.client r.1.port r.2.1 (m.arrive ms).wake part' := by
    split_ifs
    · exact h.drainInput reads
    · refine ⟨[], part, ?_⟩
      rwa [Mailbox.arrive_nil, hquiet.wake_eq]
  obtain ⟨ms, part', hr⟩ := hread
  refine ⟨ms, part', ?_⟩
  simp only [Session.handleIo]
  split_ifs at hr ⊢ <;> first | exact hr | exact hr.flushOutput sends

end ClientServes

/-! ### The two runs -/

namespace SessionLink

/-- A session stands for a mailbox in which nobody waits in vain, and which is closed when the
session is gone. -/
def Inv (bo : ByteOrder) (stream : List UInt8) (cap : ℕ) (l : SessionLink) : Prop :=
  ∃ m part, ClientServes bo stream cap l.session.client l.session.port l.peer m part ∧ m.Quiet ∧
    (m.abandoned ≠ none → l.alive = false) ∧ (l.alive = false → m.waiting = none)

variable {bo : ByteOrder} {stream : List UInt8} {cap : ℕ}

/-- The connection is over: the session stops waiting. -/
theorem Inv.destroy {l : SessionLink} (h : l.Inv bo stream cap) (halive : l.alive = true) :
    l.destroy.Inv bo stream cap := by
  obtain ⟨m, part, hc, hquiet, habandoned, -⟩ := h
  have hopen : m.abandoned = none := by
    by_contra hne
    exact absurd (halive.symm.trans (habandoned hne)) (by decide)
  exact ⟨m.close, part, ⟨hc.serves.cancel hopen, hc.decodes, hc.capacity, hc.stream, hc.calls⟩,
    .close, fun _ => rfl, fun _ => rfl⟩

/-- **One callback of the io source.** -/
theorem Inv.onIo {l : SessionLink} (h : l.Inv bo stream cap) (halive : l.alive = true)
    (revents : Revents) (reads : List ReadAnswer) (sends : List SendAnswer) :
    (l.onIo bo revents reads sends).Inv bo stream cap := by
  rw [SessionLink.onIo]
  split
  · exact h
  rename_i mask hmask
  obtain ⟨m, part, hc, hquiet, habandoned, -⟩ := h
  let rev : Revents := { revents with
    epollin := revents.epollin && mask.epollin
    epollout := revents.epollout && mask.epollout }
  obtain ⟨ms, part', hr⟩ := hc.handleIo hquiet rev reads sends
  have hinv : ({ l with
      session := (l.session.handleIo bo l.peer rev reads sends).1
      peer := (l.session.handleIo bo l.peer rev reads sends).2.1 } : SessionLink).Inv bo stream
        cap := by
    refine ⟨(m.arrive ms).wake, part', hr, .wake, by rwa [Mailbox.abandoned_wake], ?_⟩
    intro hdead
    exact absurd (halive.symm.trans hdead) (by decide)
  simp only
  split_ifs
  · exact hinv.destroy halive
  · exact hinv

/-- **One thing that happens to a session.** -/
theorem Inv.step {l : SessionLink} (h : l.Inv bo stream cap) (op : SessionOp) :
    (l.step bo op).Inv bo stream cap := by
  unfold SessionLink.step
  by_cases halive : l.alive = true
  · rw [if_neg (not_not.mpr halive)]
    cases op with
    | io revents reads sends => exact h.onIo halive revents reads sends
    | poll call =>
      obtain ⟨m, part, hc, hquiet, habandoned, -⟩ := h
      obtain ⟨m', hreq, hc'⟩ := hc.handlePoll call
      refine ⟨m', part, hc', hreq.quiet hquiet, ?_, ?_⟩
      · rwa [hreq.abandoned]
      · intro hdead
        exact absurd (halive.symm.trans hdead) (by decide)
    | push msg =>
      obtain ⟨m, part, hc, hrest⟩ := h
      exact ⟨m, part, hc.push msg, hrest⟩
    | timeout =>
      obtain ⟨m, part, hc, hquiet, habandoned, hgone⟩ := h
      simp only
      split_ifs
      · refine ⟨m.expire, part, ⟨hc.serves.onTimeout hquiet, ?_, hc.capacity, hc.stream, hc.calls⟩,
          .expire, by rwa [Mailbox.abandoned_expire], ?_⟩
        · rw [Mailbox.handed_expire, Mailbox.queue_expire]
          exact hc.decodes
        · intro hdead
          exact absurd (halive.symm.trans hdead) (by decide)
      · exact ⟨m, part, hc, hquiet, habandoned, hgone⟩
    | destroy => exact h.destroy halive
  · rwa [if_pos halive]

theorem inv_init {id : ℕ} {fd : ℤ} {rxCap txCap : ℕ} {s : Session}
    (h : Session.make id fd rxCap txCap = .ok s) (bo : ByteOrder) (stream : List UInt8)
    (closed : Bool) :
    (init s stream closed).Inv bo stream (effectiveCap rxCap) := by
  obtain ⟨c, hc, rfl⟩ := Session.eq_of_make h
  obtain ⟨hd, hcap⟩ := @Client.Decodes.make bo c fd rxCap txCap hc
  exact ⟨.empty, [], ⟨.init hd.holds, hd, hcap, rfl, by simp [init]⟩, Mailbox.quiet_empty,
    fun hne => absurd rfl hne, fun _ => rfl⟩

/-- **A whole run of a session.** -/
theorem inv_run {id : ℕ} {fd : ℤ} {rxCap txCap : ℕ} {s : Session}
    (h : Session.make id fd rxCap txCap = .ok s) (bo : ByteOrder) (stream : List UInt8)
    (closed : Bool) (ops : List SessionOp) :
    (ops.foldl (SessionLink.step bo) (init s stream closed)).Inv bo stream (effectiveCap rxCap) :=
  List.foldlRecOn ops (SessionLink.step bo) (inv_init h bo stream closed) fun _ hl op _ =>
    hl.step op

/-- The number of messages queued is one the counter of the source can hold. -/
theorem Inv.messages_lt {l : SessionLink} (h : l.Inv bo stream cap) (hcap : cap < 2 ^ 33) :
    l.session.client.rx.messages < 2 ^ 32 := by
  obtain ⟨m, part, hc, -⟩ := h
  refine hc.serves.holds.messages_lt (fun x hx => ?_) (hc.capacity ▸ hcap)
  exact hc.ne_nil_of_arrived x (hc.serves.queue_subset hx)

/-- What the session answers next. -/
theorem Inv.pollsAnswered {l : SessionLink} (h : l.Inv bo stream cap)
    (hnul : ∀ x ∈ legalPayloads (frames (wireHeader bo) stream), (0 : UInt8) ∉ x)
    (halive : l.alive = true) : PollsAnswered l.session.port l.session.client.rx
      (l.step bo .timeout).session.port fun call => (l.step bo (.poll call)).session.port := by
  obtain ⟨m, part, hc, hquiet, -⟩ := h
  have hanswered := hc.serves.pollsAnswered hquiet fun x hx =>
    ⟨hc.ne_nil_of_arrived x hx, hnul x (hc.arrived_subset hx)⟩
  have hexpired : (l.step bo .timeout).session.port =
      l.session.port.onTimeout l.session.client.rx := by
    rw [SessionLink.step, if_neg (not_not.mpr halive)]
    simp only
    split_ifs with htimer
    · rfl
    · exact (hc.serves.onTimeout_of_none htimer).symm
  have hpolled : ∀ call, (l.step bo (.poll call)).session.port =
      (handlePollRequest l.session.port l.session.client.rx call).2.1 := by
    intro call
    rw [SessionLink.step, if_neg (not_not.mpr halive)]
    exact Session.port_answered _ _
  simp only [hexpired, hpolled]
  exact hanswered

end SessionLink

namespace DaemonLink

/-- The object stands for a mailbox with the messages that were accepted. -/
def Inv (l : DaemonLink) : Prop :=
  ∃ m, l.object.port.Serves l.object.controlQueue m [] ∧ m.Quiet ∧ m.arrived = l.accepted ∧
    (∀ x ∈ m.arrived, x ≠ [] ∧ (0 : UInt8) ∉ x) ∧ (m.abandoned ≠ none → l.alive = false) ∧
    (l.alive = false → m.waiting = none)

theorem inv_init {d : DaemonObject} (h : DaemonObject.make = .ok d) : (init d).Inv := by
  obtain ⟨q, hq, rfl⟩ := DaemonObject.eq_of_make h
  exact ⟨.empty, .init (RxBuffer.Holds.make hq).1, Mailbox.quiet_empty, rfl,
    by simp [Mailbox.empty], fun hne => absurd rfl hne, fun _ => rfl⟩

/-- **A control event** is an arrival followed by a wake-up, when the queue has room. -/
theorem Inv.control {l : DaemonLink} (h : l.Inv) (halive : l.alive = true) (event : ControlEvent)
    (id : ℕ) : (l.step (.control event id)).Inv := by
  obtain ⟨m, hs, hquiet, harrived, hgood, habandoned, hgone⟩ := h
  unfold DaemonLink.step
  rw [if_neg (not_not.mpr halive)]
  have happend := (@RxBuffer.Holds.append _ _ hs.holds (controlMessage event id)).2
  rcases hq : l.object.controlQueue.append (controlMessage event id) with ⟨r, q⟩
  simp only [DaemonObject.enqueueControl, hq]
  split_ifs at happend ⊢ with hfit
  · obtain ⟨hok, hholds⟩ := happend
    rw [hq] at hok hholds
    subst hok
    have hs' : l.object.port.Serves q (m.arrive [controlMessage event id]) [] :=
      ⟨hholds, hs.msg, hs.timer, hs.requests, hs.sent, hs.dropped, hs.served.arrive _⟩
    have hgood' : ∀ x ∈ (m.arrive [controlMessage event id]).arrived, x ≠ [] ∧ (0 : UInt8) ∉ x := by
      intro x hx
      rcases List.mem_append.mp hx with hx | hx
      · exact hgood x hx
      · rw [List.mem_singleton.mp hx]
        exact ⟨controlMessage_ne_nil event id, zero_not_mem_controlMessage event id⟩
    have hwake := hs'.maybeReplyPendingPoll.1
    refine ⟨(m.arrive [controlMessage event id]).wake, hwake, .wake, ?_, ?_, ?_, ?_⟩
    · rw [Mailbox.arrived_wake]
      exact congrArg (· ++ _) harrived
    · rwa [Mailbox.arrived_wake]
    · rwa [Mailbox.abandoned_wake]
    · intro hdead
      exact absurd (halive.symm.trans hdead) (by decide)
  · rw [hq] at happend
    obtain ⟨rfl, rfl⟩ := Prod.mk.inj happend
    exact ⟨m, hs, hquiet, harrived, hgood, habandoned, hgone⟩

/-- **One thing that happens to the object.** -/
theorem Inv.step {l : DaemonLink} (h : l.Inv) (op : DaemonOp) : (l.step op).Inv := by
  by_cases halive : l.alive = true
  · cases op with
    | control event id => exact h.control halive event id
    | poll call =>
      obtain ⟨m, hs, hquiet, harrived, hgood, habandoned, -⟩ := h
      obtain ⟨m', hreq, hs', -⟩ := hs.handlePollRequest call
      unfold DaemonLink.step
      rw [if_neg (not_not.mpr halive)]
      refine ⟨m', hs', hreq.quiet hquiet, hreq.arrived.trans harrived, ?_, ?_, ?_⟩
      · rwa [hreq.arrived]
      · rwa [hreq.abandoned]
      · intro hdead
        exact absurd (halive.symm.trans hdead) (by decide)
    | timeout =>
      obtain ⟨m, hs, hquiet, harrived, hgood, habandoned, hgone⟩ := h
      unfold DaemonLink.step
      rw [if_neg (not_not.mpr halive)]
      simp only
      split_ifs
      · refine ⟨m.expire, hs.onTimeout hquiet, .expire, ?_, ?_, ?_, ?_⟩
        · exact m.arrived_expire.trans harrived
        · rwa [Mailbox.arrived_expire]
        · rwa [Mailbox.abandoned_expire]
        · intro hdead
          exact absurd (halive.symm.trans hdead) (by decide)
      · exact ⟨m, hs, hquiet, harrived, hgood, habandoned, hgone⟩
    | destroy =>
      obtain ⟨m, hs, hquiet, harrived, hgood, habandoned, -⟩ := h
      have hopen : m.abandoned = none := by
        by_contra hne
        exact absurd (halive.symm.trans (habandoned hne)) (by decide)
      unfold DaemonLink.step
      rw [if_neg (not_not.mpr halive)]
      exact ⟨m.close, hs.cancel hopen, .close, harrived, hgood, fun _ => rfl, fun _ => rfl⟩
  · unfold DaemonLink.step
    rwa [if_pos halive]

theorem inv_run {d : DaemonObject} (h : DaemonObject.make = .ok d) (ops : List DaemonOp) :
    (ops.foldl step (init d)).Inv :=
  List.foldlRecOn ops step (inv_init h) fun _ hl op _ => hl.step op

/-- The capacity of the control queue stays what it is. -/
theorem capacity_step (l : DaemonLink) (op : DaemonOp) :
    (l.step op).object.controlQueue.capacity = l.object.controlQueue.capacity := by
  by_cases halive : l.alive = true
  swap
  · rw [step.eq_def, if_pos halive]
  rw [step.eq_def, if_neg (not_not.mpr halive)]
  cases op with
  | control event id =>
    have happend := l.object.controlQueue.capacity_append (controlMessage event id)
    simp only [DaemonObject.enqueueControl]
    split <;> rename_i hq <;> rw [hq] at happend
    · exact happend
    · exact (capacity_maybeReplyPendingPoll _ _).trans happend
  | poll call => exact capacity_handlePollRequest _ _ _
  | timeout =>
    simp only
    split_ifs <;> rfl
  | destroy => rfl

theorem capacity_run {d : DaemonObject} (h : DaemonObject.make = .ok d) (ops : List DaemonOp) :
    (ops.foldl step (init d)).object.controlQueue.capacity = kControlQueueCap := by
  obtain ⟨q, hq, rfl⟩ := DaemonObject.eq_of_make h
  exact List.foldlRecOn ops step (RxBuffer.Holds.make hq).2 fun l hl op _ =>
    (l.capacity_step op).trans hl

/-- The object serves its polls. -/
theorem Inv.pollsServed {l : DaemonLink} (h : l.Inv)
    (hcap : l.object.controlQueue.capacity = kControlQueueCap) :
    PollsServed l.object.port l.object.controlQueue l.accepted l.alive l.object.port.requests := by
  obtain ⟨m, hs, hquiet, harrived, hgood, habandoned, hgone⟩ := h
  have hserved := hs.pollsServed hquiet hgood habandoned hgone (by rw [hcap]; decide)
  rwa [harrived] at hserved

/-- What the object answers next. -/
theorem Inv.pollsAnswered {l : DaemonLink} (h : l.Inv) (halive : l.alive = true) :
    PollsAnswered l.object.port l.object.controlQueue (l.step .timeout).object.port
      fun call => (l.step (.poll call)).object.port := by
  obtain ⟨m, hs, hquiet, -, hgood, -⟩ := h
  have hanswered := hs.pollsAnswered hquiet hgood
  have hexpired : (l.step .timeout).object.port =
      l.object.port.onTimeout l.object.controlQueue := by
    rw [DaemonLink.step, if_neg (not_not.mpr halive)]
    simp only
    split_ifs with htimer
    · rfl
    · exact (hs.onTimeout_of_none htimer).symm
  have hpolled : ∀ call, (l.step (.poll call)).object.port =
      (handlePollRequest l.object.port l.object.controlQueue call).2.1 := by
    intro call
    rw [DaemonLink.step, if_neg (not_not.mpr halive)]
    rfl
  simp only [hexpired, hpolled]
  exact hanswered

end DaemonLink

/-! ### The protocol over every run -/

end KwinApi
