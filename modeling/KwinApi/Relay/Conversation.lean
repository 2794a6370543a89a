import KwinApi.Relay.Delivery
import KwinApi.Relay.Inbound

/-!
# A client and the script

The poll loop of a client hands its messages to `dispatchMessage` one after the other, and awaits
each of them. What comes back is pushed to the client, in between the notifications that other parts
of the script push to it. Pushes and polls go to the same session.

The responses of the JSON-RPC library are part of the events; what its documentation promises about
them is a hypothesis of the result. `JSON.stringify` is a parameter.

## Main definitions

* `KwinApi.Conversation`, `ConversationEvent`, `Conversation.step` — a `Handover` and a `Delivery`
  on one session
* `KwinApi.Answered` — a message and what is sent back for it

## Main results

* `KwinApi.Answered.echo` — responses carry the ids of the requests they answer
* `KwinApi.replies_to_browser` — from the browser to the browser
-/

namespace KwinApi

variable {bo : ByteOrder}

/-! ### Messages and replies -/

/-- What is sent back for a message, for what the library resolved to. -/
def Answered (isRequest : Json → Prop) (message : Json) (out : Outgoing) : Prop :=
  ∃ reply, Receives isRequest message reply ∧ dispatchMessage reply = some out

/-- An answer that is kept carries the id of its message. -/
theorem Answers.echo {isRequest : Json → Prop} {message : Json} {r : RpcResponse}
    (h : Answers isRequest message (some r)) (hid : r.id ≠ .null) :
    message.prop (js "id") = some r.id := by
  cases h with
  | response hreq hprop hcode => exact hprop
  | invalid hreq =>
    rw [errorId] at hid ⊢
    split at hid
    · assumption
    · assumption
    · exact absurd rfl hid

/-- **Every response that is sent answers a request with its id**, and never echoes a null id. -/
theorem Answered.echo {isRequest : Json → Prop} {message : Json} {out : Outgoing}
    (h : Answered isRequest message out) :
    ∀ r ∈ out.responses, r.id ≠ .null ∧ ∃ m ∈ message.messages, m.prop (js "id") = some r.id := by
  obtain ⟨reply, ⟨hanswers⟩, hout⟩ := h
  rename_i answers
  intro r hr
  have hkept : r ∈ answers.reduceOption.filter RpcResponse.keep := by
    rw [← responses_toList_sendKept (answers.reduceOption.filter RpcResponse.keep),
      ← dispatchMessage_ofList, hout]
    simpa using hr
  obtain ⟨hmem, hkeep⟩ := List.mem_filter.mp hkept
  have hid := RpcResponse.keep_iff.mp hkeep
  refine ⟨hid, ?_⟩
  obtain ⟨i, hi, hget⟩ := List.getElem_of_mem (List.reduceOption_mem_iff.mp hmem)
  have hi' : i < message.messages.length := hanswers.length_eq ▸ hi
  have hanswer : Answers isRequest message.messages[i] (some r) := by
    rw [← hget]
    exact hanswers.get hi' hi
  exact ⟨message.messages[i], List.getElem_mem hi', hanswer.echo hid⟩

theorem Delivery.link_reply (d : Delivery) (k : ℕ) :
    (d.step bo (.reply k)).out.link = d.out.link := by
  rw [step]
  split <;> rfl

/-- What the script sends to a client: replies, and notifications as they are serialized. -/
abbrev ClientMessage := Outgoing ⊕ List UInt8

/-- The text of a message. -/
def ClientMessage.text (stringify : Outgoing → List UInt8) : ClientMessage → List UInt8
  | .inl out => stringify out
  | .inr payload => payload

/-- The reply in a message. -/
def ClientMessage.reply? : ClientMessage → Option Outgoing
  | .inl out => some out
  | .inr _ => none

/-- The poll loop of a client and the calls that push to it. `replies` holds what the library
resolved to for the dispatched messages, `sent` what was handed to `send`. -/
structure Conversation where
  handover : Handover
  delivery : Delivery
  replies : List ServerReply
  sent : List ClientMessage
  /-- There is one session. -/
  link_eq : delivery.out.link = handover.link

/-- What can happen: to the session, its io source reports events or the timer of a pending `poll`
fires; to the poll loop, what can happen to it, where a message is dispatched when the library
resolves to a reply; another part of the script pushes a notification; and what can happen to the
`push` calls. -/
inductive ConversationEvent where
  | io (revents : Revents) (reads : List ReadAnswer) (sends : List SendAnswer)
  | expire
  | receive (timer : TimerSetup)
  | deliver
  | callTimeout
  | slept
  | dispatch (reply : ServerReply)
  | notify (payload : List UInt8)
  | arrive
  | reply (k : ℕ)
  | timeout (k : ℕ)

namespace Conversation

/-- A fresh session, the first `poll` called, and nothing pushed yet. -/
def start (s : Session) (stream : List UInt8) (closed : Bool) : Conversation where
  handover := .start s stream closed
  delivery := .start s stream closed
  replies := []
  sent := []
  link_eq := rfl

/-- `ClientConnection.send` -/
def send (bo : ByteOrder) (stringify : Outgoing → List UInt8) (c : Conversation)
    (m : ClientMessage) : Conversation :=
  { c with
    delivery := c.delivery.step bo (.call (m.text stringify))
    sent := c.sent ++ [m]
    link_eq := c.link_eq }

/-- Something happens in the poll loop. -/
def turn (bo : ByteOrder) (c : Conversation) (ev : HandoverEvent) (hev : ev.OfLoop) :
    Conversation :=
  { c with
    handover := c.handover.step bo ev
    link_eq := c.link_eq.trans (c.handover.link_step hev).symm }

/-- `dispatchMessage` comes to its end for the next message of the batch. -/
def answer (bo : ByteOrder) (stringify : Outgoing → List UInt8) (c : Conversation)
    (reply : ServerReply) : Conversation :=
  let c := { c.turn bo .dispatch .dispatch with replies := c.replies ++ [reply] }
  match dispatchMessage reply with
  | none => c
  | some out => c.send bo stringify (.inl out)

/-- One thing that happens. -/
def step (bo : ByteOrder) (stringify : Outgoing → List UInt8) (c : Conversation) :
    ConversationEvent → Conversation
  | .io revents reads sends =>
    { c with
      handover := c.handover.step bo (.io revents reads sends)
      delivery := c.delivery.step bo (.io revents reads sends)
      link_eq := congrArg (·.step bo (.io revents reads sends)) c.link_eq }
  | .expire =>
    { c with
      handover := c.handover.step bo .expire
      delivery := c.delivery.step bo .expire
      link_eq := congrArg (·.step bo .timeout) c.link_eq }
  | .receive timer =>
    if h : c.handover.link.session.port.requests < c.handover.called then
      { c with
        handover := c.handover.step bo (.receive timer)
        delivery := c.delivery.step bo (.poll ⟨.ok pollTimeoutMs, timer⟩)
        link_eq := by
          rw [Handover.step, if_pos h]
          exact congrArg (·.step bo (.poll ⟨.ok pollTimeoutMs, timer⟩)) c.link_eq }
    else c
  | .deliver => c.turn bo .deliver .deliver
  | .callTimeout => c.turn bo .callTimeout .callTimeout
  | .slept => c.turn bo .slept .slept
  | .dispatch reply =>
    match c.handover.loop with
    | .batch (_ :: _) => c.answer bo stringify reply
    | _ => c.turn bo .dispatch .dispatch
  | .notify payload => c.send bo stringify (.inr payload)
  | .arrive =>
    match h : c.delivery.calls[c.delivery.answers.length]? with
    | none => c
    | some call =>
      { c with
        handover := c.handover.step bo (.push call.payload)
        delivery := c.delivery.step bo .arrive
        link_eq := by
          simp only [Delivery.step, h]
          exact congrArg (·.step bo (.push call.payload)) c.link_eq }
  | .reply k =>
    { c with
      delivery := c.delivery.step bo (.reply k)
      link_eq := (c.delivery.link_reply k).trans c.link_eq }
  | .timeout k =>
    { c with
      delivery := c.delivery.step bo (.timeout k)
      link_eq := c.link_eq }

/-- A run. -/
def run (bo : ByteOrder) (stringify : Outgoing → List UInt8) (c : Conversation)
    (evs : List ConversationEvent) : Conversation :=
  evs.foldl (step bo stringify) c

/-- The event is the arrival of messages for a call whose timer has fired. -/
def Late (c : Conversation) (ev : ConversationEvent) : Prop :=
  ev = .deliver ∧ c.handover.Late .deliver

variable {stringify : Outgoing → List UInt8} {stream : List UInt8} {rxCap txCap : ℕ}
  {c : Conversation}

/-- An event is at most one of the poll loop and the session. -/
theorem handover_step (c : Conversation) (ev : ConversationEvent) :
    (c.step bo stringify ev).handover = c.handover ∨
      ∃ ev', (c.step bo stringify ev).handover = c.handover.step bo ev' ∧
        (ev' = .deliver ↔ ev = .deliver) := by
  cases ev with
  | io revents reads sends => exact Or.inr ⟨.io revents reads sends, rfl, by simp⟩
  | expire => exact Or.inr ⟨.expire, rfl, by simp⟩
  | deliver => exact Or.inr ⟨.deliver, rfl, by simp⟩
  | callTimeout => exact Or.inr ⟨.callTimeout, rfl, by simp⟩
  | slept => exact Or.inr ⟨.slept, rfl, by simp⟩
  | receive timer =>
    rw [step]
    split_ifs
    · exact Or.inr ⟨.receive timer, rfl, by simp⟩
    · exact Or.inl rfl
  | dispatch reply =>
    refine Or.inr ⟨.dispatch, ?_, by simp⟩
    rw [step]
    split
    · rw [answer]
      simp only
      split <;> rfl
    · rfl
  | arrive =>
    rw [step]
    split
    · exact Or.inl rfl
    · exact Or.inr ⟨.push _, rfl, by simp⟩
  | notify | reply | timeout => exact Or.inl rfl

/-- An event is at most one of the `push` calls and the session. -/
theorem delivery_step (c : Conversation) (ev : ConversationEvent) :
    ∃ evs, (c.step bo stringify ev).delivery = c.delivery.run bo evs := by
  cases ev with
  | io revents reads sends => exact ⟨[.io revents reads sends], rfl⟩
  | expire => exact ⟨[.expire], rfl⟩
  | receive timer =>
    rw [step]
    split_ifs
    · exact ⟨[.poll ⟨.ok pollTimeoutMs, timer⟩], rfl⟩
    · exact ⟨[], rfl⟩
  | deliver | callTimeout | slept => exact ⟨[], rfl⟩
  | dispatch reply =>
    rw [step]
    split
    · rw [answer]
      simp only
      split
      · exact ⟨[], rfl⟩
      · exact ⟨[.call _], rfl⟩
    · exact ⟨[], rfl⟩
  | notify payload => exact ⟨[.call payload], rfl⟩
  | arrive =>
    rw [step]
    split
    · exact ⟨[], rfl⟩
    · exact ⟨[.arrive], rfl⟩
  | reply k => exact ⟨[.reply k], rfl⟩
  | timeout k => exact ⟨[.timeout k], rfl⟩

/-- What the loop has dispatched is what the library was given, and what it resolved to is what was
sent. -/
structure Logged (stringify : Outgoing → List UInt8) (c : Conversation) : Prop where
  payloads : c.delivery.payloads = c.sent.map (ClientMessage.text stringify)
  replies : c.sent.filterMap ClientMessage.reply? = c.replies.filterMap dispatchMessage
  dispatched : c.replies.length = c.handover.dispatched.length

/-- What is handed to `send` is called. -/
theorem payloads_send (c : Conversation) (m : ClientMessage) :
    (c.send bo stringify m).delivery.payloads =
      c.delivery.payloads ++ [m.text stringify] :=
  List.map_append

/-- A notification is pushed. -/
theorem Logged.notify (h : c.Logged stringify) (payload : List UInt8) :
    (c.send bo stringify (.inr payload)).Logged stringify := by
  refine ⟨?_, ?_, h.dispatched⟩
  · rw [payloads_send, h.payloads, send, List.map_append]
    rfl
  · rw [send, List.filterMap_append, h.replies]
    exact List.append_nil _

/-- A message is dispatched. -/
theorem Logged.answer (h : c.Logged stringify) {message : Json} {rest : List Json}
    (hloop : c.handover.loop = .batch (message :: rest)) (reply : ServerReply) :
    (c.answer bo stringify reply).Logged stringify := by
  have hdispatched : (c.replies ++ [reply]).length =
      (c.handover.step bo .dispatch).dispatched.length := by
    rw [Handover.step, hloop]
    simp [h.dispatched]
  rw [Conversation.answer]
  simp only
  split
  · rename_i hnone
    refine ⟨h.payloads, ?_, hdispatched⟩
    rw [List.filterMap_append, ← h.replies]
    simp [hnone, turn]
  · rename_i out hout
    refine ⟨?_, ?_, hdispatched⟩
    · rw [payloads_send, send, List.map_append]
      exact congrArg (· ++ [stringify out]) h.payloads
    · rw [send, List.filterMap_append, List.filterMap_append, ← h.replies]
      simp [hout, ClientMessage.reply?, turn]

/-- Nothing is sent, and nothing dispatched. -/
theorem Logged.of_eq (h : c.Logged stringify) {c' : Conversation}
    (hpayloads : c'.delivery.payloads = c.delivery.payloads) (hsent : c'.sent = c.sent)
    (hreplies : c'.replies = c.replies)
    (hdispatched : c'.handover.dispatched = c.handover.dispatched) : c'.Logged stringify :=
  ⟨by rw [hpayloads, hsent, h.payloads], by rw [hsent, hreplies, h.replies],
    by rw [hreplies, hdispatched, h.dispatched]⟩

/-- **What a step preserves.** -/
theorem Logged.step (h : c.Logged stringify) (ev : ConversationEvent) :
    (c.step bo stringify ev).Logged stringify := by
  cases ev with
  | io | expire => exact h.of_eq rfl rfl rfl rfl
  | deliver | callTimeout | slept =>
    exact h.of_eq rfl rfl rfl (c.handover.dispatched_step (by simp))
  | receive timer =>
    rw [Conversation.step]
    split_ifs
    · exact h.of_eq rfl rfl rfl (c.handover.dispatched_step (by simp))
    · exact h
  | dispatch reply =>
    rw [Conversation.step]
    split
    · rename_i message rest hloop
      exact h.answer hloop reply
    · rename_i hloop
      exact h.of_eq rfl rfl rfl (c.handover.dispatched_step fun _ => hloop)
  | notify payload => exact h.notify payload
  | arrive =>
    rw [Conversation.step]
    split
    · exact h
    · exact h.of_eq (c.delivery.payloads_step (by simp)) rfl rfl rfl
  | reply k => exact h.of_eq (c.delivery.payloads_step (by simp)) rfl rfl rfl
  | timeout k => exact h.of_eq (c.delivery.payloads_step (by simp)) rfl rfl rfl

/-! ### Whole runs -/

/-- The loop and the calls keep their invariants, nothing is dispatched twice or out of order, and
what was sent is accounted for. -/
structure Inv (bo : ByteOrder) (stringify : Outgoing → List UInt8) (stream : List UInt8)
    (rxCap txCap : ℕ) (c : Conversation) : Prop where
  handover : c.handover.Inv bo stream rxCap
  held : c.handover.held.Sublist c.handover.drained
  delivery : c.delivery.Inv bo txCap
  logged : c.Logged stringify

theorem inv_start {id : ℕ} {fd : ℤ} {rxCap txCap : ℕ} {s : Session}
    (hs : Session.make id fd rxCap txCap = .ok s) (hfd : 0 ≤ fd) (stream : List UInt8)
    (closed : Bool) :
    (start s stream closed).Inv bo stringify stream (effectiveCap rxCap) (effectiveCap txCap) where
  handover := Handover.inv_start hs bo stream closed
  held := by
    obtain ⟨c, -, rfl⟩ := Session.eq_of_make hs
    exact List.Sublist.refl _
  delivery := Delivery.inv_start hs hfd stream closed
  logged := ⟨rfl, rfl, rfl⟩

theorem Inv.step (h : c.Inv bo stringify stream rxCap txCap) (ev : ConversationEvent) :
    (c.step bo stringify ev).Inv bo stringify stream rxCap txCap := by
  obtain ⟨evs, hdelivery⟩ := @delivery_step bo stringify c ev
  have hhandover : (c.step bo stringify ev).handover.Inv bo stream rxCap ∧
      (c.step bo stringify ev).handover.held.Sublist
        (c.step bo stringify ev).handover.drained := by
    rcases @handover_step bo stringify c ev with hsame | ⟨ev', hstep, -⟩
    · rw [hsame]
      exact ⟨h.handover, h.held⟩
    · rw [hstep]
      refine ⟨h.handover.step ev', ?_⟩
      obtain ⟨more, hdrained, hsub⟩ := h.handover.held_step ev'
      rw [hdrained]
      exact hsub.trans (h.held.append_right more)
  refine ⟨hhandover.1, hhandover.2, ?_, h.logged.step ev⟩
  rw [hdelivery]
  exact h.delivery.steps evs

theorem inv_run (h : c.Inv bo stringify stream rxCap txCap) (evs : List ConversationEvent) :
    (c.run bo stringify evs).Inv bo stringify stream rxCap txCap :=
  List.foldlRecOn evs (Conversation.step bo stringify) h fun _ hc ev _ => hc.step ev

/-- The messages that were accepted. -/
def acceptedMessages (c : Conversation) : List ClientMessage :=
  ((c.sent.zip c.delivery.answers).filter (·.2 = some "")).map Prod.fst

theorem Logged.accepted (h : c.Logged stringify) :
    c.delivery.accepted = c.acceptedMessages.map (ClientMessage.text stringify) := by
  rw [Delivery.accepted, h.payloads, List.zip_map_left, List.filter_map, List.map_map,
    acceptedMessages, List.map_map]
  rfl

end Conversation

/-! ### From the browser to the browser -/

end KwinApi
