import KwinApi.Daemon.Text
import KwinApi.Lib.LongPoll
import KwinApi.Proto.RxBuffer
import Mathlib.Data.List.Forall2

/-!
# The `poll` method of the D-Bus objects

`PollWaiter` of `poll_waiter.cpp` and the functions of `dbus_util.cpp` that `/daemon` and
`/cli{id}` share. A `poll` call is answered with everything that is queued, or waits for the first
message or its timer, or is refused.

## The bus

A request is the number of the `poll` call to its object. `PollPort` is the D-Bus side of one
object: its waiter, and the replies handed to sd-bus in order. A text goes to sd-bus as a C
string, so it ends at its first NUL byte. When a handler returns a negative errno, sd-bus sends
the one error reply itself. `queued` and `dropped` are records of the model: the number of messages
that were queued when a reply was made, and the request that was pending when the object was
destroyed.

The callback `on_drained` touches neither the queue nor the waiter. The functions here return
whether it is due, and the object runs it.

## Main definitions

* `KwinApi.PollWaiter` — the pending request and its timer, with `arm` and `cancel`
* `KwinApi.handlePollRequest`, `maybeReplyPendingPoll`, `PollPort.onTimeout` — the three places a
  pending or new request is answered from
* `KwinApi.PollPort.Serves` — the port of an object refines a long-poll mailbox

## Main results

* `KwinApi.PollPort.Serves.handlePollRequest`, `Serves.maybeReplyPendingPoll`, `Serves.onTimeout`,
  `Serves.cancel` — each of them is an operation of the mailbox
-/

namespace KwinApi

open LongPoll

/-- The longest timeout of a `poll`, in milliseconds. -/
def kMaxPollTimeoutMs : ℤ := 25000

/-! ### The waiter -/

/-- The request that waits for a reply and the timer that ends the wait, each while it exists. -/
structure PollWaiter where
  msg : Option ℕ
  timer : Option ℕ
  deriving DecidableEq, Repr

/-- What the event loop answers when a timer is set up: the time, and whether it could be added. -/
structure TimerSetup where
  now : Except Errno ℕ
  addTime : Except Errno Unit

namespace PollWaiter

/-- A request is waiting for a reply. -/
def pending (w : PollWaiter) : Bool := w.msg.isSome

/-- Drop the pending request and its timer. -/
def cancel (_ : PollWaiter) : PollWaiter := ⟨none, none⟩

/-- Take over a request and set up its timer. -/
def arm (w : PollWaiter) (request : ℕ) (timeoutMs : ℤ) (t : TimerSetup) :
    Except Errno Unit × PollWaiter :=
  if timeoutMs ≤ 0 then (.error .EINVAL, w)
  else if w.pending then (.error .EBUSY, w)
  else
    let w := { w with msg := some request }
    match t.now with
    | .error e => (.error e, w.cancel)
    | .ok now =>
      match t.addTime with
      | .error e => (.error e, w.cancel)
      | .ok () => (.ok (), { w with timer := some (now + timeoutMs.toNat * 1000) })

/-- A free waiter takes the request over with its timer, or is free again. -/
theorem arm_of_free {w : PollWaiter} (hw : w.msg = none) {timeoutMs : ℤ} (ht : 0 < timeoutMs)
    (request : ℕ) (t : TimerSetup) :
    (∃ e, w.arm request timeoutMs t = (.error e, ⟨none, none⟩)) ∨
      ∃ deadline, w.arm request timeoutMs t = (.ok (), ⟨some request, some deadline⟩) := by
  rw [arm, if_neg (by omega), if_neg (by simp [pending, hw])]
  rcases t with ⟨now, addTime⟩
  cases now with
  | error e => exact .inl ⟨e, rfl⟩
  | ok now =>
    cases addTime with
    | error e => exact .inl ⟨e, rfl⟩
    | ok u => exact .inr ⟨_, rfl⟩

end PollWaiter

/-! ### The port of an object -/

/-- What goes back to the caller of `poll`. -/
inductive Reply where
  | text (s : List UInt8)
  | error (e : Errno)
  deriving DecidableEq, Repr

/-- A reply that was sent, with the number of messages queued when it was made. -/
structure Sent where
  request : ℕ
  queued : ℕ
  reply : Reply
  deriving DecidableEq, Repr

/-- The D-Bus side of one object. -/
structure PollPort where
  waiter : PollWaiter
  requests : ℕ
  sent : List Sent
  dropped : Option ℕ

/-- One call of `poll`: its argument, as far as it could be read, and what the event loop would
answer to a timer. -/
structure PollCall where
  timeout : Except Errno ℤ
  timer : TimerSetup

/-- The argument of the call is in range. -/
def PollCall.Valid (call : PollCall) : Prop :=
  ∃ t, call.timeout = .ok t ∧ 0 ≤ t ∧ t ≤ kMaxPollTimeoutMs

namespace PollPort

/-- A port nobody has called. -/
def init : PollPort := ⟨⟨none, none⟩, 0, [], none⟩

/-- `sd_bus_reply_method_return` with a text. -/
def sendText (p : PollPort) (request queued : ℕ) (text : List UInt8) : PollPort :=
  { p with sent := p.sent ++ [⟨request, queued, .text (cString text)⟩] }

/-- sd-bus answers for a handler that returned a negative errno. -/
def sendErrno (p : PollPort) (request queued : ℕ) (e : Errno) : PollPort :=
  { p with sent := p.sent ++ [⟨request, queued, .error e⟩] }

/-- `PollWaiter::reply`: send a text to the pending caller and clear the waiter. -/
def reply (p : PollPort) (queued : ℕ) (payload : List UInt8) : PollPort :=
  match p.waiter.msg with
  | none => p
  | some msg => { p with waiter := ⟨none, none⟩ }.sendText msg queued payload

/-- `PollWaiter::on_timeout`: the pending caller gets the empty array. -/
def onTimeout (p : PollPort) (queue : RxBuffer) : PollPort := p.reply queue.messages (ascii "[]")

/-- `PollWaiter::cancel` when the object is destroyed. -/
def cancel (p : PollPort) : PollPort :=
  { p with waiter := p.waiter.cancel, dropped := p.waiter.msg }

end PollPort

/-- If a request is pending and the queue has messages, answer it with the whole batch. The flag
says whether this happened. -/
def maybeReplyPendingPoll (p : PollPort) (queue : RxBuffer) : RxBuffer × PollPort × Bool :=
  if ¬ p.waiter.pending ∨ queue.messages = 0 then (queue, p, false)
  else (queue.drainQueue.2, p.reply queue.messages queue.drainQueue.1, true)

/-- Handle one `poll` call. The flag says whether the queue was drained. -/
def handlePollRequest (p : PollPort) (queue : RxBuffer) (call : PollCall) :
    RxBuffer × PollPort × Bool :=
  let message := p.requests
  let p := { p with requests := p.requests + 1 }
  let refuse (p : PollPort) (text : String) : PollPort :=
    p.sendText message queue.messages (jsonString (ascii text))
  match call.timeout with
  | .error e => (queue, p.sendErrno message queue.messages e, false)
  | .ok timeout =>
    if timeout < 0 ∨ kMaxPollTimeoutMs < timeout then
      (queue, refuse p "error: timeout out of range (0..25000)", false)
    else if p.waiter.pending then (queue, refuse p "error: a poll is already pending", false)
    else if 0 < queue.messages then
      (queue.drainQueue.2, p.sendText message queue.messages queue.drainQueue.1, true)
    else if timeout = 0 then (queue, p.sendText message queue.messages (ascii "[]"), false)
    else
      match p.waiter.arm message timeout call.timer with
      | (.error _, w) =>
        (queue, refuse { p with waiter := w } "error: cannot arm poll timer", false)
      | (.ok (), w) => (queue, { p with waiter := w }, false)

/-- A `poll` that nobody is waiting in front of takes the messages. -/
theorem handlePollRequest_of_messages {p : PollPort} {queue : RxBuffer} {call : PollCall}
    (hfree : p.waiter.msg = none) (hmsgs : 0 < queue.messages) (hcall : call.Valid) :
    handlePollRequest p queue call = (queue.drainQueue.2,
      { p with requests := p.requests + 1 }.sendText p.requests queue.messages queue.drainQueue.1,
      true) := by
  obtain ⟨t, ht, hnonneg, hle⟩ := hcall
  have hrange : ¬ (t < 0 ∨ kMaxPollTimeoutMs < t) := by omega
  have hnot : ¬ p.waiter.pending = true := by
    rw [PollWaiter.pending, hfree]
    decide
  rw [handlePollRequest, ht]
  simp only [if_neg hrange, if_neg hnot, if_pos hmsgs]

theorem capacity_maybeReplyPendingPoll (p : PollPort) (queue : RxBuffer) :
    (maybeReplyPendingPoll p queue).1.capacity = queue.capacity := by
  rw [maybeReplyPendingPoll]
  split_ifs
  · rfl
  · exact (RxBuffer.capacity_drain _).trans (RxBuffer.capacity_poll _)

theorem capacity_handlePollRequest (p : PollPort) (queue : RxBuffer) (call : PollCall) :
    (handlePollRequest p queue call).1.capacity = queue.capacity := by
  rw [handlePollRequest]
  split
  · rfl
  · simp only
    split_ifs
    · rfl
    · rfl
    · exact (RxBuffer.capacity_drain _).trans (RxBuffer.capacity_poll _)
    · rfl
    · split <;> rfl

/-! ### The port refines a mailbox -/

/-- The replies that hand over nothing: an error of sd-bus or one of the three error texts. -/
def Reply.IsRefusal : Reply → Prop
  | .error _ => True
  | .text s => s ∈ [jsonString (ascii "error: timeout out of range (0..25000)"),
      jsonString (ascii "error: a poll is already pending"),
      jsonString (ascii "error: cannot arm poll timer")]

/-- A reply stands for an answer of the mailbox: a refusal as it is, a batch as the C string of its
splice. -/
structure Sent.Stands (s : Sent) (a : Answer (List UInt8) Reply) : Prop where
  request : s.request = a.request
  queued : s.queued = a.queued
  reply : match a.result with
    | .ok ms => s.reply = .text (cString (splice ms))
    | .error r => s.reply = r ∧ r.IsRefusal

/-- The port and the queue of an object stand for a mailbox in which no law is broken; the timer
exists while a request is pending. -/
structure PollPort.Serves (p : PollPort) (queue : RxBuffer) (m : Mailbox (List UInt8) Reply)
    (part : List UInt8) : Prop where
  holds : queue.Holds m.queue part
  msg : p.waiter.msg = m.waiting
  timer : p.waiter.timer.isSome = p.waiter.msg.isSome
  requests : p.requests = m.requests
  sent : List.Forall₂ Sent.Stands p.sent m.answers
  dropped : p.dropped = m.abandoned
  served : m.Served

/-- What one of the functions above did to the queue: it was left alone with the flag unset, or
drained with the flag set and its messages handed over. -/
def Drains (queue : RxBuffer) (m m' : Mailbox (List UInt8) Reply)
    (r : RxBuffer × PollPort × Bool) : Prop :=
  (r.1 = queue ∧ r.2.2 = false ∧ m'.queue = m.queue ∧ m'.handed = m.handed) ∨
    (r.1 = queue.drainQueue.2 ∧ r.2.2 = true ∧ m'.queue = [] ∧ m'.handed = m.handed ++ m.queue)

namespace PollPort.Serves

variable {p : PollPort} {queue : RxBuffer} {m : Mailbox (List UInt8) Reply} {part : List UInt8}

theorem init (h : queue.Holds [] []) : PollPort.init.Serves queue .empty [] :=
  ⟨h, rfl, rfl, rfl, .nil, rfl, Mailbox.served_empty⟩

theorem messages (h : p.Serves queue m part) : queue.messages = m.queue.length := h.holds.messages

/-- One more reply, one more answer. -/
theorem sent_append (h : p.Serves queue m part) {s : Sent} {a : Answer (List UInt8) Reply}
    (hs : s.Stands a) : List.Forall₂ Sent.Stands (p.sent ++ [s]) (m.answers ++ [a]) :=
  List.rel_append h.sent (.cons hs .nil)

/-- A batch leaves as the array text of the whole queue. -/
theorem stands_batch (h : p.Serves queue m part) (request : ℕ) :
    Sent.Stands ⟨request, queue.messages, .text (cString queue.drainQueue.1)⟩
      ⟨request, m.queue.length, .ok m.queue⟩ := by
  refine ⟨rfl, h.messages, ?_⟩
  show Reply.text _ = .text _
  rw [h.holds.drainQueue.1]

/-- The empty array is the array text of no messages. -/
theorem stands_empty (h : p.Serves queue m part) (request : ℕ) :
    Sent.Stands ⟨request, queue.messages, .text (cString (ascii "[]"))⟩
      (⟨request, m.queue.length, .ok []⟩ : Answer (List UInt8) Reply) :=
  ⟨rfl, h.messages, rfl⟩

/-- An error text is refused as it is. -/
theorem stands_refusal (h : p.Serves queue m part) (request : ℕ) {text : String}
    (hr : Reply.IsRefusal (.text (jsonString (ascii text))))
    (hnul : (0 : UInt8) ∉ jsonString (ascii text)) :
    Sent.Stands ⟨request, queue.messages, .text (cString (jsonString (ascii text)))⟩
      (⟨request, m.queue.length, .error (.text (jsonString (ascii text)))⟩ :
        Answer (List UInt8) Reply) :=
  ⟨rfl, h.messages, by rw [cString_of_not_mem hnul], hr⟩

/-- A request that was refused with one of the error texts. -/
theorem refuse (h : p.Serves queue m part) {text : String}
    (hr : Reply.IsRefusal (.text (jsonString (ascii text))))
    (hnul : (0 : UInt8) ∉ jsonString (ascii text)) :
    ({ p with requests := p.requests + 1 }.sendText p.requests queue.messages
      (jsonString (ascii text))).Serves queue (m.refuse (.text (jsonString (ascii text))))
        part := by
  refine ⟨h.holds, h.msg, h.timer, congrArg (· + 1) h.requests, ?_, h.dropped, h.served.refuse _⟩
  show List.Forall₂ Sent.Stands (p.sent ++ [⟨p.requests, _, _⟩]) (m.answers ++ [⟨m.requests, _, _⟩])
  rw [← h.requests]
  exact h.sent_append (h.stands_refusal p.requests hr hnul)

/-- A request that found messages, or found none and did not want to wait. -/
theorem take (h : p.Serves queue m part) :
    ({ p with requests := p.requests + 1 }.sendText p.requests queue.messages
      queue.drainQueue.1).Serves queue.drainQueue.2 m.take part := by
  refine ⟨h.holds.drainQueue.2, h.msg, h.timer, congrArg (· + 1) h.requests, ?_, h.dropped,
    h.served.take⟩
  show List.Forall₂ Sent.Stands (p.sent ++ [⟨p.requests, _, _⟩]) (m.answers ++ [⟨m.requests, _, _⟩])
  rw [← h.requests]
  exact h.sent_append (h.stands_batch p.requests)

theorem take_nil (h : p.Serves queue m part) (hq : m.queue = []) :
    ({ p with requests := p.requests + 1 }.sendText p.requests queue.messages
      (ascii "[]")).Serves queue m.take part := by
  refine ⟨?_, h.msg, h.timer, congrArg (· + 1) h.requests, ?_, h.dropped, h.served.take⟩
  · have hholds := h.holds
    rwa [hq] at hholds
  · show List.Forall₂ Sent.Stands (p.sent ++ [⟨p.requests, _, _⟩])
      (m.answers ++ [⟨m.requests, m.queue.length, .ok m.queue⟩])
    have hs := h.stands_empty p.requests
    rw [hq] at hs
    rw [← h.requests, hq]
    exact h.sent_append hs

/-- **One `poll` call** is one request to the mailbox, whatever its argument is and whatever the
event loop answers. The queue is drained exactly when it was not empty and the call took it. -/
theorem handlePollRequest (h : p.Serves queue m part) (call : PollCall) :
    let out := KwinApi.handlePollRequest p queue call
    ∃ m', Mailbox.Requested m m' ∧ out.2.1.Serves out.1 m' part ∧ Drains queue m m' out := by
  rw [KwinApi.handlePollRequest]
  rcases call with ⟨timeout, timer⟩
  cases timeout with
  | error e =>
    refine ⟨m.refuse (.error e), .refused _, ⟨h.holds, h.msg, h.timer, congrArg (· + 1) h.requests,
      ?_, h.dropped, h.served.refuse _⟩, .inl ⟨rfl, rfl, rfl, Mailbox.handed_refuse _⟩⟩
    have hs : Sent.Stands ⟨p.requests, queue.messages, .error e⟩
        (⟨p.requests, m.queue.length, .error (.error e)⟩ : Answer (List UInt8) Reply) :=
      ⟨rfl, h.messages, rfl, trivial⟩
    show List.Forall₂ Sent.Stands (p.sent ++ [⟨p.requests, _, _⟩])
      (m.answers ++ [⟨m.requests, _, _⟩])
    rw [← h.requests]
    exact h.sent_append hs
  | ok timeout =>
    have hrefused : ∀ r, Drains queue m (m.refuse r) (queue, p, false) := fun r =>
      .inl ⟨rfl, rfl, rfl, Mailbox.handed_refuse r⟩
    simp only
    split_ifs with hrange hpend hmsgs hzero
    · exact ⟨_, .refused _, h.refuse (by simp [Reply.IsRefusal]) (by decide), hrefused _⟩
    · exact ⟨_, .refused _, h.refuse (by simp [Reply.IsRefusal]) (by decide), hrefused _⟩
    · exact ⟨_, .taken, h.take, .inr ⟨rfl, rfl, rfl, Mailbox.handed_take⟩⟩
    · have hnil : m.queue = [] := h.holds.eq_nil_of_messages (by omega)
      refine ⟨_, .taken, h.take_nil hnil, .inl ⟨rfl, rfl, hnil.symm, ?_⟩⟩
      rw [Mailbox.handed_take, hnil, List.append_nil]
    · have hfree : p.waiter.msg = none := by simpa [PollWaiter.pending] using hpend
      have hnil : m.queue = [] := h.holds.eq_nil_of_messages (by omega)
      have hpos : 0 < timeout := by omega
      rcases PollWaiter.arm_of_free hfree hpos p.requests timer with ⟨e, ha⟩ | ⟨d, ha⟩
      · rw [ha]
        have hcancel : ({ p with waiter := ⟨none, none⟩ } : PollPort).Serves queue m part :=
          ⟨h.holds, hfree ▸ h.msg, rfl, h.requests, h.sent, h.dropped, h.served⟩
        exact ⟨_, .refused _, hcancel.refuse (by simp [Reply.IsRefusal]) (by decide), hrefused _⟩
      · rw [ha]
        have hwait : m.waiting = none := h.msg ▸ hfree
        exact ⟨m.wait, .waits hwait hnil, ⟨h.holds, congrArg some h.requests, rfl,
          congrArg (· + 1) h.requests, h.sent, h.dropped, h.served.wait hwait⟩,
          .inl ⟨rfl, rfl, rfl, rfl⟩⟩

/-- **A pending request is woken** by the messages that have arrived. -/
theorem maybeReplyPendingPoll (h : p.Serves queue m part) :
    let out := KwinApi.maybeReplyPendingPoll p queue
    out.2.1.Serves out.1 m.wake part ∧ Drains queue m m.wake out := by
  rw [KwinApi.maybeReplyPendingPoll]
  cases hw : m.waiting with
  | none =>
    rw [if_pos (.inl (by simp [PollWaiter.pending, h.msg, hw])), Mailbox.wake_of_none hw]
    exact ⟨h, .inl ⟨rfl, rfl, rfl, rfl⟩⟩
  | some r =>
    have hmsg : p.waiter.msg = some r := h.msg.trans hw
    by_cases hm : queue.messages = 0
    · rw [if_pos (.inr hm), Mailbox.wake_of_nil (h.holds.eq_nil_of_messages hm)]
      exact ⟨h, .inl ⟨rfl, rfl, rfl, rfl⟩⟩
    · have hq : m.queue ≠ [] := fun hq => hm (by rw [h.messages, hq, List.length_nil])
      have hserved := h.served.wake
      have hhanded := Mailbox.handed_wake_of_some hw hq
      rw [if_neg (by simp [PollWaiter.pending, hmsg, hm]), PollPort.reply, hmsg]
      rw [Mailbox.wake_of_some hw hq] at hserved hhanded ⊢
      exact ⟨⟨h.holds.drainQueue.2, rfl, rfl, h.requests, h.sent_append (h.stands_batch r),
        h.dropped, hserved⟩, .inr ⟨rfl, rfl, rfl, hhanded⟩⟩

/-- **The timer fires.** -/
theorem onTimeout (h : p.Serves queue m part) (hq : m.Quiet) :
    (p.onTimeout queue).Serves queue m.expire part := by
  rw [PollPort.onTimeout, PollPort.reply, h.msg]
  cases hw : m.waiting with
  | none =>
    rw [Mailbox.expire_of_none hw]
    exact h
  | some r =>
    have hserved := h.served.expire hq
    rw [Mailbox.expire_of_some hw] at hserved ⊢
    exact ⟨h.holds, rfl, rfl, h.requests, h.sent_append (h.stands_empty r), h.dropped, hserved⟩

/-- **The object is destroyed.** -/
theorem cancel (h : p.Serves queue m part) (hd : m.abandoned = none) :
    p.cancel.Serves queue m.close part :=
  ⟨h.holds, rfl, rfl, h.requests, h.sent, h.msg, h.served.close hd⟩

end PollPort.Serves

end KwinApi
