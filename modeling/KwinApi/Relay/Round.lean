import KwinApi.Relay.Handover

/-!
# The call of a poll loop

Both loops of the script have one call of `poll` at a time. As long as no timer of a call fires, the
call is on its way to the object, or it waits there, or its reply, which is a text, is on its way
back, or there is none.

The lemmas know nothing of the object and the loop but the port and three numbers: the call that is
awaited, how many calls were made and how many replies came back.

## Main definitions

* `KwinApi.PollPort.Wakes` — the pending request gets a text
* `KwinApi.PollPort.Round` — where the call of the loop is

## Main results

* `KwinApi.PollPort.Round.wakes`, `Round.receive`, `Round.deliver`, `Round.call` — kept by whatever
  happens
-/

namespace KwinApi

/-! ### The pending request -/

/-- The pending request has got a text. -/
def PollPort.Wakes (p p' : PollPort) : Prop :=
  ∃ request queued raw, p.waiter.msg = some request ∧ p'.waiter.msg = none ∧
    p'.requests = p.requests ∧ p'.sent = p.sent ++ [⟨request, queued, .text raw⟩]

theorem PollPort.wakes_reply {p : PollPort} {request : ℕ} (h : p.waiter.msg = some request)
    (queued : ℕ) (payload : List UInt8) : p.Wakes (p.reply queued payload) := by
  rw [reply, h]
  exact ⟨request, queued, cString payload, h, rfl, rfl, rfl⟩

/-- A reply goes to the pending request, if there is one. -/
theorem PollPort.reply_cases (p : PollPort) (queued : ℕ) (payload : List UInt8) :
    p.reply queued payload = p ∨ p.Wakes (p.reply queued payload) := by
  cases hrequest : p.waiter.msg with
  | none =>
    left
    rw [reply, hrequest]
  | some request => exact Or.inr (wakes_reply hrequest queued payload)

/-- A free port wakes nobody. -/
theorem PollPort.not_wakes_of_free {p p' : PollPort} (hfree : p.waiter.msg = none) :
    ¬ p.Wakes p' := by
  rintro ⟨request, queued, raw, hrequest, -⟩
  rw [hfree] at hrequest
  cases hrequest

/-- A request is woken once. -/
theorem PollPort.wakes_trans {p p' p'' : PollPort} (h : p' = p ∨ p.Wakes p')
    (h' : p'' = p' ∨ p'.Wakes p'') : p'' = p ∨ p.Wakes p'' := by
  rcases h with rfl | hwakes
  · exact h'
  · have hfree : p'.waiter.msg = none := by
      obtain ⟨request, queued, raw, -, hfree, -⟩ := hwakes
      exact hfree
    rw [h'.resolve_right (not_wakes_of_free hfree)]
    exact Or.inr hwakes

/-- A pending request is woken by messages, and takes them all. -/
theorem maybeReplyPendingPoll_cases (p : PollPort) (queue : RxBuffer) :
    maybeReplyPendingPoll p queue = (queue, p, false) ∨
      (maybeReplyPendingPoll p queue).1 = queue.drainQueue.2 ∧
        p.Wakes (maybeReplyPendingPoll p queue).2.1 := by
  rw [maybeReplyPendingPoll]
  split_ifs with hnone
  · exact Or.inl rfl
  · obtain ⟨hpending, -⟩ := not_or.mp hnone
    obtain ⟨request, hrequest⟩ := Option.isSome_iff_exists.mp (not_not.mp hpending)
    exact Or.inr ⟨rfl, PollPort.wakes_reply hrequest _ _⟩

/-- The reply of a free object to a call of the loop: a text at once, or none yet. In either case no
message is left queued. -/
theorem handlePollRequest_of_free {p : PollPort} (hfree : p.waiter.msg = none) (queue : RxBuffer)
    (timer : TimerSetup) :
    let r := handlePollRequest p queue ⟨.ok pollTimeoutMs, timer⟩
    r.1.messages = 0 ∧ r.2.1.requests = p.requests + 1 ∧
      ((∃ queued raw, r.2.1.waiter.msg = none ∧
          r.2.1.sent = p.sent ++ [⟨p.requests, queued, .text raw⟩]) ∨
        r.2.1.waiter.msg = some p.requests ∧ r.2.1.sent = p.sent) := by
  have hrange : ¬ (pollTimeoutMs < 0 ∨ kMaxPollTimeoutMs < pollTimeoutMs) := by decide
  have hpending : ¬ p.waiter.pending = true := by simp [PollWaiter.pending, hfree]
  simp only [handlePollRequest]
  rw [if_neg hrange, if_neg hpending]
  split_ifs with hmessages hzero
  · exact ⟨RxBuffer.messages_drain _, rfl, Or.inl ⟨_, _, hfree, rfl⟩⟩
  · cases hzero
  · have hnone : queue.messages = 0 := Nat.eq_zero_of_not_pos hmessages
    rcases PollWaiter.arm_of_free hfree (show 0 < pollTimeoutMs by decide) p.requests timer with
      ⟨e, ha⟩ | ⟨d, ha⟩
    · rw [ha]
      exact ⟨hnone, rfl, Or.inl ⟨_, _, rfl, rfl⟩⟩
    · rw [ha]
      exact ⟨hnone, rfl, Or.inr ⟨rfl, rfl⟩⟩

namespace PollPort

/-! ### Where the call is -/

/-- Where the call of the loop is, as long as no timer of a call fires. -/
inductive Round (p : PollPort) (awaiting : Option ℕ) (called arrived : ℕ) : Prop
  /-- It is on its way to the object. -/
  | called (hloop : awaiting = some p.requests) (hcalled : called = p.requests + 1)
      (hfree : p.waiter.msg = none) (hall : arrived = p.sent.length)
  /-- It waits at the object. -/
  | pending {call : ℕ} (hloop : awaiting = some call) (hcalled : called = p.requests)
      (hwaits : p.waiter.msg = some call) (hall : arrived = p.sent.length)
  /-- Its reply is on its way back. -/
  | replied {r : Sent} {raw : List UInt8} (hloop : awaiting = some r.request)
      (hcalled : called = p.requests) (hfree : p.waiter.msg = none) (hreply : r.reply = .text raw)
      (hnext : p.sent.drop arrived = [r])
  /-- There is none. -/
  | idle (hloop : awaiting = none) (hcalled : called = p.requests) (hfree : p.waiter.msg = none)
      (hall : arrived = p.sent.length)

variable {p p' : PollPort} {awaiting : Option ℕ} {called arrived : ℕ}

theorem arrived_succ {r : Sent} (hnext : p.sent.drop arrived = [r]) :
    arrived + 1 = p.sent.length := by
  have hlen := congrArg List.length hnext
  rw [List.length_drop, List.length_singleton] at hlen
  omega

/-- The pending call of the loop gets its reply. -/
theorem Round.wakes (h : p.Round awaiting called arrived) (hp : p.Wakes p') :
    p'.Round awaiting called arrived := by
  obtain ⟨request, queued, raw, hwaiting, hfree', hrequests, hsent⟩ := hp
  cases h with
  | pending hloop hcalled hwaits hall =>
    rw [hwaiting] at hwaits
    cases hwaits
    have hnext : p'.sent.drop arrived = [⟨request, queued, .text raw⟩] := by
      rw [hsent, hall, List.drop_left]
    exact .replied hloop (hcalled.trans hrequests.symm) hfree' rfl hnext
  | called _ _ hfree | replied _ _ hfree | idle _ _ hfree =>
    rw [hfree] at hwaiting
    cases hwaiting

/-- A call that has not arrived yet finds the object free. -/
theorem Round.of_lt (h : p.Round awaiting called arrived) (hlt : p.requests < called) :
    awaiting = some p.requests ∧ called = p.requests + 1 ∧ p.waiter.msg = none ∧
      arrived = p.sent.length := by
  cases h with
  | called hloop hcalled hfree hall => exact ⟨hloop, hcalled, hfree, hall⟩
  | pending _ hcalled | replied _ hcalled | idle _ hcalled => omega

/-- The call arrives at the object, and fetches all messages. -/
theorem Round.receive (h : p.Round awaiting called arrived) (hlt : p.requests < called)
    (queue : RxBuffer) (timer : TimerSetup) :
    let r := handlePollRequest p queue ⟨.ok pollTimeoutMs, timer⟩
    r.2.1.Round awaiting called arrived ∧ r.1.messages = 0 := by
  intro r
  obtain ⟨hloop, hcalled, hfree, hall⟩ := h.of_lt hlt
  obtain ⟨hnone, hrequests, hreply⟩ := handlePollRequest_of_free hfree queue timer
  refine ⟨?_, hnone⟩
  rcases hreply with ⟨queued, raw, hfree', hsent⟩ | ⟨hwaits, hsent⟩
  · have hnext : r.2.1.sent.drop arrived = [⟨p.requests, queued, .text raw⟩] := by
      rw [hsent, hall, List.drop_left]
    exact .replied hloop (hcalled.trans hrequests.symm) hfree' rfl hnext
  · exact .pending hloop (hcalled.trans hrequests.symm) hwaits
      (hall.trans (congrArg List.length hsent).symm)

/-- A reply that arrives is the only one on its way. It is a text, and the loop awaits it. -/
theorem Round.deliver (h : p.Round awaiting called arrived) {r : Sent}
    (hr : p.sent[arrived]? = some r) :
    ∃ raw, awaiting = some r.request ∧ r.reply = .text raw ∧ p.sent.drop arrived = [r] ∧
      p.Round none called (arrived + 1) := by
  cases h with
  | replied hloop hcalled hfree hreply hnext =>
    rename_i r' raw
    rw [← List.head?_drop, hnext] at hr
    cases hr
    exact ⟨raw, hloop, hreply, hnext, .idle rfl hcalled hfree (arrived_succ hnext)⟩
  | called _ _ _ hall | pending _ _ _ hall | idle _ _ _ hall =>
    rw [hall, List.getElem?_length] at hr
    cases hr

/-- The loop calls again. -/
theorem Round.call (h : p.Round none called arrived) :
    p.Round (some called) (called + 1) arrived := by
  cases h with
  | idle _ hcalled hfree hall => exact .called (congrArg some hcalled) (by rw [hcalled]) hfree hall
  | called hloop | pending hloop | replied hloop => cases hloop

/-- A loop that does not await a call has all replies. -/
theorem Round.all_of_none (h : p.Round none called arrived) : arrived = p.sent.length := by
  cases h with
  | idle _ _ _ hall => exact hall
  | called hloop | pending hloop | replied hloop => cases hloop

end PollPort

end KwinApi
