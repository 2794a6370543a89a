import KwinApi.Daemon.DaemonObject
import KwinApi.Daemon.Session

/-!
# Requests and replies of an object

Whatever happens to an object, the replies it has sent stay, and its requests are the `poll` calls
that found it.

## Main definitions

* `KwinApi.PollPort.Later` — the port of an object some time later
* `KwinApi.SessionLink.polled`, `DaemonLink.polled` — the events that are requests

## Main results

* `KwinApi.SessionLink.later_step`, `DaemonLink.later_step` — what one event adds
-/

namespace KwinApi

/-- The port of an object some time later: there are further replies, and `n` further requests. -/
structure PollPort.Later (p p' : PollPort) (n : ℕ) : Prop where
  sent : p.sent <+: p'.sent
  requests : p'.requests = p.requests + n

namespace PollPort

variable {p p' p'' : PollPort}

theorem Later.refl (p : PollPort) : p.Later p 0 := ⟨List.prefix_refl _, rfl⟩

theorem Later.trans (h : p.Later p' 0) {n : ℕ} (h' : p'.Later p'' n) : p.Later p'' n :=
  ⟨h.sent.trans h'.sent, h'.requests.trans (congrArg (· + n) h.requests)⟩

theorem later_reply (p : PollPort) (queued : ℕ) (payload : List UInt8) :
    p.Later (p.reply queued payload) 0 := by
  rw [reply]
  split
  · exact .refl p
  · exact ⟨List.prefix_append _ _, rfl⟩

theorem later_maybeReplyPendingPoll (p : PollPort) (queue : RxBuffer) :
    p.Later (maybeReplyPendingPoll p queue).2.1 0 := by
  rw [maybeReplyPendingPoll]
  split_ifs
  · exact .refl p
  · exact p.later_reply _ _

/-- **One `poll` call is one request.** -/
theorem later_handlePollRequest (p : PollPort) (queue : RxBuffer) (call : PollCall) :
    p.Later (handlePollRequest p queue call).2.1 1 := by
  rw [handlePollRequest]
  rcases call with ⟨timeout | timeout, timer⟩
  · exact ⟨List.prefix_append _ _, rfl⟩
  · simp only
    split_ifs
    · exact ⟨List.prefix_append _ _, rfl⟩
    · exact ⟨List.prefix_append _ _, rfl⟩
    · exact ⟨List.prefix_append _ _, rfl⟩
    · exact ⟨List.prefix_append _ _, rfl⟩
    · split
      · exact ⟨List.prefix_append _ _, rfl⟩
      · exact ⟨List.prefix_refl _, rfl⟩

end PollPort

/-! ### Client objects -/

namespace Session

variable {bo : ByteOrder}

theorem port_answered (s : Session) (r : RxBuffer × PollPort × Bool) :
    (s.answered r).port = r.2.1 := by
  rw [answered]
  simp only
  split_ifs
  · rw [onRxDrained]
    split_ifs <;> rfl
  · rfl

theorem later_drainInput (s : Session) (p : Peer) (answers : List ReadAnswer) :
    s.port.Later (s.drainInput bo p answers).1.port 0 := by
  simp only [drainInput]
  split_ifs
  · rw [onRxMessages, port_answered]
    exact PollPort.later_maybeReplyPendingPoll _ _
  · exact .refl _

theorem port_flushOutput (s : Session) (answers : List SendAnswer) :
    (s.flushOutput answers).1.port = s.port := by
  rw [flushOutput]
  split <;> rfl

theorem later_handleIo (s : Session) (p : Peer) (revents : Revents) (reads : List ReadAnswer)
    (sends : List SendAnswer) :
    s.port.Later (s.handleIo bo p revents reads sends).1.port 0 := by
  have hdrain := @later_drainInput bo s p reads
  simp only [handleIo]
  split_ifs <;> first
    | exact .refl _
    | exact hdrain
    | exact (port_flushOutput _ sends).symm ▸ .refl _
    | exact (port_flushOutput _ sends).symm ▸ hdrain

theorem port_push (s : Session) (msg : List UInt8) : (s.push bo msg).2.port = s.port := by
  rw [push]
  split <;> rfl

end Session

namespace SessionLink

variable {bo : ByteOrder}

/-- A `poll` call reaches the session while it exists. -/
def polled (l : SessionLink) : SessionOp → Bool
  | .poll _ => l.alive
  | _ => false

theorem later_onIo (l : SessionLink) (revents : Revents) (reads : List ReadAnswer)
    (sends : List SendAnswer) :
    l.session.port.Later (l.onIo bo revents reads sends).session.port 0 := by
  unfold onIo
  split
  · exact .refl _
  · simp only
    split_ifs
    · exact ⟨(l.session.later_handleIo _ _ reads sends).sent,
        (l.session.later_handleIo _ _ reads sends).requests⟩
    · exact l.session.later_handleIo _ _ reads sends

/-- **One thing that happens**: the replies stay, and only a `poll` call is a further request. -/
theorem later_step (l : SessionLink) (op : SessionOp) :
    l.session.port.Later (l.step bo op).session.port (l.polled op).toNat := by
  by_cases halive : l.alive = true
  swap
  · have hnone : l.polled op = false := by
      cases op with
      | poll call => exact Bool.not_eq_true _ ▸ halive
      | _ => rfl
    rw [step.eq_def, if_pos halive, hnone]
    exact .refl _
  rw [step.eq_def, if_neg (not_not.mpr halive)]
  cases op with
  | io revents reads sends => exact l.later_onIo revents reads sends
  | poll call =>
    simp only [Session.handlePoll, Session.port_answered, polled, halive]
    exact PollPort.later_handlePollRequest _ _ _
  | push msg =>
    simp only [Session.port_push]
    exact .refl _
  | timeout =>
    simp only
    split_ifs
    · exact l.session.port.later_reply _ _
    · exact .refl _
  | destroy => exact ⟨List.prefix_refl _, rfl⟩

theorem later_other (l : SessionLink) {op : SessionOp} (hop : ∀ call, op ≠ .poll call) :
    l.session.port.Later (l.step bo op).session.port 0 := by
  have hlater := @later_step bo l op
  cases op with
  | poll call => exact absurd rfl (hop call)
  | _ => exact hlater

end SessionLink

/-! ### `/daemon` -/

theorem DaemonObject.later_enqueueControl (d : DaemonObject) (payload : List UInt8) :
    d.port.Later (d.enqueueControl payload).port 0 := by
  rw [enqueueControl]
  split
  · exact .refl _
  · exact PollPort.later_maybeReplyPendingPoll _ _

namespace DaemonLink

/-- A `poll` call reaches the object while it exists. -/
def polled (l : DaemonLink) : DaemonOp → Bool
  | .poll _ => l.alive
  | _ => false

/-- **One thing that happens**: the replies stay, and only a `poll` call is a further request. -/
theorem later_step (l : DaemonLink) (op : DaemonOp) :
    l.object.port.Later (l.step op).object.port (l.polled op).toNat := by
  by_cases halive : l.alive = true
  swap
  · have hnone : l.polled op = false := by
      cases op with
      | poll call => exact Bool.not_eq_true _ ▸ halive
      | _ => rfl
    rw [step.eq_def, if_pos halive, hnone]
    exact .refl _
  rw [step.eq_def, if_neg (not_not.mpr halive)]
  cases op with
  | control event id => exact l.object.later_enqueueControl _
  | poll call =>
    simp only [DaemonObject.handlePoll, DaemonObject.answered, polled, halive]
    exact PollPort.later_handlePollRequest _ _ _
  | timeout =>
    simp only
    split_ifs
    · exact l.object.port.later_reply _ _
    · exact .refl _
  | destroy => exact ⟨List.prefix_refl _, rfl⟩

end DaemonLink

end KwinApi
