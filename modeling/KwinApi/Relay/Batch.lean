import KwinApi.Daemon.Poll
import KwinApi.Proto.Splice
import KwinApi.Script.Dispatch

/-!
# A batch on its way to the script

A poll reply is the splice of the queued payloads as a C string. The poll loop of the client parses
it in one call and dispatches the elements of the array.

## Main definitions

* `KwinApi.BatchReply` — the text of a reply that drained the queue
* `KwinApi.PollRound`, `pollRound` — what the poll loop does with the text
* `KwinApi.Pushed` — what is pushed to the client while messages are dispatched
* `KwinApi.Unharmed` — every payload counts for itself

## Main results

* `KwinApi.batch_unharmed_iff` — the payloads count for themselves when all of them are JSON texts,
  and only then
-/

namespace KwinApi

/-! ### The reply -/

/-- The text of a poll reply that drained a queue. -/
inductive BatchReply (queue : RxBuffer) : List UInt8 → Prop where
  /-- A `poll` call found messages. -/
  | taken {p : PollPort} {call : PollCall} {request queued : ℕ} {raw : List UInt8}
      (hdrained : (handlePollRequest p queue call).2.2 = true)
      (hsent : (handlePollRequest p queue call).2.1.sent =
        p.sent ++ [⟨request, queued, .text raw⟩]) :
      BatchReply queue raw
  /-- A pending `poll` was woken by messages. -/
  | woken {p : PollPort} {request queued : ℕ} {raw : List UInt8}
      (hdrained : (maybeReplyPendingPoll p queue).2.2 = true)
      (hsent : (maybeReplyPendingPoll p queue).2.1.sent =
        p.sent ++ [⟨request, queued, .text raw⟩]) :
      BatchReply queue raw

/-- Only a call that finds messages drains the queue, and its reply is what `poll` returns. -/
theorem handlePollRequest_drained {p : PollPort} {queue : RxBuffer} {call : PollCall}
    (h : (handlePollRequest p queue call).2.2 = true) :
    0 < queue.messages ∧ (handlePollRequest p queue call).2.1.sent =
      p.sent ++ [⟨p.requests, queue.messages, .text (cString queue.drainQueue.1)⟩] := by
  revert h
  rw [handlePollRequest]
  rcases call with ⟨timeout, timer⟩
  cases timeout with
  | error e => simp
  | ok timeout =>
    simp only
    split_ifs with hrange hpend hmsgs hzero
    · simp
    · simp
    · exact fun _ => ⟨hmsgs, rfl⟩
    · simp
    · split <;> simp

/-- A pending call is woken only by messages, and its reply is what `poll` returns. -/
theorem maybeReplyPendingPoll_drained {p : PollPort} {queue : RxBuffer}
    (h : (maybeReplyPendingPoll p queue).2.2 = true) :
    0 < queue.messages ∧ ∃ request, (maybeReplyPendingPoll p queue).2.1.sent =
      p.sent ++ [⟨request, queue.messages, .text (cString queue.drainQueue.1)⟩] := by
  revert h
  rw [maybeReplyPendingPoll]
  split_ifs with hidle
  · simp
  · intro _
    obtain ⟨hpend, hmsgs⟩ := not_or.mp hidle
    obtain ⟨request, hmsg⟩ := Option.isSome_iff_exists.mp (not_not.mp hpend)
    refine ⟨Nat.pos_of_ne_zero hmsgs, request, ?_⟩
    rw [PollPort.reply, hmsg]
    rfl

theorem BatchReply.text {queue : RxBuffer} {raw : List UInt8} (h : BatchReply queue raw) :
    0 < queue.messages ∧ raw = cString queue.drainQueue.1 := by
  obtain ⟨hdrained, hsent⟩ | ⟨hdrained, hsent⟩ := h
  · obtain ⟨hmsgs, hsent'⟩ := handlePollRequest_drained hdrained
    rw [hsent, List.append_cancel_left_eq] at hsent'
    simp only [List.cons.injEq, Sent.mk.injEq, Reply.text.injEq, and_true] at hsent'
    exact ⟨hmsgs, hsent'.2.2⟩
  · obtain ⟨hmsgs, request', hsent'⟩ := maybeReplyPendingPoll_drained hdrained
    rw [hsent, List.append_cancel_left_eq] at hsent'
    simp only [List.cons.injEq, Sent.mk.injEq, Reply.text.injEq, and_true] at hsent'
    exact ⟨hmsgs, hsent'.2.2⟩

/-- Every queue with messages gives such a reply, to a call that does not want to wait. -/
theorem batchReply_of_messages {queue : RxBuffer} (h : 0 < queue.messages) :
    BatchReply queue (cString queue.drainQueue.1) := by
  have hcall : handlePollRequest .init queue ⟨.ok 0, ⟨.ok 0, .ok ()⟩⟩ = (queue.drainQueue.2,
      { PollPort.init with requests := 1 }.sendText 0 queue.messages queue.drainQueue.1, true) := by
    rw [handlePollRequest]
    simp only
    rw [if_neg (by decide), if_neg (by decide), if_pos h]
    rfl
  refine @BatchReply.taken queue .init ⟨.ok 0, ⟨.ok 0, .ok ()⟩⟩ 0 queue.messages _ ?_ ?_
  · rw [hcall]
  · rw [hcall]
    rfl

/-! ### The poll loop -/

/-- `pollClient`: the reply, parsed as JSON. -/
def pollClient (raw : List UInt8) : Option Json := Json.parse raw

/-- What a round of the poll loop does. -/
inductive PollRound where
  /-- The parser threw: log it and sleep. -/
  | failed
  /-- Dispatch the messages of a batch, one after the other. -/
  | batch (messages : List Json)
  /-- `poll` returned an error message: log it and sleep. -/
  | error (text : JsString)
  /-- Anything else: log it and sleep. -/
  | unexpected

/-- A round of `ClientConnection.run` with the text of a poll reply. -/
def pollRound (raw : List UInt8) : PollRound :=
  match pollClient raw with
  | none => .failed
  | some (.array value) => .batch value
  | some (.string value) => .error value
  | some _ => .unexpected

/-- The splice of JSON texts is a batch of their values. -/
theorem pollRound_splice {ps : List (List UInt8)} {vs : List Json}
    (h : List.Forall₂ Json.Text ps vs) : pollRound (cString (splice ps)) = .batch vs := by
  by_cases hne : ps = []
  · subst hne
    cases h
    rfl
  · have htext := splice_text h hne
    rw [cString_of_not_mem htext.zero_not_mem, pollRound, pollClient,
      Json.parse_eq_some_iff.mpr htext]

/-- The messages that are handed to `dispatchMessage`. -/
def PollRound.dispatched : PollRound → List Json
  | .batch messages => messages
  | _ => []

/-- The messages pushed to the client while messages are dispatched in turn. -/
inductive Pushed (isRequest : Json → Prop) : List Json → List Outgoing → Prop where
  | nil : Pushed isRequest [] []
  | reply {message : Json} {messages : List Json} {reply : ServerReply} {sent : List Outgoing}
      (h : Receives isRequest message reply) (hs : Pushed isRequest messages sent) :
      Pushed isRequest (message :: messages) ((dispatchMessage reply).toList ++ sent)
  /-- `dispatchMessage` threw, which is logged. -/
  | failed {message : Json} {messages : List Json} {sent : List Outgoing}
      (hs : Pushed isRequest messages sent) : Pushed isRequest (message :: messages) sent

/-- The response reports a parse error. -/
def RpcResponse.isParseError (r : RpcResponse) : Bool :=
  match r.body with
  | .result _ => false
  | .error error => error.code = parseError

/-- Every payload counts for itself: the JSON texts among them are dispatched, in order, and the
client gets a parse error for each of the others. -/
def Unharmed (payloads : List (List UInt8)) (dispatched : List Json) (sent : List Outgoing) :
    Prop :=
  dispatched = payloads.filterMap Json.parse ∧
    (sent.flatMap Outgoing.responses).countP RpcResponse.isParseError =
      payloads.countP fun p => (Json.parse p).isNone

/-! ### No parse error is ever sent -/

variable {isRequest : Json → Prop}

theorem Answers.not_isParseError {message : Json} {r : RpcResponse}
    (h : Answers isRequest message (some r)) : r.isParseError = false := by
  cases h with
  | @response id body h hid hcode =>
    rcases body with value | error
    · rfl
    · exact decide_eq_false (hcode error rfl)
  | invalid h => rfl

theorem reduceOption_not_isParseError {messages : List Json}
    {answers : List (Option RpcResponse)}
    (h : List.Forall₂ (Answers isRequest) messages answers) :
    ∀ r ∈ answers.reduceOption, r.isParseError = false := by
  induction h with
  | nil => exact nofun
  | @cons message answer messages answers hm h ih =>
    cases answer with
    | none => exact ih
    | some r =>
      rw [List.reduceOption_cons_of_some]
      exact List.forall_mem_cons.mpr ⟨hm.not_isParseError, ih⟩

theorem Pushed.not_isParseError {messages : List Json} {sent : List Outgoing}
    (h : Pushed isRequest messages sent) :
    ∀ r ∈ sent.flatMap Outgoing.responses, r.isParseError = false := by
  induction h with
  | nil => exact nofun
  | @reply message messages reply sent h hs ih =>
    rw [List.flatMap_append]
    refine List.forall_mem_append.mpr ⟨?_, ih⟩
    obtain ⟨h⟩ := h
    rename_i answers
    intro r hr
    rw [dispatchMessage_ofList, responses_toList_sendKept] at hr
    exact reduceOption_not_isParseError h r (List.mem_of_mem_filter hr)
  | failed hs ih => exact ih

/-! ### All or nothing -/

theorem filterMap_parse {ps : List (List UInt8)} {vs : List Json}
    (h : List.Forall₂ Json.Text ps vs) : ps.filterMap Json.parse = vs := by
  induction h with
  | nil => rfl
  | cons hp hps ih => rw [List.filterMap_cons_some (Json.parse_eq_some_iff.mpr hp), ih]

/-- The payloads of a batch count for themselves exactly when all of them are JSON texts. -/
theorem batch_unharmed_iff {queue : RxBuffer} {ps : List (List UInt8)} {part raw : List UInt8}
    {sent : List Outgoing} (hq : queue.Holds ps part) (hraw : BatchReply queue raw)
    (hsent : Pushed isRequest (pollRound raw).dispatched sent) :
    Unharmed ps (pollRound raw).dispatched sent ↔ ∀ p ∈ ps, ∃ v, Json.Text p v := by
  obtain ⟨hmsgs, rfl⟩ := hraw.text
  have hzero : (sent.flatMap Outgoing.responses).countP RpcResponse.isParseError = 0 := by
    rw [List.countP_eq_zero]
    intro r hr
    rw [hsent.not_isParseError r hr]
    exact Bool.false_ne_true
  rw [Unharmed, hzero]
  constructor
  · rintro ⟨-, hcount⟩ p hp
    have hnone := List.countP_eq_zero.mp hcount.symm p hp
    rw [Bool.not_eq_true, Option.isNone_eq_false_iff, Option.isSome_iff_exists] at hnone
    obtain ⟨v, hv⟩ := hnone
    exact ⟨v, Json.parse_eq_some_iff.mp hv⟩
  · intro hjson
    obtain ⟨vs, hvs⟩ := exists_texts hjson
    rw [hq.drainQueue.1, pollRound_splice hvs]
    refine ⟨(filterMap_parse hvs).symm, ?_⟩
    rw [eq_comm, List.countP_eq_zero]
    intro p hp
    obtain ⟨v, hv⟩ := hjson p hp
    simp [Json.parse_eq_some_iff.mpr hv]

/-- A batch of the payloads `[]` and ` 1`: both are dispatched, and nothing is sent, as the refusal
of the `1` has the id `null` and is dropped. -/
theorem batch_unharmed_two :
    Unharmed [ascii "[]", ascii " 1"] [.array [], .number (ascii "1")] [] := by
  have hempty : RxBuffer.Appended _ [] := .make (show RxBuffer.make 16 = .ok _ from rfl)
  have hfilled : RxBuffer.Appended _ [ascii "[]", ascii " 1"] :=
    (hempty.append rfl).append rfl
  have hholds := hfilled.holds
  have hraw := batchReply_of_messages (by rw [hholds.messages]; exact Nat.zero_lt_two)
  have htext := hholds.drainQueue.1
  have hround : pollRound (cString (splice [ascii "[]", ascii " 1"])) =
      .batch [.array [], .number (ascii "1")] := rfl
  have hnone : Receives (fun m => m.prop (js "method") ≠ none) (.array []) (.ofList []) :=
    @Receives.mk _ _ [] .nil
  have hpushed : Pushed (fun m => m.prop (js "method") ≠ none)
      (pollRound (cString (splice [ascii "[]", ascii " 1"]))).dispatched [] := by
    rw [hround]
    refine @Pushed.reply _ _ _ _ [] hnone (@Pushed.reply _ _ _
      (.ofList [some (RpcResponse.mk .null (.error ⟨invalidRequest, []⟩))].reduceOption) [] ?_ .nil)
    exact .mk (.cons (.invalid (not_not.mpr rfl)) .nil)
  rw [← htext] at hround hpushed
  have hunharmed := (batch_unharmed_iff hholds hraw hpushed).mpr ?_
  · rwa [hround] at hunharmed
  · intro p hp
    simp only [List.mem_cons, List.not_mem_nil, or_false] at hp
    rcases hp with rfl | rfl
    · exact ⟨_, Json.parse_eq_some_iff.mp rfl⟩
    · exact ⟨_, Json.parse_eq_some_iff.mp rfl⟩

/-- In a batch of the payloads `1` and `x` the first is not dispatched either, and the client gets
no parse error for the second. -/
theorem harmed_by_neighbour : ∃ queue raw, queue.Holds [ascii "1", ascii "x"] [] ∧
    BatchReply queue raw ∧ ∀ isRequest sent, Pushed isRequest (pollRound raw).dispatched sent →
      ¬ Unharmed [ascii "1", ascii "x"] (pollRound raw).dispatched sent := by
  have hempty : RxBuffer.Appended _ [] := .make (show RxBuffer.make 16 = .ok _ from rfl)
  have hfilled : RxBuffer.Appended _ [ascii "1", ascii "x"] :=
    (hempty.append rfl).append rfl
  have hholds := hfilled.holds
  have hraw := batchReply_of_messages (by rw [hholds.messages]; exact Nat.zero_lt_two)
  refine ⟨_, _, hholds, hraw, ?_⟩
  rw [hholds.drainQueue.1]
  have hround : pollRound (cString (splice [ascii "1", ascii "x"])) = .failed := rfl
  rw [hround]
  rintro isRequest sent - ⟨hdispatched, -⟩
  have hvalues : [ascii "1", ascii "x"].filterMap Json.parse = [.number (ascii "1")] := rfl
  rw [hvalues] at hdispatched
  exact List.cons_ne_nil _ _ hdispatched.symm

end KwinApi
