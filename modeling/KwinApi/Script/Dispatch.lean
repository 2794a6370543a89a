import KwinApi.Daemon.Text
import KwinApi.Lib.Json
import KwinApi.Script.Jsonrpc
import Mathlib.Data.List.Forall2
import Mathlib.Data.List.Perm.Basic
import Mathlib.Data.List.ReduceOption

/-!
# Dispatching inbound messages

`dispatchMessage` of `jsonrpc.ts` hands a message to the shared JSON-RPC server and pushes what
comes back to the client, except the responses whose id is null.

## The library

`JSONRPCServer.receive` is a library function. Which messages it takes for requests is a parameter,
and `Receives` says what its documentation promises: a request is answered with its id, or with
nothing when it has none; any other message gets an error with the id of the message, or with null
when it has none that could be an id; a batch is answered with null, the one response, or the array
of the responses. Code -32700 is for texts, which `receive` never sees.

## Main definitions

* `KwinApi.RpcResponse`, `ServerReply`, `Receives` — the library
* `KwinApi.dispatchMessage` — the filter of the replies
* `KwinApi.RepliesOwed` — what a message ought to be answered with

## Main results

* `KwinApi.replies_owed_iff` — the filter keeps what is owed except errors for messages without an
  id
-/

namespace KwinApi

/-! ### Messages -/

/-- A property of a parsed value. A repeated name counts by its last member. -/
def Json.prop (v : Json) (name : JsString) : Option Json :=
  match v with
  | .object members => members.reverse.lookup name
  | _ => none

/-- The value is null. -/
def Json.isNull : Json → Bool
  | .null => true
  | _ => false

/-- The messages in a parsed value: the elements of a batch, or the one message it is. -/
def Json.messages : Json → List Json
  | .array elems => elems
  | v => [v]

/-- The value is a string or a number. -/
inductive Json.IsId : Json → Prop where
  | string (units : JsString) : IsId (.string units)
  | number (literal : List UInt8) : IsId (.number literal)

/-- The message has an id to answer to. -/
def Identified (message : Json) : Prop := ∃ id, message.prop (js "id") = some id ∧ id.IsId

/-! ### The library -/

/-- Invalid Request. -/
def invalidRequest : ℤ := -32600

/-- Parse error. -/
def parseError : ℤ := -32700

/-- What a response carries beside its id. -/
inductive RpcBody where
  | result (value : Json)
  | error (error : RpcError)

/-- A response object. -/
structure RpcResponse where
  id : Json
  body : RpcBody

/-- What `receive` resolves to. -/
inductive ServerReply where
  | null
  | one (response : RpcResponse)
  | many (responses : List RpcResponse)

/-- The id an error for an invalid request carries. -/
def errorId (message : Json) : Json :=
  match message.prop (js "id") with
  | some (.string units) => .string units
  | some (.number literal) => .number literal
  | _ => .null

/-- The answer to one message. -/
inductive Answers (isRequest : Json → Prop) : Json → Option RpcResponse → Prop where
  | response {message id : Json} {body : RpcBody} (h : isRequest message)
      (hid : message.prop (js "id") = some id)
      (hcode : ∀ error, body = .error error → error.code ≠ parseError) :
      Answers isRequest message (some ⟨id, body⟩)
  | notification {message : Json} (h : isRequest message) (hid : message.prop (js "id") = none) :
      Answers isRequest message none
  | invalid {message : Json} {text : JsString} (h : ¬ isRequest message) :
      Answers isRequest message (some ⟨errorId message, .error ⟨invalidRequest, text⟩⟩)

/-- The results of a batch. -/
def ServerReply.ofList : List RpcResponse → ServerReply
  | [] => .null
  | [response] => .one response
  | responses => .many responses

/-- What `receive` may resolve to. -/
inductive Receives (isRequest : Json → Prop) : Json → ServerReply → Prop where
  | mk {message : Json} {answers : List (Option RpcResponse)}
      (h : List.Forall₂ (Answers isRequest) message.messages answers) :
      Receives isRequest message (.ofList answers.reduceOption)

/-! ### The filter -/

/-- A message pushed to the client. -/
inductive Outgoing where
  | object (response : RpcResponse)
  | array (responses : List RpcResponse)

/-- The responses in it. -/
def Outgoing.responses : Outgoing → List RpcResponse
  | .object response => [response]
  | .array responses => responses

/-- A single object for one reply, an array for several, no message for none. -/
def sendKept : List RpcResponse → Option Outgoing
  | [] => none
  | [response] => some (.object response)
  | kept => some (.array kept)

/-- The response does not echo a null id. -/
def RpcResponse.keep (entry : RpcResponse) : Bool := !entry.id.isNull

/-- Push the response, if any, back to the client. -/
def dispatchMessage : ServerReply → Option Outgoing
  | .null => none
  | .many response => sendKept (response.filter RpcResponse.keep)
  | .one response => if response.id.isNull then none else some (.object response)

/-! ### What is owed -/

/-- What one message ought to be answered with. -/
inductive Owed (isRequest : Json → Prop) : Json → Option RpcResponse → Prop where
  | response {message id : Json} {body : RpcBody} (h : isRequest message)
      (hid : message.prop (js "id") = some id) (hnull : id ≠ .null) :
      Owed isRequest message (some ⟨id, body⟩)
  | nothing {message : Json} (h : isRequest message)
      (hid : message.prop (js "id") = none ∨ message.prop (js "id") = some .null) :
      Owed isRequest message none
  | invalid {message id : Json} {text : JsString} (h : ¬ isRequest message) :
      Owed isRequest message (some ⟨id, .error ⟨invalidRequest, text⟩⟩)

/-- The pushed message holds, in any order, one response for each message that is owed one. -/
def RepliesOwed (isRequest : Json → Prop) (message : Json) (sent : Option Outgoing) : Prop :=
  ∃ owed responses, List.Forall₂ (Owed isRequest) message.messages owed ∧
    responses.Perm owed.reduceOption ∧ sent = sendKept responses

variable {isRequest : Json → Prop}

theorem Json.isNull_iff {v : Json} : v.isNull = true ↔ v = .null := by
  cases v <;> simp [Json.isNull]

theorem RpcResponse.keep_iff {r : RpcResponse} : r.keep = true ↔ r.id ≠ .null := by
  rw [RpcResponse.keep, Bool.not_eq_true', Bool.eq_false_iff, Ne, Json.isNull_iff]

/-- Whatever shape the reply has, what is sent are the responses that are kept. -/
theorem dispatchMessage_ofList (responses : List RpcResponse) :
    dispatchMessage (.ofList responses) = sendKept (responses.filter RpcResponse.keep) := by
  rcases responses with _ | ⟨r, _ | ⟨r', rs⟩⟩
  · rfl
  · rw [ServerReply.ofList, dispatchMessage]
    by_cases h : r.id.isNull = true
    · have hkeep : ¬ r.keep = true := by simp [RpcResponse.keep, h]
      rw [if_pos h, List.filter_cons_of_neg hkeep]
      rfl
    · have hkeep : r.keep = true := by simpa [RpcResponse.keep] using h
      rw [if_neg h, List.filter_cons_of_pos hkeep]
      rfl
  · rfl

theorem responses_toList_sendKept (responses : List RpcResponse) :
    (sendKept responses).toList.flatMap Outgoing.responses = responses := by
  rcases responses with _ | ⟨r, _ | ⟨r', rs⟩⟩
  · rfl
  · rfl
  · exact List.append_nil _

theorem sendKept_injective : Function.Injective sendKept := by
  intro rs rs' h
  rw [← responses_toList_sendKept rs, h, responses_toList_sendKept]

/-- The error for a message has no null id exactly when the message has an id to answer to. -/
theorem errorId_ne_null_iff {message : Json} : errorId message ≠ .null ↔ Identified message := by
  rw [errorId, Identified]
  constructor
  · intro h
    split at h
    · rename_i units hid
      exact ⟨_, hid, .string units⟩
    · rename_i literal hid
      exact ⟨_, hid, .number literal⟩
    · exact absurd rfl h
  · rintro ⟨id, hid, ⟨units⟩ | ⟨literal⟩⟩ <;> simp [hid]

/-- The answer that is kept of an answer. -/
abbrev kept (answer : Option RpcResponse) : Option RpcResponse := answer.filter RpcResponse.keep

theorem reduceOption_map_kept (answers : List (Option RpcResponse)) :
    (answers.map kept).reduceOption = answers.reduceOption.filter RpcResponse.keep := by
  induction answers with
  | nil => rfl
  | cons answer answers ih =>
    cases answer with
    | none => exact ih
    | some r =>
      rw [List.map_cons, List.reduceOption_cons_of_some, kept, Option.filter]
      split_ifs with h
      · rw [List.reduceOption_cons_of_some, List.filter_cons_of_pos h, ih]
      · rw [List.reduceOption_cons_of_none, List.filter_cons_of_neg h, ih]

/-- What is kept of the answer to a message is what is owed, if the message is a request or has an
id. -/
theorem Answers.owed {message : Json} {answer : Option RpcResponse}
    (h : Answers isRequest message answer) (hid : ¬ isRequest message → Identified message) :
    Owed isRequest message (kept answer) := by
  obtain ⟨hreq, hprop, -⟩ | ⟨hreq, hprop⟩ | hreq := h
  · rw [kept, Option.filter]
    split_ifs with hkeep
    · exact .response hreq hprop (RpcResponse.keep_iff.mp hkeep)
    · have hnull := not_not.mp (mt RpcResponse.keep_iff.mpr hkeep)
      exact .nothing hreq (Or.inr (hprop.trans (congrArg some hnull)))
  · exact .nothing hreq (Or.inl hprop)
  · rw [kept, Option.filter, if_pos (RpcResponse.keep_iff.mpr (errorId_ne_null_iff.mpr (hid hreq)))]
    exact .invalid hreq

/-- Nothing is kept of the answer to a message that is neither a request nor has an id. -/
theorem Answers.kept_eq_none {message : Json} {answer : Option RpcResponse}
    (h : Answers isRequest message answer) (hreq : ¬ isRequest message)
    (hid : ¬ Identified message) : kept answer = none := by
  obtain ⟨hreq', -⟩ | ⟨hreq', -⟩ | - := h
  · exact absurd hreq' hreq
  · exact absurd hreq' hreq
  · rw [kept, Option.filter, if_neg (fun hkeep => hid ?_)]
    exact errorId_ne_null_iff.mp (RpcResponse.keep_iff.mp hkeep)

/-- A message that is no request is owed an error. -/
theorem Owed.exists_of_not {message : Json} {owed : Option RpcResponse}
    (h : Owed isRequest message owed) (hreq : ¬ isRequest message) : ∃ r, owed = some r := by
  obtain ⟨hreq', -⟩ | ⟨hreq', -⟩ | - := h
  · exact absurd hreq' hreq
  · exact absurd hreq' hreq
  · exact ⟨_, rfl⟩

/-- Nothing is kept where nothing is owed. -/
theorem Answers.kept_of_owed_none {message : Json} {answer : Option RpcResponse}
    (h : Answers isRequest message answer) (ho : Owed isRequest message none) :
    kept answer = none := by
  cases ho with
  | nothing hreq hid =>
    obtain ⟨-, hprop, -⟩ | - | hreq' := h
    · rw [hprop] at hid
      obtain rfl := Option.some.inj (hid.resolve_left (Option.some_ne_none _))
      rfl
    · rfl
    · exact absurd hreq hreq'

/-- No more is kept than is owed, and as much only when every message is a request or has an id. -/
theorem kept_count {messages : List Json} {answers owed : List (Option RpcResponse)}
    (h : List.Forall₂ (Answers isRequest) messages answers)
    (ho : List.Forall₂ (Owed isRequest) messages owed) :
    (answers.map kept).reduceOption.length ≤ owed.reduceOption.length ∧
      ((answers.map kept).reduceOption.length = owed.reduceOption.length →
        ∀ message ∈ messages, ¬ isRequest message → Identified message) := by
  induction h generalizing owed with
  | nil =>
    cases ho
    exact ⟨Nat.le_refl _, fun _ => nofun⟩
  | @cons message answer messages answers hm h ih =>
    cases ho with
    | @cons _ o _ owed hmo ho =>
      obtain ⟨hle, heq⟩ := ih ho
      rw [List.map_cons]
      by_cases hid : ¬ isRequest message → Identified message
      · rcases o with _ | r
        · rw [hm.kept_of_owed_none hmo, List.reduceOption_cons_of_none,
            List.reduceOption_cons_of_none]
          exact ⟨hle, fun hlen => List.forall_mem_cons.mpr ⟨hid, heq hlen⟩⟩
        · rw [List.reduceOption_cons_of_some, List.length_cons]
          rcases hk : kept answer with _ | k
          · rw [List.reduceOption_cons_of_none]
            refine ⟨by omega, fun hlen => ?_⟩
            omega
          · rw [List.reduceOption_cons_of_some, List.length_cons]
            refine ⟨by omega, fun hlen => List.forall_mem_cons.mpr ⟨hid, heq (by omega)⟩⟩
      · obtain ⟨hreq, hnot⟩ := Classical.not_imp.mp hid
        obtain ⟨r, rfl⟩ := hmo.exists_of_not hreq
        rw [hm.kept_eq_none hreq hnot, List.reduceOption_cons_of_none,
          List.reduceOption_cons_of_some, List.length_cons]
        refine ⟨by omega, fun hlen => ?_⟩
        omega

/-- What `dispatchMessage` pushes is what the message is owed exactly when each of its elements that
is not a request has an id to answer to. -/
theorem replies_owed_iff {message : Json} {reply : ServerReply}
    (h : Receives isRequest message reply) :
    RepliesOwed isRequest message (dispatchMessage reply) ↔
      ∀ m ∈ message.messages, ¬ isRequest m → Identified m := by
  obtain ⟨h⟩ := h
  rename_i answers
  rw [dispatchMessage_ofList, ← reduceOption_map_kept]
  constructor
  · rintro ⟨owed, responses, howed, hperm, hsent⟩
    obtain ⟨-, hall⟩ := kept_count h howed
    refine hall ?_
    rw [sendKept_injective hsent, hperm.length_eq]
  · intro hid
    refine ⟨answers.map kept, _, ?_, List.Perm.refl _, rfl⟩
    rw [List.forall₂_map_right_iff]
    have hboth := (List.forall₂_and_left _ _).mpr ⟨hid, h⟩
    exact hboth.imp fun m answer ha => ha.2.owed ha.1

/-- A batch of a request with id 7 and of an object that is no request but has an id. -/
theorem replies_owed_two :
    let isRequest : Json → Prop := fun m => m.prop (js "method") ≠ none
    let message := Json.array [.object [(js "jsonrpc", .string (js "2.0")),
      (js "method", .string (js "windows.list")), (js "id", .number (ascii "7"))],
      .object [(js "id", .string (js "x"))]]
    let responses := [RpcResponse.mk (.number (ascii "7")) (.result (.array [])),
      ⟨.string (js "x"), .error ⟨invalidRequest, js "Invalid Request"⟩⟩]
    Receives isRequest message (.many responses) ∧
      RepliesOwed isRequest message (dispatchMessage (.many responses)) := by
  intro isRequest message responses
  have hreceives : Receives isRequest message
      (.ofList [some responses[0], some responses[1]].reduceOption) := by
    refine .mk (.cons ?_ (.cons ?_ .nil))
    · exact .response (by decide) rfl nofun
    · exact .invalid (by simp [isRequest, Json.prop, js])
  refine ⟨hreceives, (replies_owed_iff hreceives).mpr ?_⟩
  intro m hm hreq
  rcases List.mem_cons.mp hm with rfl | hm
  · exact absurd (by decide) hreq
  · rw [List.mem_singleton.mp hm]
    exact ⟨_, rfl, .string _⟩

/-- The batch `[1]` is owed an error and gets no message. -/
theorem bare_number_unanswered :
    let isRequest : Json → Prop := fun m => m.prop (js "method") ≠ none
    let message := Json.array [.number (ascii "1")]
    let response := RpcResponse.mk .null (.error ⟨invalidRequest, js "Invalid Request"⟩)
    let reply := ServerReply.one response
    Receives isRequest message reply ∧ ¬ RepliesOwed isRequest message (dispatchMessage reply) := by
  intro isRequest message response reply
  have hreq : ¬ isRequest (.number (ascii "1")) := not_not.mpr rfl
  have hreceives : Receives isRequest message (.ofList [some response].reduceOption) :=
    .mk (.cons (Answers.invalid hreq) .nil)
  refine ⟨hreceives, ?_⟩
  rintro ⟨owed, responses, howed, hperm, hsent⟩
  have hnil : [] = responses := sendKept_injective hsent
  rw [← hnil, List.nil_perm] at hperm
  obtain ⟨r, l, ho, -, rfl⟩ := List.forall₂_cons_left_iff.mp howed
  obtain ⟨response, rfl⟩ := ho.exists_of_not hreq
  rw [List.reduceOption_cons_of_some] at hperm
  exact List.cons_ne_nil _ _ hperm

end KwinApi
