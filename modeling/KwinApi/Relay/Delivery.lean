import KwinApi.Daemon.Outbound
import KwinApi.Relay.Bridge

/-!
# Messages on their way to the client

`pushToClient` of `dbus.ts` hands a message to the method `push` of `/cli{id}` and awaits the reply
with `callDBusAsync`: the promise is resolved by the reply or rejected by a timer, whichever comes
first. The call is never made again.

Calls reach the daemon in the order they were made, after any time; a reply or a timer settles its
call at any time after that. A call that finds no object is answered with an error, for which
`callDBus` does not call back. Nobody else calls `push`.

## Main definitions

* `KwinApi.CallPromise`, `KwinApi.pushToClient` — where a call stands, and what the script sees
* `KwinApi.Delivery` — the calls of the script and the session at the far end
* `KwinApi.Delivery.accepted` — the calls that were answered with the empty text

## Main results

* `KwinApi.push_delivery` — the accepted calls are what the socket gets, once and in order, and
  `true` says that a call is one of them
* `KwinApi.push_to_browser` — behind the native host as well
-/

namespace KwinApi

variable {bo : ByteOrder}

/-! ### A call -/

/-- The promise of `callDBusAsync`. -/
inductive CallPromise where
  | pending
  | resolved (reply : String)
  | rejected
  deriving DecidableEq, Repr

namespace CallPromise

/-- The reply arrives. -/
def onReply (reply : String) : CallPromise → CallPromise
  | .pending => .resolved reply
  | p => p

/-- The timer fires. -/
def onTimeout : CallPromise → CallPromise
  | .pending => .rejected
  | p => p

end CallPromise

/-- What `pushToClient` returns, once its call is settled. -/
def pushToClient : CallPromise → Option Bool
  | .pending => none
  | .resolved reply => some (reply = "")
  | .rejected => some false

/-- One call of `push`. -/
structure PushCall where
  payload : List UInt8
  promise : CallPromise

/-- Something happens to the promise of a call. -/
def PushCall.settle (f : CallPromise → CallPromise) (c : PushCall) : PushCall :=
  { c with promise := f c.promise }

/-! ### Script and session -/

/-- The calls of the script for one client and the session of that client. `answers` holds the
answers to the calls that have reached the daemon, `none` for an error reply. -/
structure Delivery where
  out : Outbound
  calls : List PushCall
  answers : List (Option String)

/-- What can happen: the script makes a call, the next call reaches the daemon, the reply to a call
arrives, its timer fires, or something else happens to the session. -/
inductive DeliveryEvent where
  | call (payload : List UInt8)
  | arrive
  | reply (k : ℕ)
  | timeout (k : ℕ)
  | io (revents : Revents) (reads : List ReadAnswer) (sends : List SendAnswer)
  | poll (call : PollCall)
  | expire
  | destroy

namespace Delivery

/-- A fresh session, and no call yet. -/
def start (s : Session) (stream : List UInt8) (closed : Bool) : Delivery :=
  ⟨.init s stream closed, [], []⟩

/-- The answer to a `push` that reaches the daemon now. -/
def answer (bo : ByteOrder) (d : Delivery) (payload : List UInt8) : Option String :=
  (d.out.link.replied bo (.push payload)).head?.map Prod.snd

/-- One thing that happens. -/
def step (bo : ByteOrder) (d : Delivery) : DeliveryEvent → Delivery
  | .call payload => { d with calls := d.calls ++ [⟨payload, .pending⟩] }
  | .arrive =>
    match d.calls[d.answers.length]? with
    | none => d
    | some c =>
      { d with
        out := d.out.step bo (.push c.payload)
        answers := d.answers ++ [d.answer bo c.payload] }
  | .reply k =>
    match d.answers[k]? with
    | some (some reply) =>
      { d with calls := d.calls.modify k (PushCall.settle (CallPromise.onReply reply)) }
    | _ => d
  | .timeout k =>
    { d with calls := d.calls.modify k (PushCall.settle CallPromise.onTimeout) }
  | .io revents reads sends => { d with out := d.out.step bo (.io revents reads sends) }
  | .poll call => { d with out := d.out.step bo (.poll call) }
  | .expire => { d with out := d.out.step bo .timeout }
  | .destroy => { d with out := d.out.step bo .destroy }

/-- A run. -/
def run (bo : ByteOrder) (d : Delivery) (evs : List DeliveryEvent) : Delivery :=
  evs.foldl (step bo) d

/-- The payloads of the calls. -/
def payloads (d : Delivery) : List (List UInt8) := d.calls.map PushCall.payload

/-- The payloads of the calls that were answered with the empty text, in the order of the calls. -/
def accepted (d : Delivery) : List (List UInt8) :=
  ((d.payloads.zip d.answers).filter (·.2 = some "")).map Prod.fst

/-! ### Calls and answers -/

theorem map_fst_zip_sublist {α β : Type*} (xs : List α) (ys : List β) :
    ((xs.zip ys).map Prod.fst).Sublist xs := by
  induction xs generalizing ys with
  | nil => exact List.Sublist.refl []
  | cons x xs ih =>
    cases ys with
    | nil => exact List.nil_sublist _
    | cons y ys => exact (ih ys).cons_cons x

theorem zip_append_left {α β : Type*} {xs : List α} {ys : List β} (x : α)
    (h : ys.length ≤ xs.length) : (xs ++ [x]).zip ys = xs.zip ys := by
  induction xs generalizing ys with
  | nil => rw [List.eq_nil_of_length_eq_zero (Nat.le_zero.mp h), List.zip_nil_right,
      List.zip_nil_right]
  | cons x' xs ih =>
    cases ys with
    | nil => rfl
    | cons y ys => exact congrArg ((x', y) :: ·) (ih (Nat.le_of_succ_le_succ h))

theorem zip_append_right {α β : Type*} {xs : List α} {ys : List β} {x : α} (y : β)
    (h : xs[ys.length]? = some x) : xs.zip (ys ++ [y]) = xs.zip ys ++ [(x, y)] := by
  induction xs generalizing ys with
  | nil => cases h
  | cons x' xs ih =>
    cases ys with
    | nil =>
      cases h
      simp
    | cons y' ys => exact congrArg ((x', y') :: ·) (ih h)

/-! ### The invariant -/

/-- Every call that has reached the daemon has its answer, and a promise is resolved with the answer
to its call. -/
structure Inv (bo : ByteOrder) (cap : ℕ) (d : Delivery) : Prop where
  out : d.out.Inv bo cap
  answers : d.answers.length ≤ d.calls.length
  accepted : d.out.accepted = d.accepted
  resolved : ∀ (k : ℕ) (c : PushCall) (reply : String), d.calls[k]? = some c →
    c.promise = .resolved reply → d.answers[k]? = some (some reply)

variable {cap : ℕ} {d : Delivery}

/-- What the daemon has accepted is a part of what the script has sent, in the same order. -/
theorem accepted_sublist (d : Delivery) : d.accepted.Sublist d.payloads :=
  (List.filter_sublist.map Prod.fst).trans (map_fst_zip_sublist _ _)

/-- Anything but a `push` of the script happens to the session. -/
theorem Inv.session (h : d.Inv bo cap) {op : SessionOp} (hop : ∀ msg, op ≠ .push msg) :
    Inv bo cap { d with out := d.out.step bo op } :=
  ⟨h.out.step op, h.answers, ((h.out.len_step hop).2).trans h.accepted, h.resolved⟩

/-- A call is made. -/
theorem Inv.call (h : d.Inv bo cap) (payload : List UInt8) :
    Inv bo cap { d with calls := d.calls ++ [⟨payload, .pending⟩] } := by
  have hlen : d.answers.length ≤ d.payloads.length := by
    rw [payloads, List.length_map]
    exact h.answers
  refine ⟨h.out, ?_, ?_, fun k c reply hc hp => ?_⟩
  · rw [List.length_append]
    exact h.answers.trans (Nat.le_add_right _ _)
  · rw [h.accepted]
    simp only [Delivery.accepted, Delivery.payloads, List.map_append, List.map_singleton]
    rw [zip_append_left payload (show _ ≤ (d.calls.map PushCall.payload).length from hlen)]
  · refine h.resolved k c reply ?_ hp
    rcases Nat.lt_or_ge k d.calls.length with hlt | hge
    · rwa [List.getElem?_append_left hlt] at hc
    · rw [List.getElem?_append_right hge, List.getElem?_singleton] at hc
      split_ifs at hc
      cases hc
      cases hp

/-- What is called does not change when a call is settled. -/
theorem payloads_settle (d : Delivery) (k : ℕ) (f : CallPromise → CallPromise) :
    payloads { d with calls := d.calls.modify k (PushCall.settle f) } = d.payloads := by
  refine List.ext_getElem? fun i => ?_
  rw [payloads, payloads, List.getElem?_map, List.getElem?_modify, List.getElem?_map]
  cases d.calls[i]? with
  | none => rfl
  | some c => by_cases hk : k = i <;> simp [hk, PushCall.settle]

/-- Settling a call changes nothing else. -/
theorem Inv.settle (h : d.Inv bo cap) (k : ℕ) {f : CallPromise → CallPromise}
    (hf : ∀ p reply, f p = .resolved reply →
      p = .resolved reply ∨ d.answers[k]? = some (some reply)) :
    Inv bo cap { d with calls := d.calls.modify k (PushCall.settle f) } := by
  refine ⟨h.out, ?_, ?_, fun i c reply hc hp => ?_⟩
  · rw [List.length_modify]
    exact h.answers
  · rw [h.accepted]
    simp only [Delivery.accepted]
    rw [d.payloads_settle k f]
  · have hc : (d.calls.modify k (PushCall.settle f))[i]? = some c := hc
    rw [List.getElem?_modify, Option.map_eq_map, Option.map_eq_some_iff] at hc
    obtain ⟨c', hc', rfl⟩ := hc
    split_ifs at hp with hk
    · subst hk
      rcases hf c'.promise reply hp with hold | hnew
      · exact h.resolved k c' reply hc' hold
      · exact hnew
    · exact h.resolved i c' reply hc' hp

/-- The next call reaches the daemon. -/
theorem Inv.arrive (h : d.Inv bo cap) {c : PushCall} (hc : d.calls[d.answers.length]? = some c) :
    Inv bo cap { d with
      out := d.out.step bo (.push c.payload)
      answers := d.answers ++ [d.answer bo c.payload] } := by
  have hpayload : d.payloads[d.answers.length]? = some c.payload := by
    rw [payloads, List.getElem?_map, hc]
    rfl
  obtain ⟨hlt, -⟩ := List.getElem?_eq_some_iff.mp hc
  refine ⟨h.out.step _, ?_, ?_, fun k c reply hc hp => ?_⟩
  · rw [List.length_append]
    exact hlt
  · simp only [Delivery.accepted]
    rw [show Delivery.payloads { d with
        out := d.out.step bo (.push c.payload)
        answers := d.answers ++ [d.answer bo c.payload] } = d.payloads from rfl,
      zip_append_right _ hpayload, List.filter_append, List.map_append]
    refine Eq.trans ?_ (congrArg (· ++ _) h.accepted)
    simp only [Outbound.accepted, Outbound.step, List.filter_append, List.map_append]
    congr 1
    rcases @SessionLink.replied_push bo d.out.link c.payload with hnone | ⟨reply, hreply⟩
    · simp [answer, hnone]
    · by_cases hempty : reply = "" <;> simp [answer, hreply, hempty]
  · have hk := h.resolved k c reply hc hp
    exact (List.getElem?_append_left (List.getElem?_eq_some_iff.mp hk).1).trans hk

/-- **What a step preserves.** -/
theorem Inv.step (h : d.Inv bo cap) (ev : DeliveryEvent) : (d.step bo ev).Inv bo cap := by
  cases ev with
  | call payload => exact h.call payload
  | arrive =>
    rw [Delivery.step]
    split
    · exact h
    · rename_i c hc
      exact h.arrive hc
  | reply k =>
    rw [Delivery.step.eq_def]
    simp only
    split
    · rename_i reply hreply
      refine h.settle k fun p reply' hp => ?_
      cases p with
      | pending =>
        cases hp
        exact Or.inr hreply
      | resolved => exact Or.inl hp
      | rejected => cases hp
    · exact h
  | timeout k =>
    refine h.settle k fun p reply hp => ?_
    cases p with
    | pending => cases hp
    | resolved => exact Or.inl hp
    | rejected => cases hp
  | io revents reads sends => exact h.session fun _ => SessionOp.noConfusion
  | poll call => exact h.session fun _ => SessionOp.noConfusion
  | expire => exact h.session fun _ => SessionOp.noConfusion
  | destroy => exact h.session fun _ => SessionOp.noConfusion

/-- Only a call of the script adds a payload. -/
theorem payloads_step (d : Delivery) {ev : DeliveryEvent} (hev : ∀ payload, ev ≠ .call payload) :
    (d.step bo ev).payloads = d.payloads := by
  cases ev with
  | call payload => exact absurd rfl (hev payload)
  | arrive =>
    rw [step]
    split <;> rfl
  | reply k =>
    rw [step]
    split
    · exact d.payloads_settle k _
    · rfl
  | timeout k => exact d.payloads_settle k _
  | io | poll | expire | destroy => rfl

theorem inv_start {id : ℕ} {fd : ℤ} {rxCap txCap : ℕ} {s : Session}
    (h : Session.make id fd rxCap txCap = .ok s) (hfd : 0 ≤ fd) (stream : List UInt8)
    (closed : Bool) : (start s stream closed).Inv bo (effectiveCap txCap) :=
  ⟨Outbound.inv_init h hfd stream closed, le_rfl, rfl, fun _ _ _ hc => nomatch hc⟩

theorem Inv.steps (h : d.Inv bo cap) (evs : List DeliveryEvent) : (d.run bo evs).Inv bo cap :=
  List.foldlRecOn evs (Delivery.step bo) h fun _ hd ev _ => hd.step ev

end Delivery

/-! ### From the script to the socket -/

/-- **A pushed message is delivered at most once, in order, and `true` means it was.** In every run
what the socket has taken and what is queued for it are the frames of the accepted messages, a part
of the messages the script has sent, in the same order. When `pushToClient` returns `true` its
message is one of them; when it returns `false` its message is not, unless the timer of the call
fired before the reply arrived. -/
theorem push_delivery (bo : ByteOrder) {id : ℕ} {fd : ℤ} {rxCap txCap : ℕ} {s : Session}
    (h : Session.make id fd rxCap txCap = .ok s) (hfd : 0 ≤ fd) (stream : List UInt8)
    (closed : Bool) (evs : List DeliveryEvent) :
    let d := (Delivery.start s stream closed).run bo evs
    d.out.wire ++ d.out.link.session.client.tx.queuedBytes = d.accepted.flatMap (frameBytes bo) ∧
      d.accepted.Sublist d.payloads ∧ d.answers.length ≤ d.calls.length ∧
      ∀ (k : ℕ) (c : PushCall), d.calls[k]? = some c →
        (pushToClient c.promise = some true → d.answers[k]? = some (some "")) ∧
        (pushToClient c.promise = some false → d.answers[k]? = some (some "") →
          c.promise = .rejected) := by
  intro d
  have hinv : d.Inv bo (effectiveCap txCap) := (Delivery.inv_start h hfd stream closed).steps evs
  refine ⟨?_, d.accepted_sublist, hinv.answers, fun k c hc => ?_⟩
  · rw [← hinv.accepted]
    exact hinv.out.refines.fifo
  · have hresolved := hinv.resolved k c
    cases hp : c.promise with
    | pending => exact ⟨fun htrue => (nomatch htrue), fun hfalse => (nomatch hfalse)⟩
    | rejected => exact ⟨fun htrue => (nomatch htrue), fun _ _ => rfl⟩
    | resolved reply =>
      have hanswer := hresolved reply hc hp
      by_cases hempty : reply = ""
      · subst hempty
        exact ⟨fun _ => hanswer, fun hfalse => by simp [pushToClient] at hfalse⟩
      · refine ⟨fun htrue => ?_, fun _ hcontra => ?_⟩
        · simp [pushToClient, hempty] at htrue
        · rw [hanswer] at hcontra
          exact absurd (Option.some.inj (Option.some.inj hcontra)) hempty

/-- The first message is too long for the ring and the reply to the second one is late. -/
theorem push_delivery_two : ∃ s, Session.make 1 3 8 9 = .ok s ∧
    let d := (Delivery.start s [] false).run .little
      [.call [49, 49, 49, 49, 49, 49], .call [50], .arrive, .reply 0, .arrive, .timeout 1, .reply 1]
    d.out.wire ++ d.out.link.session.client.tx.queuedBytes =
      d.accepted.flatMap (frameBytes .little) :=
  ⟨_, rfl, (@push_delivery .little 1 3 8 9 _ rfl (by decide) [] false _).1⟩

/-- What the host has written to the browser of the bytes it read from the session. -/
theorem Delivery.Inv.take_frames {cap : ℕ} {d : Delivery} (hinv : d.Inv bo cap) {l : Lane}
    (hl : l.Bridged bo) (hpre : l.received <+: d.out.wire) :
    ¬ Oversized bo l.received ∧ (∃ k, l.written = (d.accepted.take k).flatMap (frameBytes bo)) ∧
      (l.received = d.out.wire → d.out.link.session.client.tx.len = 0 →
        l.written = d.accepted.flatMap (frameBytes bo)) := by
  have hfifo : d.out.wire ++ d.out.link.session.client.tx.queuedBytes =
      d.accepted.flatMap (frameBytes bo) := by
    rw [← hinv.accepted]
    exact hinv.out.refines.fifo
  have hle : ∀ p ∈ d.accepted, p.length ≤ kMaxMessageLen := by
    obtain ⟨t, ts, -, hqueue⟩ := hinv.out.run
    have hle := @TxLink.accepted_le bo t ts
    rw [← hqueue] at hle
    rw [← hinv.accepted]
    exact hle
  obtain ⟨hover, htake, hall⟩ := hl.take_frames hle (hfifo ▸ hpre.trans (List.prefix_append _ _))
  refine ⟨hover, htake, fun heq hzero => hall ?_⟩
  have hempty : d.out.link.session.client.tx.queuedBytes = [] :=
    List.eq_nil_of_length_eq_zero (hinv.out.refines.inv.length_queuedBytes.trans hzero)
  rw [heq, ← hfifo, hempty, List.append_nil]

/-- **Behind the native host as well.** While both sides of the host stay open, what it has written
to the browser of the bytes it read from the session is an initial part of the accepted messages,
and all of them when nothing is left on the way. -/
theorem push_to_browser (bo : ByteOrder) {id : ℕ} {fd : ℤ} {rxCap txCap : ℕ} {s : Session}
    (h : Session.make id fd rxCap txCap = .ok s) (hfd : 0 ≤ fd) (stream : List UInt8)
    (closed : Bool) (evs : List DeliveryEvent) (es : List HostEvent) (hopen : ∀ e ∈ es, e.Open) :
    let d := (Delivery.start s stream closed).run bo evs
    let lane := (Host.run bo es).lanes .daemon
    lane.received <+: d.out.wire →
      ¬ Oversized bo lane.received ∧ d.accepted.Sublist d.payloads ∧
      (∃ k, lane.written = (d.accepted.take k).flatMap (frameBytes bo)) ∧
      (lane.received = d.out.wire → d.out.link.session.client.tx.len = 0 →
        lane.written = d.accepted.flatMap (frameBytes bo)) := by
  intro d lane hpre
  have hinv : d.Inv bo (effectiveCap txCap) := (Delivery.inv_start h hfd stream closed).steps evs
  obtain ⟨hover, htake, hall⟩ :=
    hinv.take_frames ((Host.inv_run hopen).1.bridged .daemon) hpre
  exact ⟨hover, d.accepted_sublist, htake, hall⟩

/-- The host has read the first frame and a part of the second. -/
theorem push_to_browser_one : ∃ s, Session.make 1 3 8 64 = .ok s ∧
    let d := (Delivery.start s [] false).run .little
      [.call [49], .call [50], .arrive, .arrive, .io ⟨false, true, false⟩ [] [.accept 7]]
    let lane := (Host.run .little [.read .daemon [1, 0, 0, 0, 49, 1, 0]]).lanes .daemon
    ∃ k, lane.written = (d.accepted.take k).flatMap (frameBytes .little) := by
  refine ⟨_, rfl, ?_⟩
  refine (@push_to_browser .little 1 3 8 64 _ rfl (by decide) [] false
    [.call [49], .call [50], .arrive, .arrive, .io ⟨false, true, false⟩ [] [.accept 7]]
    [.read .daemon [1, 0, 0, 0, 49, 1, 0]]
    (List.forall_mem_singleton.mpr (show _ ≠ [] by decide)) ?_).2.2.1
  exact ⟨[0], by decide +kernel⟩

end KwinApi
