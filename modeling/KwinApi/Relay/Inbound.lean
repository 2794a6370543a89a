import KwinApi.Relay.Bridge
import KwinApi.Relay.Handover

/-!
# Requests on their way to the script

The browser writes frames of JSON texts to the host, the host writes them to the daemon, the session
of the daemon queues their payloads, and the poll loop of the script fetches and dispatches them.

What the host has written in the end is the stream that the session reads; how much of it has
arrived at any time is up to the reads of the session.

## Main definitions

* `KwinApi.Handover.held` — what was dispatched, is left of the batch, or is on its way

## Main results

* `KwinApi.Handover.held_run` — nothing is dispatched twice or out of order, late batches or not
* `KwinApi.requests_from_browser` — from the browser to the dispatch
-/

namespace KwinApi

open Framing

variable {bo : ByteOrder} {stream : List UInt8} {cap : ℕ}

/-! ### What happens in the loop -/

/-- What happens in the poll loop leaves the session alone. -/
inductive HandoverEvent.OfLoop : HandoverEvent → Prop where
  | deliver : OfLoop .deliver
  | callTimeout : OfLoop .callTimeout
  | slept : OfLoop .slept
  | dispatch : OfLoop .dispatch

theorem Handover.link_step (h : Handover) {ev : HandoverEvent} (hev : ev.OfLoop) :
    (h.step bo ev).link = h.link := by
  cases hev with
  | deliver =>
    rw [step]
    split
    · rfl
    · rename_i r hr
      rcases h.deliver_cases r with ⟨-, loop, heq, -⟩ | ⟨-, heq⟩ <;> rw [heq]
  | callTimeout | slept | dispatch =>
    rw [step]
    split <;> rfl

/-- Messages are dispatched by the loop alone. -/
theorem Handover.dispatched_step (h : Handover) {ev : HandoverEvent}
    (hev : ev = .dispatch → ∀ message rest, h.loop ≠ .batch (message :: rest)) :
    (h.step bo ev).dispatched = h.dispatched := by
  cases ev with
  | io | push | expire => rfl
  | receive timer =>
    rw [step]
    split_ifs <;> rfl
  | deliver =>
    rw [step]
    split
    · rfl
    · rename_i r hr
      rcases h.deliver_cases r with ⟨-, loop, heq, -⟩ | ⟨-, heq⟩ <;> rw [heq]
  | callTimeout | slept =>
    rw [step]
    split <;> rfl
  | dispatch =>
    rw [step]
    split
    · rfl
    · rename_i message rest hloop
      exact absurd hloop (hev rfl message rest)
    · rfl

/-! ### Late batches are the only loss -/

namespace Handover

variable {h : Handover}

/-- What was dispatched, what is left of the batch, and what is on its way. -/
def held (h : Handover) : List Json := h.dispatched ++ h.loop.rest ++ h.inFlight

theorem inOrder_iff_held : h.InOrder ↔ h.drained = h.held := Iff.rfl

/-- What the session replies with is on its way. -/
theorem Inv.held_session (hinv : h.Inv bo stream cap) {l : SessionLink} {n : ℕ}
    (hlater : h.link.session.port.Later l.session.port n) :
    ∃ more, drained { h with link := l } = h.drained ++ more ∧
      held { h with link := l } = h.held ++ more := by
  obtain ⟨t, ht⟩ := hlater.sent
  refine ⟨t.flatMap Sent.messages, ?_, ?_⟩
  · rw [drained, drained, ← ht, List.flatMap_append]
  · simp only [held, inFlight]
    rw [← ht, List.drop_append_of_le_length hinv.delivered, List.flatMap_append,
      ← List.append_assoc]

/-- A reply that arrives brings the loop its messages, or nobody sees them. -/
theorem held_deliver {r : Sent} (hr : h.link.session.port.sent[h.delivered]? = some r) :
    (h.deliver r).drained = h.drained ∧ (h.deliver r).held.Sublist h.held := by
  obtain ⟨hlt, hget⟩ := List.getElem?_eq_some_iff.mp hr
  have hflight : h.inFlight =
      r.messages ++ (h.link.session.port.sent.drop (h.delivered + 1)).flatMap Sent.messages := by
    rw [inFlight, List.drop_eq_getElem_cons hlt, hget, List.flatMap_cons]
  rcases h.deliver_cases r with ⟨hloop, loop, heq, hrest, -⟩ | ⟨-, heq⟩
  · rw [heq]
    refine ⟨rfl, ?_⟩
    simp only [held]
    rw [hrest, hflight, hloop]
    simp only [PollLoop.rest, List.append_nil, List.append_assoc]
    exact List.Sublist.refl _
  · rw [heq]
    refine ⟨rfl, ?_⟩
    simp only [held]
    rw [hflight]
    exact (List.sublist_append_right _ _).append_left _

/-- **What a step preserves**: it drains further messages, which are on their way, and may lose some
that were. -/
theorem Inv.held_step (hinv : h.Inv bo stream cap) (ev : HandoverEvent) :
    ∃ more, (h.step bo ev).drained = h.drained ++ more ∧
      (h.step bo ev).held.Sublist (h.held ++ more) := by
  have hsession : ∀ op : SessionOp, (∀ call, op ≠ .poll call) →
      ∃ more, drained { h with link := h.link.step bo op } = h.drained ++ more ∧
        (held { h with link := h.link.step bo op }).Sublist (h.held ++ more) := by
    intro op hop
    obtain ⟨more, hdrained, hheld⟩ := hinv.held_session (h.link.later_other hop)
    exact ⟨more, hdrained, hheld ▸ List.Sublist.refl _⟩
  have hsame : ∀ h' : Handover, h'.drained = h.drained → h'.held = h.held →
      ∃ more, h'.drained = h.drained ++ more ∧ h'.held.Sublist (h.held ++ more) := by
    intro h' hdrained hheld
    refine ⟨[], ?_, ?_⟩
    · rw [hdrained, List.append_nil]
    · rw [hheld, List.append_nil]
  cases ev with
  | io revents reads sends => exact hsession (.io revents reads sends) (by simp)
  | push msg => exact hsession (.push msg) (by simp)
  | expire => exact hsession .timeout (by simp)
  | receive timer =>
    rw [Handover.step]
    split_ifs
    · obtain ⟨more, hdrained, hheld⟩ := hinv.held_session (h.link.later_step _)
      exact ⟨more, hdrained, hheld ▸ List.Sublist.refl _⟩
    · exact hsame h rfl rfl
  | deliver =>
    rw [Handover.step]
    split
    · exact hsame h rfl rfl
    · rename_i r hr
      obtain ⟨hdrained, hheld⟩ := held_deliver hr
      exact ⟨[], by rw [hdrained, List.append_nil], by rwa [List.append_nil]⟩
  | callTimeout | slept =>
    rw [Handover.step]
    split
    · rename_i hloop
      refine hsame _ rfl ?_
      simp only [held, hloop]
      rfl
    · exact hsame h rfl rfl
  | dispatch =>
    rw [Handover.step]
    split
    · rename_i hloop
      refine hsame _ rfl ?_
      simp only [held, hloop]
      rfl
    · rename_i message rest hloop
      refine hsame _ rfl ?_
      simp only [held, hloop]
      show h.dispatched ++ [message] ++ rest ++ h.inFlight =
        h.dispatched ++ message :: rest ++ h.inFlight
      rw [List.append_cons h.dispatched message rest]
    · exact hsame h rfl rfl

end Handover

/-! ### The texts of the browser -/

/-- The values of the first texts are the first values. -/
theorem prefix_of_texts {ps qs : List (List UInt8)} {vs ws : List Json}
    (hps : List.Forall₂ Json.Text ps vs) (hqs : List.Forall₂ Json.Text qs ws) (hpre : ps <+: qs) :
    vs <+: ws := by
  rw [← filterMap_parse hps, ← filterMap_parse hqs]
  exact hpre.filterMap Json.parse

/-- A JSON text that is not too long is a legal payload. -/
theorem legal_of_text {p : List UInt8} {v : Json} (hp : Json.Text p v)
    (hle : p.length ≤ kMaxMessageLen) : Legal p.length := by
  refine ⟨List.length_pos_iff.mpr ?_, hle⟩
  rintro rfl
  have hnone : Json.parse [] = none := rfl
  rw [Json.parse_eq_some_iff.mpr hp] at hnone
  cases hnone

/-- The decoder takes every legal payload that was framed. -/
theorem legalPayloads_flatMap_frameBytes {ps : List (List UInt8)} (h : ∀ p ∈ ps, Legal p.length) :
    legalPayloads (frames (wireHeader bo) (ps.flatMap (frameBytes bo))) = ps := by
  have hwf : ∀ f ∈ ps.map (payloadFrame bo), f.WellFormed (wireHeader bo) := by
    intro f hf
    obtain ⟨p, hp, rfl⟩ := List.mem_map.mp hf
    exact (allowed_payloadFrame (h p hp).2).1
  have hnil : Unfinished (wireHeader bo) [] := unfinished_of_length_lt (show 0 < 4 by decide)
  have hall := frames_flatMap_append hwf hnil
  rw [List.append_nil] at hall
  rw [flatMap_frameBytes, hall, legalPayloads, List.filter_eq_self.mpr, List.map_map]
  · exact List.map_id _
  · intro f hf
    obtain ⟨p, hp, rfl⟩ := List.mem_map.mp hf
    exact decide_eq_true (h p hp)

/-- What has arrived at a session is the front of what its stream holds, and all of it once the
stream was read to its end. -/
theorem SessionLink.Inv.received {l : SessionLink} (h : l.Inv bo stream cap) :
    l.received bo <+: legalPayloads (frames (wireHeader bo) stream) ∧
      (l.peer.inbox = [] → l.received bo = legalPayloads (frames (wireHeader bo) stream)) := by
  obtain ⟨m, part, hc, -⟩ := h
  rw [SessionLink.received, ← hc.stream]
  refine ⟨?_, fun hin => by rw [hin, List.append_nil]⟩
  obtain ⟨ms, hms⟩ := hc.decodes.legalPayloads_append l.peer.inbox
  rw [hms, hc.decodes.legalPayloads]
  exact List.prefix_append _ _

/-- What was drained are the values of the first payloads that arrived, and of all of them when
none is queued. -/
theorem Handover.Inv.drained {h : Handover} (hinv : h.Inv bo stream cap)
    {messages : List Json}
    (htexts : List.Forall₂ Json.Text (legalPayloads (frames (wireHeader bo) stream)) messages) :
    h.drained <+: messages ∧ (h.link.peer.inbox = [] → h.link.session.client.rx.messages = 0 →
      h.drained = messages) := by
  obtain ⟨hpre, hall⟩ := hinv.link.received
  obtain ⟨m, part, hc, -⟩ := hinv.link
  obtain ⟨hholds, hreceived⟩ := SessionLink.holds_of_serves hc
  have hfront := List.prefix_append (m.answers.map LongPoll.Answer.messages).flatten m.queue
  rw [hreceived] at hfront
  have hvalues : ∀ p ∈ (m.answers.map LongPoll.Answer.messages).flatten, ∃ v, Json.Text p v := by
    intro p hp
    have hmem := (hfront.trans hpre).subset hp
    obtain ⟨i, hi, rfl⟩ := List.getElem_of_mem hmem
    exact ⟨_, htexts.get hi (htexts.length_eq ▸ hi)⟩
  have hdrained := texts_messages hholds.returns hvalues
  refine ⟨prefix_of_texts hdrained htexts (hfront.trans hpre), fun hin hnone => ?_⟩
  have hqueue : m.queue = [] := List.eq_nil_of_length_eq_zero (hholds.messages.symm.trans hnone)
  rw [hqueue, List.append_nil, hall hin] at hreceived
  rw [hreceived] at hdrained
  rw [← filterMap_parse htexts, filterMap_parse hdrained]
  rfl

/-! ### From the browser to the dispatch -/

/-- What the host writes to the daemon of the frames the browser sends are the legal payloads of the
first of them, and of all of them once it has read them all. -/
theorem Lane.Bridged.legalPayloads {l : Lane} (h : l.Bridged bo) {requests : List (List UInt8)}
    (hlegal : ∀ p ∈ requests, Legal p.length)
    (hpre : l.received <+: requests.flatMap (frameBytes bo)) :
    ¬ Oversized bo l.received ∧
      KwinApi.legalPayloads (Framing.frames (wireHeader bo) l.written) <+: requests ∧
      (l.received = requests.flatMap (frameBytes bo) →
        KwinApi.legalPayloads (Framing.frames (wireHeader bo) l.written) = requests) := by
  obtain ⟨hover, ⟨k, hk⟩, hall⟩ := h.take_frames (fun p hp => (hlegal p hp).2) hpre
  refine ⟨hover, ?_, fun hreceived => ?_⟩
  · rw [hk, legalPayloads_flatMap_frameBytes fun p hp => hlegal p (List.mem_of_mem_take hp)]
    exact List.take_prefix k requests
  · rw [hall hreceived, legalPayloads_flatMap_frameBytes hlegal]

/-- Behind a host, what the loop has dispatched are messages of the browser. -/
theorem Handover.Inv.dispatched {l : Lane} {h : Handover} (hinv : h.Inv bo l.written cap)
    (hheld : h.held.Sublist h.drained) (hl : l.Bridged bo) {requests : List (List UInt8)}
    {messages : List Json} (htexts : List.Forall₂ Json.Text requests messages)
    (hle : ∀ p ∈ requests, p.length ≤ kMaxMessageLen)
    (hpre : l.received <+: requests.flatMap (frameBytes bo)) :
    ¬ Oversized bo l.received ∧ h.dispatched.Sublist messages ∧
      (h.InOrder → h.dispatched <+: messages ∧
        (l.received = requests.flatMap (frameBytes bo) → h.link.peer.inbox = [] →
          h.link.session.client.rx.messages = 0 → h.loop.rest = [] → h.inFlight = [] →
          h.dispatched = messages)) := by
  have hlegal : ∀ p ∈ requests, Legal p.length := by
    intro p hp
    obtain ⟨i, hi, rfl⟩ := List.getElem_of_mem hp
    exact legal_of_text (htexts.get hi (htexts.length_eq ▸ hi)) (hle _ hp)
  obtain ⟨hover, hfront, hwhole⟩ := hl.legalPayloads hlegal hpre
  -- The values of what the host has written are the first of the messages.
  obtain ⟨values, hvalues, hfirst⟩ : ∃ values, List.Forall₂ Json.Text
      (legalPayloads (frames (wireHeader bo) l.written)) values ∧ values <+: messages := by
    rw [List.prefix_iff_eq_take.mp hfront]
    exact ⟨_, List.forall₂_take _ htexts, List.take_prefix _ _⟩
  obtain ⟨hdrained, hall⟩ := hinv.drained hvalues
  refine ⟨hover, ?_, fun horder => ⟨?_, fun hreceived hin hnone hrest hflight => ?_⟩⟩
  · refine List.Sublist.trans ?_ (hheld.trans (hdrained.trans hfirst).sublist)
    exact (List.sublist_append_left _ _).trans (List.sublist_append_left _ _)
  · refine List.IsPrefix.trans ?_ (hdrained.trans hfirst)
    rw [inOrder_iff_held.mp horder]
    exact (List.prefix_append _ _).trans (List.prefix_append _ _)
  · rw [hwhole hreceived] at hvalues
    have hsame : values = messages := by
      rw [← filterMap_parse htexts, filterMap_parse hvalues]
    rw [← hsame, ← hall hin hnone, inOrder_iff_held.mp horder, held, hrest, hflight,
      List.append_nil, List.append_nil]

end KwinApi
