import KwinApi.Daemon.Teardown
import KwinApi.Relay.Batch
import Mathlib.Data.List.Induction

/-!
# Batches on their way to the poll loop

Two timeouts guard one `poll`: the daemon answers after `POLL_TIMEOUT_MS` at the latest, and
`callDBusAsync` rejects the promise of the call after `POLL_CALL_TIMEOUT_MS`. A reply that arrives
after that resolves a promise that is settled already: nobody sees it. The daemon has forgotten the
messages when it built the reply.

Calls and replies are delivered in order, after any time. The calls of the loop and the requests of
the object are numbered in the same way, as nobody else calls `poll`. `callDBus` does not call back
for an error reply. `called` and `delivered` say how many calls were made and how many replies have
arrived; `timedOut` and `dispatched` are records of the model.

## Main definitions

* `KwinApi.PollLoop`, `KwinApi.Handover` — the loop, the object and what is between them
* `KwinApi.HandoverEvent`, `Handover.step` — every interleaving
* `KwinApi.Handover.InOrder` — what was drained is dispatched, in the batch, or on its way
* `KwinApi.Handover.Late` — a batch arrives after the timer of its call has fired

## Main results

* `KwinApi.handed_over_iff` — every payload is dispatched once and in order exactly when no batch is
  late
-/

namespace KwinApi

open Framing LongPoll

/-- `POLL_TIMEOUT_MS` -/
def pollTimeoutMs : ℤ := 20000

/-- Where the poll loop of a client is. -/
inductive PollLoop where
  /-- It awaits the promise of a call. -/
  | awaiting (call : ℕ)
  /-- It dispatches a batch: the messages that are left. -/
  | batch (rest : List Json)
  /-- It awaits the end of a sleep. -/
  | sleeping

/-- The messages of the batch that are left. -/
def PollLoop.rest : PollLoop → List Json
  | .batch rest => rest
  | _ => []

/-- The messages a reply hands to the loop. -/
def Sent.messages (r : Sent) : List Json :=
  match r.reply with
  | .text raw => (pollRound raw).dispatched
  | .error _ => []

/-- A client's object and its poll loop. -/
structure Handover where
  link : SessionLink
  called : ℕ
  delivered : ℕ
  loop : PollLoop
  timedOut : List ℕ
  dispatched : List Json

/-- What can happen: to the session, its io source reports events, a `push` call comes in, the timer
of a pending `poll` fires, or the next `poll` call of the loop comes in; to the loop, the next reply
arrives, the timer of its call fires, its sleep ends, or it goes on with its batch. -/
inductive HandoverEvent where
  | io (revents : Revents) (reads : List ReadAnswer) (sends : List SendAnswer)
  | push (msg : List UInt8)
  | expire
  | receive (timer : TimerSetup)
  | deliver
  | callTimeout
  | slept
  | dispatch

namespace Handover

/-- The loop has just called `poll` for the first time. -/
def start (s : Session) (stream : List UInt8) (closed : Bool) : Handover where
  link := .init s stream closed
  called := 1
  delivered := 0
  loop := .awaiting 0
  timedOut := []
  dispatched := []

/-- The promise of the call is resolved with a reply. -/
def settle (h : Handover) (r : Sent) : Handover :=
  match r.reply with
  | .text raw =>
    match pollRound raw with
    | .batch messages => { h with loop := .batch messages }
    | _ => { h with loop := .sleeping }
  | .error _ => h

/-- A reply arrives. When its promise was rejected before, it is ignored. -/
def deliver (h : Handover) (r : Sent) : Handover :=
  let h := { h with delivered := h.delivered + 1 }
  match h.loop with
  | .awaiting call => if call = r.request then h.settle r else h
  | _ => h

/-- One thing that happens. -/
def step (bo : ByteOrder) (h : Handover) : HandoverEvent → Handover
  | .io revents reads sends => { h with link := h.link.step bo (.io revents reads sends) }
  | .push msg => { h with link := h.link.step bo (.push msg) }
  | .expire => { h with link := h.link.step bo .timeout }
  | .receive timer =>
    if h.link.session.port.requests < h.called then
      { h with link := h.link.step bo (.poll ⟨.ok pollTimeoutMs, timer⟩) }
    else h
  | .deliver =>
    match h.link.session.port.sent[h.delivered]? with
    | none => h
    | some r => h.deliver r
  | .callTimeout =>
    match h.loop with
    | .awaiting call => { h with loop := .sleeping, timedOut := h.timedOut ++ [call] }
    | _ => h
  | .slept =>
    match h.loop with
    | .sleeping => { h with loop := .awaiting h.called, called := h.called + 1 }
    | _ => h
  | .dispatch =>
    match h.loop with
    | .batch [] => { h with loop := .sleeping }
    | .batch (message :: rest) =>
      { h with loop := .batch rest, dispatched := h.dispatched ++ [message] }
    | _ => h

/-- A run. -/
def run (bo : ByteOrder) (h : Handover) (evs : List HandoverEvent) : Handover :=
  evs.foldl (step bo) h

/-- The messages the daemon drained into replies. -/
def drained (h : Handover) : List Json := h.link.session.port.sent.flatMap Sent.messages

/-- The messages of the replies on their way. -/
def inFlight (h : Handover) : List Json :=
  (h.link.session.port.sent.drop h.delivered).flatMap Sent.messages

/-- What was drained was dispatched, in order and once, or is left of the batch, or is on its
way. -/
def InOrder (h : Handover) : Prop := h.drained = h.dispatched ++ h.loop.rest ++ h.inFlight

/-- The event is the arrival of messages for a call whose timer has fired. -/
def Late (h : Handover) (ev : HandoverEvent) : Prop :=
  ev = .deliver ∧ ∃ r, h.link.session.port.sent[h.delivered]? = some r ∧ r.request ∈ h.timedOut ∧
    r.messages ≠ []

theorem run_concat (bo : ByteOrder) (h : Handover) (evs : List HandoverEvent)
    (ev : HandoverEvent) : h.run bo (evs ++ [ev]) = (h.run bo evs).step bo ev :=
  List.foldl_concat ..

end Handover

/-! ### Every call is accounted for -/

namespace SessionLink

variable {bo : ByteOrder} {stream : List UInt8} {cap : ℕ} {l : SessionLink}

/-- No request is replied to twice, or before it was made. -/
theorem Inv.requests (h : l.Inv bo stream cap) :
    (l.session.port.sent.map Sent.request).Nodup ∧
      ∀ r ∈ l.session.port.sent, r.request < l.session.port.requests := by
  obtain ⟨m, part, hc, -⟩ := h
  have hperm := hc.serves.served.account
  rw [← hc.serves.map_request, ← hc.serves.requests, List.append_assoc] at hperm
  refine ⟨(List.nodup_append.mp (hperm.nodup_iff.mpr List.nodup_range)).1, fun r hr => ?_⟩
  refine List.mem_range.mp (hperm.subset (List.mem_append_left _ ?_))
  exact List.mem_map_of_mem hr

end SessionLink

namespace Handover

variable {bo : ByteOrder} {stream : List UInt8} {cap : ℕ} {h : Handover}

/-- Every call of the loop has its reply, or was given up, or is awaited. -/
structure Inv (bo : ByteOrder) (stream : List UInt8) (cap : ℕ) (h : Handover) : Prop where
  link : h.link.Inv bo stream cap
  requests : h.link.session.port.requests ≤ h.called
  delivered : h.delivered ≤ h.link.session.port.sent.length
  account : ∀ q < h.called, q ∈ (h.link.session.port.sent.take h.delivered).map Sent.request ∨
    q ∈ h.timedOut ∨ h.loop = .awaiting q
  awaiting : ∀ q, h.loop = .awaiting q → q < h.called ∧ q ∉ h.timedOut
  timedOut : ∀ q ∈ h.timedOut, q < h.called

/-- Something happens to the session. -/
theorem Inv.session_step (hinv : h.Inv bo stream cap) {l : SessionLink} {n : ℕ}
    (hlink : l.Inv bo stream cap) (hlater : h.link.session.port.Later l.session.port n)
    (hn : h.link.session.port.requests + n ≤ h.called) :
    Inv bo stream cap { h with link := l } := by
  obtain ⟨t, ht⟩ := hlater.sent
  refine ⟨hlink, hlater.requests.le.trans hn, ?_, ?_, hinv.awaiting, hinv.timedOut⟩
  · exact hinv.delivered.trans hlater.sent.length_le
  · show ∀ q < h.called, q ∈ (l.session.port.sent.take h.delivered).map Sent.request ∨ _
    rw [← ht, List.take_append_of_le_length hinv.delivered]
    exact hinv.account

/-- Further replies are on their way. -/
theorem Inv.inOrder_session (hinv : h.Inv bo stream cap) {l : SessionLink} {n : ℕ}
    (hlater : h.link.session.port.Later l.session.port n) :
    InOrder { h with link := l } ↔ h.InOrder := by
  obtain ⟨t, ht⟩ := hlater.sent
  simp only [InOrder, drained, inFlight]
  rw [← ht, List.drop_append_of_le_length hinv.delivered, List.flatMap_append,
    List.flatMap_append, ← List.append_assoc, List.append_cancel_right_eq]

/-- A reply either resolves the promise the loop awaits, or nobody sees it. -/
theorem deliver_cases (h : Handover) (r : Sent) :
    (h.loop = .awaiting r.request ∧ ∃ loop : PollLoop,
      h.deliver r = { h with delivered := h.delivered + 1, loop } ∧ loop.rest = r.messages ∧
      ∀ q, loop = .awaiting q → q = r.request) ∨
    (h.loop ≠ .awaiting r.request ∧ h.deliver r = { h with delivered := h.delivered + 1 }) := by
  unfold deliver
  rcases hloop : h.loop with call | rest | _
  · by_cases hcall : call = r.request
    · left
      refine ⟨by rw [hcall], ?_⟩
      simp only [hcall, if_true, settle, Sent.messages]
      rcases r.reply with raw | e
      · simp only
        rcases pollRound raw with _ | messages | _ | _
        · exact ⟨.sleeping, rfl, rfl, nofun⟩
        · exact ⟨.batch messages, rfl, rfl, nofun⟩
        · exact ⟨.sleeping, rfl, rfl, nofun⟩
        · exact ⟨.sleeping, rfl, rfl, nofun⟩
      · refine ⟨.awaiting r.request, ?_, rfl, fun q hq => (PollLoop.awaiting.inj hq).symm⟩
        rw [← hcall, ← hloop]
    · right
      refine ⟨fun heq => hcall (PollLoop.awaiting.inj heq), ?_⟩
      simp only [if_neg hcall, ← hloop]
  · exact Or.inr ⟨nofun, rfl⟩
  · exact Or.inr ⟨nofun, rfl⟩

theorem Inv.deliver (hinv : h.Inv bo stream cap) {r : Sent}
    (hr : h.link.session.port.sent[h.delivered]? = some r) : (h.deliver r).Inv bo stream cap := by
  have hlt : h.delivered < h.link.session.port.sent.length :=
    (List.getElem?_eq_some_iff.mp hr).1
  have htake : h.link.session.port.sent.take (h.delivered + 1) =
      h.link.session.port.sent.take h.delivered ++ [r] := by
    rw [List.take_add_one, hr]
    rfl
  rcases h.deliver_cases r with ⟨hloop, loop, heq, -, hawait⟩ | ⟨hloop, heq⟩
  · rw [heq]
    refine ⟨hinv.link, hinv.requests, hlt, fun q hq => ?_, fun q hq => ?_, hinv.timedOut⟩
    · rw [htake, List.map_append]
      rcases hinv.account q hq with hdone | hout | hq'
      · exact Or.inl (List.mem_append_left _ hdone)
      · exact Or.inr (Or.inl hout)
      · rw [hloop] at hq'
        rw [← PollLoop.awaiting.inj hq']
        exact Or.inl (List.mem_append_right _ (List.mem_singleton_self _))
    · rw [hawait q hq]
      exact hinv.awaiting _ hloop
  · rw [heq]
    refine ⟨hinv.link, hinv.requests, hlt, fun q hq => ?_, hinv.awaiting, hinv.timedOut⟩
    rw [htake, List.map_append]
    exact (hinv.account q hq).imp_left (List.mem_append_left _)

/-- The loop goes on, and awaits nothing. -/
theorem Inv.goto (hinv : h.Inv bo stream cap) (hloop : ∀ q, h.loop ≠ .awaiting q)
    {loop : PollLoop} (hloop' : ∀ q, loop ≠ .awaiting q) (dispatched : List Json) :
    Inv bo stream cap { h with loop, dispatched } := by
  refine ⟨hinv.link, hinv.requests, hinv.delivered, fun q hq => ?_,
    fun q hq => absurd hq (hloop' q), hinv.timedOut⟩
  rcases hinv.account q hq with hdone | hout | hq'
  · exact Or.inl hdone
  · exact Or.inr (Or.inl hout)
  · exact absurd hq' (hloop q)

/-- The loop gives up the call it awaits. -/
theorem Inv.giveUp (hinv : h.Inv bo stream cap) {call : ℕ} (hloop : h.loop = .awaiting call) :
    Inv bo stream cap { h with loop := .sleeping, timedOut := h.timedOut ++ [call] } := by
  refine ⟨hinv.link, hinv.requests, hinv.delivered, fun q hq => ?_, nofun, fun q hq => ?_⟩
  · rcases hinv.account q hq with hdone | hout | hq'
    · exact Or.inl hdone
    · exact Or.inr (Or.inl (List.mem_append_left _ hout))
    · rw [hloop] at hq'
      rw [PollLoop.awaiting.inj hq']
      exact Or.inr (Or.inl (List.mem_append_right _ (List.mem_singleton_self _)))
  · rcases List.mem_append.mp hq with hq | hq
    · exact hinv.timedOut q hq
    · rw [List.mem_singleton.mp hq]
      exact (hinv.awaiting call hloop).1

/-- The loop calls again. -/
theorem Inv.call (hinv : h.Inv bo stream cap) (hloop : ∀ q, h.loop ≠ .awaiting q) :
    Inv bo stream cap { h with loop := .awaiting h.called, called := h.called + 1 } := by
  refine ⟨hinv.link, hinv.requests.trans (Nat.le_succ _), hinv.delivered, fun q hq => ?_,
    fun q hq => ?_, fun q hq => (hinv.timedOut q hq).trans (Nat.lt_succ_self _)⟩
  · rcases Nat.lt_succ_iff_lt_or_eq.mp hq with hq | rfl
    · rcases hinv.account q hq with hdone | hout | hq'
      · exact Or.inl hdone
      · exact Or.inr (Or.inl hout)
      · exact absurd hq' (hloop q)
    · exact Or.inr (Or.inr rfl)
  · rw [← PollLoop.awaiting.inj hq]
    exact ⟨Nat.lt_succ_self _, fun hout => absurd (hinv.timedOut _ hout) (lt_irrefl _)⟩

theorem Inv.step (hinv : h.Inv bo stream cap) (ev : HandoverEvent) :
    (h.step bo ev).Inv bo stream cap := by
  cases ev with
  | io revents reads sends =>
    exact hinv.session_step (hinv.link.step _) (h.link.later_other (by simp)) hinv.requests
  | push msg =>
    exact hinv.session_step (hinv.link.step _) (h.link.later_other (by simp)) hinv.requests
  | expire =>
    exact hinv.session_step (hinv.link.step _) (h.link.later_other (by simp)) hinv.requests
  | receive timer =>
    rw [Handover.step]
    split_ifs with hcalled
    · exact hinv.session_step (hinv.link.step _) (h.link.later_step _)
        ((Nat.add_le_add_left (Bool.toNat_le _) _).trans hcalled)
    · exact hinv
  | deliver =>
    rw [Handover.step]
    split
    · exact hinv
    · rename_i r hr
      exact hinv.deliver hr
  | callTimeout =>
    rw [Handover.step]
    split
    · rename_i call hloop
      exact hinv.giveUp hloop
    · exact hinv
  | slept =>
    rw [Handover.step]
    split
    · rename_i hloop
      exact hinv.call (by rw [hloop]; exact nofun)
    · exact hinv
  | dispatch =>
    rw [Handover.step]
    split
    · rename_i hloop
      have hidle : ∀ q, h.loop ≠ .awaiting q := by rw [hloop]; exact nofun
      exact hinv.goto hidle (show ∀ q, PollLoop.sleeping ≠ .awaiting q from nofun) h.dispatched
    · rename_i message rest hloop
      have hidle : ∀ q, h.loop ≠ .awaiting q := by rw [hloop]; exact nofun
      exact hinv.goto hidle (show ∀ q, PollLoop.batch rest ≠ .awaiting q from nofun) _
    · exact hinv

/-! ### One event -/

/-- A reply to a call that is not awaited: the call was given up, as no other reply to it has
arrived. -/
theorem Inv.mem_timedOut (hinv : h.Inv bo stream cap) {r : Sent}
    (hr : h.link.session.port.sent[h.delivered]? = some r) (hloop : h.loop ≠ .awaiting r.request) :
    r.request ∈ h.timedOut := by
  obtain ⟨hlt, hget⟩ := List.getElem?_eq_some_iff.mp hr
  obtain ⟨hnodup, hbound⟩ := hinv.link.requests
  have hmem : r ∈ h.link.session.port.sent := List.mem_of_getElem? hr
  rcases hinv.account r.request ((hbound r hmem).trans_le hinv.requests) with hdone | hout | hq
  · have hsplit := List.take_append_drop h.delivered h.link.session.port.sent
    rw [List.drop_eq_getElem_cons hlt, hget] at hsplit
    rw [← hsplit, List.map_append, List.map_cons] at hnodup
    exact absurd rfl ((List.nodup_append.mp hnodup).2.2 _ hdone _ List.mem_cons_self)
  · exact hout
  · exact absurd hq hloop

/-- A reply that arrives is not lost, unless it brings messages for a call that was given up. -/
theorem Inv.inOrder_deliver (hinv : h.Inv bo stream cap) (horder : h.InOrder) {r : Sent}
    (hr : h.link.session.port.sent[h.delivered]? = some r) :
    (h.deliver r).InOrder ↔ ¬ h.Late .deliver := by
  obtain ⟨hlt, hget⟩ := List.getElem?_eq_some_iff.mp hr
  have hflight : h.inFlight =
      r.messages ++ (h.link.session.port.sent.drop (h.delivered + 1)).flatMap Sent.messages := by
    rw [inFlight, List.drop_eq_getElem_cons hlt, hget, List.flatMap_cons]
  have hlate : h.Late .deliver ↔ r.request ∈ h.timedOut ∧ r.messages ≠ [] := by
    constructor
    · rintro ⟨-, r', hr', hlate⟩
      rw [hr] at hr'
      rwa [Option.some.inj hr']
    · exact fun hlate => ⟨rfl, r, hr, hlate⟩
  rw [hlate]
  rw [InOrder, hflight] at horder
  rcases h.deliver_cases r with ⟨hloop, loop, heq, hrest, -⟩ | ⟨hloop, heq⟩
  · refine iff_of_true ?_ fun hout => (hinv.awaiting _ hloop).2 hout.1
    rw [hloop] at horder
    rw [heq]
    show h.drained = h.dispatched ++ loop.rest ++ _
    rw [hrest, horder]
    simp [PollLoop.rest, inFlight]
  · have hout : r.request ∈ h.timedOut := hinv.mem_timedOut hr hloop
    rw [heq]
    show h.drained = h.dispatched ++ h.loop.rest ++ _ ↔ _
    constructor
    · rintro hafter ⟨-, hne⟩
      rw [horder] at hafter
      have hlen := congrArg List.length hafter
      have hpos := List.length_pos_iff.mpr hne
      simp only [List.length_append, inFlight] at hlen
      omega
    · intro hnone
      have hnil : r.messages = [] := not_not.mp fun hne => hnone ⟨hout, hne⟩
      rw [horder, hnil]
      rfl

/-- Every other event only moves messages on. -/
theorem Inv.inOrder_other (hinv : h.Inv bo stream cap) (horder : h.InOrder) {ev : HandoverEvent}
    (hev : ev ≠ .deliver) : (h.step bo ev).InOrder := by
  have hsession : ∀ op : SessionOp, (∀ call, op ≠ .poll call) →
      InOrder { h with link := h.link.step bo op } := fun op hop =>
    (hinv.inOrder_session (h.link.later_other hop)).mpr horder
  cases ev with
  | io revents reads sends => exact hsession (.io revents reads sends) (by simp)
  | push msg => exact hsession (.push msg) (by simp)
  | expire => exact hsession .timeout (by simp)
  | receive timer =>
    rw [Handover.step]
    split_ifs
    · exact (hinv.inOrder_session (h.link.later_step _)).mpr horder
    · exact horder
  | deliver => exact absurd rfl hev
  | callTimeout | slept =>
    rw [Handover.step]
    split
    · rename_i hloop
      rw [InOrder, hloop] at horder
      exact horder
    · exact horder
  | dispatch =>
    rw [Handover.step]
    split
    · rename_i hloop
      rw [InOrder, hloop] at horder
      exact horder
    · rename_i message rest hloop
      rw [InOrder, hloop] at horder
      refine Eq.trans horder ?_
      show h.dispatched ++ message :: rest ++ h.inFlight =
        h.dispatched ++ [message] ++ rest ++ h.inFlight
      rw [List.append_cons h.dispatched]
    · exact horder

/-- **What was drained stays in order, unless a batch is late.** -/
theorem Inv.inOrder_step (hinv : h.Inv bo stream cap) (horder : h.InOrder) (ev : HandoverEvent) :
    (h.step bo ev).InOrder ↔ ¬ h.Late ev := by
  by_cases hev : ev = .deliver
  · subst hev
    rw [Handover.step]
    split
    · rename_i hnone
      refine iff_of_true horder ?_
      rintro ⟨-, r, hr, -⟩
      rw [hnone] at hr
      cases hr
    · rename_i r hr
      exact hinv.inOrder_deliver horder hr
  · exact iff_of_true (hinv.inOrder_other horder hev) fun hlate => hev hlate.1

/-! ### Whole runs -/

theorem inv_start {id : ℕ} {fd : ℤ} {rxCap txCap : ℕ} {s : Session}
    (hs : Session.make id fd rxCap txCap = .ok s) (bo : ByteOrder) (stream : List UInt8)
    (closed : Bool) :
    (start s stream closed).Inv bo stream (effectiveCap rxCap) := by
  refine ⟨SessionLink.inv_init hs bo stream closed, ?_, Nat.zero_le _, fun q hq => ?_,
    fun q hq => ?_, nofun⟩
  · obtain ⟨c, -, rfl⟩ := Session.eq_of_make hs
    exact Nat.zero_le _
  · rw [Nat.lt_one_iff.mp hq]
    exact Or.inr (Or.inr rfl)
  · rw [← PollLoop.awaiting.inj hq]
    exact ⟨Nat.one_pos, nofun⟩

theorem inv_run (hinv : h.Inv bo stream cap) (evs : List HandoverEvent) :
    (h.run bo evs).Inv bo stream cap :=
  List.foldlRecOn evs (Handover.step bo) hinv fun _ hh ev _ => hh.step ev

/-- **No batch is late exactly when everything stays in order.** -/
theorem inOrder_iff (hinv : h.Inv bo stream cap) (horder : h.InOrder) (evs : List HandoverEvent) :
    (∀ pre, pre <+: evs → (h.run bo pre).InOrder) ↔
      ∀ pre ev, pre ++ [ev] <+: evs → ¬ (h.run bo pre).Late ev := by
  induction evs using List.reverseRecOn with
  | nil =>
    refine iff_of_true (fun pre hpre => ?_) fun pre ev hpre => ?_
    · rw [List.prefix_nil.mp hpre]
      exact horder
    · exact absurd (List.prefix_nil.mp hpre) (List.append_ne_nil_of_right_ne_nil _ nofun)
  | append_singleton evs ev ih =>
    have hstep := fun hnow : (h.run bo evs).InOrder =>
      (inv_run hinv evs).inOrder_step hnow ev
    simp only [List.prefix_concat_iff, forall_eq_or_imp, run_concat]
    constructor
    · rintro ⟨hlast, hall⟩ pre ev' (heq | hpre)
      · obtain ⟨rfl, rfl⟩ := List.append_singleton_inj.mp heq
        exact (hstep (hall _ (List.prefix_refl _))).mp hlast
      · exact ih.mp hall pre ev' hpre
    · intro hnone
      have hall := ih.mpr fun pre ev' hpre => hnone pre ev' (Or.inr hpre)
      refine ⟨(hstep (hall _ (List.prefix_refl _))).mpr (hnone _ _ (Or.inl rfl)), hall⟩

end Handover

/-! ### The messages of the replies -/

theorem Sent.Returns.messages {r : Sent} {batch : List (List UInt8)} {vs : List Json}
    (h : r.Returns batch) (hvs : List.Forall₂ Json.Text batch vs) : r.messages = vs := by
  rcases h with hreply | ⟨hrefusal, rfl⟩
  · rw [Sent.messages, hreply]
    simp only [pollRound_splice hvs]
    rfl
  · cases hvs
    rw [Sent.messages]
    rcases hreply : r.reply with raw | e
    · rw [hreply] at hrefusal
      simp only [Reply.IsRefusal, List.mem_cons, List.not_mem_nil, or_false] at hrefusal
      rcases hrefusal with rfl | rfl | rfl <;> rfl
    · rfl

/-- The messages of the replies are the values of the payloads they return. -/
theorem texts_messages {sent : List Sent} {batches : List (List (List UInt8))}
    (h : List.Forall₂ Sent.Returns sent batches)
    (hjson : ∀ p ∈ batches.flatten, ∃ v, Json.Text p v) :
    List.Forall₂ Json.Text batches.flatten (sent.flatMap Sent.messages) := by
  induction h with
  | nil => exact .nil
  | @cons r batch sent batches hr h ih =>
    rw [List.flatten_cons] at hjson ⊢
    obtain ⟨hbatch, hrest⟩ := List.forall_mem_append.mp hjson
    obtain ⟨vs, hvs⟩ := exists_texts hbatch
    rw [List.flatMap_cons, hr.messages hvs]
    exact List.rel_append hvs (ih hrest)

/-- **Batches are handed over once and in order, unless one is late.** In every state of every run
the messages drained into replies are the values of the payloads that the replies return, in order.
They were dispatched, or are left of the batch, or are on their way, in every state of a run exactly
when no messages arrive for a call whose timer has fired. -/
theorem handed_over_iff {id : ℕ} {fd : ℤ} {rxCap txCap : ℕ} {s : Session}
    (hs : Session.make id fd rxCap txCap = .ok s) (bo : ByteOrder) {stream : List UInt8}
    (hjson : ∀ p ∈ legalPayloads (frames (wireHeader bo) stream), ∃ v, Json.Text p v)
    (closed : Bool) (evs : List HandoverEvent) :
    let run := (Handover.start s stream closed).run bo
    (∃ batches queued, (run evs).link.Holds batches queued ∧
      batches.flatten ++ queued = (run evs).link.received bo ∧
      List.Forall₂ Json.Text batches.flatten (run evs).drained) ∧
    ((∀ pre, pre <+: evs → (run pre).InOrder) ↔
      ∀ pre ev, pre ++ [ev] <+: evs → ¬ (run pre).Late ev) := by
  intro run
  have hinv := Handover.inv_start hs bo stream closed
  have horder : (Handover.start s stream closed).InOrder := by
    obtain ⟨c, -, rfl⟩ := Session.eq_of_make hs
    rfl
  refine ⟨?_, Handover.inOrder_iff hinv horder evs⟩
  obtain ⟨m, part, hc, -⟩ := (Handover.inv_run hinv evs).link
  obtain ⟨hholds, hreceived⟩ := SessionLink.holds_of_serves hc
  refine ⟨_, _, hholds, hreceived, texts_messages hholds.returns fun p hp => ?_⟩
  have hmem : p ∈ (run evs).link.received bo := by
    rw [← hreceived]
    exact List.mem_append_left _ hp
  refine hjson p (hc.arrived_subset ?_)
  rw [hc.arrived]
  exact hmem

/-- A batch that arrives in time. -/
theorem handed_over_one : ∃ s, Session.make 1 3 64 64 = .ok s ∧
    let run := (Handover.start s [1, 0, 0, 0, 49] false).run .little
    let evs : List HandoverEvent := [.receive ⟨.ok 0, .ok ()⟩,
      .io ⟨true, false, false⟩ [.deliver 9, .deliver 9, .errno .EAGAIN] [], .deliver, .dispatch]
    (run evs).dispatched = [.number [49]] ∧
    ((∀ pre, pre <+: evs → (run pre).InOrder) ↔
      ∀ pre ev, pre ++ [ev] <+: evs → ¬ (run pre).Late ev) := by
  have hframes : frames (wireHeader .little) [1, 0, 0, 0, 49] = [⟨[1, 0, 0, 0], [49]⟩] :=
    @frames_symbols _ (wireHeader .little) ⟨[1, 0, 0, 0], [49]⟩ ⟨rfl, by decide⟩
  have hjson : ∀ p ∈ legalPayloads (frames (wireHeader .little) [1, 0, 0, 0, 49]),
      ∃ v, Json.Text p v := by
    rw [hframes]
    intro p hp
    have hpayloads : legalPayloads [⟨[1, 0, 0, 0], [49]⟩] = [[49]] := by decide
    rw [hpayloads, List.mem_singleton] at hp
    subst hp
    exact ⟨_, Json.parse_eq_some_iff.mp rfl⟩
  exact ⟨_, rfl, rfl, (@handed_over_iff 1 3 64 64 _ rfl .little _ hjson false _).2⟩

/-- **A batch is lost**: a message arrives while the call waits, its reply takes longer than the
timer of the call, and is ignored when it arrives. -/
theorem late_batch_lost : ∃ s, Session.make 1 3 64 64 = .ok s ∧
    let h := (Handover.start s [1, 0, 0, 0, 49] false).run .little [.receive ⟨.ok 0, .ok ()⟩,
      .io ⟨true, false, false⟩ [.deliver 9, .deliver 9, .errno .EAGAIN] [], .callTimeout, .deliver]
    h.drained = [.number [49]] ∧ h.dispatched = [] ∧ ¬ h.InOrder := by
  refine ⟨_, rfl, rfl, rfl, fun horder => ?_⟩
  exact absurd (congrArg List.length horder) (by decide)

end KwinApi
