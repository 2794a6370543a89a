import KwinApi.Lib.Fair
import KwinApi.Lib.Run
import KwinApi.Relay.Alive
import KwinApi.Relay.Inbound
import KwinApi.Relay.Refusal
import Mathlib.Data.Prod.Lex

/-!
# Every request is dispatched in the end

Whatever the order of events is, a client that stays connected has all its messages dispatched, when
the events that the relay cannot do without happen again and again and no timer of a call fires.

The rank of a state is what is left to do: the bytes in front of the session; then, when it can take
none of them, the messages that the next call fetches; then the steps of the loop up to that call.
Every event takes the rank down, or is not the one that the state waits for.

## Main definitions

* `KwinApi.Handover.Phase` — where the call of the loop is
* `KwinApi.Handover.rank`, `Handover.helper` — what is left to do, and which event does some of it
* `KwinApi.HandoverEvent.Calm` — the client stays connected, and no timer of a call fires
* `KwinApi.Handover.CaughtUp` — everything that has arrived was dispatched

## Main results

* `KwinApi.Handover.Phase.advances` — one event on the way
* `KwinApi.Handover.Steady.exists_caughtUp` — a fair run catches up
* `KwinApi.fair_run_catches_up` — every request is dispatched
-/

namespace KwinApi

open Framing LongPoll

variable {bo : ByteOrder} {stream : List UInt8} {cap : ℕ}

/-! ### Where the call of the loop is -/

/-- The call that the loop awaits. -/
def PollLoop.awaited : PollLoop → Option ℕ
  | .awaiting call => some call
  | _ => none

theorem PollLoop.eq_of_awaited {loop : PollLoop} {call : ℕ} (h : loop.awaited = some call) :
    loop = .awaiting call := by
  cases loop with
  | awaiting call' => exact congrArg PollLoop.awaiting (Option.some.inj h)
  | batch rest => cases h
  | sleeping => cases h

namespace Handover

variable {h : Handover}

/-- Where the call of the loop is, as long as no timer of a call fires. -/
abbrev Phase (h : Handover) : Prop :=
  h.link.session.port.Round h.loop.awaited h.called h.delivered

/-- A text resolves the promise that the loop awaits: it goes on with the batch, or sleeps. -/
theorem deliver_text {r : Sent} {raw : List UInt8} (hloop : h.loop = .awaiting r.request)
    (hreply : r.reply = .text raw) :
    ∃ loop : PollLoop, h.deliver r = { h with delivered := h.delivered + 1, loop } ∧
      (loop = .sleeping ∨ loop = .batch r.messages) := by
  rw [deliver]
  simp only [hloop, if_true, settle, hreply, Sent.messages]
  rcases pollRound raw with _ | messages | text | _
  · exact ⟨.sleeping, rfl, Or.inl rfl⟩
  · exact ⟨.batch messages, rfl, Or.inr rfl⟩
  · exact ⟨.sleeping, rfl, Or.inl rfl⟩
  · exact ⟨.sleeping, rfl, Or.inl rfl⟩

/-- What happens to the session may answer the call that waits. -/
theorem Phase.session (hphase : h.Phase) {l : SessionLink} (hgoes : h.link.Goes l) :
    Phase { h with link := l } := by
  rcases hgoes.port with hport | hwakes
  · show l.session.port.Round h.loop.awaited h.called h.delivered
    rw [hport]
    exact hphase
  · exact PollPort.Round.wakes hphase hwakes

/-- The call arrives at the object. -/
theorem Phase.receive (hphase : h.Phase) (hlt : h.link.session.port.requests < h.called)
    (halive : h.link.alive = true) (timer : TimerSetup) :
    let l := h.link.step bo (.poll ⟨.ok pollTimeoutMs, timer⟩)
    Phase { h with link := l } ∧ l.peer = h.link.peer ∧ l.session.client.rx.messages = 0 := by
  intro l
  have hl : l = { h.link with session :=
      h.link.session.handlePoll ⟨.ok pollTimeoutMs, timer⟩ } := by
    simp only [l]
    rw [SessionLink.step, if_neg (not_not.mpr halive)]
  have hport : l.session.port = (handlePollRequest h.link.session.port h.link.session.client.rx
      ⟨.ok pollTimeoutMs, timer⟩).2.1 := by
    rw [hl]
    exact h.link.session.port_answered _
  obtain ⟨hround, hnone⟩ := PollPort.Round.receive hphase hlt h.link.session.client.rx timer
  refine ⟨?_, by rw [hl], ?_⟩
  · show l.session.port.Round h.loop.awaited h.called h.delivered
    rw [hport]
    exact hround
  · rw [hl]
    show (h.link.session.handlePoll _).client.rx.messages = 0
    rw [Session.handlePoll, Session.rx_answered]
    exact hnone

/-- **What a step preserves**, as long as no timer of a call fires and the session stays alive. -/
theorem Phase.step (hphase : h.Phase) (hfit : h.link.Fit bo stream cap)
    (hcap : kMaxMessageLen + 2 ≤ cap) {ev : HandoverEvent} (htime : ev ≠ .callTimeout)
    (halive : (h.step bo ev).link.alive = true) : (h.step bo ev).Phase := by
  cases ev with
  | io revents reads sends => exact hphase.session (hfit.goes hcap (by simp) halive)
  | push msg => exact hphase.session (hfit.goes hcap (by simp) halive)
  | expire => exact hphase.session (hfit.goes hcap (by simp) halive)
  | callTimeout => exact absurd rfl htime
  | receive timer =>
    rw [Handover.step]
    split_ifs with hlt
    · exact (hphase.receive hlt hfit.alive timer).1
    · exact hphase
  | deliver =>
    rw [Handover.step]
    split
    · exact hphase
    · rename_i r hr
      obtain ⟨raw, hloop, hreply, -, hround⟩ := PollPort.Round.deliver hphase hr
      obtain ⟨loop, heq, hloop'⟩ := deliver_text (PollLoop.eq_of_awaited hloop) hreply
      rw [heq]
      rcases hloop' with rfl | rfl <;> exact hround
  | slept =>
    rw [Handover.step]
    split
    · rename_i hloop
      rw [Phase, hloop] at hphase
      exact PollPort.Round.call hphase
    · exact hphase
  | dispatch =>
    rw [Handover.step]
    split
    · rename_i hloop
      rw [Phase, hloop] at hphase
      exact hphase
    · rename_i message rest hloop
      rw [Phase, hloop] at hphase
      exact hphase
    · exact hphase

/-! ### The way to the next dispatch -/

/-- There are bytes in front of the session, and it can take some. -/
def Reads (h : Handover) : Prop := h.link.peer.inbox ≠ [] ∧ h.link.session.client.Clear

/-- Everything that has arrived was dispatched. -/
def CaughtUp (h : Handover) : Prop :=
  h.link.peer.inbox = [] ∧ h.link.session.client.rx.messages = 0 ∧ h.loop.rest = [] ∧
    h.inFlight = []

/-- How far the loop is from its next call at the object. -/
def distance (h : Handover) : ℕ :=
  match h.loop with
  | .awaiting _ =>
    if h.delivered < h.link.session.port.sent.length then h.inFlight.length + 3 else 0
  | .sleeping => 1
  | .batch rest => rest.length + 2

open Classical in
/-- What is left to do: the bytes to be read, then the messages to be fetched, then the steps of the
loop up to its next call. While the session can read, only the bytes count. -/
noncomputable def rank (h : Handover) : ℕ ×ₗ ℕ ×ₗ ℕ :=
  toLex (h.link.peer.inbox.length,
    if h.Reads then toLex (0, 0)
    else toLex (if 0 < h.link.session.client.rx.messages then 2 else 1, h.distance))

end Handover

/-- The kinds of events that a run cannot do without. -/
inductive HandoverEvent.Kind where
  | input
  | receive
  | deliver
  | slept
  | dispatch
  deriving DecidableEq, Repr

/-- An event of that kind. There is input when the io source reports it and the kernel has bytes
for the first `::read`, if there are any. -/
inductive HandoverEvent.IsOf : HandoverEvent.Kind → HandoverEvent → Prop where
  | input {revents : Revents} {k : ℕ} {reads : List ReadAnswer} {sends : List SendAnswer}
      (hin : revents.epollin = true) : IsOf .input (.io revents (.deliver k :: reads) sends)
  | receive (timer : TimerSetup) : IsOf .receive (.receive timer)
  | deliver : IsOf .deliver .deliver
  | slept : IsOf .slept .slept
  | dispatch : IsOf .dispatch .dispatch

namespace Handover

variable {h h' : Handover}

/-- The kind of event that brings the loop on. -/
def next (h : Handover) : HandoverEvent.Kind :=
  match h.loop with
  | .awaiting _ => if h.delivered < h.link.session.port.sent.length then .deliver else .receive
  | .sleeping => .slept
  | .batch _ => .dispatch

open Classical in
/-- The kind of event that brings a run on. -/
noncomputable def helper (h : Handover) : HandoverEvent.Kind :=
  if h.Reads then .input else h.next

theorem next_ne_input (h : Handover) : h.next ≠ .input := by
  rw [next]
  split
  · split_ifs <;> simp
  · simp
  · simp

/-- An event brings a run on, or is not what it waits for. -/
abbrev Advances (h : Handover) (ev : HandoverEvent) (h' : Handover) : Prop :=
  Fair.Advances HandoverEvent.IsOf rank helper h ev h'

theorem rank_lt_of_inbox (hlt : h'.link.peer.inbox.length < h.link.peer.inbox.length) :
    h'.rank < h.rank := by
  rw [rank, rank, Prod.Lex.toLex_lt_toLex]
  exact Or.inl hlt

theorem rank_of_reads (hreads : h.Reads) :
    h.rank = toLex (h.link.peer.inbox.length, toLex (0, 0)) := by
  rw [rank, if_pos hreads]

theorem rank_of_not_reads (hreads : ¬ h.Reads) :
    h.rank = toLex (h.link.peer.inbox.length,
      toLex (if 0 < h.link.session.client.rx.messages then 2 else 1, h.distance)) := by
  rw [rank, if_neg hreads]

theorem helper_of_reads (hreads : h.Reads) : h.helper = .input := by rw [helper, if_pos hreads]

theorem helper_of_not_reads (hreads : ¬ h.Reads) : h.helper = h.next := by
  rw [helper, if_neg hreads]

/-- In the loop the session is left alone, and what counts is the distance. -/
theorem rank_lt_of_distance (hreads : ¬ h.Reads) (hlink : h'.link = h.link)
    (hlt : h'.distance < h.distance) : h'.rank < h.rank := by
  have hreads' : ¬ h'.Reads := by
    rw [Reads, hlink]
    exact hreads
  rw [rank_of_not_reads hreads, rank_of_not_reads hreads', hlink, Prod.Lex.toLex_lt_toLex,
    Prod.Lex.toLex_lt_toLex]
  exact Or.inr ⟨rfl, Or.inr ⟨rfl, hlt⟩⟩

/-- An event that changes nothing of what counts, and is not waited for. -/
theorem advances_of_same {ev : HandoverEvent} (hrank : h'.rank = h.rank)
    (hhelper : h'.helper = h.helper) (hnot : ¬ HandoverEvent.IsOf h.helper ev) : h.Advances ev h' :=
  Or.inr ⟨hrank, hhelper, hnot⟩

/-- A loop that awaits a call, with no reply on its way, has dispatched what was fetched. -/
theorem caughtUp_of_awaiting (hin : h.link.peer.inbox = [])
    (hnone : h.link.session.client.rx.messages = 0) {call : ℕ} (hloop : h.loop.awaited = some call)
    (hall : h.delivered = h.link.session.port.sent.length) : h.CaughtUp := by
  refine ⟨hin, hnone, by rw [PollLoop.eq_of_awaited hloop]; rfl, ?_⟩
  rw [inFlight, hall, List.drop_length]
  rfl

/-- While the session cannot read and something is left to do, no call waits at the object. -/
theorem Phase.free (hphase : h.Phase) (hfit : h.link.Fit bo stream cap)
    (hcap : kMaxMessageLen + 2 ≤ cap) (hreads : ¬ h.Reads) (hshort : ¬ h.CaughtUp) :
    h.link.session.port.waiter.msg = none := by
  cases hphase with
  | called _ _ hfree | replied _ _ hfree | idle _ _ hfree => exact hfree
  | pending hloop hcalled hwaits hall =>
    exfalso
    -- Nothing is queued while a call waits, so there are no bytes to be read either.
    obtain ⟨m, part, hc, hquiet, -⟩ := hfit.inv
    have hqueue : m.queue = [] := hquiet (by rw [← hc.serves.msg, hwaits]; simp)
    have hnone : h.link.session.client.rx.messages = 0 := by
      rw [hc.serves.messages, hqueue, List.length_nil]
    have hclear := hfit.inv.clear_of_messages hfit.pause hcap hnone
    have hin : h.link.peer.inbox = [] := not_not.mp fun hin => hreads ⟨hin, hclear⟩
    exact hshort (caughtUp_of_awaiting hin hnone hloop hall)

/-- The events of the session bring a run on as far as they take bytes in. -/
theorem Phase.advances_session (hphase : h.Phase) (hfit : h.link.Fit bo stream cap)
    (hcap : kMaxMessageLen + 2 ≤ cap) (hshort : ¬ h.CaughtUp) {ev : HandoverEvent}
    {l : SessionLink} (hgoes : h.link.Goes l)
    (hkind : ∀ kind, HandoverEvent.IsOf kind ev → kind = .input)
    (htakes : h.Reads → HandoverEvent.IsOf .input ev →
      l.peer.inbox.length < h.link.peer.inbox.length) :
    h.Advances ev { h with link := l } := by
  rcases hgoes.inbox.lt_or_eq with hlt | hsame
  · exact Or.inl (rank_lt_of_inbox hlt)
  have hin : l.peer.inbox ≠ [] ↔ h.link.peer.inbox ≠ [] := by
    rw [← List.length_pos_iff, ← List.length_pos_iff, hsame]
  by_cases hreads : h.Reads
  · have hreads' : Reads { h with link := l } :=
      ⟨hin.mpr hreads.1, hgoes.clear hsame hreads.2⟩
    refine advances_of_same ?_ ?_ ?_
    · rw [rank_of_reads hreads, rank_of_reads hreads', hsame]
    · rw [helper_of_reads hreads, helper_of_reads hreads']
    · rw [helper_of_reads hreads]
      exact fun hinput => (htakes hreads hinput).ne hsame
  · obtain ⟨hport, hmessages, hclear⟩ :=
      hgoes.idle hsame (hphase.free hfit hcap hreads hshort)
    have hreads' : ¬ Reads { h with link := l } := by
      rintro ⟨hne, hc⟩
      exact hreads ⟨hin.mp hne, hclear hc⟩
    refine advances_of_same ?_ ?_ ?_
    · rw [rank_of_not_reads hreads, rank_of_not_reads hreads']
      simp only [distance, inFlight, hsame, hport, hmessages]
    · rw [helper_of_not_reads hreads, helper_of_not_reads hreads']
      simp only [next, hport]
    · rw [helper_of_not_reads hreads]
      exact fun hhelps => h.next_ne_input (hkind _ hhelps)

/-- An event that finds nothing to do is not the one that is waited for. -/
theorem advances_refl {ev : HandoverEvent} (hnot : ¬ HandoverEvent.IsOf h.helper ev) :
    h.Advances ev h := advances_of_same rfl rfl hnot

/-- The call of the loop arrives, and fetches all messages. -/
theorem advances_call (hcap : kMaxMessageLen + 2 ≤ cap)
    (hshort : ¬ h.CaughtUp) {call : ℕ} (hloop : h.loop.awaited = some call)
    (hall : h.delivered = h.link.session.port.sent.length) {l : SessionLink}
    (hfit' : l.Fit bo stream cap) (hpeer : l.peer = h.link.peer)
    (hnone : l.session.client.rx.messages = 0) (timer : TimerSetup) :
    h.Advances (.receive timer) { h with link := l } := by
  have hclear := hfit'.inv.clear_of_messages hfit'.pause hcap hnone
  by_cases hin : h.link.peer.inbox = []
  · -- Without input there are messages queued, or all is done.
    have hreads : ¬ h.Reads := fun hreads => hreads.1 hin
    have hreads' : ¬ Reads { h with link := l } := fun hreads => hreads.1 (hpeer ▸ hin)
    have hmessages : 0 < h.link.session.client.rx.messages := by
      by_contra hzero
      exact hshort (caughtUp_of_awaiting hin (Nat.eq_zero_of_not_pos hzero) hloop hall)
    left
    rw [rank_of_not_reads hreads, rank_of_not_reads hreads', hpeer, if_pos hmessages, hnone,
      if_neg (lt_irrefl 0), Prod.Lex.toLex_lt_toLex, Prod.Lex.toLex_lt_toLex]
    exact Or.inr ⟨rfl, Or.inl one_lt_two⟩
  · have hreads' : Reads { h with link := l } := ⟨hpeer ▸ hin, hclear⟩
    by_cases hreads : h.Reads
    · refine advances_of_same ?_ ?_ ?_
      · rw [rank_of_reads hreads, rank_of_reads hreads', hpeer]
      · rw [helper_of_reads hreads, helper_of_reads hreads']
      · rw [helper_of_reads hreads]
        rintro ⟨⟩
    · left
      rw [rank_of_not_reads hreads, rank_of_reads hreads', hpeer, Prod.Lex.toLex_lt_toLex,
        Prod.Lex.toLex_lt_toLex]
      refine Or.inr ⟨rfl, Or.inl ?_⟩
      simp only
      split_ifs <;> decide

/-- A loop whose calls have all arrived does not wait for the arrival of one. -/
theorem Phase.next_ne_receive (hphase : h.Phase) (hfree : h.link.session.port.waiter.msg = none)
    (hcalled : h.called ≤ h.link.session.port.requests) : h.next ≠ .receive := by
  rw [next]
  split
  · rename_i call hloop
    rw [Phase, hloop] at hphase
    cases hphase with
    | called _ hmore => omega
    | pending _ _ hwaits =>
      rw [hfree] at hwaits
      cases hwaits
    | replied _ _ _ _ hnext =>
      rw [if_pos (Nat.lt_of_succ_le (PollPort.arrived_succ hnext).le)]
      simp
    | idle hidle => cases hidle
  · simp
  · simp

/-- The next call of the loop fetches all messages. -/
theorem Phase.advances_receive (hphase : h.Phase) (hfit : h.link.Fit bo stream cap)
    (hcap : kMaxMessageLen + 2 ≤ cap) (hshort : ¬ h.CaughtUp) (timer : TimerSetup)
    (halive : (h.step bo (.receive timer)).link.alive = true) :
    h.Advances (.receive timer) (h.step bo (.receive timer)) := by
  by_cases hlt : h.link.session.port.requests < h.called
  · rw [Handover.step, if_pos hlt] at halive ⊢
    obtain ⟨hloop, -, -, hall⟩ := PollPort.Round.of_lt hphase hlt
    obtain ⟨-, hpeer, hnone⟩ := @Phase.receive bo h hphase hlt hfit.alive timer
    exact advances_call hcap hshort hloop hall (hfit.step _ halive) hpeer hnone timer
  · rw [Handover.step, if_neg hlt]
    refine advances_refl fun hhelps => ?_
    by_cases hreads : h.Reads
    · rw [helper_of_reads hreads] at hhelps
      cases hhelps
    · have hne := hphase.next_ne_receive (hphase.free hfit hcap hreads hshort) (Nat.not_lt.mp hlt)
      rw [helper_of_not_reads hreads] at hhelps
      generalize h.next = kind at hhelps hne
      cases hhelps
      exact hne rfl

/-- An event of the loop brings a run on when it brings the loop on. -/
theorem advances_loop {ev : HandoverEvent} (hev : ev.OfLoop)
    (hloop : (h.step bo ev).distance < h.distance ∨
      h.step bo ev = h ∧ ¬ HandoverEvent.IsOf h.next ev) : h.Advances ev (h.step bo ev) := by
  have hlink : (h.step bo ev).link = h.link := h.link_step hev
  by_cases hreads : h.Reads
  · have hreads' : (h.step bo ev).Reads := by
      rw [Reads, hlink]
      exact hreads
    refine advances_of_same ?_ ?_ ?_
    · rw [rank_of_reads hreads, rank_of_reads hreads', hlink]
    · rw [helper_of_reads hreads, helper_of_reads hreads']
    · rw [helper_of_reads hreads]
      intro hinput
      cases hinput
      cases hev
  · rcases hloop with hlt | ⟨hsame, hnot⟩
    · exact Or.inl (rank_lt_of_distance hreads hlink hlt)
    · rw [hsame]
      refine advances_refl ?_
      rwa [helper_of_not_reads hreads]

/-- A loop that has all replies does not wait for one. -/
theorem next_ne_deliver (hall : h.link.session.port.sent.length ≤ h.delivered) :
    h.next ≠ .deliver := by
  rw [next]
  split
  · rw [if_neg (Nat.not_lt.mpr hall)]
    simp
  · simp
  · simp

/-- The reply that is on its way brings its messages. -/
theorem Phase.advances_deliver (hphase : h.Phase) :
    h.Advances .deliver (h.step bo .deliver) := by
  refine advances_loop .deliver ?_
  cases hr : h.link.session.port.sent[h.delivered]? with
  | some r =>
    left
    obtain ⟨raw, hloop, hreply, hnext, -⟩ := PollPort.Round.deliver hphase hr
    have hloop := PollLoop.eq_of_awaited hloop
    obtain ⟨loop, heq, hloop'⟩ := deliver_text hloop hreply
    have hbefore : h.distance = r.messages.length + 3 := by
      have hlt := Nat.lt_of_succ_le (PollPort.arrived_succ hnext).le
      simp only [distance, hloop, if_pos hlt, inFlight, hnext]
      simp
    rw [Handover.step, hr]
    simp only
    rw [heq, hbefore]
    rcases hloop' with rfl | rfl
    · simp only [distance]
      omega
    · simp only [distance]
      omega
  | none =>
    right
    refine ⟨by rw [Handover.step, hr], fun hhelps => ?_⟩
    have hne := next_ne_deliver (List.getElem?_eq_none_iff.mp hr)
    generalize h.next = kind at hhelps hne
    cases hhelps
    exact hne rfl

theorem Phase.advances_slept (hphase : h.Phase) : h.Advances .slept (h.step bo .slept) := by
  refine advances_loop .slept ?_
  rw [Handover.step]
  split
  · rename_i hloop
    left
    rw [Phase, hloop] at hphase
    simp only [distance, hloop, if_neg (PollPort.Round.all_of_none hphase).not_lt]
    exact Nat.one_pos
  · rename_i hloop
    right
    refine ⟨rfl, fun hhelps => ?_⟩
    rw [next] at hhelps
    split at hhelps
    · split_ifs at hhelps <;> cases hhelps
    · rename_i hsleeping
      exact hloop hsleeping
    · cases hhelps

theorem advances_dispatch (h : Handover) : h.Advances .dispatch (h.step bo .dispatch) := by
  refine advances_loop .dispatch ?_
  rw [Handover.step]
  split
  · rename_i hloop
    left
    simp only [distance, hloop]
    decide
  · rename_i message rest hloop
    left
    simp only [distance, hloop, List.length_cons]
    omega
  · rename_i hempty hbatch
    right
    refine ⟨rfl, fun hhelps => ?_⟩
    rw [next] at hhelps
    split at hhelps
    · split_ifs at hhelps <;> cases hhelps
    · cases hhelps
    · rename_i rest hloop
      cases rest with
      | nil => exact hempty hloop
      | cons message rest => exact hbatch message rest hloop

/-- **One event** brings a run on, or is not what it waits for. -/
theorem Phase.advances (hphase : h.Phase) (hfit : h.link.Fit bo stream cap)
    (hcap : kMaxMessageLen + 2 ≤ cap) (hshort : ¬ h.CaughtUp) {ev : HandoverEvent}
    (htime : ev ≠ .callTimeout) (halive : (h.step bo ev).link.alive = true) :
    h.Advances ev (h.step bo ev) := by
  cases ev with
  | io revents reads sends =>
    refine hphase.advances_session hfit hcap hshort (hfit.goes hcap (by simp) halive) ?_ ?_
    · intro kind hkind
      cases hkind
      rfl
    · intro hreads hinput
      cases hinput with
      | input hin => exact hfit.takes hreads.2 hreads.1 hin halive
  | push msg =>
    refine hphase.advances_session hfit hcap hshort (hfit.goes hcap (by simp) halive) ?_ ?_
    · rintro kind ⟨⟩
    · rintro - ⟨⟩
  | expire =>
    refine hphase.advances_session hfit hcap hshort (hfit.goes hcap (by simp) halive) ?_ ?_
    · rintro kind ⟨⟩
    · rintro - ⟨⟩
  | receive timer => exact hphase.advances_receive hfit hcap hshort timer halive
  | deliver => exact hphase.advances_deliver
  | callTimeout => exact absurd rfl htime
  | slept => exact hphase.advances_slept
  | dispatch => exact h.advances_dispatch

/-! ### Runs without an end -/

/-- The first `n` events of a run without an end. -/
def after (bo : ByteOrder) (h : Handover) (event : ℕ → HandoverEvent) (n : ℕ) : Handover :=
  Run.after (step bo) h event n

variable {event : ℕ → HandoverEvent}

theorem after_succ (h : Handover) (event : ℕ → HandoverEvent) (n : ℕ) :
    h.after bo event (n + 1) = (h.after bo event n).step bo (event n) :=
  Run.after_succ ..

theorem dispatched_mono_step (h : Handover) (ev : HandoverEvent) :
    h.dispatched <+: (h.step bo ev).dispatched := by
  by_cases hbatch : ev = .dispatch ∧ ∃ message rest, h.loop = .batch (message :: rest)
  · obtain ⟨rfl, message, rest, hloop⟩ := hbatch
    rw [step, hloop]
    exact List.prefix_append _ _
  · rw [h.dispatched_step]
    intro hev message rest hloop
    exact hbatch ⟨hev, message, rest, hloop⟩

/-- What was dispatched stays dispatched. -/
theorem dispatched_mono (h : Handover) {n m : ℕ} (hle : n ≤ m) :
    (h.after bo event n).dispatched <+: (h.after bo event m).dispatched :=
  Run.prefix_after dispatched_mono_step h event hle

/-- What happens is at most one operation of the session. -/
theorem link_step_cases (h : Handover) (ev : HandoverEvent) :
    (h.step bo ev).link = h.link ∨ ∃ op, (h.step bo ev).link = h.link.step bo op := by
  cases ev with
  | io revents reads sends => exact Or.inr ⟨.io revents reads sends, rfl⟩
  | push msg => exact Or.inr ⟨.push msg, rfl⟩
  | expire => exact Or.inr ⟨.timeout, rfl⟩
  | receive timer =>
    rw [step]
    split_ifs
    · exact Or.inr ⟨.poll ⟨.ok pollTimeoutMs, timer⟩, rfl⟩
    · exact Or.inl rfl
  | deliver => exact Or.inl (h.link_step .deliver)
  | callTimeout => exact Or.inl (h.link_step .callTimeout)
  | slept => exact Or.inl (h.link_step .slept)
  | dispatch => exact Or.inl (h.link_step .dispatch)

end Handover

/-- The client stays connected, nothing fails, and no timer of a call fires. -/
def HandoverEvent.Calm : HandoverEvent → Prop
  | .io revents reads sends =>
    revents.hangup = false ∧ (∀ a ∈ reads, a.Calm) ∧ ∀ e, .fail e ∉ sends
  | .callTimeout => False
  | _ => True

namespace Handover

variable {h : Handover} {event : ℕ → HandoverEvent}

/-- A client that stays connected keeps its session. -/
theorem alive_of_calm (hfit : h.link.Fit bo stream cap) (hopen : h.link.peer.closed = false)
    {ev : HandoverEvent} (hcalm : ev.Calm) :
    (h.step bo ev).link.alive = true ∧ (h.step bo ev).link.peer.closed = false := by
  cases ev with
  | io revents reads sends => exact hfit.alive_io hopen hcalm.1 hcalm.2.1 hcalm.2.2
  | push msg =>
    rw [step, SessionLink.step, if_neg (not_not.mpr hfit.alive)]
    exact ⟨hfit.alive, hopen⟩
  | expire =>
    rw [step, SessionLink.step, if_neg (not_not.mpr hfit.alive)]
    simp only
    split_ifs <;> exact ⟨hfit.alive, hopen⟩
  | receive timer =>
    rw [step]
    split_ifs
    · rw [SessionLink.step, if_neg (not_not.mpr hfit.alive)]
      exact ⟨hfit.alive, hopen⟩
    · exact ⟨hfit.alive, hopen⟩
  | callTimeout => exact absurd hcalm id
  | deliver =>
    rw [h.link_step .deliver]
    exact ⟨hfit.alive, hopen⟩
  | slept =>
    rw [h.link_step .slept]
    exact ⟨hfit.alive, hopen⟩
  | dispatch =>
    rw [h.link_step .dispatch]
    exact ⟨hfit.alive, hopen⟩

/-- A live session in front of a client that stays connected, and the call of its loop. -/
structure Steady (bo : ByteOrder) (stream : List UInt8) (cap : ℕ) (h : Handover) : Prop where
  fit : h.link.Fit bo stream cap
  connected : h.link.peer.closed = false
  phase : h.Phase

/-- **What a step preserves** while the client stays connected. -/
theorem Steady.step (hs : h.Steady bo stream cap) (hcap : kMaxMessageLen + 2 ≤ cap)
    {ev : HandoverEvent} (hcalm : ev.Calm) : (h.step bo ev).Steady bo stream cap := by
  obtain ⟨halive, hconnected⟩ := alive_of_calm hs.fit hs.connected hcalm
  have htime : ev ≠ .callTimeout := by
    rintro rfl
    exact hcalm
  refine ⟨?_, hconnected, hs.phase.step hs.fit hcap htime halive⟩
  rcases h.link_step_cases ev with hlink | ⟨op, hlink⟩
  · rw [hlink]
    exact hs.fit
  · rw [hlink] at halive ⊢
    exact hs.fit.step op halive

theorem Steady.after (hs : h.Steady bo stream cap) (hcap : kMaxMessageLen + 2 ≤ cap)
    (hcalm : ∀ n, (event n).Calm) (n : ℕ) : (h.after bo event n).Steady bo stream cap := by
  induction n with
  | zero => exact hs
  | succ n ih =>
    rw [after_succ]
    exact ih.step hcap (hcalm n)

theorem steady_start {id : ℕ} {fd : ℤ} {rxCap txCap : ℕ} {s : Session}
    (hs : Session.make id fd rxCap txCap = .ok s) (hfd : 0 ≤ fd) (bo : ByteOrder)
    (stream : List UInt8) :
    (start s stream false).Steady bo stream (effectiveCap rxCap) := by
  have hmask := Session.maskOk_make hs
  have hpause := Session.pauseOk_make hs
  have hinv := SessionLink.inv_init hs bo stream false
  obtain ⟨c, hc, rfl⟩ := Session.eq_of_make hs
  obtain ⟨rx, tx, -, -, rfl⟩ := Client.eq_of_make hc
  exact ⟨⟨hinv, rfl, hpause, hmask, hfd⟩, rfl, .called rfl rfl rfl rfl⟩

/-- **A fair run catches up.** -/
theorem Steady.exists_caughtUp (hs : h.Steady bo stream cap) (hcap : kMaxMessageLen + 2 ≤ cap)
    (hcalm : ∀ n, (event n).Calm) (hfair : Fair HandoverEvent.IsOf event) :
    ∃ n, (h.after bo event n).CaughtUp := by
  refine @Fair.reaches Handover HandoverEvent HandoverEvent.Kind _ _ _ (h.after bo event) rank
    helper CaughtUp _ _ hfair fun n hshort => ?_
  have hn := hs.after hcap hcalm n
  have htime : event n ≠ .callTimeout := by
    intro heq
    have hcalm' := hcalm n
    rw [heq] at hcalm'
    exact hcalm'
  rw [after_succ]
  exact hn.phase.advances hn.fit hcap hshort htime (alive_of_calm hn.fit hn.connected (hcalm n)).1

/-- The invariant of a run without an end. -/
theorem inv_after {id : ℕ} {fd : ℤ} {rxCap txCap : ℕ} {s : Session}
    (hs : Session.make id fd rxCap txCap = .ok s) (n : ℕ) :
    ((start s stream false).after bo event n).Inv bo stream (effectiveCap rxCap) :=
  inv_run (inv_start hs bo stream false) _

/-- In a run without timeouts, what was dispatched are the first of the messages, and all of them
once it has caught up. -/
theorem dispatched_after {id : ℕ} {fd : ℤ} {rxCap txCap : ℕ} {s : Session}
    (hs : Session.make id fd rxCap txCap = .ok s) {messages : List Json}
    (htexts : List.Forall₂ Json.Text (legalPayloads (frames (wireHeader bo) stream)) messages)
    (hcalm : ∀ n, (event n).Calm) (n : ℕ) :
    let h := (start s stream false).after bo event n
    h.dispatched <+: messages ∧ (h.CaughtUp → h.dispatched = messages) := by
  intro h
  have hstart := inv_start hs bo stream false
  have hinv : h.Inv bo stream (effectiveCap rxCap) := inv_after hs n
  have hfirst : (start s stream false).InOrder := by
    obtain ⟨c, -, rfl⟩ := Session.eq_of_make hs
    rfl
  have hnever : ∀ evs, evs <+: (List.range n).map event → .callTimeout ∉ evs := by
    intro evs hpre hmem
    obtain ⟨k, -, hk⟩ := List.mem_map.mp (hpre.subset hmem)
    have hcalm' := hcalm k
    rw [hk] at hcalm'
    exact hcalm'
  -- No batch is late, as no call was given up.
  have horder : h.InOrder := by
    refine (inOrder_iff hstart hfirst _).mpr (fun evs ev hpre hlate => ?_) _ (List.prefix_refl _)
    obtain ⟨-, r, -, hout, -⟩ := hlate
    rw [timedOut_run evs (hnever evs ((List.prefix_append _ _).trans hpre))] at hout
    cases hout
  obtain ⟨hpre, hall⟩ := hinv.drained htexts
  rw [inOrder_iff_held.mp horder, held] at hpre hall
  refine ⟨?_, fun hdone => ?_⟩
  · refine List.IsPrefix.trans ?_ hpre
    exact (List.prefix_append _ _).trans (List.prefix_append _ _)
  · obtain ⟨hin, hnone, hrest, hflight⟩ := hdone
    rw [← hall hin hnone, hrest, hflight, List.append_nil, List.append_nil]

end Handover

/-- **Every request is dispatched in the end.** A client stays connected, no timer of a call fires,
and the RX buffer holds the longest message. When input, calls, replies, the steps of the loop and
the ends of its sleeps happen again and again, in whatever order and whatever else happens in
between, the loop has dispatched all messages of the client from some time on, once and in order.
With an RX buffer below `2 ^ 33` bytes the counter of the queued messages is the one of the source,
as it never wraps. -/
theorem fair_run_catches_up {id : ℕ} {fd : ℤ} {rxCap txCap : ℕ} {s : Session}
    (hs : Session.make id fd rxCap txCap = .ok s) (hfd : 0 ≤ fd)
    (hcap : kMaxMessageLen + 2 ≤ effectiveCap rxCap) (bo : ByteOrder) {stream : List UInt8}
    {messages : List Json}
    (htexts : List.Forall₂ Json.Text (legalPayloads (frames (wireHeader bo) stream)) messages)
    {event : ℕ → HandoverEvent} (hcalm : ∀ n, (event n).Calm)
    (hfair : Fair HandoverEvent.IsOf event) :
    (∃ n, ∀ m, n ≤ m →
      ((Handover.start s stream false).after bo event m).dispatched = messages) ∧
    (rxCap < 2 ^ 33 → ∀ m,
      ((Handover.start s stream false).after bo event m).link.session.client.rx.messages <
        2 ^ 32) := by
  refine ⟨?_, fun hcounter m => ?_⟩
  swap
  · exact (Handover.inv_after hs m).link.messages_lt (effectiveCap_lt hcounter)
  obtain ⟨n, hn⟩ := (Handover.steady_start hs hfd bo stream).exists_caughtUp hcap hcalm hfair
  refine ⟨n, fun m hle => ?_⟩
  have hdone := (Handover.dispatched_after hs htexts hcalm n).2 hn
  have hpre := (Handover.dispatched_after hs htexts hcalm m).1
  have hmono := @Handover.dispatched_mono bo event (Handover.start s stream false) n m hle
  rw [hdone] at hmono
  exact hpre.eq_of_length (Nat.le_antisymm hpre.length_le hmono.length_le)

/-- The events that a run cannot do without, in turn. -/
def HandoverEvent.inTurn (n : ℕ) : HandoverEvent :=
  match n % 5 with
  | 0 => .io ⟨true, false, false⟩ [.deliver 0] []
  | 1 => .receive ⟨.ok 0, .ok ()⟩
  | 2 => .deliver
  | 3 => .dispatch
  | _ => .slept

theorem HandoverEvent.fair_inTurn : Fair IsOf inTurn := by
  have hturn : ∀ n i, i < 5 → n ≤ 5 * n + i ∧ (5 * n + i) % 5 = i := by
    intro n i hi
    omega
  intro kind n
  cases kind with
  | input =>
    refine ⟨5 * n + 0, (hturn n 0 (by decide)).1, ?_⟩
    rw [inTurn, (hturn n 0 (by decide)).2]
    exact .input rfl
  | receive =>
    refine ⟨5 * n + 1, (hturn n 1 (by decide)).1, ?_⟩
    rw [inTurn, (hturn n 1 (by decide)).2]
    exact .receive _
  | deliver =>
    refine ⟨5 * n + 2, (hturn n 2 (by decide)).1, ?_⟩
    rw [inTurn, (hturn n 2 (by decide)).2]
    exact .deliver
  | dispatch =>
    refine ⟨5 * n + 3, (hturn n 3 (by decide)).1, ?_⟩
    rw [inTurn, (hturn n 3 (by decide)).2]
    exact .dispatch
  | slept =>
    refine ⟨5 * n + 4, (hturn n 4 (by decide)).1, ?_⟩
    rw [inTurn, (hturn n 4 (by decide)).2]
    exact .slept

theorem HandoverEvent.calm_inTurn (n : ℕ) : (inTurn n).Calm := by
  rw [inTurn]
  split
  · exact ⟨rfl, by simp [ReadAnswer.Calm], by simp⟩
  · exact trivial
  · exact trivial
  · exact trivial
  · exact trivial

/-- One request, with the events in turn. -/
theorem fair_run_catches_up_one : ∃ s, Session.make 1 3 0 64 = .ok s ∧ ∃ n, ∀ m, n ≤ m →
    ((Handover.start s [1, 0, 0, 0, 49] false).after .little HandoverEvent.inTurn m).dispatched =
      [.number (ascii "1")] := by
  have hframes : frames (wireHeader .little) [1, 0, 0, 0, 49] = [⟨[1, 0, 0, 0], [49]⟩] :=
    @frames_symbols _ (wireHeader .little) ⟨[1, 0, 0, 0], [49]⟩ ⟨rfl, by decide⟩
  have htexts : List.Forall₂ Json.Text
      (legalPayloads (frames (wireHeader .little) [1, 0, 0, 0, 49])) [.number (ascii "1")] := by
    rw [hframes]
    exact .cons (Json.parse_eq_some_iff.mp rfl) .nil
  exact ⟨_, rfl, (@fair_run_catches_up 1 3 0 64 _ rfl (by decide) (by decide) .little _ _ htexts _
    HandoverEvent.calm_inTurn HandoverEvent.fair_inTurn).1⟩

end KwinApi
