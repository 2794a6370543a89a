import KwinApi.Lib.Fair
import KwinApi.Lib.Run
import KwinApi.Relay.Control
import KwinApi.Relay.Round
import Mathlib.Data.Prod.Lex

/-!
# The registries converge

Every control event that was queued for the script is handled in the end, when the events that the
control loop cannot do without happen again and again and no timer of a call fires. Once clients
neither come nor go, the connected clients of the script are the sessions of the daemon, and stay
so.

## Main definitions

* `KwinApi.ControlLoop.Steady` — no call was given up, and there is one call at a time
* `KwinApi.ControlLoop.rank`, `ControlLoop.helper` — what is left to do, and which event does some
  of it

## Main results

* `KwinApi.ControlLoop.Steady.advances` — one event on the way
* `KwinApi.ControlLoop.Steady.exists_handled` — what was queued is handled
* `KwinApi.fair_control_converges` — the registries converge
-/

namespace KwinApi

open LongPoll Presence

/-! ### The port of the object -/

theorem DaemonObject.port_enqueueControl (d : DaemonObject) (payload : List UInt8) :
    (d.enqueueControl payload).port = d.port ∨ d.port.Wakes (d.enqueueControl payload).port := by
  rw [enqueueControl]
  split
  · exact Or.inl rfl
  · rename_i q hq
    rcases maybeReplyPendingPoll_cases d.port q with heq | ⟨-, hwakes⟩
    · left
      simp only [answered, heq]
    · exact Or.inr hwakes

theorem DaemonLink.port_step (l : DaemonLink) {op : DaemonOp} (hop : op.Aside) :
    (l.step op).object.port = l.object.port ∨ l.object.port.Wakes (l.step op).object.port := by
  by_cases halive : l.alive = true
  swap
  · rw [step.eq_def, if_pos halive]
    exact Or.inl rfl
  rw [step.eq_def, if_neg (not_not.mpr halive)]
  cases hop with
  | control event id => exact l.object.port_enqueueControl _
  | timeout =>
    simp only
    split_ifs
    · exact l.object.port.reply_cases _ _
    · exact Or.inl rfl

/-- Of its own accord the server at most wakes the call that waits. -/
theorem Server.Tends.port {s s' : Server} (h : s.Tends s') :
    s'.daemon.object.port = s.daemon.object.port ∨
      s.daemon.object.port.Wakes s'.daemon.object.port := by
  obtain ⟨ops, haside, hd⟩ := h
  rw [hd]
  clear hd
  generalize s.daemon = l
  induction ops generalizing l with
  | nil => exact Or.inl rfl
  | cons op ops ih =>
    obtain ⟨hop, hops⟩ := List.forall_mem_cons.mp haside
    exact PollPort.wakes_trans (l.port_step hop) (ih hops _)

/-- While a call waits, no event is queued. -/
theorem DaemonLink.Inv.messages_of_waits {l : DaemonLink} (h : l.Inv) {call : ℕ}
    (hwaits : l.object.port.waiter.msg = some call) : l.object.controlQueue.messages = 0 := by
  obtain ⟨m, hs, hquiet, -⟩ := h
  have hqueue : m.queue = [] := hquiet (by rw [← hs.msg, hwaits]; simp)
  rw [hs.messages, hqueue, List.length_nil]

namespace ControlLoop

variable {bo : ByteOrder} {c c' : ControlLoop}

/-! ### One call at a time -/

/-- No call was given up, and there is one call at a time. -/
structure Steady (bo : ByteOrder) (c : ControlLoop) : Prop where
  inv : c.Inv bo
  givenUp : c.caller.givenUp = []
  round : c.server.daemon.object.port.Round c.caller.awaiting c.caller.called c.caller.arrived

/-- With all replies there, no event is on its way. -/
theorem inFlight_of_all (hall : c.server.daemon.object.port.sent.length ≤ c.caller.arrived) :
    c.inFlight = [] := by
  rw [inFlight, replies, ← List.map_drop, List.drop_eq_nil_of_le hall]
  rfl

/-- A reply is handled when it arrives, as no call was given up. -/
theorem Steady.deliver_eq (h : c.Steady bo) {r : Sent}
    (hr : c.server.daemon.object.port.sent[c.caller.arrived]? = some r) :
    c.caller.awaiting ≠ none ∧ c.step bo .deliver =
      { c with
        script := c.inFlight.foldl Script.onControl c.script
        caller := { c.caller with
          arrived := c.caller.arrived + 1
          awaiting := none
          taken := c.caller.taken ++ [c.inFlight] } } := by
  obtain ⟨raw, hloop, hreply, hnext, -⟩ := h.round.deliver hr
  obtain ⟨l, hl⟩ : ∃ l, r.changes = some l := ⟨_, by rw [Sent.changes, hreply]⟩
  have hflight : c.inFlight = l := by
    rw [inFlight, replies, ← List.map_drop, hnext]
    simp [hl]
  have hget : (replies c.server)[c.caller.arrived]? = some (r.request, some l) := by
    rw [replies, List.getElem?_map, hr, Option.map_some, hl]
  refine ⟨by rw [hloop]; simp, ?_⟩
  rw [ControlLoop.step, hget]
  simp only [ControlLoop.deliver, Caller.arrive, hloop, if_true, Option.getD_some, hflight]

/-- Without a reply on its way nothing arrives. -/
theorem deliver_eq_self (hr : c.server.daemon.object.port.sent[c.caller.arrived]? = none) :
    c.step bo .deliver = c := by
  rw [ControlLoop.step, replies, List.getElem?_map, hr, Option.map_none]

/-- What a step leaves of the call. -/
theorem Steady.round_tends (h : c.Steady bo) {s : Server} (ht : c.server.Tends s) :
    s.daemon.object.port.Round c.caller.awaiting c.caller.called c.caller.arrived := by
  rcases ht.port with hport | hwakes
  · rw [hport]
    exact h.round
  · exact h.round.wakes hwakes

/-- A call of the loop arrives, and fetches all events. -/
theorem Steady.receive (h : c.Steady bo)
    (hlt : c.server.daemon.object.port.requests < c.caller.called) (timer : TimerSetup) :
    let s := c.server.step bo (.poll ⟨.ok pollTimeoutMs, timer⟩)
    s.daemon.object.port.Round c.caller.awaiting c.caller.called c.caller.arrived ∧
      s.daemon.object.controlQueue.messages = 0 := by
  intro s
  have hs : s.daemon.object = c.server.daemon.object.handlePoll ⟨.ok pollTimeoutMs, timer⟩ := by
    show (c.server.daemon.step _).object = _
    rw [DaemonLink.step, if_neg (not_not.mpr h.inv.server.logged.alive)]
  rw [hs]
  exact h.round.receive hlt c.server.daemon.object.controlQueue timer

/-- **What a step preserves**, as long as no timer of a call fires. -/
theorem Steady.step (h : c.Steady bo) {ev : ControlStep} (htime : ev ≠ .callTimeout) :
    (c.step bo ev).Steady bo := by
  have hinv := h.inv.step ev
  cases ev with
  | accept answers => exact ⟨hinv, h.givenUp, h.round_tends (c.server.tends_step bo (by simp))⟩
  | session id op => exact ⟨hinv, h.givenUp, h.round_tends (c.server.tends_step bo (by simp))⟩
  | disconnected id => exact ⟨hinv, h.givenUp, h.round_tends (c.server.tends_step bo (by simp))⟩
  | expire => exact ⟨hinv, h.givenUp, h.round_tends (c.server.tends_step bo (by simp))⟩
  | receive timer =>
    rw [ControlLoop.step] at hinv ⊢
    split_ifs at hinv ⊢ with hlt
    · exact ⟨hinv, h.givenUp, (h.receive hlt timer).1⟩
    · exact h
  | deliver =>
    cases hr : c.server.daemon.object.port.sent[c.caller.arrived]? with
    | none =>
      rw [deliver_eq_self hr]
      exact h
    | some r =>
      obtain ⟨raw, -, -, -, hround⟩ := h.round.deliver hr
      rw [(h.deliver_eq hr).2] at hinv ⊢
      exact ⟨hinv, h.givenUp, hround⟩
  | callTimeout => exact absurd rfl htime
  | callAgain =>
    cases hloop : c.caller.awaiting with
    | some call =>
      have hcall : c.caller.call = c.caller := by
        rw [Caller.call, hloop, if_neg (Option.some_ne_none call)]
      rw [ControlLoop.step, hcall]
      exact h
    | none =>
      have hcall : c.caller.call = { c.caller with
          called := c.caller.called + 1
          awaiting := some c.caller.called } := by
        rw [Caller.call, if_pos hloop]
      rw [ControlLoop.step, hcall] at hinv ⊢
      have hround := h.round
      rw [hloop] at hround
      exact ⟨hinv, h.givenUp, hround.call⟩
  | script ev =>
    have hsame : ∃ script, c.step bo (.script ev) = { c with script } := by
      cases ev <;> exact ⟨_, rfl⟩
    obtain ⟨script, hscript⟩ := hsame
    rw [hscript] at hinv ⊢
    exact ⟨hinv, h.givenUp, h.round⟩

/-- The events that were handled, those on their way and those still queued are all of them. -/
theorem Steady.account (h : c.Steady bo) : ∃ queued : Log ℕ,
    c.handled ++ c.inFlight ++ queued = c.server.events ∧
      c.server.daemon.object.controlQueue.messages = queued.length := by
  obtain ⟨queued, hevents, hmessages⟩ := h.inv.server.changes
  have hlost : c.lost = [] := by
    rw [lost, h.givenUp]
    simp [Caller.lost]
  exact ⟨queued, by rw [h.inv.lost_eq_nil_iff.mp hlost, hevents], hmessages⟩

theorem Steady.prefix_handled (h : c.Steady bo) : c.handled <+: c.server.events := by
  obtain ⟨queued, hevents, -⟩ := h.account
  rw [← hevents, List.append_assoc]
  exact List.prefix_append _ _

/-- While an event is not handled, no call waits at the object. -/
theorem Steady.free (h : c.Steady bo) (hshort : c.handled.length < c.server.events.length) :
    c.server.daemon.object.port.waiter.msg = none := by
  cases h.round with
  | called _ _ hfree | replied _ _ hfree | idle _ _ hfree => exact hfree
  | pending _ _ hwaits hall =>
    exfalso
    obtain ⟨queued, hevents, hmessages⟩ := h.account
    rw [h.inv.server.daemon.messages_of_waits hwaits] at hmessages
    rw [← hevents, inFlight_of_all hall.ge, List.append_nil, List.length_append] at hshort
    omega

/-! ### The way to the next event -/

/-- How far the loop is from the next event. -/
def distance (c : ControlLoop) : ℕ :=
  match c.caller.awaiting with
  | none => 2
  | some _ =>
    if c.caller.arrived < c.server.daemon.object.port.sent.length then
      if c.inFlight = [] then 3 else 0
    else 1

/-- What is left to do until `total` events are handled. -/
def rank (total : ℕ) (c : ControlLoop) : ℕ ×ₗ ℕ := toLex (total - c.handled.length, c.distance)

end ControlLoop

/-- The kinds of events that the control loop cannot do without. -/
inductive ControlStep.Kind where
  | receive
  | deliver
  | callAgain
  deriving DecidableEq, Repr

/-- An event of that kind. -/
inductive ControlStep.IsOf : ControlStep.Kind → ControlStep → Prop where
  | receive (timer : TimerSetup) : IsOf .receive (.receive timer)
  | deliver : IsOf .deliver .deliver
  | callAgain : IsOf .callAgain .callAgain

namespace ControlLoop

variable {bo : ByteOrder} {c c' : ControlLoop} {total : ℕ}

/-- The kind of event that brings the loop on. -/
def helper (c : ControlLoop) : ControlStep.Kind :=
  match c.caller.awaiting with
  | none => .callAgain
  | some _ =>
    if c.caller.arrived < c.server.daemon.object.port.sent.length then .deliver else .receive

/-- An event brings the loop on, or is not what it waits for. -/
abbrev Advances (total : ℕ) (c : ControlLoop) (ev : ControlStep) (c' : ControlLoop) : Prop :=
  Fair.Advances ControlStep.IsOf (rank total) helper c ev c'

theorem rank_lt_of_distance (hcaller : c'.handled = c.handled) (hlt : c'.distance < c.distance) :
    c'.rank total < c.rank total := by
  rw [rank, rank, hcaller, Prod.Lex.toLex_lt_toLex]
  exact Or.inr ⟨rfl, hlt⟩

/-- An event that leaves the loop and the port alone. -/
theorem advances_of_same {ev : ControlStep} (hcaller : c'.caller = c.caller)
    (hport : c'.server.daemon.object.port = c.server.daemon.object.port)
    (hnot : ¬ ControlStep.IsOf c.helper ev) : c.Advances total ev c' := by
  have hflight : c'.inFlight = c.inFlight := by simp only [inFlight, replies, hcaller, hport]
  refine Or.inr ⟨?_, ?_, hnot⟩
  · simp only [rank, handled, distance, hflight, hcaller, hport]
  · simp only [helper, hcaller, hport]

/-- What the server does of its own accord is not waited for. -/
theorem Steady.advances_server (h : c.Steady bo)
    (hshort : c.handled.length < c.server.events.length) {s : Server} (ht : c.server.Tends s)
    {ev : ControlStep} (hnot : ∀ kind, ¬ ControlStep.IsOf kind ev) :
    c.Advances total ev { c with server := s } := by
  have hport := ht.port.resolve_right (PollPort.not_wakes_of_free (h.free hshort))
  exact advances_of_same rfl hport (hnot _)

/-- The call of the loop fetches an event. -/
theorem Steady.advances_receive (h : c.Steady bo)
    (hshort : c.handled.length < c.server.events.length) (timer : TimerSetup) :
    c.Advances total (.receive timer) (c.step bo (.receive timer)) := by
  have hsteady := @step bo c h (.receive timer) nofun
  rw [ControlLoop.step] at hsteady ⊢
  split_ifs at hsteady ⊢ with hlt
  · left
    refine rank_lt_of_distance rfl ?_
    obtain ⟨hloop, -, -, hall⟩ := h.round.of_lt hlt
    obtain ⟨queued, hevents, hmessages⟩ := hsteady.account
    rw [(h.receive hlt timer).2] at hmessages
    -- No event is queued any more, so what is not handled is on its way.
    have hflight : inFlight { c with
        server := c.server.step bo (.poll ⟨.ok pollTimeoutMs, timer⟩) } ≠ [] := by
      intro hnone
      rw [hnone, List.append_nil] at hevents
      have hlen := congrArg List.length hevents
      rw [List.length_append, ← hmessages] at hlen
      exact hshort.ne hlen
    have harrived := Nat.lt_of_not_le (mt inFlight_of_all hflight)
    simp only [distance, hloop, if_neg hall.not_lt, if_pos harrived, if_neg hflight]
    exact Nat.one_pos
  · refine advances_of_same rfl rfl fun hhelps => ?_
    have hround := h.round
    have hfree := h.free hshort
    rw [helper] at hhelps
    split at hhelps
    · cases hhelps
    · rename_i call hloop
      split_ifs at hhelps with harrived
      · cases hhelps
      cases hround with
      | called _ hcalled => omega
      | pending _ _ hwaits =>
        rw [hfree] at hwaits
        cases hwaits
      | replied _ _ _ _ hnext =>
        exact harrived (Nat.lt_of_succ_le (PollPort.arrived_succ hnext).le)
      | idle hidle =>
        rw [hloop] at hidle
        cases hidle

/-- A reply brings events, or the loop closer to its next call. -/
theorem Steady.advances_deliver (h : c.Steady bo) (hshort : c.handled.length < total) :
    c.Advances total .deliver (c.step bo .deliver) := by
  cases hr : c.server.daemon.object.port.sent[c.caller.arrived]? with
  | none =>
    rw [deliver_eq_self hr]
    refine advances_of_same rfl rfl fun hhelps => ?_
    have hall := List.getElem?_eq_none_iff.mp hr
    rw [helper] at hhelps
    split at hhelps
    · cases hhelps
    · rw [if_neg (Nat.not_lt.mpr hall)] at hhelps
      cases hhelps
  | some r =>
    obtain ⟨hloop, hstep⟩ := h.deliver_eq hr
    obtain ⟨call, hcall⟩ := Option.ne_none_iff_exists'.mp hloop
    have hlt := (List.getElem?_eq_some_iff.mp hr).1
    have hhandled : (c.step bo .deliver).handled = c.handled ++ c.inFlight := by
      rw [hstep]
      simp [handled]
    left
    by_cases hflight : c.inFlight = []
    · rw [hflight, List.append_nil] at hhandled
      refine rank_lt_of_distance hhandled ?_
      have hafter : (c.step bo .deliver).distance = 2 := by rw [hstep, distance]
      rw [hafter]
      simp only [distance, hcall, if_pos hlt, if_pos hflight]
      decide
    · have hpos := List.length_pos_iff.mpr hflight
      rw [rank, rank, hhandled, List.length_append, Prod.Lex.toLex_lt_toLex]
      left
      show total - (c.handled.length + c.inFlight.length) < total - c.handled.length
      omega

/-- The loop calls again. -/
theorem Steady.advances_callAgain (h : c.Steady bo) :
    c.Advances total .callAgain (c.step bo .callAgain) := by
  have hround := h.round
  rw [ControlLoop.step, Caller.call]
  split_ifs with hloop
  · left
    rw [hloop] at hround
    refine rank_lt_of_distance rfl ?_
    simp only [distance, hloop, if_neg hround.all_of_none.not_lt]
    exact Nat.one_lt_two
  · refine advances_of_same rfl rfl fun hhelps => ?_
    rw [helper] at hhelps
    split at hhelps
    · rename_i hnone
      exact hloop hnone
    · split_ifs at hhelps <;> cases hhelps

/-- **One event** brings the loop on, or is not what it waits for. -/
theorem Steady.advances (h : c.Steady bo) (hshort : c.handled.length < total)
    (htotal : total ≤ c.server.events.length) {ev : ControlStep} (htime : ev ≠ .callTimeout) :
    c.Advances total ev (c.step bo ev) := by
  have hshort' := hshort.trans_le htotal
  cases ev with
  | accept answers =>
    exact h.advances_server hshort' (c.server.tends_step bo (by simp)) (by rintro kind ⟨⟩)
  | session id op =>
    exact h.advances_server hshort' (c.server.tends_step bo (by simp)) (by rintro kind ⟨⟩)
  | disconnected id =>
    exact h.advances_server hshort' (c.server.tends_step bo (by simp)) (by rintro kind ⟨⟩)
  | expire =>
    exact h.advances_server hshort' (c.server.tends_step bo (by simp)) (by rintro kind ⟨⟩)
  | receive timer => exact h.advances_receive hshort' timer
  | deliver => exact h.advances_deliver hshort
  | callTimeout => exact absurd rfl htime
  | callAgain => exact h.advances_callAgain
  | script ev =>
    have hsame : (c.step bo (.script ev)).caller = c.caller ∧
        (c.step bo (.script ev)).server = c.server := by
      cases ev <;> exact ⟨rfl, rfl⟩
    have hnot : ∀ kind, ¬ ControlStep.IsOf kind (.script ev) := by rintro kind ⟨⟩
    exact advances_of_same hsame.1 (by rw [hsame.2]) (hnot _)

/-! ### Runs without an end -/

/-- The first `n` events of a run without an end. -/
def after (bo : ByteOrder) (c : ControlLoop) (event : ℕ → ControlStep) (n : ℕ) : ControlLoop :=
  Run.after (step bo) c event n

variable {event : ℕ → ControlStep}

theorem after_succ (c : ControlLoop) (event : ℕ → ControlStep) (n : ℕ) :
    c.after bo event (n + 1) = (c.after bo event n).step bo (event n) :=
  Run.after_succ ..

theorem after_add (c : ControlLoop) (event : ℕ → ControlStep) (n m : ℕ) :
    c.after bo event (n + m) = (c.after bo event n).after bo (fun i => event (n + i)) m :=
  Run.after_add ..

theorem handled_step (c : ControlLoop) (ev : ControlStep) :
    c.handled <+: (c.step bo ev).handled := by
  have htaken : ∀ caller : Caller (Log ℕ), c.caller.taken <+: caller.taken →
      c.handled <+: caller.taken.flatten := by
    rintro caller ⟨t, ht⟩
    rw [handled, ← ht, List.flatten_append]
    exact List.prefix_append _ _
  cases ev with
  | accept answers | session id op | disconnected id | expire => exact List.prefix_refl _
  | receive timer =>
    rw [ControlLoop.step]
    split_ifs <;> exact List.prefix_refl _
  | deliver =>
    rw [ControlLoop.step]
    split
    · exact List.prefix_refl _
    · rename_i request changes hr
      refine htaken (c.caller.arrive request changes) ?_
      cases changes with
      | none => exact List.prefix_refl _
      | some l =>
        rw [Caller.arrive]
        split_ifs
        · exact List.prefix_append _ _
        · exact List.prefix_refl _
  | callTimeout =>
    refine htaken c.caller.giveUp ?_
    rw [Caller.giveUp]
    split <;> exact List.prefix_refl _
  | callAgain =>
    refine htaken c.caller.call ?_
    rw [Caller.call]
    split_ifs <;> exact List.prefix_refl _
  | script ev => cases ev <;> exact List.prefix_refl _

theorem events_step (c : ControlLoop) (ev : ControlStep) :
    c.server.events <+: (c.step bo ev).server.events := by
  have hserver : ∀ op, c.server.events <+: (c.server.step bo op).events := by
    intro op
    obtain ⟨-, -, -, -, kept, -, he, -⟩ := @Server.grows_step bo c.server op
    exact ⟨kept, he.symm⟩
  cases ev with
  | accept answers => exact hserver _
  | session id op => exact hserver _
  | disconnected id => exact hserver _
  | expire => exact hserver _
  | receive timer =>
    rw [ControlLoop.step]
    split_ifs
    · exact hserver _
    · exact List.prefix_refl _
  | deliver =>
    rw [ControlLoop.step]
    split <;> exact List.prefix_refl _
  | callTimeout | callAgain => exact List.prefix_refl _
  | script ev => cases ev <;> exact List.prefix_refl _

theorem Steady.after (h : c.Steady bo) (hcalm : ∀ n, event n ≠ .callTimeout) (n : ℕ) :
    (c.after bo event n).Steady bo := by
  induction n with
  | zero => exact h
  | succ n ih =>
    rw [after_succ]
    exact ih.step (hcalm n)

theorem steady_start {maxClients : ℤ} {caps : BufferCaps} {server : Server}
    (h : Server.start maxClients caps = .ok server) (bo : ByteOrder) (windows : List Window)
    (data : Window → WindowData) (workspace : WorkspaceData) :
    (start server (.load windows data workspace)).Steady bo := by
  have hinv := @inv_start bo _ _ _ h windows data workspace
  obtain ⟨d, hd, rfl⟩ := Server.eq_of_start h
  obtain ⟨q, -, rfl⟩ := DaemonObject.eq_of_make hd
  exact ⟨hinv, rfl, .called rfl rfl rfl rfl⟩

/-- **What was queued is handled.** -/
theorem Steady.exists_handled (h : c.Steady bo) (hcalm : ∀ n, event n ≠ .callTimeout)
    (hfair : Fair ControlStep.IsOf event) :
    ∃ n, c.server.events.length ≤ (c.after bo event n).handled.length := by
  refine @Fair.reaches ControlLoop ControlStep ControlStep.Kind _ _ _ (c.after bo event)
    (rank c.server.events.length) helper (c.server.events.length ≤ ·.handled.length) _ _ hfair
    fun n hshort => ?_
  have hgrown : c.server.events <+: (c.after bo event n).server.events :=
    Run.prefix_after events_step c event n.zero_le
  have htotal := hgrown.length_le
  rw [after_succ]
  exact (h.after hcalm n).advances (Nat.lt_of_not_le hshort) htotal (hcalm n)

/-- What was queued at some time has been handled from some time on. -/
theorem Steady.exists_later (h : c.Steady bo) (hcalm : ∀ n, event n ≠ .callTimeout)
    (hfair : Fair ControlStep.IsOf event) (n : ℕ) :
    ∃ m, n ≤ m ∧ (c.after bo event n).server.events <+: (c.after bo event m).handled := by
  obtain ⟨k, hk⟩ := (h.after hcalm n).exists_handled (fun i => hcalm (n + i)) (hfair.shift n)
  refine ⟨n + k, n.le_add_right k, ?_⟩
  rw [← after_add] at hk
  have hevents : (c.after bo event n).server.events <+: (c.after bo event (n + k)).server.events :=
    Run.prefix_after events_step c event (n.le_add_right k)
  exact List.prefix_of_prefix_length_le hevents (h.after hcalm (n + k)).prefix_handled hk

end ControlLoop

/-- **The registries converge.** No timer of a call of the control loop fires, and calls, replies
and further calls happen again and again, in whatever order and whatever else happens in between.
Then every control event that was queued at some time is handled later. When none was dropped, and
clients neither come nor go any more, the connected clients of the script are the sessions of the
daemon from some time on. -/
theorem fair_control_converges {maxClients : ℤ} {caps : BufferCaps} {server : Server}
    (h : Server.start maxClients caps = .ok server) (bo : ByteOrder) (windows : List Window)
    (data : Window → WindowData) (workspace : WorkspaceData) {event : ℕ → ControlStep}
    (hcalm : ∀ n, event n ≠ .callTimeout) (hfair : Fair ControlStep.IsOf event) :
    let c := (ControlLoop.start server (.load windows data workspace)).after bo event
    ∀ n, (∃ m, n ≤ m ∧ (c n).server.events <+: (c m).handled) ∧
      ((c n).server.events = (c n).server.reported →
        (∀ k, n ≤ k → (c k).server.reported = (c n).server.reported) →
        ∃ m, ∀ k, m ≤ k →
          (c k).script.connections.keys.toFinset = (c k).server.sessions.keys.toFinset) := by
  intro c n
  have hsteady := ControlLoop.steady_start h bo windows data workspace
  obtain ⟨m, hle, hm⟩ := hsteady.exists_later hcalm hfair n
  refine ⟨⟨m, hle, hm⟩, fun hkept hquiet => ⟨m, fun k hk => ?_⟩⟩
  have hck : (c k).Steady bo := hsteady.after hcalm k
  have hreported : (c k).server.reported = (c n).server.events := by
    rw [hquiet k (hle.trans hk), hkept]
  -- All events that were reported were queued, and all of these are handled.
  have hmono : (c n).server.events <+: (c k).handled :=
    hm.trans (Run.prefix_after ControlLoop.handled_step _ event hk)
  have hqueued := hck.inv.server.logged.kept
  rw [hreported] at hqueued
  have hhandled : (c k).handled = (c n).server.events :=
    (hck.prefix_handled.sublist.trans hqueued).antisymm hmono.sublist
  rw [hck.inv.script, hhandled, ← hreported, hck.inv.server.replay_reported]

/-- A client connects, and then the loop goes round. -/
def ControlStep.inTurn : ℕ → ControlStep
  | 0 => .accept [.connection 3 [] true true]
  | n + 1 =>
    match n % 3 with
    | 0 => .receive ⟨.ok 0, .ok ()⟩
    | 1 => .deliver
    | _ => .callAgain

theorem ControlStep.isOf_inTurn (n : ℕ) : ∃ kind, IsOf kind (inTurn (n + 1)) := by
  rw [inTurn]
  split
  · exact ⟨.receive, .receive _⟩
  · exact ⟨.deliver, .deliver⟩
  · exact ⟨.callAgain, .callAgain⟩

theorem ControlStep.fair_inTurn : Fair IsOf inTurn := by
  intro kind n
  cases kind with
  | receive =>
    have hturn : (3 * n) % 3 = 0 := by omega
    refine ⟨3 * n + 1, by omega, ?_⟩
    rw [inTurn, hturn]
    exact .receive _
  | deliver =>
    have hturn : (3 * n + 1) % 3 = 1 := by omega
    refine ⟨3 * n + 1 + 1, by omega, ?_⟩
    rw [inTurn, hturn]
    exact .deliver
  | callAgain =>
    have hturn : (3 * n + 2) % 3 = 2 := by omega
    refine ⟨3 * n + 2 + 1, by omega, ?_⟩
    rw [inTurn, hturn]
    exact .callAgain

theorem ControlStep.calm_inTurn (n : ℕ) : inTurn n ≠ .callTimeout := by
  cases n with
  | zero => nofun
  | succ n =>
    obtain ⟨kind, hkind⟩ := isOf_inTurn n
    intro htime
    rw [htime] at hkind
    cases hkind

/-- When the loop goes round, nobody comes or goes. -/
theorem ControlStep.IsOf.reported {kind : ControlStep.Kind} {ev : ControlStep} (h : IsOf kind ev)
    (bo : ByteOrder) (c : ControlLoop) :
    (c.step bo ev).server.reported = c.server.reported := by
  cases h with
  | receive timer =>
    rw [ControlLoop.step]
    split_ifs <;> rfl
  | deliver =>
    rw [ControlLoop.step]
    split <;> rfl
  | callAgain => rfl

/-- A client connects, and the script knows it from some time on. -/
theorem fair_control_converges_one : ∃ server,
    Server.start 1 ⟨0, 0, .inl rfl, .inl rfl⟩ = .ok server ∧
    let c := (ControlLoop.start server .loadEmpty).after .little ControlStep.inTurn
    (c 1).server.events = [(.arrives, 1)] ∧ ∃ m, ∀ k, m ≤ k →
      (c k).script.connections.keys.toFinset = (c k).server.sessions.keys.toFinset := by
  refine ⟨_, rfl, by decide +kernel, ?_⟩
  refine (@fair_control_converges 1 ⟨0, 0, .inl rfl, .inl rfl⟩ _ rfl .little [] _ _ _
    ControlStep.calm_inTurn ControlStep.fair_inTurn 1).2 (by decide +kernel) fun k hk => ?_
  induction k, hk using Nat.le_induction with
  | base => rfl
  | succ k hk ih =>
    obtain ⟨n, rfl⟩ := Nat.exists_eq_add_of_le' hk
    obtain ⟨kind, hkind⟩ := ControlStep.isOf_inTurn n
    rw [ControlLoop.after_succ, hkind.reported]
    exact ih

end KwinApi
