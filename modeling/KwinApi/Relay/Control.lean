import KwinApi.Daemon.Numbers
import KwinApi.Daemon.Server
import KwinApi.Lib.Caller
import KwinApi.Relay.Handover
import KwinApi.Script.Connections
import Mathlib.Tactic.IntervalCases

/-!
# The control loop

`startControlLoop` of `clients.ts`: it polls `/daemon` forever and creates and removes connections
as the control events say. A batch of events is handled without a pause. Everything else that
happens to the server and to the script may happen in between.

Ids are natural numbers on both sides. JavaScript reads them as doubles, which are exact below
`2 ^ 53`; a number that is not one the daemon sends is skipped here.

## Main definitions

* `KwinApi.changeOf` — what the loop makes of an element of a batch
* `KwinApi.ControlLoop` — the server, the script and the loop, with `step` for every interleaving
* `KwinApi.ControlLoop.handled`, `inFlight`, `lost` — what became of the events that were sent
* `KwinApi.Server.Tends` — what the server does to `/daemon` of its own accord

## Main results

* `KwinApi.text_reportOf`, `changeOf_controlJson` — a control message is a JSON text, and read back
* `KwinApi.Server.Inv.changes` — replies and queue of `/daemon` hold every event that was queued
* `KwinApi.ControlLoop.Inv.step` — what a step preserves
* `KwinApi.control_mirror` — the connected clients of the script follow the sessions
-/

namespace KwinApi

open Framing LongPoll Presence

/-! ### Control messages as JSON -/

theorem decimal_of_lt {n : ℕ} (h : n < 10) : decimal n = [UInt8.ofNat (48 + n)] := by
  rw [decimal, Nat.toDigits_of_lt_base h]
  interval_cases n <;> rfl

theorem decimal_of_le {n : ℕ} (h : 10 ≤ n) : decimal n = decimal (n / 10) ++ decimal (n % 10) := by
  rw [decimal, Nat.toDigits_of_base_le (by decide) h, List.map_append, decimal, decimal,
    Nat.toDigits_of_lt_base (Nat.mod_lt n (by decide))]

/-- The digits of a number are those of a JSON number. -/
theorem intPart_decimal (n : ℕ) : Json.IntPart (decimal n) := by
  rcases Nat.eq_zero_or_pos n with rfl | hpos
  · exact Or.inl rfl
  refine Or.inr ?_
  induction n using Nat.strongRecOn with
  | ind n ih =>
    have hdigit : ∀ m < 10, 0 < m → Json.Digits (decimal m) ∧ (decimal m).head? ≠ some 48 := by
      intro m hm hpos
      rw [decimal_of_lt hm]
      interval_cases m <;> simp [Json.Digits, Json.isDigit]
    rcases Nat.lt_or_ge n 10 with hlt | hge
    · exact hdigit n hlt hpos
    · obtain ⟨⟨hne, hall⟩, hhead⟩ := ih (n / 10) (by omega) (by omega)
      rw [decimal_of_le hge]
      refine ⟨⟨List.append_ne_nil_of_left_ne_nil hne _, ?_⟩, ?_⟩
      · refine List.forall_mem_append.mpr ⟨hall, ?_⟩
        have hmod := Nat.mod_lt n (show 0 < 10 by decide)
        rw [decimal_of_lt hmod]
        generalize n % 10 = m at hmod
        interval_cases m <;> simp [Json.isDigit]
      · rwa [List.head?_append_of_ne_nil _ hne]

/-- A number is read back from its digits. -/
theorem ofDigits_decimal (n : ℕ) : decimalSystem.ofDigits (decimal n) = n := by
  induction n using Nat.strongRecOn with
  | ind n ih =>
    have hdigit : ∀ m < 10, decimalSystem.ofDigits (decimal m) = m := by
      intro m hm
      rw [decimal_of_lt hm]
      interval_cases m <;> rfl
    rcases Nat.lt_or_ge n 10 with hlt | hge
    · exact hdigit n hlt
    · have hmod := Nat.mod_lt n (show 0 < 10 by decide)
      have hlast := hdigit (n % 10) hmod
      rw [NumeralSystem.ofDigits_eq_foldl, decimal_of_lt hmod] at hlast
      rw [decimal_of_le hge, NumeralSystem.ofDigits_eq_foldl, List.foldl_append,
        ← NumeralSystem.ofDigits_eq_foldl, ih (n / 10) (by omega), decimal_of_lt hmod]
      simp only [List.foldl_cons, List.foldl_nil, Nat.mul_zero, Nat.zero_add] at hlast ⊢
      rw [hlast]
      exact Nat.div_add_mod n 10

/-- The value of a control message. -/
def controlJson (e : Change × ℕ) : Json :=
  .object [(js "event", .string (js (controlEvent e.1).name)), (js "id", .number (decimal e.2))]

/-- A string that is written as it is. -/
theorem str_of_parse {bs : List UInt8} {us : JsString}
    (h : Json.parseStr bs = some (us, [])) : Json.Str bs us := by
  obtain ⟨b, rfl, hb⟩ := Json.str_of_parseStr h
  rwa [List.append_nil]

/-- A control message is a JSON text. -/
theorem text_reportOf (e : Change × ℕ) : Json.Text (reportOf e) (controlJson e) := by
  obtain ⟨change, id⟩ := e
  have hnumber : Json.Number (decimal id) := by
    have hmk := Json.Number.mk (Or.inl rfl) (intPart_decimal id) (Or.inl rfl) (Or.inl rfl)
    rwa [List.nil_append, List.append_nil, List.append_nil] at hmk
  have hevent : Json.Str (ascii "\"event\"") (js "event") := str_of_parse rfl
  have hid : Json.Str (ascii "\"id\"") (js "id") := str_of_parse rfl
  have hname : Json.Str (34 :: (ascii (controlEvent change).name ++ [34]))
      (js (controlEvent change).name) := by
    cases change <;> exact str_of_parse rfl
  have hfirst : Json.Member Json.Value (ascii "\"event\"" ++ ([] ++ Json.colon ::
      ([] ++ (34 :: (ascii (controlEvent change).name ++ [34])))))
      (js "event", .string (js (controlEvent change).name)) :=
    .mk hevent nofun nofun (.string hname)
  have hsecond : Json.Member Json.Value (ascii "\"id\"" ++ ([] ++ Json.colon ::
      ([] ++ decimal id))) (js "id", .number (decimal id)) :=
    .mk hid nofun nofun (.number hnumber)
  have hpad : ∀ {α : Type} {R : List UInt8 → α → Prop} {b : List UInt8} {x : α}, R b x →
      Json.Padded R ([] ++ (b ++ [])) x := fun h => .mk nofun h nofun
  have hobject := Json.Value.object (.cons (hpad hfirst) (.one (hpad hsecond)))
  simp only [List.append_assoc, List.nil_append, List.append_nil, List.cons_append] at hobject
  have hbytes : reportOf (change, id) =
      123 :: (ascii "\"event\"" ++ 58 :: 34 :: (ascii (controlEvent change).name ++
        34 :: 44 :: (ascii "\"id\"" ++ 58 :: (decimal id ++ [125])))) :=
    calc controlMessage (controlEvent change) id
        = 123 :: (ascii "\"event\"" ++ [58, 34]) ++ ascii (controlEvent change).name ++
            ([34, 44] ++ (ascii "\"id\"" ++ [58])) ++ decimal id ++ [125] := rfl
      _ = _ := by
          simp only [List.append_assoc, List.nil_append, List.cons_append]
  rw [hbytes]
  exact Json.Value.text hobject

/-! ### What the script makes of them -/

/-- The id in a parsed event: a number. Those of the daemon are natural numbers. -/
def eventId : Json → Option ℕ
  | .number literal =>
    if literal.all Json.isDigit then some (decimalSystem.ofDigits literal) else none
  | _ => none

/-- What the control loop makes of an element of a batch. -/
def changeOf (event : Json) : Option (Change × ℕ) :=
  match event.prop (js "event"), (event.prop (js "id")).bind eventId with
  | some (.string name), some id =>
    if name = js "client_connected" then some (.arrives, id)
    else if name = js "client_disconnected" then some (.leaves, id)
    else none
  | _, _ => none

/-- The control loop reads back what the server reports. -/
theorem changeOf_controlJson (e : Change × ℕ) : changeOf (controlJson e) = some e := by
  obtain ⟨change, id⟩ := e
  have hid : (controlJson (change, id)).prop (js "id") = some (.number (decimal id)) := rfl
  have hevent : (controlJson (change, id)).prop (js "event") =
      some (.string (js (controlEvent change).name)) := rfl
  have hdigits : (decimal id).all Json.isDigit = true := by
    rcases intPart_decimal id with hzero | ⟨⟨-, hall⟩, -⟩
    · rw [hzero]
      rfl
    · exact List.all_eq_true.mpr hall
  rw [changeOf, hid, hevent, Option.bind_some, eventId, if_pos hdigits, ofDigits_decimal]
  cases change <;> rfl

/-- The events that a reply of `/daemon` brings, if `callDBus` calls back for it. -/
def Sent.changes (r : Sent) : Option (Log ℕ) :=
  match r.reply with
  | .text raw => some ((pollRound raw).dispatched.filterMap changeOf)
  | .error _ => none

/-! ### The loop -/

/-- `/daemon` with its server, and the script with its control loop. -/
structure ControlLoop where
  server : Server
  script : Script
  caller : Caller (Log ℕ)

/-- What can happen: to the server, connections wait to be accepted, something happens to a session,
a session reports its end, or the timer of a `poll` of `/daemon` fires; the next `poll` call of the
loop reaches `/daemon`; to the loop, the next reply arrives, the timer of its call fires, or it
calls again; to the script, anything but a control event. -/
inductive ControlStep where
  | accept (answers : List AcceptAnswer)
  | session (id : ℕ) (op : SessionOp)
  | disconnected (id : ℕ)
  | expire
  | receive (timer : TimerSetup)
  | deliver
  | callTimeout
  | callAgain
  | script (ev : Event)

/-- The handler of a control event. -/
def Script.onControl (s : Script) (e : Change × ℕ) : Script :=
  match e.1 with
  | .arrives => s.onClientConnected e.2
  | .leaves => s.onClientDisconnected e.2

namespace ControlLoop

/-- The loop has just called `poll` for the first time. -/
def start (server : Server) (script : Script) : ControlLoop := ⟨server, script, .start⟩

/-- The replies of `/daemon`, as the loop sees them. -/
def replies (server : Server) : List (ℕ × Option (Log ℕ)) :=
  server.daemon.object.port.sent.map fun r => (r.request, r.changes)

/-- A reply arrives. When the loop awaits it, its events are handled one after the other. -/
def deliver (c : ControlLoop) (request : ℕ) (changes : Option (Log ℕ)) : ControlLoop :=
  { c with
    script := if c.caller.awaiting = some request then
        (changes.getD []).foldl Script.onControl c.script
      else c.script
    caller := c.caller.arrive request changes }

/-- One thing that happens. -/
def step (bo : ByteOrder) (c : ControlLoop) : ControlStep → ControlLoop
  | .accept answers => { c with server := c.server.step bo (.accept answers) }
  | .session id op => { c with server := c.server.step bo (.session id op) }
  | .disconnected id => { c with server := c.server.step bo (.disconnected id) }
  | .expire => { c with server := c.server.step bo .timeout }
  | .receive timer =>
    if c.server.daemon.object.port.requests < c.caller.called then
      { c with server := c.server.step bo (.poll ⟨.ok pollTimeoutMs, timer⟩) }
    else c
  | .deliver =>
    match (replies c.server)[c.caller.arrived]? with
    | none => c
    | some (request, changes) => c.deliver request changes
  | .callTimeout => { c with caller := c.caller.giveUp }
  | .callAgain => { c with caller := c.caller.call }
  | .script (.clientConnected _) => c
  | .script (.clientDisconnected _) => c
  | .script ev => { c with script := c.script.step ev }

/-- A run. -/
def run (bo : ByteOrder) (c : ControlLoop) (evs : List ControlStep) : ControlLoop :=
  evs.foldl (step bo) c

/-- The control events that were handled. -/
def handled (c : ControlLoop) : Log ℕ := c.caller.taken.flatten

/-- The control events of replies on their way. -/
def inFlight (c : ControlLoop) : Log ℕ :=
  (((replies c.server).drop c.caller.arrived).filterMap Prod.snd).flatten

/-- The control events of replies that arrived after the timer of their call had fired. -/
def lost (c : ControlLoop) : Log ℕ :=
  (Caller.lost c.caller.givenUp ((replies c.server).take c.caller.arrived)).flatten

end ControlLoop

/-! ### Replies accumulate -/

/-- What the server does to `/daemon` of its own accord: it queues an event, or a timer fires. -/
inductive DaemonOp.Aside : DaemonOp → Prop
  | control (event : ControlEvent) (id : ℕ) : Aside (.control event id)
  | timeout : Aside .timeout

theorem DaemonLink.later_aside (l : DaemonLink) {op : DaemonOp} (hop : op.Aside) :
    l.object.port.Later (l.step op).object.port 0 := by
  have hlater := l.later_step op
  cases hop with
  | control event id | timeout => exact hlater

namespace Server

/-- Replies of `/daemon` accumulate. -/
def Later (s s' : Server) (n : ℕ) : Prop :=
  s.daemon.object.port.Later s'.daemon.object.port n

/-- What happened to `/daemon` was the server's own doing. -/
def Tends (s s' : Server) : Prop :=
  ∃ ops : List DaemonOp, (∀ op ∈ ops, op.Aside) ∧ s'.daemon = ops.foldl DaemonLink.step s.daemon

variable {s s' s'' : Server}

theorem Tends.refl (s : Server) : s.Tends s := ⟨[], nofun, rfl⟩

theorem Tends.trans (h : s.Tends s') (h' : s'.Tends s'') : s.Tends s'' := by
  obtain ⟨ops, haside, hd⟩ := h
  obtain ⟨ops', haside', hd'⟩ := h'
  refine ⟨ops ++ ops', List.forall_mem_append.mpr ⟨haside, haside'⟩, ?_⟩
  rw [hd', hd, List.foldl_append]

theorem Tends.later (h : s.Tends s') : s.Later s' 0 := by
  obtain ⟨ops, haside, hd⟩ := h
  rw [Later, hd]
  clear hd
  generalize s.daemon = l
  induction ops generalizing l with
  | nil => exact .refl _
  | cons op ops ih =>
    obtain ⟨hop, hops⟩ := List.forall_mem_cons.mp haside
    exact (l.later_aside hop).trans (ih hops _)

theorem tends_queueControl (s : Server) (event : ControlEvent) (id : ℕ) :
    s.Tends (s.queueControl event id) :=
  ⟨[.control event id], List.forall_mem_singleton.mpr (.control event id), rfl⟩

theorem tends_addClient (s : Server) (fd : ℤ) (stream : List UInt8) (closed ok : Bool) :
    s.Tends (s.addClient fd stream closed ok) := by
  unfold addClient
  simp only
  split
  · exact .refl s
  · split_ifs
    · exact tends_queueControl _ _ _
    · exact .refl s

theorem tends_acceptClients (s : Server) (answers : List AcceptAnswer) :
    s.Tends (s.acceptClients answers) := by
  induction answers generalizing s with
  | nil => exact .refl s
  | cons a answers ih =>
    cases a with
    | errno e =>
      rw [acceptClients]
      split_ifs
      · exact ih s
      · exact .refl s
    | connection fd stream closed ok =>
      rw [acceptClients]
      split_ifs
      · exact ih s
      · exact (s.tends_addClient fd stream closed ok).trans (ih _)

theorem tends_onClientDisconnected (s : Server) (id : ℕ) : s.Tends (s.onClientDisconnected id) := by
  rw [onClientDisconnected]
  split_ifs
  · exact s.tends_queueControl .clientDisconnected id
  · exact .refl s

/-- Only a `poll` of `/daemon` is not the server's own doing. -/
theorem tends_step (bo : ByteOrder) (s : Server) {op : ServerOp} (hop : ∀ call, op ≠ .poll call) :
    s.Tends (s.step bo op) := by
  cases op with
  | accept answers => exact s.tends_acceptClients answers
  | session id op =>
    show s.Tends (s.sessionStep bo id op)
    unfold sessionStep
    split
    · exact .refl s
    · simp only
      split_ifs
      · exact .refl s
      · exact s.tends_onClientDisconnected id
  | disconnected id => exact s.tends_onClientDisconnected id
  | poll call => exact absurd rfl (hop call)
  | timeout => exact ⟨[.timeout], List.forall_mem_singleton.mpr .timeout, rfl⟩

/-- The object is a run of its own. -/
theorem Inv.daemon {bo : ByteOrder} (h : s.Inv bo) : s.daemon.Inv := by
  obtain ⟨d, ops, hd, hrun⟩ := h.logged.daemon
  rw [hrun]
  exact DaemonLink.inv_run hd ops

end Server

/-! ### What the replies bring -/

/-- No request is replied to twice, or before it was made. -/
theorem DaemonLink.Inv.requests {l : DaemonLink} (h : l.Inv) :
    (l.object.port.sent.map Sent.request).Nodup ∧
      ∀ r ∈ l.object.port.sent, r.request < l.object.port.requests := by
  obtain ⟨m, hs, -⟩ := h
  have hperm := hs.served.account
  rw [← hs.map_request, ← hs.requests, List.append_assoc] at hperm
  refine ⟨(List.nodup_append.mp (hperm.nodup_iff.mpr List.nodup_range)).1, fun r hr => ?_⟩
  refine List.mem_range.mp (hperm.subset (List.mem_append_left _ ?_))
  exact List.mem_map_of_mem hr

/-- Texts of control messages are those of their values. -/
theorem changes_of_texts {l : Log ℕ} {vs : List Json}
    (h : List.Forall₂ Json.Text (l.map reportOf) vs) : vs.filterMap changeOf = l := by
  induction l generalizing vs with
  | nil =>
    cases h
    rfl
  | cons e l ih =>
    rw [List.map_cons] at h
    cases h with
    | cons he h =>
      rw [he.unique (text_reportOf e), List.filterMap_cons_some (changeOf_controlJson e), ih h]

theorem getD_changes (r : Sent) : r.changes.getD [] = r.messages.filterMap changeOf := by
  rw [Sent.changes, Sent.messages]
  cases r.reply <;> rfl

/-- The events in the replies of `/daemon` and those that are queued there are all that were
queued. -/
theorem Server.Inv.changes {bo : ByteOrder} {s : Server} (h : s.Inv bo) :
    ∃ queued : Log ℕ, (s.daemon.object.port.sent.flatMap fun r => r.changes.getD []) ++ queued =
      s.events ∧ s.daemon.object.controlQueue.messages = queued.length := by
  obtain ⟨m, hs, -, harrived, -⟩ := h.daemon
  have hreturns : List.Forall₂ Sent.Returns s.daemon.object.port.sent
      (m.answers.map Answer.messages) := by
    rw [List.forall₂_map_right_iff]
    exact hs.sent.imp fun r a hr => hr.returns
  have hsplit : s.events.map reportOf = (m.answers.map Answer.messages).flatten ++ m.queue := by
    rw [← h.logged.accepted, ← harrived, ← hs.served.handed, Mailbox.handed, List.flatMap_def]
  obtain ⟨returned, queued, hevents, hreturned, hqueued⟩ := List.map_eq_append_iff.mp hsplit
  refine ⟨queued, ?_, ?_⟩
  · have htexts := texts_messages hreturns fun p hp => by
      rw [← hreturned] at hp
      obtain ⟨e, -, rfl⟩ := List.mem_map.mp hp
      exact ⟨_, text_reportOf e⟩
    rw [← hreturned] at htexts
    have hchanges := changes_of_texts htexts
    rw [List.filterMap_flatMap] at hchanges
    rw [hevents, ← hchanges]
    simp only [getD_changes]
  · rw [hs.messages, ← hqueued, List.length_map]

/-! ### The connections of the script -/

namespace Script

theorem keys_onClientConnected (s : Script) (id : ℕ) :
    (s.onClientConnected id).connections.keys.toFinset =
      insert id s.connections.keys.toFinset := by
  ext k
  rw [onClientConnected]
  simp only [Finset.mem_insert, List.mem_toFinset]
  split_ifs with hid
  · refine (or_iff_right_of_imp ?_).symm
    rintro rfl
    exact AList.lookup_isSome.mp hid
  · exact AList.mem_insert s.connections

theorem keys_onClientDisconnected (s : Script) (id : ℕ) :
    (s.onClientDisconnected id).connections.keys.toFinset =
      s.connections.keys.toFinset.erase id := by
  ext k
  rw [onClientDisconnected]
  simp only [Finset.mem_erase, List.mem_toFinset]
  cases hid : s.connections.lookup id with
  | none =>
    refine (and_iff_right_of_imp ?_).symm
    rintro hk rfl
    exact AList.lookup_eq_none.mp hid hk
  | some conn => exact AList.mem_erase

theorem keys_foldl_onControl (s : Script) (l : Log ℕ) :
    (l.foldl onControl s).connections.keys.toFinset =
      l.foldl Presence.apply s.connections.keys.toFinset := by
  induction l generalizing s with
  | nil => rfl
  | cons e l ih =>
    rw [List.foldl_cons, List.foldl_cons, ih]
    congr 1
    obtain ⟨change, id⟩ := e
    cases change with
    | arrives => exact s.keys_onClientConnected id
    | leaves => exact s.keys_onClientDisconnected id

end Script

namespace ControlLoop

/-! ### The invariant -/

/-- The connections of the script are what the handled events add up to. -/
structure Inv (bo : ByteOrder) (c : ControlLoop) : Prop where
  server : c.server.Inv bo
  requests : c.server.daemon.object.port.requests ≤ c.caller.called
  caller : c.caller.Inv (replies c.server)
  script : c.script.connections.keys.toFinset = replay c.handled

variable {bo : ByteOrder} {c : ControlLoop}

/-- Something happens to the server. -/
theorem Inv.server_step (h : c.Inv bo) {s : Server} {n : ℕ} (hs : s.Inv bo)
    (hlater : c.server.Later s n)
    (hn : c.server.daemon.object.port.requests + n ≤ c.caller.called) :
    Inv bo { c with server := s } := by
  have hrequests := hs.daemon.requests
  obtain ⟨t, ht⟩ := hlater.sent
  have hcalled : s.daemon.object.port.requests ≤ c.caller.called := hlater.requests.le.trans hn
  refine ⟨hs, hcalled, h.caller.grow (hlater.sent.map _) ?_ ?_, h.script⟩
  · rw [replies, List.map_map]
    exact hrequests.1
  · intro a ha
    obtain ⟨r, hr, rfl⟩ := List.mem_map.mp ha
    exact (hrequests.2 r hr).trans_le hcalled

/-- A reply arrives. -/
theorem Inv.deliver (h : c.Inv bo) {q : ℕ} {changes : Option (Log ℕ)}
    (hr : (replies c.server)[c.caller.arrived]? = some (q, changes)) :
    (c.deliver q changes).Inv bo := by
  have hcaller := h.caller.arrive hr
  have hcalled : (c.caller.arrive q changes).called = c.caller.called := by
    cases changes with
    | none => rfl
    | some l =>
      rw [Caller.arrive]
      split_ifs <;> rfl
  refine ⟨h.server, hcalled.symm ▸ h.requests, hcaller, ?_⟩
  cases changes with
  | none =>
    simp only [ControlLoop.deliver, Option.getD_none, List.foldl_nil, ite_self]
    exact h.script
  | some l =>
    simp only [ControlLoop.deliver, ControlLoop.handled, Caller.arrive, Option.getD_some]
    split_ifs
    · rw [Script.keys_foldl_onControl, h.script, List.flatten_append, List.flatten_singleton,
        replay, replay, List.foldl_append]
      rfl
    · exact h.script

/-- **What a step preserves.** -/
theorem Inv.step (h : c.Inv bo) (ev : ControlStep) : (c.step bo ev).Inv bo := by
  cases ev with
  | accept answers =>
    exact h.server_step (h.server.step _) (c.server.tends_step bo (by simp)).later h.requests
  | session id op =>
    exact h.server_step (h.server.step _) (c.server.tends_step bo (by simp)).later h.requests
  | disconnected id =>
    exact h.server_step (h.server.step _) (c.server.tends_step bo (by simp)).later h.requests
  | expire =>
    exact h.server_step (h.server.step _) (c.server.tends_step bo (by simp)).later h.requests
  | receive timer =>
    rw [ControlLoop.step]
    split_ifs with hcalled
    · exact h.server_step (h.server.step _) (c.server.daemon.later_step _)
        ((Nat.add_le_add_left (Bool.toNat_le _) _).trans hcalled)
    · exact h
  | deliver =>
    rw [ControlLoop.step]
    split
    · exact h
    · rename_i q changes hr
      exact h.deliver hr
  | callTimeout =>
    have hcaller := h.caller.giveUp
    refine ⟨h.server, ?_, hcaller, ?_⟩
    · simp only [ControlLoop.step, Caller.giveUp]
      split <;> exact h.requests
    · simp only [ControlLoop.step, ControlLoop.handled, Caller.giveUp]
      split <;> exact h.script
  | callAgain =>
    have hcaller := h.caller.call
    refine ⟨h.server, ?_, hcaller, ?_⟩
    · simp only [ControlLoop.step, Caller.call]
      split_ifs
      · exact h.requests.trans (Nat.le_succ _)
      · exact h.requests
    · simp only [ControlLoop.step, ControlLoop.handled, Caller.call]
      split_ifs <;> exact h.script
  | script ev =>
    have hscript : (∀ id, ev ≠ .clientConnected id) → (∀ id, ev ≠ .clientDisconnected id) →
        Inv bo { c with script := c.script.step ev } := by
      intro hconnect hdisconnect
      refine ⟨h.server, h.requests, h.caller, ?_⟩
      rw [(Script.sameConns_step c.script hconnect hdisconnect).connections]
      exact h.script
    cases ev with
    | clientConnected id => exact h
    | clientDisconnected id => exact h
    | _ => exact hscript (by simp) (by simp)

theorem inv_start {maxClients : ℤ} {caps : BufferCaps} {server : Server}
    (h : Server.start maxClients caps = .ok server) (windows : List Window)
    (data : Window → WindowData) (workspace : WorkspaceData) :
    (start server (.load windows data workspace)).Inv bo := by
  have hserver : server.Inv bo := Server.inv_run h []
  obtain ⟨d, hd, rfl⟩ := Server.eq_of_start h
  obtain ⟨q, -, rfl⟩ := DaemonObject.eq_of_make hd
  exact ⟨hserver, Nat.zero_le 1, Caller.inv_start, rfl⟩

theorem Inv.steps (h : c.Inv bo) (evs : List ControlStep) : (c.run bo evs).Inv bo :=
  List.foldlRecOn evs (ControlLoop.step bo) h fun _ hc ev _ => hc.step ev

/-! ### What is lost -/

/-- What was sent is what arrived and what is on its way. -/
theorem sent_eq (c : ControlLoop) :
    (c.server.daemon.object.port.sent.flatMap fun r => r.changes.getD []) =
      (((replies c.server).take c.caller.arrived).filterMap Prod.snd).flatten ++ c.inFlight := by
  rw [inFlight, ← List.flatten_append, ← List.filterMap_append, List.take_append_drop, replies,
    List.filterMap_map]
  generalize c.server.daemon.object.port.sent = sent
  induction sent with
  | nil => rfl
  | cons r sent ih =>
    rw [List.flatMap_cons, ih]
    cases hr : r.changes <;> simp [hr]

theorem Inv.handled_eq (h : c.Inv bo) : c.handled =
    (Caller.accounted c.caller.givenUp ((replies c.server).take c.caller.arrived)).flatten :=
  congrArg List.flatten h.caller.taken

/-- Events that were lost are missing, and no others. -/
theorem Inv.lost_eq_nil_iff (h : c.Inv bo) : c.lost = [] ↔
    c.handled ++ c.inFlight =
      c.server.daemon.object.port.sent.flatMap fun r => r.changes.getD [] := by
  have hperm := (Caller.accounted_append_lost c.caller.givenUp
    ((replies c.server).take c.caller.arrived)).flatten
  have hlen := hperm.length_eq
  rw [List.flatten_append, List.length_append, ← h.handled_eq] at hlen
  rw [c.sent_eq]
  constructor
  · intro hlost
    have hsub := (Caller.accounted_sublist c.caller.givenUp
      ((replies c.server).take c.caller.arrived)).flatten
    rw [← h.handled_eq] at hsub
    have hzero := congrArg List.length hlost
    simp only [lost, List.length_nil] at hzero
    rw [hsub.eq_of_length (by omega)]
  · intro heq
    have hall := congrArg List.length (List.append_cancel_right heq)
    refine List.eq_nil_of_length_eq_zero ?_
    simp only [lost]
    omega

end ControlLoop

/-- **The connections of the script follow the sessions of the daemon.** In every state of every run
of the server, the script and the control loop between them, the connected clients of the script are
what the handled control events add up to, and these are some of the events that were queued, in
order. They are all of them, but for those on their way and those still queued, exactly when no
event arrived after the timer of its call had fired; if none was dropped either and none is left on
the way or in the queue, the connected clients are the sessions. -/
theorem control_mirror {maxClients : ℤ} {caps : BufferCaps} {server : Server}
    (h : Server.start maxClients caps = .ok server) (bo : ByteOrder) (windows : List Window)
    (data : Window → WindowData) (workspace : WorkspaceData) (evs : List ControlStep) :
    let c := (ControlLoop.start server (.load windows data workspace)).run bo evs
    c.script.connections.keys.toFinset = replay c.handled ∧
      c.handled.Sublist c.server.events ∧
      ∃ queued : Log ℕ, c.server.daemon.object.controlQueue.messages = queued.length ∧
        (c.lost = [] ↔ c.handled ++ c.inFlight ++ queued = c.server.events) ∧
        (c.lost = [] → c.server.events = c.server.reported → c.inFlight = [] → queued = [] →
          c.script.connections.keys.toFinset = c.server.sessions.keys.toFinset) := by
  intro c
  have hinv : c.Inv bo := (ControlLoop.inv_start h windows data workspace).steps evs
  obtain ⟨queued, hevents, hmessages⟩ := hinv.server.changes
  have hlost : c.lost = [] ↔ c.handled ++ c.inFlight ++ queued = c.server.events := by
    rw [hinv.lost_eq_nil_iff, ← hevents, List.append_cancel_right_eq]
  refine ⟨hinv.script, ?_, queued, hmessages, hlost, fun hnone hkept hflight hqueue => ?_⟩
  · have hsub := (Caller.accounted_sublist c.caller.givenUp
      ((ControlLoop.replies c.server).take c.caller.arrived)).flatten
    rw [← hinv.handled_eq] at hsub
    rw [← hevents, c.sent_eq, List.append_assoc]
    exact hsub.trans (List.sublist_append_left _ _)
  · have hall := hlost.mp hnone
    rw [hflight, hqueue, List.append_nil, List.append_nil, hkept] at hall
    rw [hinv.script, hall, hinv.server.replay_reported]

/-- A client connects, its event is handled, and the script knows it. -/
theorem control_mirror_one : ∃ server,
    Server.start 1 ⟨0, 0, .inl rfl, .inl rfl⟩ = .ok server ∧
    let c := (ControlLoop.start server .loadEmpty).run .little
      [.receive ⟨.ok 0, .ok ()⟩, .accept [.connection 3 [] true true], .deliver]
    c.handled = [(.arrives, 1)] ∧
      c.script.connections.keys.toFinset = c.server.sessions.keys.toFinset := by
  refine ⟨_, rfl, ?_⟩
  obtain ⟨-, -, queued, hmessages, hlost, hmirror⟩ := @control_mirror 1
    ⟨0, 0, .inl rfl, .inl rfl⟩ _ rfl .little [] (fun _ => ⟨[], [], [], fun _ => .undefined⟩)
    ⟨⟨[]⟩, [], [], []⟩
    [.receive ⟨.ok 0, .ok ()⟩, .accept [.connection 3 [] true true], .deliver]
  have hqueued : queued = [] :=
    List.eq_nil_of_length_eq_zero (hmessages.symm.trans (by decide +kernel))
  refine ⟨?_, hmirror (by decide +kernel) (by decide +kernel) (by decide +kernel) hqueued⟩
  have hevents := hlost.mp (by decide +kernel)
  rw [hqueued, List.append_nil, show ControlLoop.inFlight _ = [] by decide +kernel,
    List.append_nil] at hevents
  exact hevents.trans (by decide +kernel)

end KwinApi
