import KwinApi.Daemon.Config
import KwinApi.Daemon.PollProtocol
import KwinApi.Lib.Presence
import Mathlib.Data.List.AList
import Mathlib.Data.List.Range

/-!
# The server

`Server` of `server.cpp`: it accepts connections, keeps a session for each of them, and reports who
comes and goes on `/daemon`. The control queue of `/daemon` is bounded, and an event that finds no
room in it is dropped with a warning.

`issued`, `reported` and `events` are records of the model: the ids that were taken from `next_id_`,
the events given to `queue_control`, and those of them that were queued. Ids are natural numbers.
The listening socket, `stop` and the log lines are left out.

## Main definitions

* `KwinApi.BufferCaps` — capacities `load_config` accepts
* `KwinApi.Server` — the server, with `acceptClients`, `onClientDisconnected`, `queueControl`
* `KwinApi.Server.step` — everything that can happen to it
* `KwinApi.Server.InStep` — the control events add up to the session table

## Main results

* `KwinApi.Server.inv_run` — the invariant of the whole server
* `KwinApi.control_events` — the laws of the control events
-/

namespace KwinApi

open Presence

/-- Buffer capacities as `load_config` accepts them. -/
structure BufferCaps where
  rx : ℕ
  tx : ℕ
  rx_ok : rx = 0 ∨ kMinBufferCap ≤ rx
  tx_ok : tx = 0 ∨ kMinBufferCap ≤ tx

/-- With these capacities the constructor of a session does not throw. -/
theorem BufferCaps.exists_session (caps : BufferCaps) (id : ℕ) (fd : ℤ) :
    ∃ s, Session.make id fd caps.rx caps.tx = .ok s := by
  have hmin : kHeaderLen + 1 ≤ kMinBufferCap := by decide
  have hdefault : kHeaderLen + 1 ≤ kDefaultBufferCap := by decide
  have hcap : ∀ cap, cap = 0 ∨ kMinBufferCap ≤ cap →
      kHeaderLen + 1 ≤ if cap = 0 then kDefaultBufferCap else cap := by
    intro cap hcap
    split_ifs <;> omega
  have hrx := hcap caps.rx caps.rx_ok
  have htwo : 2 ≤ kHeaderLen + 1 := by decide
  rw [Session.make, Client.make, RxBuffer.make, if_neg (by omega), TxBuffer.make,
    dif_neg (not_lt.mpr (hcap caps.tx caps.tx_ok))]
  exact ⟨_, rfl⟩

/-! ### Control events -/

/-- What a control event says about its id. -/
def ControlEvent.change : ControlEvent → Change
  | .clientConnected => .arrives
  | .clientDisconnected => .leaves

/-- The event that says so. -/
def controlEvent : Change → ControlEvent
  | .arrives => .clientConnected
  | .leaves => .clientDisconnected

/-- The payload that reports a change. -/
def reportOf (e : Change × ℕ) : List UInt8 := controlMessage (controlEvent e.1) e.2

/-! ### The server -/

/-- The server with its sessions and the object `/daemon`. -/
structure Server where
  maxClients : ℕ
  caps : BufferCaps
  nextId : ℕ
  sessions : AList fun _ : ℕ => SessionLink
  daemon : DaemonLink
  issued : List ℕ
  reported : Log ℕ
  events : Log ℕ

/-- What `accept4` answers: a connection, with what its peer is going to send, and whether the
session could be set up; or an error. -/
inductive AcceptAnswer where
  | connection (fd : ℤ) (stream : List UInt8) (closed : Bool) (ok : Bool)
  | errno (e : Errno)

/-- What can happen to the server: connections wait to be accepted, something happens to a session,
a session reports its end, `/daemon` is polled, or the timer of a `poll` of `/daemon` fires. -/
inductive ServerOp where
  | accept (answers : List AcceptAnswer)
  | session (id : ℕ) (op : SessionOp)
  | disconnected (id : ℕ)
  | poll (call : PollCall)
  | timeout

namespace Server

/-- The constructor and `start`. -/
def start (maxClients : ℤ) (caps : BufferCaps) : Except String Server := do
  let daemon ← DaemonObject.make
  return { maxClients := if 0 < maxClients then maxClients.toNat else 64
           caps, nextId := 1, sessions := ∅, daemon := .init daemon
           issued := [], reported := [], events := [] }

/-- What they make. -/
theorem eq_of_start {maxClients : ℤ} {caps : BufferCaps} {s : Server}
    (h : start maxClients caps = .ok s) :
    ∃ d, DaemonObject.make = .ok d ∧
      s = ⟨if 0 < maxClients then maxClients.toNat else 64, caps, 1, ∅, .init d, [], [], []⟩ := by
  rw [start] at h
  cases hd : DaemonObject.make with
  | error e => rw [hd] at h; cases h
  | ok d =>
    rw [hd] at h
    cases h
    exact ⟨d, rfl, rfl⟩

/-- `queue_control` -/
def queueControl (s : Server) (event : ControlEvent) (id : ℕ) : Server :=
  { s with
    daemon := s.daemon.step (.control event id)
    reported := s.reported ++ [(event.change, id)]
    events := if s.daemon.object.controlQueue.canFit (controlMessage event id).length then
        s.events ++ [(event.change, id)]
      else s.events }

/-- A connection is accepted within the limit. Its id is used up even when the session cannot be set
up. -/
def addClient (s : Server) (fd : ℤ) (stream : List UInt8) (closed ok : Bool) : Server :=
  let id := s.nextId
  let s := { s with nextId := s.nextId + 1, issued := s.issued ++ [id] }
  match Session.make id fd s.caps.rx s.caps.tx with
  | .error _ => s
  | .ok session =>
    if ok then
      { s with sessions := s.sessions.insert id (.init session stream closed) }.queueControl
        .clientConnected id
    else s

/-- `accept_clients`: accept until there is nothing more to accept, or an error other than
`EINTR`. -/
def acceptClients (s : Server) : List AcceptAnswer → Server
  | [] => s
  | .errno e :: answers => if e = .EINTR then s.acceptClients answers else s
  | .connection fd stream closed ok :: answers =>
    if s.maxClients ≤ s.sessions.keys.length then s.acceptClients answers
    else (s.addClient fd stream closed ok).acceptClients answers

/-- `on_client_disconnected` -/
def onClientDisconnected (s : Server) (id : ℕ) : Server :=
  if id ∈ s.sessions then
    let s := s.queueControl .clientDisconnected id
    { s with sessions := s.sessions.erase id }
  else s

/-- Something happens to a session. When the connection is over, it reports that. -/
def sessionStep (bo : ByteOrder) (s : Server) (id : ℕ) (op : SessionOp) : Server :=
  match s.sessions.lookup id with
  | none => s
  | some l =>
    let l := l.step bo op
    if l.alive then { s with sessions := s.sessions.insert id l } else s.onClientDisconnected id

/-- One thing that happens. -/
def step (bo : ByteOrder) (s : Server) : ServerOp → Server
  | .accept answers => s.acceptClients answers
  | .session id op => s.sessionStep bo id op
  | .disconnected id => s.onClientDisconnected id
  | .poll call => { s with daemon := s.daemon.step (.poll call) }
  | .timeout => { s with daemon := s.daemon.step .timeout }

/-- A run. -/
def run (bo : ByteOrder) (s : Server) (ops : List ServerOp) : Server := ops.foldl (step bo) s

/-- The control events that polls returned or that are still queued add up to the session table. -/
def InStep (s : Server) : Prop := replay s.events = s.sessions.keys.toFinset

theorem run_concat (bo : ByteOrder) (s : Server) (ops : List ServerOp) (op : ServerOp) :
    s.run bo (ops ++ [op]) = (s.run bo ops).step bo op :=
  List.foldl_concat ..

/-! ### The invariant -/

/-- A session is a run of its own. -/
def SessionRun (bo : ByteOrder) (caps : BufferCaps) (id : ℕ) (l : SessionLink) : Prop :=
  ∃ fd s stream closed, ∃ ops : List SessionOp, Session.make id fd caps.rx caps.tx = .ok s ∧
    l = ops.foldl (SessionLink.step bo) (.init s stream closed)

/-- The object `/daemon` is a run of its own, and has been given the events in `events`. -/
structure Logged (s : Server) : Prop where
  daemon : ∃ d, ∃ ops : List DaemonOp, DaemonObject.make = .ok d ∧
    s.daemon = ops.foldl DaemonLink.step (.init d)
  alive : s.daemon.alive = true
  accepted : s.daemon.accepted = s.events.map reportOf
  kept : s.events.Sublist s.reported

/-- The reports are exact, whether they were queued or not. -/
structure Inv (bo : ByteOrder) (s : Server) : Prop where
  logged : s.Logged
  orderly : Orderly s.reported
  present : ∀ id, id ∈ s.sessions ↔ about id s.reported = [.arrives]
  fresh : ∀ id, s.nextId ≤ id → about id s.reported = []
  issued : s.issued = List.range' 1 (s.nextId - 1) ∧ 0 < s.nextId
  connected : (arrivals s.reported).Sublist s.issued
  limit : s.sessions.keys.length ≤ s.maxClients
  sessions : ∀ id l, s.sessions.lookup id = some l → SessionRun bo s.caps id l

variable {bo : ByteOrder} {s : Server}

theorem Logged.congr (h : s.Logged) {s' : Server} (hd : s'.daemon = s.daemon)
    (he : s'.events = s.events) (hr : s'.reported = s.reported) : s'.Logged := by
  refine ⟨?_, ?_, ?_, ?_⟩
  · rw [hd]
    exact h.daemon
  · rw [hd]
    exact h.alive
  · rw [hd, he]
    exact h.accepted
  · rw [he, hr]
    exact h.kept

/-- What happens to `/daemon` apart from control events is not reported. -/
theorem Logged.daemon_step (h : s.Logged) {op : DaemonOp} (halive : (s.daemon.step op).alive = true)
    (haccepted : (s.daemon.step op).accepted = s.daemon.accepted) :
    Logged { s with daemon := s.daemon.step op } := by
  obtain ⟨d, ops, hd, hrun⟩ := h.daemon
  refine ⟨⟨d, ops ++ [op], hd, ?_⟩, halive, haccepted.trans h.accepted, h.kept⟩
  rw [List.foldl_append, List.foldl_cons, List.foldl_nil, ← hrun]

theorem controlEvent_change (event : ControlEvent) : controlEvent event.change = event := by
  cases event <;> rfl

theorem Logged.queueControl (h : s.Logged) (event : ControlEvent) (id : ℕ) :
    (s.queueControl event id).Logged := by
  obtain ⟨d, ops, hd, hrun⟩ := h.daemon
  have hstep : (s.daemon.step (.control event id)).alive = true ∧
      (s.daemon.step (.control event id)).accepted =
        if s.daemon.object.controlQueue.canFit (controlMessage event id).length then
          s.daemon.accepted ++ [controlMessage event id]
        else s.daemon.accepted := by
    rw [DaemonLink.step, if_neg (not_not.mpr h.alive)]
    exact ⟨h.alive, rfl⟩
  refine ⟨⟨d, ops ++ [.control event id], hd, ?_⟩, hstep.1, hstep.2.trans ?_, ?_⟩
  · rw [List.foldl_append, List.foldl_cons, List.foldl_nil, ← hrun]
    rfl
  · simp only [Server.queueControl]
    split_ifs
    · rw [h.accepted, List.map_append, List.map_singleton, reportOf, controlEvent_change]
    · exact h.accepted
  · simp only [Server.queueControl]
    split_ifs
    · exact h.kept.append (List.Sublist.refl _)
    · exact h.kept.trans (List.sublist_append_left _ _)

/-- A fresh id for a session that cannot be set up. -/
theorem Inv.issue (h : s.Inv bo) :
    Inv bo { s with nextId := s.nextId + 1, issued := s.issued ++ [s.nextId] } := by
  refine ⟨h.logged.congr rfl rfl rfl, h.orderly, h.present, ?_, ⟨?_, Nat.succ_pos _⟩, ?_, h.limit,
    h.sessions⟩
  · intro id hid
    exact h.fresh id (Nat.le_of_succ_le hid)
  · obtain ⟨hissued, hpos⟩ := h.issued
    obtain ⟨n, hn⟩ : ∃ n, s.nextId = n + 1 := ⟨s.nextId - 1, by omega⟩
    rw [hn, Nat.add_sub_cancel] at hissued
    simp only [hissued, hn, Nat.add_sub_cancel, List.range'_1_concat, Nat.add_comm 1 n]
  · exact h.connected.trans (List.sublist_append_left _ _)

/-- **A session is added** under an id nobody had, and reported. -/
theorem Inv.connect (h : s.Inv bo) {id : ℕ} {l : SessionLink} (hid : id + 1 = s.nextId)
    (hnew : about id s.reported = []) (hissued : (arrivals s.reported ++ [id]).Sublist s.issued)
    (hroom : s.sessions.keys.length < s.maxClients) (hrun : SessionRun bo s.caps id l) :
    Inv bo ({ s with sessions := s.sessions.insert id l }.queueControl .clientConnected id) := by
  have hlogged : Logged { s with sessions := s.sessions.insert id l } :=
    h.logged.congr rfl rfl rfl
  have habsent : id ∉ s.sessions := by
    rw [h.present, hnew]
    exact List.cons_ne_nil _ _ ∘ Eq.symm
  refine ⟨hlogged.queueControl _ _, h.orderly.arrives hnew, fun id' => ?_, fun id' hid' => ?_,
    h.issued, ?_, ?_, fun id' l' hl' => ?_⟩
  · show id' ∈ s.sessions.insert id l ↔ about id' (s.reported ++ [(.arrives, id)]) = _
    rw [AList.mem_insert, about_append]
    by_cases heq : id = id'
    · subst heq
      rw [hnew, about_self]
      exact iff_of_true (Or.inl rfl) rfl
    · rw [about_of_ne heq, List.append_nil, ← h.present]
      exact or_iff_right (Ne.symm heq)
  · show about id' (s.reported ++ [(.arrives, id)]) = []
    have hid' : s.nextId ≤ id' := hid'
    rw [about_append, h.fresh id' hid', about_of_ne (by omega)]
    rfl
  · show (arrivals (s.reported ++ [(.arrives, id)])).Sublist s.issued
    rwa [arrivals_append]
  · show (s.sessions.insert id l).keys.length ≤ s.maxClients
    rw [AList.keys_insert, List.erase_of_not_mem habsent]
    exact hroom
  · have hl' : (s.sessions.insert id l).lookup id' = some l' := hl'
    by_cases heq : id' = id
    · subst heq
      rw [AList.lookup_insert] at hl'
      rwa [← Option.some.inj hl']
    · rw [AList.lookup_insert_ne heq] at hl'
      exact h.sessions id' l' hl'

theorem Inv.addClient (h : s.Inv bo) (hroom : s.sessions.keys.length < s.maxClients) (fd : ℤ)
    (stream : List UInt8) (closed ok : Bool) : (s.addClient fd stream closed ok).Inv bo := by
  obtain ⟨session, hmake⟩ := s.caps.exists_session s.nextId fd
  simp only [Server.addClient, hmake]
  split_ifs
  · have hissued := h.connected.append (List.Sublist.refl [s.nextId])
    exact h.issue.connect rfl (h.fresh _ le_rfl) hissued hroom
      ⟨fd, session, stream, closed, [], hmake, rfl⟩
  · exact h.issue

theorem Inv.acceptClients (h : s.Inv bo) (answers : List AcceptAnswer) :
    (s.acceptClients answers).Inv bo := by
  induction answers generalizing s with
  | nil => exact h
  | cons a answers ih =>
    cases a with
    | errno e =>
      rw [Server.acceptClients]
      split_ifs
      · exact ih h
      · exact h
    | connection fd stream closed ok =>
      rw [Server.acceptClients]
      split_ifs with hfull
      · exact ih h
      · exact ih (h.addClient (not_le.mp hfull) fd stream closed ok)

/-- **A session is removed** and reported, once. -/
theorem Inv.onClientDisconnected (h : s.Inv bo) (id : ℕ) :
    (s.onClientDisconnected id).Inv bo := by
  rw [Server.onClientDisconnected]
  split_ifs with hmem
  swap
  · exact h
  have hpresent := (h.present id).mp hmem
  refine ⟨(h.logged.queueControl .clientDisconnected id).congr rfl rfl rfl,
    h.orderly.leaves hpresent, fun id' => ?_, fun id' hid' => ?_, h.issued, ?_, ?_,
    fun id' l' hl' => ?_⟩
  · show id' ∈ s.sessions.erase id ↔ about id' (s.reported ++ [(.leaves, id)]) = _
    rw [AList.mem_erase, about_append]
    by_cases heq : id = id'
    · subst heq
      rw [hpresent, about_self]
      exact iff_of_false (fun hne => hne.1 rfl) (by decide)
    · rw [about_of_ne heq, List.append_nil, ← h.present]
      exact and_iff_right (Ne.symm heq)
  · show about id' (s.reported ++ [(.leaves, id)]) = []
    have hold := h.fresh id' hid'
    have hne : id ≠ id' := by
      rintro rfl
      rw [hold] at hpresent
      exact absurd hpresent (List.cons_ne_nil _ _).symm
    rw [about_append, hold, about_of_ne hne]
    rfl
  · show (arrivals (s.reported ++ [(.leaves, id)])).Sublist s.issued
    rw [arrivals_append]
    exact (List.append_nil (arrivals s.reported)).symm ▸ h.connected
  · show (s.sessions.erase id).keys.length ≤ s.maxClients
    rw [AList.keys_erase]
    exact (List.erase_sublist.length_le).trans h.limit
  · have hl' : (s.sessions.erase id).lookup id' = some l' := hl'
    by_cases heq : id' = id
    · subst heq
      rw [AList.lookup_erase] at hl'
      cases hl'
    · rw [AList.lookup_erase_ne heq] at hl'
      exact h.sessions id' l' hl'

theorem Inv.sessionStep (h : s.Inv bo) (id : ℕ) (op : SessionOp) :
    (s.sessionStep bo id op).Inv bo := by
  unfold Server.sessionStep
  split
  · exact h
  rename_i l hl
  simp only
  split_ifs
  swap
  · exact h.onClientDisconnected id
  have hmem : id ∈ s.sessions := AList.lookup_isSome.mp (by rw [hl]; rfl)
  refine ⟨h.logged.congr rfl rfl rfl, h.orderly, fun id' => ?_, h.fresh, h.issued, h.connected, ?_,
    fun id' l' hl' => ?_⟩
  · rw [← h.present, AList.mem_insert]
    refine or_iff_right_of_imp ?_
    rintro rfl
    exact hmem
  · show (s.sessions.insert id (l.step bo op)).keys.length ≤ s.maxClients
    have hkeys := List.length_erase_of_mem (AList.mem_keys.mp hmem)
    have hpos := List.length_pos_of_mem (AList.mem_keys.mp hmem)
    rw [AList.keys_insert, List.length_cons, hkeys]
    have hlimit := h.limit
    omega
  · have hl' : (s.sessions.insert id (l.step bo op)).lookup id' = some l' := hl'
    by_cases heq : id' = id
    · subst heq
      rw [AList.lookup_insert] at hl'
      obtain ⟨fd, session, stream, closed, ops, hmake, hrun⟩ := h.sessions id' l hl
      refine ⟨fd, session, stream, closed, ops ++ [op], hmake, ?_⟩
      rw [List.foldl_append, List.foldl_cons, List.foldl_nil, ← hrun, Option.some.inj hl']
    · rw [AList.lookup_insert_ne heq] at hl'
      exact h.sessions id' l' hl'

/-- **One thing that happens to the server.** -/
theorem Inv.step (h : s.Inv bo) (op : ServerOp) : (s.step bo op).Inv bo := by
  cases op with
  | accept answers => exact h.acceptClients answers
  | session id op => exact h.sessionStep id op
  | disconnected id => exact h.onClientDisconnected id
  | poll call =>
    have hlogged : Logged { s with daemon := s.daemon.step (.poll call) } := by
      refine h.logged.daemon_step ?_ ?_
      all_goals rw [DaemonLink.step, if_neg (not_not.mpr h.logged.alive)]
      exact h.logged.alive
    exact ⟨hlogged, h.orderly, h.present, h.fresh, h.issued, h.connected, h.limit, h.sessions⟩
  | timeout =>
    have hlogged : Logged { s with daemon := s.daemon.step .timeout } := by
      refine h.logged.daemon_step ?_ ?_
      all_goals
        rw [DaemonLink.step, if_neg (not_not.mpr h.logged.alive)]
        simp only
        split_ifs
      all_goals first | exact h.logged.alive | rfl
    exact ⟨hlogged, h.orderly, h.present, h.fresh, h.issued, h.connected, h.limit, h.sessions⟩

theorem inv_start {maxClients : ℤ} {caps : BufferCaps} (h : start maxClients caps = .ok s) :
    s.Inv bo := by
  obtain ⟨d, hd, rfl⟩ := eq_of_start h
  refine ⟨⟨⟨d, [], hd, rfl⟩, rfl, rfl, List.Sublist.refl _⟩, orderly_nil, fun id => ?_,
    fun _ _ => rfl, ⟨rfl, Nat.one_pos⟩, List.Sublist.refl _, Nat.zero_le _, fun id l hl => ?_⟩
  · exact iff_of_false (AList.notMem_empty id) (List.cons_ne_nil _ _).symm
  · rw [AList.lookup_empty] at hl
    cases hl

/-- **A whole run of the server.** -/
theorem inv_run {maxClients : ℤ} {caps : BufferCaps} (h : start maxClients caps = .ok s)
    (ops : List ServerOp) : (s.run bo ops).Inv bo :=
  List.foldlRecOn ops (Server.step bo) (inv_start h) fun _ hs op _ => hs.step op

/-! ### Events that are dropped -/

/-- Between two states some events about the ids `ids` were reported, and some of them queued. The
limit stays. -/
def Grows (s s' : Server) (ids : List ℕ) : Prop :=
  s'.maxClients = s.maxClients ∧ ∃ new kept : Log ℕ, s'.reported = s.reported ++ new ∧
    s'.events = s.events ++ kept ∧ kept.Sublist new ∧ (new.map Prod.snd).Sublist ids

theorem Grows.refl (s : Server) (ids : List ℕ) : Grows s s ids :=
  ⟨rfl, [], [], (List.append_nil _).symm, (List.append_nil _).symm, .slnil, List.nil_sublist _⟩

theorem Grows.trans {s s' s'' : Server} {ids ids' : List ℕ} (h : Grows s s' ids)
    (h' : Grows s' s'' ids') : Grows s s'' (ids ++ ids') := by
  obtain ⟨hmax, new, kept, hr, he, hkept, hids⟩ := h
  obtain ⟨hmax', new', kept', hr', he', hkept', hids'⟩ := h'
  refine ⟨hmax'.trans hmax, new ++ new', kept ++ kept', ?_, ?_, hkept.append hkept', ?_⟩
  · rw [hr', hr, List.append_assoc]
  · rw [he', he, List.append_assoc]
  · rw [List.map_append]
    exact hids.append hids'

theorem grows_queueControl (s : Server) (event : ControlEvent) (id : ℕ) :
    Grows s (s.queueControl event id) [id] := by
  simp only [Grows, queueControl]
  split_ifs
  · exact ⟨trivial, [(event.change, id)], [(event.change, id)], rfl, rfl, .refl _, .refl _⟩
  · exact ⟨trivial, [(event.change, id)], [], rfl, (List.append_nil _).symm, List.nil_sublist _,
      .refl _⟩

theorem grows_addClient (s : Server) (fd : ℤ) (stream : List UInt8) (closed ok : Bool) :
    Grows s (s.addClient fd stream closed ok) [s.nextId] ∧
      (s.addClient fd stream closed ok).nextId = s.nextId + 1 := by
  unfold addClient
  simp only
  split
  · exact ⟨.refl s _, rfl⟩
  · split_ifs
    · exact ⟨grows_queueControl s .clientConnected s.nextId, rfl⟩
    · exact ⟨.refl s _, rfl⟩

theorem grows_acceptClients (s : Server) (answers : List AcceptAnswer) :
    ∃ n, Grows s (s.acceptClients answers) (List.range' s.nextId n) := by
  induction answers generalizing s with
  | nil => exact ⟨0, .refl s _⟩
  | cons a answers ih =>
    cases a with
    | errno e =>
      rw [acceptClients]
      split_ifs
      · exact ih s
      · exact ⟨0, .refl s _⟩
    | connection fd stream closed ok =>
      rw [acceptClients]
      split_ifs
      · exact ih s
      · obtain ⟨hgrows, hnext⟩ := s.grows_addClient fd stream closed ok
        obtain ⟨n, hn⟩ := ih (s.addClient fd stream closed ok)
        refine ⟨n + 1, ?_⟩
        rw [hnext] at hn
        exact hgrows.trans hn

theorem grows_onClientDisconnected (s : Server) (id : ℕ) :
    Grows s (s.onClientDisconnected id) [id] := by
  rw [onClientDisconnected]
  split_ifs
  · exact s.grows_queueControl .clientDisconnected id
  · exact .refl s _

/-- In one step no two events are about the same id. -/
theorem grows_step (s : Server) (op : ServerOp) :
    ∃ ids : List ℕ, ids.Nodup ∧ Grows s (s.step bo op) ids := by
  cases op with
  | accept answers =>
    obtain ⟨n, hn⟩ := s.grows_acceptClients answers
    exact ⟨_, List.nodup_range', hn⟩
  | session id op =>
    refine ⟨[id], List.nodup_singleton id, ?_⟩
    show Grows s (s.sessionStep bo id op) [id]
    unfold sessionStep
    split
    · exact .refl s _
    · simp only
      split_ifs
      · exact .refl s _
      · exact s.grows_onClientDisconnected id
  | disconnected id => exact ⟨[id], List.nodup_singleton id, s.grows_onClientDisconnected id⟩
  | poll call => exact ⟨[], List.nodup_nil, .refl s _⟩
  | timeout => exact ⟨[], List.nodup_nil, .refl s _⟩

/-- The events that were reported add up to the session table. -/
theorem Inv.replay_reported (h : s.Inv bo) : replay s.reported = s.sessions.keys.toFinset := by
  ext id
  rw [h.orderly.mem_replay, ← h.present, List.mem_toFinset, AList.mem_keys]

/-- **Nothing is dropped exactly when the events add up all the time.** -/
theorem inStep_iff {maxClients : ℤ} {caps : BufferCaps} (h : start maxClients caps = .ok s)
    (ops : List ServerOp) : (∀ ops', ops' <+: ops → (s.run bo ops').InStep) ↔
      (s.run bo ops).events = (s.run bo ops).reported := by
  induction ops using List.reverseRecOn with
  | nil =>
    have hinv := @inv_run bo s _ _ h []
    have hnil : (s.run bo []).events = (s.run bo []).reported := by
      obtain ⟨d, -, rfl⟩ := eq_of_start h
      rfl
    refine iff_of_true (fun ops' hops' => ?_) hnil
    rw [List.prefix_nil.mp hops', InStep, hnil, hinv.replay_reported]
  | append_singleton ops op ih =>
    have hinv := @inv_run bo s _ _ h ops
    have hinv' := hinv.step op
    obtain ⟨ids, hnodup, -, new, kept, hr, he, hkept, hids⟩ := @grows_step bo (s.run bo ops) op
    simp only [List.prefix_concat_iff, run_concat]
    constructor
    · intro hall
      have hbefore := ih.mp fun ops' hops' => hall ops' (Or.inr hops')
      have hnow := hall _ (Or.inl rfl)
      rw [run_concat, InStep, ← hinv'.replay_reported, he, hr, hbefore] at hnow
      have horderly := hinv'.orderly
      rw [hr] at horderly
      have hwhole : kept = new := by
        by_contra hne
        exact horderly.replay_ne (hids.nodup hnodup) hkept hne hnow
      rw [he, hr, hbefore, hwhole]
    · intro hend
      have hkept' := hinv.logged.kept
      have hlen := congrArg List.length hend
      rw [he, hr, List.length_append, List.length_append] at hlen
      have hle := hkept.length_le
      have hle' := hkept'.length_le
      have hbefore := hkept'.eq_of_length (by omega)
      rintro ops' (rfl | hops')
      · rw [run_concat, InStep, hend, hinv'.replay_reported]
      · exact ih.mpr hbefore ops' hops'

theorem maxClients_run (s : Server) (ops : List ServerOp) :
    (s.run bo ops).maxClients = s.maxClients := by
  induction ops using List.reverseRecOn with
  | nil => rfl
  | append_singleton ops op ih =>
    obtain ⟨ids, -, hmax, -⟩ := @grows_step bo (s.run bo ops) op
    rw [run_concat]
    exact hmax.trans ih

/-- The batches that polls of `/daemon` returned, followed by what is queued there, are the messages
of the events. -/
def Delivered (s : Server) : Prop :=
  ∃ (outcomes : List (Option (List (List UInt8)))) (queued : List (List UInt8)),
    List.Forall₂ Sent.HandsOver s.daemon.object.port.sent outcomes ∧
      outcomes.reduceOption.flatten ++ queued = s.events.map reportOf ∧
      s.daemon.object.controlQueue.messages = queued.length ∧
      s.daemon.object.controlQueue.data.take s.daemon.object.controlQueue.completeLen =
        kOpen :: sealed queued

theorem Inv.delivered (h : s.Inv bo) : s.Delivered := by
  obtain ⟨d, ops, hd, hrun⟩ := h.logged.daemon
  obtain ⟨outcomes, queued, hall, hbatches, hmessages, hdata⟩ :=
    ((DaemonLink.inv_run hd ops).pollsServed (DaemonLink.capacity_run hd ops)).batches
  rw [← hrun] at hall hbatches hmessages hdata
  exact ⟨outcomes, queued, hall, hbatches.trans h.logged.accepted, hmessages, hdata⟩

end Server

/-- **The laws of the control events.** In every state of every run they are what polls of `/daemon`
returned, followed by what is queued; every id is connected at most once, in increasing order, and
disconnected at most once, after that; and the limit is kept. They add up to the session table all
the time exactly when none was dropped. -/
theorem control_events {maxClients : ℤ} {caps : BufferCaps} {s : Server}
    (h : Server.start maxClients caps = .ok s) (bo : ByteOrder) (ops : List ServerOp) :
    let r := s.run bo ops
    r.Delivered ∧
    (∀ id, (about id r.events).Sublist [.arrives, .leaves]) ∧
    ((arrivals r.events).Pairwise (· < ·) ∧ (arrivals r.events).Sublist r.issued ∧
      r.issued = List.range' 1 (r.nextId - 1) ∧ ∀ id ∈ r.sessions, id ∈ r.issued) ∧
    r.sessions.keys.length ≤ (if 0 < maxClients then maxClients.toNat else 64) ∧
    ((∀ ops', ops' <+: ops → (s.run bo ops').InStep) ↔ r.events = r.reported) := by
  intro r
  have hinv : r.Inv bo := Server.inv_run h ops
  have hlimit : r.maxClients = if 0 < maxClients then maxClients.toNat else 64 := by
    refine (s.maxClients_run ops).trans ?_
    obtain ⟨d, -, rfl⟩ := Server.eq_of_start h
    rfl
  have harrivals : (arrivals r.events).Sublist r.issued :=
    (arrivals_sublist hinv.logged.kept).trans hinv.connected
  refine ⟨hinv.delivered, fun id => ?_, ⟨?_, harrivals, hinv.issued.1, fun id hid => ?_⟩, ?_,
    Server.inStep_iff h ops⟩
  · exact (about_sublist hinv.logged.kept id).trans (hinv.orderly id).sublist
  · refine List.Pairwise.sublist harrivals ?_
    rw [hinv.issued.1]
    exact List.pairwise_lt_range'
  · refine hinv.connected.subset ((mem_arrivals id _).mpr ?_)
    rw [(hinv.present id).mp hid]
    exact List.mem_singleton_self _
  · exact hlimit ▸ hinv.limit

/-- One client within a limit of one, and one that is rejected. -/
theorem control_events_two : ∃ s, Server.start 1 ⟨0, 0, .inl rfl, .inl rfl⟩ = .ok s ∧
    let ops : List ServerOp := [.accept [.connection 3 [] true true, .connection 4 [] true true],
      .poll ⟨.ok 0, ⟨.ok 0, .ok ()⟩⟩, .disconnected 1]
    (s.run .little ops).sessions.keys.length ≤ 1 :=
  ⟨_, rfl, (control_events rfl .little _).2.2.2.1⟩

/-! ### Clients that come and go while nobody polls -/

namespace Server

/-- `n` clients come and go, one after the other, and nobody polls. -/
def comeAndGo (n : ℕ) : List ServerOp :=
  (List.range n).flatMap fun i => [.accept [.connection 3 [] true true], .disconnected (i + 1)]

/-- The server after `n` of these clients. -/
structure Gone (n : ℕ) (s : Server) : Prop where
  port : s.daemon.object.port = .init
  reported : s.reported.length = 2 * n
  nextId : s.nextId = n + 1
  sessions : s.sessions.keys = []
  limit : 0 < s.maxClients

/-- Where nobody polls, a control event is only queued. -/
theorem port_queueControl {s : Server} (halive : s.daemon.alive = true)
    (hport : s.daemon.object.port = .init) (event : ControlEvent) (id : ℕ) :
    (s.queueControl event id).daemon.object.port = .init := by
  simp only [queueControl, DaemonLink.step, halive, not_true_eq_false, if_false,
    DaemonObject.enqueueControl]
  split
  · exact hport
  · simp only [maybeReplyPendingPoll, hport, DaemonObject.answered]
    rfl

theorem Gone.round {bo : ByteOrder} {n : ℕ} {s : Server} (h : s.Inv bo) (hgone : s.Gone n) :
    (s.run bo [.accept [.connection 3 [] true true], .disconnected (n + 1)]).Gone (n + 1) := by
  obtain ⟨session, hmake⟩ := s.caps.exists_session s.nextId 3
  let t : Server := { s with
    nextId := s.nextId + 1, issued := s.issued ++ [s.nextId]
    sessions := s.sessions.insert s.nextId (.init session [] true) }
  have hroom : ¬ s.maxClients ≤ s.sessions.keys.length := by
    rw [hgone.sessions, List.length_nil]
    exact not_le.mpr hgone.limit
  have hadd : s.acceptClients [.connection 3 [] true true] =
      t.queueControl .clientConnected s.nextId := by
    rw [acceptClients, if_neg hroom, acceptClients]
    simp only [addClient, hmake, if_true, t]
  have hinv := h.acceptClients [.connection 3 [] true true]
  rw [hadd] at hinv
  have hkeys : (t.queueControl .clientConnected s.nextId).sessions.keys = [n + 1] := by
    show (s.sessions.insert s.nextId (.init session [] true)).keys = [n + 1]
    rw [AList.keys_insert, hgone.sessions, hgone.nextId]
    rfl
  have hmem : n + 1 ∈ (t.queueControl .clientConnected s.nextId).sessions := by
    rw [AList.mem_keys, hkeys]
    exact List.mem_singleton_self _
  have hport := @port_queueControl t h.logged.alive hgone.port .clientConnected s.nextId
  have hport' := port_queueControl hinv.logged.alive hport .clientDisconnected (n + 1)
  show ((s.acceptClients [.connection 3 [] true true]).onClientDisconnected (n + 1)).Gone (n + 1)
  rw [hadd, onClientDisconnected, if_pos hmem]
  refine ⟨hport', ?_, ?_, ?_, hgone.limit⟩
  · simp only [queueControl, t, List.length_append, hgone.reported, List.length_singleton]
    omega
  · exact congrArg (· + 1) hgone.nextId
  · show ((t.queueControl .clientConnected s.nextId).sessions.erase (n + 1)).keys = []
    rw [AList.keys_erase, hkeys]
    exact List.erase_cons_head (n + 1) []

theorem gone_comeAndGo {bo : ByteOrder} {maxClients : ℤ} {caps : BufferCaps} {s : Server}
    (h : start maxClients caps = .ok s) (n : ℕ) : (s.run bo (comeAndGo n)).Gone n := by
  induction n with
  | zero =>
    obtain ⟨d, hd, rfl⟩ := eq_of_start h
    obtain ⟨q, -, rfl⟩ := DaemonObject.eq_of_make hd
    refine ⟨rfl, rfl, rfl, rfl, ?_⟩
    show 0 < if 0 < maxClients then maxClients.toNat else 64
    split_ifs <;> omega
  | succ n ih =>
    have hrun : s.run bo (comeAndGo (n + 1)) = (s.run bo (comeAndGo n)).run bo
        [.accept [.connection 3 [] true true], .disconnected (n + 1)] := by
      rw [comeAndGo, List.range_succ, List.flatMap_append, List.flatMap_singleton, run,
        List.foldl_append]
      rfl
    rw [hrun]
    exact ih.round (inv_run h _)

/-- The control queue has room for fewer events than its size in bytes. -/
theorem Gone.events_ne {bo : ByteOrder} {n : ℕ} {s : Server} (h : s.Inv bo) (hgone : s.Gone n)
    (hn : kControlQueueCap ≤ 2 * n) : s.events ≠ s.reported := by
  intro heq
  obtain ⟨d, ops, hd, hrun⟩ := h.logged.daemon
  obtain ⟨m, hserves, -⟩ := DaemonLink.inv_run hd ops
  have hcapacity := DaemonLink.capacity_run hd ops
  rw [← hrun] at hserves hcapacity
  have hlt := hserves.holds.messages_lt_capacity
  obtain ⟨outcomes, queued, hall, hevents, hmessages, -⟩ := h.delivered
  rw [hgone.port] at hall
  cases hall
  have hlen := congrArg List.length hevents
  rw [List.length_append, List.length_map, heq, hgone.reported, ← hmessages] at hlen
  rw [hcapacity] at hlt
  have hzero : (List.reduceOption ([] : List (Option (List (List UInt8))))).flatten.length = 0 :=
    rfl
  omega

end Server

/-- **Control events are dropped**: 65536 clients come and go while nobody polls `/daemon`, and on
the way the events do not add up to the session table. -/
theorem events_do_not_add_up : ∃ s, Server.start 64 ⟨0, 0, .inl rfl, .inl rfl⟩ = .ok s ∧
    ¬ ∀ ops', ops' <+: Server.comeAndGo 65536 → (s.run .little ops').InStep := by
  refine ⟨_, rfl, fun hall => ?_⟩
  have hgone := @Server.gone_comeAndGo .little 64 ⟨0, 0, .inl rfl, .inl rfl⟩ _ rfl 65536
  refine hgone.events_ne (Server.inv_run rfl _) (by decide) ?_
  exact (Server.inStep_iff rfl _).mp hall

end KwinApi
