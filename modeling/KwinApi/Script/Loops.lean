import KwinApi.Script.WindowWatch

/-!
# The poll loops of the clients

Every client has a poll loop that dispatches what the client sent, one message after the other,
while the control loop, the windows and the timers go on. A loop asks whether its client is still
connected before and after each poll, but not between the messages of a batch.

## Main definitions

* `KwinApi.LoopState`, `KwinApi.Loops` — the loops and the script
* `LoopEvent`, `Loops.step`, `Loops.run` — every interleaving at the await points
* `Script.Cleared` — nothing of a client is left
* `Loops.HarmlessRun` — no request that registers something is dispatched for a client that is gone

## Main results

* `Loops.cleared_iff_harmless` — nothing of a disconnected client survives or comes back in exactly
  these runs
* `Loops.comes_back` — a token issued to a client that is gone
-/

namespace KwinApi

/-- Where the poll loop of a client is. -/
inductive LoopState where
  /-- It awaits the reply to a poll. -/
  | polling
  /-- It dispatches a batch: the requests that are left, message by message. -/
  | batch (rest : List Request)
  /-- It awaits the end of a sleep. -/
  | sleeping
  /-- It has ended, or never ran. -/
  | stopped

/-- The script with the poll loops of its connections. -/
structure Loops where
  script : Script
  /-- `ClientConnection.run`, by connection. -/
  loops : RpcConnection → LoopState
  /-- The ids the daemon has reported. -/
  seen : List ℕ
  /-- The ids for which `onClientDisconnected` has run. -/
  gone : List ℕ

/-- The events of KWin: windows, timers and signals. -/
def Event.isKWin : Event → Bool
  | .clientConnected _ | .clientDisconnected _ | .request _ _ => false
  | _ => true

/-- What can happen between two await points. -/
inductive LoopEvent where
  /-- The control loop handles an event of the daemon. -/
  | clientConnected (id : ℕ)
  | clientDisconnected (id : ℕ)
  /-- A poll returns a batch: the requests of its messages, in order. -/
  | polled (conn : RpcConnection) (batch : List Request)
  /-- A poll is rejected, or returns something else. -/
  | pollFailed (conn : RpcConnection)
  /-- The loop goes on with its batch. -/
  | dispatched (conn : RpcConnection)
  /-- The sleep of the loop ends. -/
  | slept (conn : RpcConnection)
  | kwin (e : Event) (he : e.isKWin = true)

namespace Loops

/-- The script is loaded. -/
def start (windows : List Window) (data : Window → WindowData) (workspace : WorkspaceData) :
    Loops where
  script := .load windows data workspace
  loops := fun _ => .stopped
  seen := []
  gone := []

/-- The loop of a connection goes on in another state. -/
def goto (m : Loops) (conn : RpcConnection) (state : LoopState) : Loops :=
  { m with loops := Function.update m.loops conn state }

/-- One event. -/
def step (m : Loops) : LoopEvent → Loops
  | .clientConnected id =>
    -- The daemon reports a new client under a new id.
    if id ∈ m.seen then m
    else
      { m with
        script := m.script.step (.clientConnected id)
        loops := Function.update m.loops ⟨m.script.created.length, id⟩ .polling
        seen := id :: m.seen }
  | .clientDisconnected id =>
    { m with
      script := m.script.step (.clientDisconnected id)
      seen := id :: m.seen
      gone := id :: m.gone }
  | .polled conn batch =>
    match m.loops conn with
    | .polling => m.goto conn (if m.script.alive conn.ref then .batch batch else .stopped)
    | _ => m
  | .pollFailed conn =>
    match m.loops conn with
    | .polling => m.goto conn (if m.script.alive conn.ref then .sleeping else .stopped)
    | _ => m
  | .dispatched conn =>
    match m.loops conn with
    | .batch [] => m.goto conn .sleeping
    | .batch (req :: rest) =>
      ({ m with script := m.script.step (.request conn req) }).goto conn (.batch rest)
    | _ => m
  | .slept conn =>
    match m.loops conn with
    | .sleeping => m.goto conn (if m.script.alive conn.ref then .polling else .stopped)
    | _ => m
  | .kwin e _ => { m with script := m.script.step e }

/-- A run of events. -/
def run (m : Loops) (es : List LoopEvent) : Loops := es.foldl step m

end Loops

namespace Script

variable {s s' : Script}

/-- Nothing of a client is left. -/
structure Cleared (s : Script) (id : ℕ) : Prop where
  /-- No registered token is owned by the client. -/
  byToken : ∀ t r, s.tokens.byToken.lookup t = some r → (s.tokens.entries r).conn.id ≠ id
  /-- No window is bound to a token of the client. -/
  byWindow : ∀ k r, s.tokens.byWindow.lookup k = some r → (s.tokens.entries r).conn.id ≠ id
  /-- Every watched token is owned by another client. -/
  watches : ∀ t st, s.watches.watches.lookup t = some st →
    ∃ r, s.tokens.byToken.lookup t = some r ∧ (s.tokens.entries r).conn.id ≠ id
  /-- The client watches nothing of the workspace. -/
  workspaceWatches : s.workspaceWatches.watches.lookup id = none
  /-- No slot of a window notifies the client. -/
  windowSlots : ∀ slot ∈ s.watches.slots, slot.handler.conn.id ≠ id
  /-- No slot of the workspace notifies the client. -/
  workspaceSlots : ∀ slot ∈ s.workspaceWatches.slots, slot.handler.conn.id ≠ id

/-- A request that registers something for its client: a `token.request` that draws a token, or a
`workspace.watch` that starts watching. -/
def Registers (s : Script) : Request → Prop
  | .tokenRequest timeout draws => 1 ≤ timeout ∧ timeout ≤ maxValidateTimeoutMs ∧
      (generateToken s.tokens.byToken draws).isSome
  | .windowWatch _ _ => False
  | .workspaceWatch watchInfo => (∀ e ∈ watchInfo.entries, e.1 ∈ workspaceWatchProps) ∧
      ∃ e ∈ watchInfo.entries, e.2 = true
  | .other => False

/-! ### The workspace watches -/

/-- The workspace watches belong to the clients they are filed under. -/
structure WorkspaceFollows (s : Script) : Prop where
  consistent : s.workspaceWatches.Consistent
  /-- A handler notifies the client it is filed under. -/
  owner : ∀ k p handler, s.workspaceWatches.Stored k p handler →
    handler.conn.id = k ∧ handler.conn ∈ s.created

/-- Requests and disconnects change the workspace watches, and nothing else does. -/
theorem workspaceWatches_checkCaption (s : Script) (w : Window) :
    (s.checkCaption w).workspaceWatches = s.workspaceWatches := by
  simp only [checkCaption, validate, supersede]
  split_ifs
  · rfl
  · split
    · rfl
    · split_ifs
      · split
        · split
          · split_ifs <;> rfl
          · rfl
        · split_ifs <;> rfl
      · rfl

theorem workspaceWatches_step (s : Script) {e : Event} (he : e.isKWin = true) :
    (s.step e).workspaceWatches = s.workspaceWatches := by
  cases e with
  | clientConnected id | clientDisconnected id | request conn req => simp [Event.isKWin] at he
  | windowAdded window data =>
    simp only [step]
    split_ifs
    · rfl
    · exact workspaceWatches_checkCaption ..
  | captionChanged window caption =>
    simp only [step]
    split_ifs
    · exact workspaceWatches_checkCaption ..
    · rfl
  | windowRemoved window =>
    simp only [step, onWindowRemoved]
    split_ifs
    · split <;> rfl
    · rfl
  | deadline r =>
    simp only [step, onTokenDeadline]
    split_ifs
    · split <;> rfl
    · rfl
  | windowPropChanged window prop data => simp only [step, foldl_onWindowChanged]
  | workspacePropChanged prop data => simp only [step, foldl_onWorkspaceChanged]

/-- A disconnect drops the watches of the client. -/
theorem workspaceWatches_disconnect (s : Script) (id : ℕ) :
    (s.onClientDisconnected id).workspaceWatches =
      if (s.connections.lookup id).isSome then s.workspaceWatches.drop id
      else s.workspaceWatches := by
  rw [onClientDisconnected]
  cases s.connections.lookup id with
  | none => rfl
  | some conn => rfl

/-- Only the caller's watches are changed by a request. -/
theorem workspaceWatches_request (s : Script) (conn : RpcConnection) (req : Request) :
    (s.step (.request conn req)).workspaceWatches = s.workspaceWatches ∨
    ∃ info : AList fun _ : JsString => Bool, conn ∈ s.created ∧ req = .workspaceWatch info ∧
      (∀ e ∈ info.entries, e.1 ∈ workspaceWatchProps) ∧
      (s.step (.request conn req)).workspaceWatches =
        (WatchTable.setAll conn.id conn () s.workspaceWatches info.entries).1 := by
  simp only [step]
  split_ifs with hcr
  · cases req with
    | tokenRequest timeout draws =>
      left
      rw [dispatch, tokenRequest]
      split_ifs
      · cases generateToken s.tokens.byToken draws <;> rfl
      · rfl
    | windowWatch token info =>
      left
      rw [dispatch, windowWatch]
      split
      · rfl
      · split <;> rfl
    | workspaceWatch info =>
      rw [dispatch, workspaceWatch]
      split
      · exact Or.inl rfl
      · rename_i hprops
        refine Or.inr ⟨info, hcr, rfl, fun e he => ?_, rfl⟩
        simpa using List.find?_eq_none.mp hprops e he
    | other => exact Or.inl rfl
  · exact Or.inl rfl

theorem WorkspaceFollows.of_eq (hf : s.WorkspaceFollows)
    (hwatches : s'.workspaceWatches = s.workspaceWatches)
    (hcreated : ∀ c ∈ s.created, c ∈ s'.created) : s'.WorkspaceFollows := by
  refine ⟨hwatches ▸ hf.consistent, fun k p handler hh => ?_⟩
  rw [hwatches] at hh
  obtain ⟨hk, hcr⟩ := hf.owner k p handler hh
  exact ⟨hk, hcreated _ hcr⟩

/-- Whatever is filed under a key is about the one workspace. -/
theorem WorkspaceFollows.set (hf : s.WorkspaceFollows) {conn : RpcConnection}
    (hcr : conn ∈ s.created) (hcreated : ∀ c ∈ s.created, c ∈ s'.created)
    (info : List (Sigma fun _ : JsString => Bool))
    (hwatches : s'.workspaceWatches =
      (WatchTable.setAll conn.id conn () s.workspaceWatches info).1) : s'.WorkspaceFollows := by
  have hset := @WatchTable.setAll_induction _ _ _ _ _ _ s.workspaceWatches conn.id conn () _ _
    (fun W => W.Consistent ∧ ∀ k p handler, W.Stored k p handler →
      handler.conn.id = k ∧ handler.conn ∈ s.created) info
    (fun W e _ ⟨hcons, howner⟩ => ?_) ⟨hf.consistent, hf.owner⟩
  · rw [← hwatches] at hset
    refine ⟨hset.1, fun k p handler hh => ?_⟩
    obtain ⟨hk, hmem⟩ := hset.2 k p handler hh
    exact ⟨hk, hcreated _ hmem⟩
  · refine ⟨hcons.set (fun _ _ => rfl) e.2, fun k p handler hh => ?_⟩
    rcases hh.of_set with hh | ⟨hk, -, hconn⟩
    · exact howner k p handler hh
    · rw [hconn, hk]
      exact ⟨rfl, hcr⟩

theorem created_step (s : Script) (e : Event) : ∀ c ∈ s.created, c ∈ (s.step e).created := by
  intro c hc
  by_cases hconn : ∃ id, e = .clientConnected id
  · obtain ⟨id, rfl⟩ := hconn
    simp only [step, onClientConnected]
    split_ifs
    · exact hc
    · exact List.mem_append_left _ hc
  · by_cases hdisc : ∃ id, e = .clientDisconnected id
    · obtain ⟨id, rfl⟩ := hdisc
      simp only [step, onClientDisconnected]
      cases s.connections.lookup id with
      | none => exact hc
      | some conn => exact hc
    · rw [(sameConns_step s (fun id he => hconn ⟨id, he⟩) fun id he => hdisc ⟨id, he⟩).created]
      exact hc

theorem WorkspaceFollows.step (hf : s.WorkspaceFollows) (e : Event) :
    (s.step e).WorkspaceFollows := by
  have hcreated := created_step s e
  cases e with
  | clientConnected id =>
    refine hf.of_eq ?_ hcreated
    simp only [Script.step, onClientConnected]
    split_ifs <;> rfl
  | clientDisconnected id =>
    have hwatches := workspaceWatches_disconnect s id
    split_ifs at hwatches
    · refine ⟨?_, fun k p handler hh => ?_⟩
      · simp only [Script.step]
        rw [hwatches]
        exact hf.consistent.drop id
      · simp only [Script.step] at hh
        rw [hwatches, WatchTable.stored_drop] at hh
        obtain ⟨hk, hcr⟩ := hf.owner k p handler hh.2
        exact ⟨hk, hcreated _ hcr⟩
    · exact hf.of_eq hwatches hcreated
  | request conn req =>
    rcases workspaceWatches_request s conn req with hwatches | ⟨info, hcr, -, -, hwatches⟩
    · exact hf.of_eq hwatches hcreated
    · exact hf.set hcr hcreated info.entries hwatches
  | _ => exact hf.of_eq (workspaceWatches_step s rfl) hcreated

/-! ### What is registered for whom -/

/-- No registered token and no workspace watch of the client is left. -/
structure Free (s : Script) (id : ℕ) : Prop where
  tokens : ∀ r, s.tokens.Registered r → (s.tokens.entries r).conn.id ≠ id
  workspaceWatches : s.workspaceWatches.watches.lookup id = none

/-- Then nothing of the client is left. -/
theorem cleared_iff_free (h : s.WellFormed) (hf : s.Follows) (hw : s.WorkspaceFollows) {id : ℕ} :
    s.Cleared id ↔ s.Free id := by
  constructor
  · intro hc
    exact ⟨fun r hr => hc.byToken _ r hr, hc.workspaceWatches⟩
  · intro hfree
    refine ⟨fun t r hr => hfree.tokens r (h.registered hr), fun k r hr => ?_, fun t st hst => ?_,
      hfree.workspaceWatches, fun slot hslot => ?_, fun slot hslot hid => ?_⟩
    · exact hfree.tokens r ((h.byWindow_iff k r).mp hr).1
    · obtain ⟨r, hr, rfl, -⟩ := hf.bound t st hst
      exact ⟨r, hr, hfree.tokens r hr⟩
    · obtain ⟨hstored, -⟩ := (hf.consistent.slots_iff slot).mp hslot
      obtain ⟨st, hst, hh⟩ := hstored
      obtain ⟨r, hr, ht, -⟩ := hf.bound _ st hst
      rw [hf.owner r slot.handler.prop slot.handler hr ⟨st, ht ▸ hst, hh⟩]
      exact hfree.tokens r hr
    · obtain ⟨hstored, -⟩ := (hw.consistent.slots_iff slot).mp hslot
      obtain ⟨hkey, -⟩ := hw.owner _ _ _ hstored
      obtain ⟨st, hst, -⟩ := hstored
      rw [← hkey, hid, hfree.workspaceWatches] at hst
      contradiction

/-- A request that registers something leaves something of its client. -/
theorem not_free_of_registers {conn : RpcConnection} {req : Request} (hcr : conn ∈ s.created)
    (hreq : s.Registers req) : ¬ (s.step (.request conn req)).Free conn.id := by
  intro hfree
  cases req with
  | tokenRequest timeout draws =>
    obtain ⟨hmin, hmax, hsome⟩ := hreq
    obtain ⟨t, ht⟩ := Option.isSome_iff_exists.mp hsome
    have hstep : (s.step (.request conn (.tokenRequest timeout draws))).tokens =
        s.tokens.register ⟨t, conn, .pending, none, ⟨true, coarseTimer, timeout, true⟩⟩ := by
      simp only [step, if_pos hcr, dispatch, tokenRequest, if_pos (And.intro hmin hmax), ht]
      rfl
    refine hfree.tokens s.tokens.nextEntry ?_ ?_
    · rw [hstep]
      exact TokenTable.registered_register_self ..
    · rw [hstep, TokenTable.entries_register_self]
  | windowWatch token info => exact hreq
  | workspaceWatch info =>
    obtain ⟨hprops, e, he, htrue⟩ := hreq
    have hfind : info.entries.find? (fun e => e.1 ∉ workspaceWatchProps) = none := by
      rw [List.find?_eq_none]
      intro e he
      simpa using hprops e he
    have hstep : (s.step (.request conn (.workspaceWatch info))).workspaceWatches =
        (WatchTable.setAll conn.id conn () s.workspaceWatches info.entries).1 := by
      simp only [step, if_pos hcr, dispatch, workspaceWatch, hfind]
      rfl
    obtain ⟨p, enable⟩ := e
    obtain rfl : enable = true := htrue
    have hwatch : (WatchTable.setAll conn.id conn () s.workspaceWatches info.entries).1.Watches
        conn.id p := (WatchTable.watches_setAll info.entries info.nodupKeys p).mpr (Or.inl he)
    obtain ⟨handler, st, hst, -⟩ := hwatch
    have hnone := hfree.workspaceWatches
    rw [hstep, hst] at hnone
    contradiction
  | other => exact hreq

end Script

namespace Loops

variable {m : Loops}

/-- A step that dispatches no such request for a client that is gone. -/
def Harmless (m : Loops) : LoopEvent → Prop
  | .dispatched conn => ∀ req rest, m.loops conn = .batch (req :: rest) →
      m.script.alive conn.ref = false → ¬ m.script.Registers req
  | _ => True

/-- Every step of the run is harmless. -/
def HarmlessRun : Loops → List LoopEvent → Prop
  | _, [] => True
  | m, e :: es => m.Harmless e ∧ (m.step e).HarmlessRun es

/-- What holds of the loops whatever is dispatched. -/
structure Inv (m : Loops) : Prop where
  wellFormed : m.script.WellFormed
  connected : m.script.Connected
  follows : m.script.Follows
  workspaceFollows : m.script.WorkspaceFollows
  /-- Only clients that were reported disconnect. -/
  gone_seen : ∀ id ∈ m.gone, id ∈ m.seen
  /-- Only clients that were reported have connections. -/
  created_seen : ∀ c ∈ m.script.created, c.id ∈ m.seen
  /-- A connection is stopped exactly when its client is gone. -/
  stopped_iff : ∀ c ∈ m.script.created, m.script.alive c.ref = false ↔ c.id ∈ m.gone
  /-- Only loops of connections run. -/
  running : ∀ conn, m.loops conn ≠ .stopped → conn ∈ m.script.created

/-- Nothing of a client that is gone is left. -/
def Clean (m : Loops) : Prop := ∀ id ∈ m.gone, m.script.Free id

/-! ### The script under the loops -/

/-- What a step does to the script. -/
def event (m : Loops) : LoopEvent → Option Event
  | .clientConnected id => if id ∈ m.seen then none else some (.clientConnected id)
  | .clientDisconnected id => some (.clientDisconnected id)
  | .dispatched conn =>
    match m.loops conn with
    | .batch (req :: _) => some (.request conn req)
    | _ => none
  | .kwin e _ => some e
  | _ => none

theorem script_step (m : Loops) (e : LoopEvent) :
    (m.step e).script = ((m.event e).map m.script.step).getD m.script := by
  cases e with
  | clientConnected id =>
    simp only [step, event]
    split_ifs <;> rfl
  | clientDisconnected id | kwin e he => rfl
  | polled conn batch | pollFailed conn | slept conn =>
    simp only [step, event]
    split <;> rfl
  | dispatched conn =>
    simp only [step, event]
    cases hloop : m.loops conn with
    | batch rest => cases rest <;> rfl
    | _ => rfl

theorem gone_step (m : Loops) {e : LoopEvent} (he : ∀ id, e ≠ .clientDisconnected id) :
    (m.step e).gone = m.gone := by
  cases e with
  | clientConnected id =>
    simp only [step]
    split_ifs <;> rfl
  | clientDisconnected id => exact absurd rfl (he id)
  | kwin e he => rfl
  | polled conn batch | pollFailed conn | slept conn | dispatched conn =>
    simp only [step]
    split <;> rfl

/-- What holds of the script holds after a step if the events of the step keep it. -/
theorem script_induction {P : Script → Prop} (hstep : ∀ e, P (m.script.step e)) (h : P m.script)
    (e : LoopEvent) : P (m.step e).script := by
  rw [script_step]
  cases m.event e with
  | none => exact h
  | some e' => exact hstep e'

/-- Only connections get a running loop. -/
theorem loops_step (m : Loops) (e : LoopEvent) {conn : RpcConnection}
    (hrun : (m.step e).loops conn ≠ .stopped) :
    m.loops conn ≠ .stopped ∨ (e = .clientConnected conn.id ∧ conn.id ∉ m.seen ∧
      conn = ⟨m.script.created.length, conn.id⟩) := by
  have hgoto : ∀ {m' : Loops} {c : RpcConnection} {state : LoopState}, m'.loops = m.loops →
      m.loops c ≠ .stopped → (m'.goto c state).loops conn ≠ .stopped → m.loops conn ≠ .stopped := by
    intro m' c state hm hc hconn
    by_cases hcc : conn = c
    · rwa [hcc]
    · rw [goto, hm] at hconn
      simpa only [Function.update_of_ne hcc] using hconn
  cases e with
  | clientConnected id =>
    simp only [step] at hrun
    split_ifs at hrun with hid
    · exact Or.inl hrun
    · by_cases hconn : conn = ⟨m.script.created.length, id⟩
      · subst hconn
        exact Or.inr ⟨rfl, hid, rfl⟩
      · exact Or.inl (by simpa only [Function.update_of_ne hconn] using hrun)
  | clientDisconnected id | kwin e he => exact Or.inl hrun
  | polled c batch | pollFailed c | slept c =>
    left
    simp only [step] at hrun
    cases hloop : m.loops c with
    | stopped => simpa only [hloop] using hrun
    | _ =>
      simp only [hloop] at hrun
      first
        | exact hrun
        | exact hgoto rfl (by simp [hloop]) hrun
  | dispatched c =>
    left
    simp only [step] at hrun
    cases hloop : m.loops c with
    | batch rest =>
      cases rest with
      | nil =>
        simp only [hloop] at hrun
        exact hgoto rfl (by simp [hloop]) hrun
      | cons req rest =>
        simp only [hloop] at hrun
        exact hgoto rfl (by simp [hloop]) hrun
    | _ => simpa only [hloop] using hrun

/-! ### The invariant -/

theorem inv_start (windows : List Window) (data : Window → WindowData)
    (workspace : WorkspaceData) : (start windows data workspace).Inv where
  wellFormed := Script.wellFormed_load windows data workspace
  connected := Script.connected_load windows data workspace
  follows := Script.follows_run windows data workspace []
  workspaceFollows := ⟨WatchTable.consistent_empty, nofun⟩
  gone_seen := nofun
  created_seen := nofun
  stopped_iff := nofun
  running := fun _ h => absurd rfl h

/-- Nobody connects or disconnects. -/
theorem sameConns_step (m : Loops) {e : LoopEvent} (hconn : ∀ id, e ≠ .clientConnected id)
    (hdisc : ∀ id, e ≠ .clientDisconnected id) :
    Script.SameConns m.script (m.step e).script ∧ (m.step e).seen = m.seen ∧
      (m.step e).gone = m.gone := by
  have hsame : ∀ conn req, Script.SameConns m.script (m.script.step (.request conn req)) :=
    fun conn req => Script.sameConns_step _ nofun nofun
  have hrefl : Script.SameConns m.script m.script := ⟨rfl, rfl, rfl⟩
  cases e with
  | clientConnected id => exact absurd rfl (hconn id)
  | clientDisconnected id => exact absurd rfl (hdisc id)
  | kwin e he =>
    refine ⟨Script.sameConns_step _ ?_ ?_, rfl, rfl⟩
    · rintro id rfl
      contradiction
    · rintro id rfl
      contradiction
  | polled c batch | pollFailed c | slept c =>
    simp only [step]
    split
    · exact ⟨hrefl, rfl, rfl⟩
    · exact ⟨hrefl, rfl, rfl⟩
  | dispatched c =>
    simp only [step]
    split
    · exact ⟨hrefl, rfl, rfl⟩
    · exact ⟨hsame _ _, rfl, rfl⟩
    · exact ⟨hrefl, rfl, rfl⟩

/-- A connection is stopped exactly when its client is gone. -/
theorem Inv.stopped_step (hm : m.Inv) (e : LoopEvent) : ∀ c ∈ (m.step e).script.created,
    (m.step e).script.alive c.ref = false ↔ c.id ∈ (m.step e).gone := by
  by_cases hconn : ∃ id, e = .clientConnected id
  · obtain ⟨id, rfl⟩ := hconn
    simp only [step]
    split_ifs with hid
    · exact hm.stopped_iff
    · intro c hc
      simp only [Script.step, Script.onClientConnected] at hc ⊢
      split_ifs at hc ⊢ with hsome
      · exact hm.stopped_iff c hc
      · rcases List.mem_append.mp hc with hc | hc
        · simp only [Function.update_of_ne (Nat.ne_of_lt (hm.connected.ref_lt c hc))]
          exact hm.stopped_iff c hc
        · obtain rfl := List.mem_singleton.mp hc
          simp only [Function.update_self, Bool.true_eq_false, false_iff]
          exact fun hgone => hid (hm.gone_seen id hgone)
  · by_cases hdisc : ∃ id, e = .clientDisconnected id
    · obtain ⟨id, rfl⟩ := hdisc
      intro c hc
      simp only [step, Script.step, Script.onClientDisconnected, List.mem_cons] at hc ⊢
      cases hid : m.script.connections.lookup id with
      | none =>
        simp only [hid] at hc ⊢
        rw [hm.stopped_iff c hc, iff_or_self]
        rintro rfl
        rw [← hm.stopped_iff c hc, ← Bool.not_eq_true, hm.connected.alive_iff c hc, hid]
        simp
      | some conn =>
        simp only [hid] at hc ⊢
        obtain ⟨hcr, rfl⟩ := hm.connected.known id conn hid
        change Function.update m.script.alive conn.ref false c.ref = false ↔ _
        by_cases href : c.ref = conn.ref
        · obtain rfl := hm.connected.unique c hc conn hcr href
          simp
        · rw [Function.update_of_ne href, hm.stopped_iff c hc, iff_or_self]
          intro hcid
          rw [← hm.stopped_iff c hc, ← Bool.not_eq_true, hm.connected.alive_iff c hc, hcid, hid]
          exact fun heq => href (congrArg _ (Option.some.inj heq).symm)
    · obtain ⟨hsame, -, hgone⟩ :=
        sameConns_step m (fun id he => hconn ⟨id, he⟩) fun id he => hdisc ⟨id, he⟩
      rw [hsame.created, hsame.alive, hgone]
      exact hm.stopped_iff

theorem Inv.step (hm : m.Inv) (e : LoopEvent) : (m.step e).Inv where
  wellFormed := script_induction (fun e => hm.wellFormed.step e) hm.wellFormed e
  connected := script_induction (fun e => hm.connected.step hm.wellFormed e) hm.connected e
  follows := script_induction
    (fun e => (Script.step_transition hm.wellFormed e).follows hm.wellFormed hm.follows)
    hm.follows e
  workspaceFollows :=
    script_induction (fun e => hm.workspaceFollows.step e) hm.workspaceFollows e
  gone_seen := by
    by_cases hdisc : ∃ id, e = .clientDisconnected id
    · obtain ⟨id, rfl⟩ := hdisc
      intro k hk
      rcases List.mem_cons.mp hk with rfl | hk
      · exact List.mem_cons_self
      · exact List.mem_cons_of_mem _ (hm.gone_seen k hk)
    · rw [gone_step m fun id he => hdisc ⟨id, he⟩]
      intro k hk
      have hseen := hm.gone_seen k hk
      by_cases hconn : ∃ id, e = .clientConnected id
      · obtain ⟨id, rfl⟩ := hconn
        simp only [Loops.step]
        split_ifs
        · exact hseen
        · exact List.mem_cons_of_mem _ hseen
      · rwa [(sameConns_step m (fun id he => hconn ⟨id, he⟩) fun id he => hdisc ⟨id, he⟩).2.1]
  created_seen := by
    by_cases hconn : ∃ id, e = .clientConnected id
    · obtain ⟨id, rfl⟩ := hconn
      intro c hc
      simp only [Loops.step] at hc ⊢
      split_ifs at hc ⊢
      · exact hm.created_seen c hc
      · simp only [Script.step, Script.onClientConnected] at hc
        split_ifs at hc
        · exact List.mem_cons_of_mem _ (hm.created_seen c hc)
        · rcases List.mem_append.mp hc with hc | hc
          · exact List.mem_cons_of_mem _ (hm.created_seen c hc)
          · rw [List.mem_singleton.mp hc]
            exact List.mem_cons_self
    · by_cases hdisc : ∃ id, e = .clientDisconnected id
      · obtain ⟨id, rfl⟩ := hdisc
        intro c hc
        refine List.mem_cons_of_mem _ (hm.created_seen c ?_)
        simp only [Loops.step, Script.step, Script.onClientDisconnected] at hc
        split at hc
        · exact hc
        · exact hc
      · obtain ⟨hsame, hseen, -⟩ :=
          sameConns_step m (fun id he => hconn ⟨id, he⟩) fun id he => hdisc ⟨id, he⟩
        rw [hsame.created, hseen]
        exact hm.created_seen
  stopped_iff := hm.stopped_step e
  running := by
    intro conn hrun
    rcases loops_step m e hrun with hrun | ⟨rfl, hid, hconn⟩
    · have hcr := hm.running conn hrun
      rw [script_step]
      cases m.event e with
      | none => exact hcr
      | some e' => exact Script.created_step _ e' conn hcr
    · simp only [Loops.step, if_neg hid, Script.step, Script.onClientConnected]
      split_ifs with hsome
      · obtain ⟨c, hc⟩ := Option.isSome_iff_exists.mp hsome
        obtain ⟨hcr, hcid⟩ := hm.connected.known _ c hc
        exact absurd (hcid ▸ hm.created_seen c hcr) hid
      · exact List.mem_append_right _ (List.mem_singleton.mpr hconn)

/-! ### Clients that are gone -/

/-- The owner of a registered token is not gone after a step, unless the step issued the token to
it. -/
theorem Clean.owner_step (hc : m.Clean) (hm : m.Inv) (e : Event) {q : ℕ}
    (hq : (m.script.step e).tokens.Registered q) {id : ℕ}
    (hid : id ∈ m.gone ∨ e = .clientDisconnected id)
    (howner : ((m.script.step e).tokens.entries q).conn.id = id) :
    ∃ conn req, e = .request conn req ∧ conn ∈ m.script.created ∧ conn.id = id ∧
      m.script.Registers req := by
  have ht := Script.step_transition hm.wellFormed e
  rcases ht.registered_cases hm.wellFormed hq with ⟨hreg, hdrop⟩ | ⟨-, t, hact⟩
  · have hlt := hm.wellFormed.lt_next _ q hreg
    rw [((ht.entry_eq hm.wellFormed).2 q hlt).2] at howner
    have hcr := hm.connected.owner q hlt
    exfalso
    rcases hid with hid | rfl
    · exact (hc id hid).tokens q hreg howner
    · -- A client that is not connected is gone, and a connected one loses its tokens.
      simp only [Script.act] at hdrop
      cases hlook : m.script.connections.lookup id with
      | some c =>
        rw [hlook, howner] at hdrop
        exact hdrop rfl
      | none =>
        have hdead : m.script.alive (m.script.tokens.entries q).conn.ref = false := by
          rw [← Bool.not_eq_true, hm.connected.alive_iff _ hcr, howner, hlook]
          simp
        have hgone := (hm.stopped_iff _ hcr).mp hdead
        exact (hc _ hgone).tokens q hreg rfl
  · obtain ⟨req, heq, hcr, hd⟩ := Script.act_eq_issue hact
    refine ⟨_, req, heq, hcr, howner, ?_⟩
    cases req with
    | tokenRequest timeout draws =>
      rw [Script.dispatch, Script.tokenRequest] at hd
      split_ifs at hd with htimeout
      · refine ⟨htimeout.1, htimeout.2, ?_⟩
        cases hgen : generateToken m.script.tokens.byToken draws with
        | none => simp [hgen] at hd
        | some t => rfl
      · simp at hd
    | windowWatch token info =>
      rw [Script.dispatch, Script.windowWatch] at hd
      split at hd
      · simp at hd
      · split at hd <;> simp at hd
    | workspaceWatch info =>
      rw [Script.dispatch, Script.workspaceWatch] at hd
      split at hd <;> simp at hd
    | other => simp [Script.dispatch] at hd

/-- A disconnect leaves no workspace watches of a client that is gone by then. -/
theorem Clean.watch_disconnect (hc : m.Clean) (hm : m.Inv) {k id : ℕ}
    (hid : id ∈ m.gone ∨ k = id) :
    (m.script.step (.clientDisconnected k)).workspaceWatches.watches.lookup id = none := by
  have hold : id ∈ m.gone →
      (m.script.step (.clientDisconnected k)).workspaceWatches.watches.lookup id = none := by
    intro hid
    simp only [Script.step, Script.workspaceWatches_disconnect]
    split_ifs
    · rw [WatchTable.lookup_drop]
      split_ifs
      · rfl
      · exact (hc id hid).workspaceWatches
    · exact (hc id hid).workspaceWatches
  rcases hid with hid | rfl
  · exact hold hid
  · by_contra hsome
    have hwatch := hsome
    simp only [Script.step, Script.workspaceWatches_disconnect] at hwatch
    split_ifs at hwatch with hlook
    · simp [WatchTable.lookup_drop] at hwatch
    · -- Whoever watches is a connection, and one that is not connected is gone.
      obtain ⟨st, hst⟩ := Option.ne_none_iff_exists'.mp hwatch
      obtain ⟨⟨p, handler⟩, hp⟩ :=
        List.exists_mem_of_ne_nil _ (hm.workspaceFollows.consistent.nonempty k st hst)
      obtain ⟨hk, hcr⟩ := hm.workspaceFollows.owner k p handler
        ⟨st, hst, AList.mem_lookup_iff.mpr hp⟩
      refine hsome (hold (hk ▸ (hm.stopped_iff _ hcr).mp ?_))
      rw [← Bool.not_eq_true, hm.connected.alive_iff _ hcr, hk,
        Option.not_isSome_iff_eq_none.mp hlook]
      simp

/-- The workspace watches of a client that is gone stay empty, unless it is allowed to watch. -/
theorem Clean.watch_step (hc : m.Clean) (hm : m.Inv) (e : Event) {id : ℕ}
    (hid : id ∈ m.gone ∨ e = .clientDisconnected id)
    (hsome : (m.script.step e).workspaceWatches.watches.lookup id ≠ none) :
    ∃ conn req, e = .request conn req ∧ conn ∈ m.script.created ∧ conn.id = id ∧
      m.script.Registers req := by
  cases e with
  | clientConnected k =>
    rcases hid with hid | hid
    · have heq : (m.script.step (.clientConnected k)).workspaceWatches =
          m.script.workspaceWatches := by
        simp only [Script.step, Script.onClientConnected]
        split_ifs <;> rfl
      rw [heq] at hsome
      exact absurd (hc id hid).workspaceWatches hsome
    · contradiction
  | clientDisconnected k =>
    refine absurd (hc.watch_disconnect hm (hid.imp_right fun heq => ?_)) hsome
    cases heq
    rfl
  | request conn req =>
    rcases hid with hid | hid
    · have hnone := (hc id hid).workspaceWatches
      rcases Script.workspaceWatches_request m.script conn req with
        heq | ⟨info, hcr, rfl, hprops, heq⟩
      · rw [heq] at hsome
        exact absurd hnone hsome
      · rw [heq] at hsome
        by_cases hconn : id = conn.id
        · subst hconn
          refine ⟨conn, _, rfl, hcr, rfl, hprops, ?_⟩
          by_contra hall
          rw [WatchTable.setAll_disable hnone] at hsome
          · exact hsome hnone
          · intro e he
            exact Bool.eq_false_iff.mpr fun htrue => hall ⟨e, he, htrue⟩
        · rw [WatchTable.lookup_setAll_of_ne hconn] at hsome
          exact absurd hnone hsome
    · contradiction
  | windowAdded w data | captionChanged w data | windowRemoved w | deadline r
  | windowPropChanged w prop data | workspacePropChanged prop data =>
    rcases hid with hid | hid
    · rw [Script.workspaceWatches_step _ rfl] at hsome
      exact absurd (hc id hid).workspaceWatches hsome
    · contradiction

/-- Harmless steps leave nothing of a client that is gone. -/
theorem Clean.step (hc : m.Clean) (hm : m.Inv) {e : LoopEvent} (he : m.Harmless e) :
    (m.step e).Clean := by
  intro id hid
  have hgone : id ∈ m.gone ∨ e = .clientDisconnected id := by
    by_cases hdisc : ∃ k, e = .clientDisconnected k
    · obtain ⟨k, rfl⟩ := hdisc
      rcases List.mem_cons.mp hid with rfl | hid
      · exact Or.inr rfl
      · exact Or.inl hid
    · rw [gone_step m fun k hk => hdisc ⟨k, hk⟩] at hid
      exact Or.inl hid
  cases hev : m.event e with
  | none =>
    rw [script_step, hev]
    rcases hgone with hgone | rfl
    · exact hc id hgone
    · simp [event] at hev
  | some e' =>
    have hscript : (m.step e).script = m.script.step e' := by
      rw [script_step, hev]
      rfl
    have hgone' : id ∈ m.gone ∨ e' = .clientDisconnected id := by
      rcases hgone with hgone | rfl
      · exact Or.inl hgone
      · simp only [event, Option.some.injEq] at hev
        exact Or.inr hev.symm
    -- Whoever gets something registered is not gone.
    have hno : ¬ ∃ conn req, e' = .request conn req ∧ conn ∈ m.script.created ∧ conn.id = id ∧
        m.script.Registers req := by
      rintro ⟨conn, req, rfl, hcr, rfl, hreq⟩
      rcases hgone' with hid | hid
      · have hdead := (hm.stopped_iff conn hcr).mpr hid
        cases e with
        | dispatched c =>
          simp only [event] at hev
          split at hev
          · rename_i req' rest hloop
            simp only [Option.some.injEq, Event.request.injEq] at hev
            obtain ⟨rfl, rfl⟩ := hev
            exact he _ rest hloop hdead hreq
          · contradiction
        | clientConnected k =>
          simp only [event] at hev
          split_ifs at hev
          simp at hev
        | kwin e'' he'' =>
          simp only [event, Option.some.injEq] at hev
          subst hev
          contradiction
        | _ => simp [event] at hev
      · contradiction
    rw [hscript]
    refine ⟨fun q hq howner => hno (hc.owner_step hm e' hq hgone' howner), ?_⟩
    by_contra hsome
    exact hno (hc.watch_step hm e' hgone' hsome)

/-- A step that is not harmless leaves something. -/
theorem not_clean_of_not_harmless (hm : m.Inv) {e : LoopEvent} (he : ¬ m.Harmless e) :
    ¬ (m.step e).Clean := by
  cases e with
  | dispatched conn =>
    simp only [Harmless, not_forall, not_not] at he
    obtain ⟨req, rest, hloop, hdead, hreq⟩ := he
    have hcr := hm.running conn (by simp [hloop])
    intro hc
    have hfree := hc conn.id
    simp only [Loops.step, hloop] at hfree
    exact Script.not_free_of_registers hcr hreq (hfree ((hm.stopped_iff conn hcr).mp hdead))
  | _ => exact absurd trivial he

/-- Nothing of a client is left in any state after its disconnect if and only if no request that
registers something is dispatched for a client that is gone. -/
theorem cleared_iff_harmless (windows : List Window) (data : Window → WindowData)
    (workspace : WorkspaceData) (es : List LoopEvent) :
    (∀ es', es' <+: es → ∀ id ∈ ((start windows data workspace).run es').gone,
      ((start windows data workspace).run es').script.Cleared id) ↔
    (start windows data workspace).HarmlessRun es := by
  have hrun : ∀ (es : List LoopEvent) (m : Loops), m.Inv → m.Clean →
      ((∀ es', es' <+: es → ∀ id ∈ (m.run es').gone, (m.run es').script.Cleared id) ↔
        m.HarmlessRun es) := by
    intro es
    induction es with
    | nil =>
      intro m hm hc
      refine iff_of_true (fun es' hes' id hid => ?_) trivial
      obtain rfl := List.prefix_nil.mp hes'
      exact (Script.cleared_iff_free hm.wellFormed hm.follows hm.workspaceFollows).mpr (hc id hid)
    | cons e es ih =>
      intro m hm hc
      have hm' := hm.step e
      constructor
      · intro hall
        have hc' : (m.step e).Clean := fun id hid =>
          (Script.cleared_iff_free hm'.wellFormed hm'.follows hm'.workspaceFollows).mp
            (hall [e] (List.prefix_append [e] es) id hid)
        refine ⟨by_contra fun he => not_clean_of_not_harmless hm he hc', (ih _ hm' hc').mp ?_⟩
        intro es' hes'
        exact hall (e :: es') ((List.prefix_cons_inj e).mpr hes')
      · rintro ⟨he, hes⟩ es' hes' id hid
        have hc' := hc.step hm he
        cases es' with
        | nil =>
          exact (Script.cleared_iff_free hm.wellFormed hm.follows hm.workspaceFollows).mpr
            (hc id hid)
        | cons e' es' =>
          obtain ⟨rfl, htail⟩ := List.cons_prefix_cons.mp hes'
          exact (ih _ hm' hc').mpr hes es' htail id hid
  exact hrun es _ (inv_start windows data workspace) nofun

/-- Client 1 disconnects after the first of two requests of a batch; the second issues a token to
it. -/
theorem comes_back :
    let conn : RpcConnection := ⟨0, 1⟩
    let m := (start [] (fun _ => ⟨[], [], [], fun _ => .undefined⟩) ⟨⟨[]⟩, [], [], []⟩).run
      [.clientConnected 1,
        .polled conn [.other, .tokenRequest 1 [fun _ => ⟨0, 1, Nat.one_pos⟩]],
        .dispatched conn, .clientDisconnected 1, .dispatched conn]
    1 ∈ m.gone ∧ ¬ m.script.Cleared 1 := by
  intro conn m
  refine ⟨by decide, fun hc => ?_⟩
  exact hc.byToken (List.replicate 20 65) 0 (by decide) (by decide)

end Loops

end KwinApi
