import KwinApi.Lib.Past
import KwinApi.Script.Mirror

/-!
# Workspace watches follow the requests

The watches of the workspace are filed by client. What is on the books is what the requests and the
disconnects add up to, a firing signal tells every client that watches once, and a client that
watches a property and reads it knows it from then on.

## Main definitions

* `KwinApi.Event.AsksWorkspace`, `Event.StopsWorkspace` — what the requests say
* `KwinApi.Notified.workspaceNews` — what a notification tells a client
* `KwinApi.Script.WatchersAlive` — the watches belong to connected clients

## Main results

* `KwinApi.Script.workspace_watches_follow`
* `KwinApi.Script.workspace_mirror`
-/

namespace KwinApi

/-- All properties of a `workspace.watch` are supported. -/
def Watchable (info : AList fun _ : JsString => Bool) : Prop :=
  ∀ e ∈ info.entries, e.1 ∈ workspaceWatchProps

/-- A client asks to be told of changes of a property. -/
def Event.AsksWorkspace (id : ℕ) (prop : JsString) : Event → Prop
  | .request conn (.workspaceWatch info) =>
    conn.id = id ∧ Watchable info ∧ ⟨prop, true⟩ ∈ info.entries
  | _ => False

/-- A client asks not to be told any more, or disconnects. -/
def Event.StopsWorkspace (id : ℕ) (prop : JsString) : Event → Prop
  | .request conn (.workspaceWatch info) =>
    conn.id = id ∧ Watchable info ∧ ⟨prop, false⟩ ∈ info.entries
  | .clientDisconnected i => i = id
  | _ => False

/-- The value a notification reports to a client of a property of the workspace. -/
def Notified.workspaceNews (conn : RpcConnection) (prop : JsString) (n : Notified) :
    Option PropValue :=
  match n.note with
  | .workspaceChanged p value => if n.conn = conn ∧ p = prop then some value else none
  | _ => none

namespace Script

variable {s s' : Script} {conn : RpcConnection} {id : ℕ} {prop : JsString} {e : Event}

/-- The workspace watches belong to the connected clients. -/
structure WatchersAlive (s : Script) : Prop where
  consistent : s.workspaceWatches.Consistent
  /-- A handler notifies the connected client it is filed under. -/
  owner : ∀ k p handler, s.workspaceWatches.Stored k p handler →
    s.connections.lookup k = some handler.conn
  /-- Only watchable properties are watched. -/
  watchable : ∀ k p handler, s.workspaceWatches.Stored k p handler → p ∈ workspaceWatchProps

/-- Requests are dispatched on the connection objects of connected clients only. -/
def dispatchedConnected : Script → List Event → Bool
  | _, [] => true
  | s, .request conn req :: es =>
    (s.connections.lookup conn.id == some conn) &&
      (s.step (.request conn req)).dispatchedConnected es
  | s, e :: es => (s.step e).dispatchedConnected es

theorem dispatchedConnected_cons {es : List Event}
    (hes : s.dispatchedConnected (e :: es) = true) :
    (∀ conn req, e = .request conn req → s.connections.lookup conn.id = some conn) ∧
      (s.step e).dispatchedConnected es = true := by
  cases e with
  | request conn req =>
    rw [dispatchedConnected, Bool.and_eq_true, beq_iff_eq] at hes
    refine ⟨?_, hes.2⟩
    rintro _ _ ⟨⟩
    exact hes.1
  | _ => exact ⟨by simp, hes⟩

theorem dispatchedConnected_append {es fs : List Event} :
    s.dispatchedConnected (es ++ fs) = true ↔
      s.dispatchedConnected es = true ∧ (s.run es).dispatchedConnected fs = true := by
  induction es generalizing s with
  | nil => simp [dispatchedConnected]
  | cons e es ih =>
    cases e with
    | request c req =>
      simp only [List.cons_append, dispatchedConnected, Bool.and_eq_true, ih, and_assoc]
      rfl
    | _ =>
      simp only [List.cons_append, dispatchedConnected, ih]
      rfl

/-! ### One event -/

/-- A connected client stays connected until it disconnects. -/
theorem lookup_step (h : s.WellFormed) (hc : s.Connected)
    (hconn : s.connections.lookup conn.id = some conn) (he : e ≠ .clientDisconnected conn.id) :
    (s.step e).connections.lookup conn.id = some conn := by
  obtain ⟨hcr, -⟩ := hc.known _ _ hconn
  have halive := alive_keep hc hcr ((hc.alive_iff conn hcr).mpr hconn) he
  exact ((hc.step h e).alive_iff conn (created_step s e conn hcr)).mp halive

theorem WatchersAlive.of_eq (hw : s.WatchersAlive)
    (hwatches : s'.workspaceWatches = s.workspaceWatches)
    (hconns : ∀ k c, s.connections.lookup k = some c → s'.connections.lookup k = some c) :
    s'.WatchersAlive := by
  obtain ⟨hcons, howner, hwatchable⟩ := hw
  rw [← hwatches] at hcons howner hwatchable
  exact ⟨hcons, fun k p handler hh => hconns k _ (howner k p handler hh), hwatchable⟩

/-- A connected client sets its watches. -/
theorem WatchersAlive.set (hw : s.WatchersAlive) (hconn : s.connections.lookup conn.id = some conn)
    {info : AList fun _ : JsString => Bool} (hinfo : Watchable info)
    (hwatches : s'.workspaceWatches =
      (WatchTable.setAll conn.id conn () s.workspaceWatches info.entries).1)
    (hconns : s'.connections = s.connections) : s'.WatchersAlive := by
  have hset := @WatchTable.setAll_induction _ _ _ _ _ _ s.workspaceWatches conn.id conn () _ _
    (fun W => W.Consistent ∧ ∀ k p handler, W.Stored k p handler →
      s.connections.lookup k = some handler.conn ∧ p ∈ workspaceWatchProps) info.entries
    (fun W e he ⟨hcons, hstored⟩ => ?_)
    ⟨hw.consistent, fun k p handler hh => ⟨hw.owner k p handler hh, hw.watchable k p handler hh⟩⟩
  · rw [← hwatches] at hset
    refine ⟨hset.1, fun k p handler hh => ?_, fun k p handler hh => (hset.2 k p handler hh).2⟩
    rw [hconns]
    exact (hset.2 k p handler hh).1
  · refine ⟨hcons.set (fun _ _ => rfl) e.2, fun k p handler hh => ?_⟩
    rcases hh.of_set with hh | ⟨rfl, rfl, hhconn⟩
    · exact hstored k p handler hh
    · rw [hhconn]
      exact ⟨hconn, hinfo e he⟩

/-- **One event keeps the watches with the connected clients.** -/
theorem WatchersAlive.step (hw : s.WatchersAlive)
    (he : ∀ conn req, e = .request conn req → s.connections.lookup conn.id = some conn) :
    (s.step e).WatchersAlive := by
  cases e with
  | clientConnected i =>
    refine hw.of_eq ?_ fun k c hk => ?_
    · simp only [Script.step, onClientConnected]
      split_ifs <;> rfl
    · simp only [Script.step, onClientConnected]
      split_ifs with hi
      · exact hk
      · have hne : k ≠ i := by
          rintro rfl
          exact hi (by rw [hk]; rfl)
        exact (AList.lookup_insert_ne hne).trans hk
  | clientDisconnected i =>
    have hwatches := workspaceWatches_disconnect s i
    rcases hi : s.connections.lookup i with _ | conn
    · have heq : s.step (.clientDisconnected i) = s := by
        rw [Script.step, onClientDisconnected, hi]
      rw [heq]
      exact hw
    · have hconns : (s.step (.clientDisconnected i)).connections = s.connections.erase i := by
        rw [Script.step, onClientDisconnected, hi]
        rfl
      rw [hi, Option.isSome_some, if_pos rfl] at hwatches
      refine ⟨hwatches ▸ hw.consistent.drop i, fun k p handler hh => ?_,
        fun k p handler hh => ?_⟩
      all_goals
        rw [Script.step, hwatches, WatchTable.stored_drop] at hh
      · rw [hconns, AList.lookup_erase_ne hh.1]
        exact hw.owner k p handler hh.2
      · exact hw.watchable k p handler hh.2
  | request conn req =>
    have hsame := (sameConns_step s (fun i => by simp) fun i => by simp :
      SameConns s (s.step (.request conn req))).connections
    rcases workspaceWatches_request s conn req with hwatches | ⟨info, -, -, hinfo, hwatches⟩
    · exact hw.of_eq hwatches fun k c hk => hsame ▸ hk
    · exact hw.set (he conn req rfl) hinfo hwatches hsame
  | _ =>
    refine hw.of_eq (workspaceWatches_step s rfl) fun k c hk => ?_
    rw [(sameConns_step s (fun i => by simp) fun i => by simp).connections]
    exact hk

/-- The books after a request to watch. -/
theorem watches_set (hcr : conn ∈ s.created) {info : AList fun _ : JsString => Bool}
    (hinfo : Watchable info) :
    (s.step (.request conn (.workspaceWatch info))).workspaceWatches.Watches id prop ↔
      Event.AsksWorkspace id prop (.request conn (.workspaceWatch info)) ∨
      (¬ Event.StopsWorkspace id prop (.request conn (.workspaceWatch info)) ∧
        s.workspaceWatches.Watches id prop) := by
  have hwatches : (s.step (.request conn (.workspaceWatch info))).workspaceWatches =
      (WatchTable.setAll conn.id conn () s.workspaceWatches info.entries).1 := by
    have hnone : (info.entries.find? fun e => e.1 ∉ workspaceWatchProps) = none :=
      List.find?_eq_none.mpr fun e he => by simpa using hinfo e he
    rw [step, if_pos hcr, dispatch, workspaceWatch, hnone]
    rfl
  rw [hwatches]
  simp only [Event.AsksWorkspace, Event.StopsWorkspace]
  by_cases hid : conn.id = id
  · subst hid
    rw [WatchTable.watches_setAll info.entries info.nodupKeys]
    by_cases htrue : (⟨prop, true⟩ : Sigma fun _ : JsString => Bool) ∈ info.entries
    · simp [htrue, hinfo]
    · have hkey : prop ∈ info.entries.keys ↔
          (⟨prop, false⟩ : Sigma fun _ : JsString => Bool) ∈ info.entries := by
        refine ⟨fun hmem => ?_, List.mem_keys_of_mem⟩
        obtain ⟨enable, hmem⟩ := List.exists_of_mem_keys hmem
        cases enable with
        | true => exact absurd hmem htrue
        | false => exact hmem
      simp [htrue, hkey, hinfo]
  · have hlook : (WatchTable.setAll conn.id conn () s.workspaceWatches
        info.entries).1.watches.lookup id = s.workspaceWatches.watches.lookup id :=
      WatchTable.lookup_setAll_of_ne (Ne.symm hid) info.entries
    simp [WatchTable.Watches, WatchTable.Stored, hlook, hid]

/-- **What one event does to the books.** -/
theorem WatchersAlive.watches_step (hw : s.WatchersAlive) (hc : s.Connected)
    (he : ∀ conn req, e = .request conn req → s.connections.lookup conn.id = some conn) :
    (s.step e).workspaceWatches.Watches id prop ↔ e.AsksWorkspace id prop ∨
      (¬ e.StopsWorkspace id prop ∧ s.workspaceWatches.Watches id prop) := by
  have hsame : (s.step e).workspaceWatches = s.workspaceWatches →
      ¬ e.AsksWorkspace id prop → ¬ e.StopsWorkspace id prop →
      ((s.step e).workspaceWatches.Watches id prop ↔ e.AsksWorkspace id prop ∨
        (¬ e.StopsWorkspace id prop ∧ s.workspaceWatches.Watches id prop)) := by
    intro hwatches hasks hstops
    rw [hwatches]
    simp [hasks, hstops]
  cases e with
  | clientConnected i =>
    refine hsame ?_ not_false not_false
    simp only [Script.step, onClientConnected]
    split_ifs <;> rfl
  | clientDisconnected i =>
    by_cases hi : i = id
    · subst hi
      -- Nothing of a client is left, and nothing is on the books for one that is not connected.
      refine iff_of_false ?_ ?_
      · rintro ⟨handler, hh⟩
        rw [Script.step, workspaceWatches_disconnect] at hh
        split_ifs at hh with hconn
        · exact (WatchTable.stored_drop.mp hh).1 rfl
        · rw [hw.owner i prop handler hh] at hconn
          exact hconn rfl
      · rintro (hasks | ⟨hstops, -⟩)
        · exact hasks
        · exact hstops rfl
    · have hiff : (s.step (.clientDisconnected i)).workspaceWatches.Watches id prop ↔
          s.workspaceWatches.Watches id prop := by
        rw [Script.step, workspaceWatches_disconnect]
        split_ifs
        · refine exists_congr fun handler => ?_
          rw [WatchTable.stored_drop]
          exact and_iff_right (Ne.symm hi)
        · rfl
      rw [hiff]
      have hstops : ¬ Event.StopsWorkspace id prop (.clientDisconnected i) := hi
      have hasks : ¬ Event.AsksWorkspace id prop (.clientDisconnected i) := not_false
      rw [or_iff_right hasks, and_iff_right hstops]
  | request conn req =>
    obtain ⟨hcr, -⟩ := hc.known _ _ (he conn req rfl)
    cases req with
    | workspaceWatch info =>
      by_cases hinfo : Watchable info
      · exact watches_set hcr hinfo
      · refine hsame ?_ (fun hasks => hinfo hasks.2.1) fun hstops => hinfo hstops.2.1
        rcases workspaceWatches_request s conn (.workspaceWatch info) with hwatches | hset
        · exact hwatches
        · obtain ⟨info', -, heq, hinfo', -⟩ := hset
          cases heq
          exact absurd hinfo' hinfo
    | _ =>
      refine hsame ?_ not_false not_false
      rcases workspaceWatches_request s conn _ with hwatches | ⟨_, -, heq, -⟩
      · exact hwatches
      · cases heq
  | _ => exact hsame (workspaceWatches_step s rfl) not_false not_false

theorem watchersAlive_load (windows : List Window) (data : Window → WindowData)
    (workspace : WorkspaceData) : (load windows data workspace).WatchersAlive :=
  ⟨WatchTable.consistent_empty, by simp [load, WatchTable.empty, WatchTable.Stored],
    by simp [load, WatchTable.empty, WatchTable.Stored]⟩

theorem WatchersAlive.run (hw : s.WatchersAlive) {es : List Event}
    (hes : s.dispatchedConnected es = true) : (s.run es).WatchersAlive := by
  induction es generalizing s with
  | nil => exact hw
  | cons e es ih =>
    obtain ⟨he, hes⟩ := dispatchedConnected_cons hes
    exact ih (hw.step he) hes

/-! ### Signals -/

/-- What a firing signal sends: one notification for each slot connected to it. -/
theorem WatchersAlive.sent (hw : s.WatchersAlive) (hc : s.Connected) (p : JsString)
    (data : WorkspaceData) : (s.step (.workspacePropChanged p data)).sent = s.sent ++
      (s.workspaceWatches.slots.filter fun slot => slot.prop = p).map fun slot =>
        ⟨slot.handler.conn, none, .workspaceChanged p (workspaceValue data p)⟩ := by
  simp only [Script.step, foldl_onWorkspaceChanged]
  rw [List.map_eq_flatMap]
  refine congrArg (s.sent ++ ·) (List.flatMap_congr fun slot hslot => ?_)
  obtain ⟨hmem, hon⟩ := List.mem_filter.mp hslot
  obtain ⟨hstored, -, hprop⟩ := (hw.consistent.slots_iff slot).mp hmem
  have hconn := hw.owner _ _ _ hstored
  obtain ⟨hcr, hid⟩ := hc.known _ _ hconn
  have halive := (hc.alive_iff _ hcr).mpr (hid ▸ hconn)
  rw [delivered, if_pos halive, ← hprop, of_decide_eq_true hon]

/-- A firing signal tells every client that watches the property, once. -/
theorem WatchersAlive.fires (hw : s.WatchersAlive) (hc : s.Connected) (p : JsString)
    (data : WorkspaceData) : ∃ (ids : List ℕ) (notes : List Notified), ids.Nodup ∧
      (∀ id, id ∈ ids ↔ s.workspaceWatches.Watches id p) ∧
      (s.step (.workspacePropChanged p data)).sent = s.sent ++ notes ∧
      List.Forall₂ (fun id n => ∃ conn, s.connections.lookup id = some conn ∧
        n = ⟨conn, none, .workspaceChanged p (workspaceValue data p)⟩) ids notes := by
  have hslot : ∀ slot ∈ s.workspaceWatches.slots.filter fun slot => slot.prop = p,
      s.workspaceWatches.Stored slot.handler.key p slot.handler ∧
        slot = ⟨(), p, slot.handler⟩ := by
    intro slot hslot
    obtain ⟨hmem, hon⟩ := List.mem_filter.mp hslot
    obtain rfl := of_decide_eq_true hon
    obtain ⟨hstored, -, hprop⟩ := (hw.consistent.slots_iff slot).mp hmem
    exact ⟨hprop ▸ hstored, rfl⟩
  refine ⟨(s.workspaceWatches.slots.filter fun slot => slot.prop = p).map
    fun slot => slot.handler.key, _, ?_, fun k => ?_, hw.sent hc p data, ?_⟩
  · refine List.Nodup.map_on (fun x hx y hy hxy => ?_) (hw.consistent.nodup.filter _)
    obtain ⟨⟨st, hst, hh⟩, hx⟩ := hslot x hx
    obtain ⟨⟨st', hst', hh'⟩, hy⟩ := hslot y hy
    rw [hxy, hst', Option.some.injEq] at hst
    rw [← hst, hh', Option.some.injEq] at hh
    rw [hx, hy, hh]
  · rw [List.mem_map]
    constructor
    · rintro ⟨slot, hmem, rfl⟩
      exact ⟨slot.handler, (hslot slot hmem).1⟩
    · rintro ⟨handler, st, hst, hh⟩
      obtain ⟨hkey, hprop, -⟩ := hw.consistent.filed k st p handler hst hh
      refine ⟨⟨(), p, handler⟩, List.mem_filter.mpr ⟨?_, by simp⟩, hkey⟩
      exact (hw.consistent.slots_iff _).mpr ⟨⟨st, hkey ▸ hst, hprop ▸ hh⟩, rfl, hprop.symm⟩
  · rw [List.forall₂_map_left_iff, List.forall₂_map_right_iff, List.forall₂_same]
    intro slot hmem
    exact ⟨_, hw.owner _ _ _ (hslot slot hmem).1, rfl⟩

/-- **The watches of the workspace follow the requests.** While requests are dispatched for
connected clients, a client is on the books for a property exactly when it asked for it and has
neither stopped nor disconnected since; the slots are what is on the books, and a firing signal
tells every such client the new value, once. -/
theorem workspace_watches_follow (windows : List Window) (data : Window → WindowData)
    (workspace : WorkspaceData) (es : List Event)
    (hes : (load windows data workspace).dispatchedConnected es = true) :
    let s := (load windows data workspace).run es
    (∀ id prop, s.workspaceWatches.Watches id prop ↔
      Since (fun e _ => ¬ e.StopsWorkspace id prop) (fun e _ => e.AsksWorkspace id prop)
        es.reverse) ∧
    s.workspaceWatches.Consistent ∧
    ∀ prop now, ∃ (ids : List ℕ) (notes : List Notified), ids.Nodup ∧
      (∀ id, id ∈ ids ↔ s.workspaceWatches.Watches id prop) ∧
      (s.step (.workspacePropChanged prop now)).sent = s.sent ++ notes ∧
      List.Forall₂ (fun id n => ∃ conn, s.connections.lookup id = some conn ∧
        n = ⟨conn, none, .workspaceChanged prop (workspaceValue now prop)⟩) ids notes := by
  intro s
  have hw : s.WatchersAlive := (watchersAlive_load windows data workspace).run hes
  refine ⟨fun id prop => ?_, hw.consistent, fun prop now =>
    hw.fires (connected_run windows data workspace es) prop now⟩
  induction es using List.reverseRecOn with
  | nil =>
    refine iff_of_false ?_ (not_since_nil _ _)
    rintro ⟨handler, st, hst, -⟩
    cases hst
  | append_singleton es e ih =>
    obtain ⟨hes, he⟩ := dispatchedConnected_append.mp hes
    have hw' := (watchersAlive_load windows data workspace).run hes
    have hstep := @hw'.watches_step _ id prop e (connected_run windows data workspace es)
      (dispatchedConnected_cons he).1
    rw [List.reverse_append, List.reverse_singleton, List.singleton_append, since_cons,
      ← ih hes hw', ← hstep]
    simp only [s, run_concat]

/-- Two clients; the one that stopped is not told. -/
theorem workspace_watches_follow_two :
    let desktops := js "desktops"
    let es : List Event := [.clientConnected 1, .clientConnected 2,
      .request ⟨0, 1⟩ (.workspaceWatch (AList.insert desktops true ∅)),
      .request ⟨1, 2⟩ (.workspaceWatch (AList.insert desktops true ∅)),
      .request ⟨0, 1⟩ (.workspaceWatch (AList.insert desktops false ∅))]
    ¬ (loadEmpty.run es).workspaceWatches.Watches 1 desktops ∧
      (loadEmpty.run es).workspaceWatches.Watches 2 desktops := by
  intro desktops es
  have hfollow := (workspace_watches_follow [] (fun _ => ⟨[], [], [], fun _ => .undefined⟩)
    ⟨⟨[]⟩, [], [], []⟩ es (by decide)).1
  have hinfo : ∀ enable, Watchable (AList.insert desktops enable ∅) := by
    intro enable e he
    obtain rfl : e = ⟨desktops, enable⟩ := by simpa [AList.entries_insert] using he
    have hmem : desktops ∈ workspaceWatchProps := by decide
    exact hmem
  refine ⟨fun hwatch => ?_, (hfollow 2 desktops).mpr ?_⟩
  · rcases (hfollow 1 desktops).mp hwatch with hasks | ⟨hkept, -⟩
    · simpa [AList.entries_insert] using hasks.2.2
    · exact hkept ⟨rfl, hinfo false, by simp⟩
  · refine Or.inr ⟨fun hstops => by simpa using hstops.1, Or.inl ⟨rfl, hinfo true, ?_⟩⟩
    simp

/-! ### Clients that watch the workspace -/

/-- What the notification of a slot tells a client. -/
theorem workspaceNews_slot {c : RpcConnection} {p : JsString} {value x : PropValue} :
    Notified.workspaceNews conn prop ⟨c, none, .workspaceChanged p value⟩ = some x ↔
      (c = conn ∧ p = prop) ∧ value = x := by
  simp only [Notified.workspaceNews]
  split_ifs with hfor
  · simp [hfor]
  · simp [hfor]

/-- The notifications keep the client informed about the property of the workspace. -/
abbrev WorkspaceInformed (conn : RpcConnection) (prop : JsString) (s s' : Script) : Prop :=
  Told Script.sent (Notified.workspaceNews conn prop) (fun s => workspaceValue s.workspace prop)
    s s'

/-- **One event tells a client that watches what changed.** -/
theorem WatchersAlive.informed (hw : s.WatchersAlive) (h : s.WellFormed) (hc : s.Connected)
    (hconn : s.connections.lookup conn.id = some conn)
    (hwatch : s.workspaceWatches.Watches conn.id prop) (hann : s.Announces e) :
    WorkspaceInformed conn prop s (s.step e) := by
  by_cases hrequest : ∃ c token info, e = .request c (.windowWatch token info)
  · obtain ⟨c, token, info, rfl⟩ := hrequest
    obtain ⟨watches, heq⟩ := step_windowWatch s c token info
    rw [heq]
    exact .silent (List.append_nil _).symm (by simp) rfl
  by_cases hsignal : ∃ v p data, e = .windowPropChanged v p data
  · obtain ⟨v, p, data, rfl⟩ := hsignal
    simp only [Script.step, foldl_onWindowChanged]
    refine .silent rfl (fun n hn => ?_) rfl
    obtain ⟨slot, -, hn⟩ := List.mem_flatMap.mp hn
    rw [mem_delivered hn]
    rfl
  by_cases hworkspace : ∃ p data, e = .workspacePropChanged p data
  · obtain ⟨p, data, rfl⟩ := hworkspace
    have hsent := hw.sent hc p data
    have hvalue : (s.step (.workspacePropChanged p data)).workspace = data := by
      obtain ⟨notes, heq, -⟩ := step_workspacePropChanged s p data
      rw [heq]
    obtain ⟨handler, hstored⟩ := hwatch
    by_cases hp : p = prop
    · subst hp
      refine .of_forall hsent ?_ fun n hn x hnews => ?_
      · obtain ⟨st, hst, hh⟩ := id hstored
        obtain ⟨hkey, hprop, -⟩ := hw.consistent.filed _ st p handler hst hh
        refine ⟨_, List.mem_map.mpr ⟨⟨(), p, handler⟩, List.mem_filter.mpr
          ⟨(hw.consistent.slots_iff _).mpr ⟨⟨st, hkey ▸ hst, hprop ▸ hh⟩, rfl, hprop.symm⟩,
            by simp⟩, rfl⟩, ?_⟩
        have howner := hw.owner _ _ _ hstored
        rw [hconn, Option.some.injEq] at howner
        exact workspaceNews_slot.mpr ⟨⟨howner.symm, rfl⟩, by rw [hvalue]⟩
      · obtain ⟨slot, -, rfl⟩ := List.mem_map.mp hn
        rw [hvalue]
        exact (workspaceNews_slot.mp hnews).2.symm
    · refine .silent hsent (fun n hn => ?_) ?_
      · obtain ⟨slot, -, rfl⟩ := List.mem_map.mp hn
        rw [Option.eq_none_iff_forall_ne_some]
        intro x hnews
        exact hp (workspaceNews_slot.mp hnews).1.2
      · rw [hvalue]
        exact hann prop (hw.watchable _ _ _ hstored) (Ne.symm hp)
  · have haside : Aside s (s.step e) :=
      aside_step h (fun c token info he => hrequest ⟨c, token, info, he⟩)
        (fun v p data he => hsignal ⟨v, p, data, he⟩) fun p data he => hworkspace ⟨p, data, he⟩
    obtain ⟨notes, hsent, hother⟩ := haside.sent
    refine .silent hsent (fun n hn => ?_) (by rw [haside.workspace])
    have hnews := hother n hn
    rw [Notified.workspaceNews]
    split
    · rename_i hnote
      rw [hnote] at hnews
      exact absurd rfl hnews
    · rfl

/-- **A run of events.** -/
theorem WatchersAlive.informed_run (hw : s.WatchersAlive) (h : s.WellFormed) (hc : s.Connected)
    (hconn : s.connections.lookup conn.id = some conn)
    (hwatch : s.workspaceWatches.Watches conn.id prop) {es : List Event}
    (hes : s.dispatchedConnected es = true)
    (hkept : ∀ e ∈ es, ¬ e.StopsWorkspace conn.id prop) (hann : s.Announced es) :
    WorkspaceInformed conn prop s (s.run es) := by
  induction es generalizing s with
  | nil => exact .refl s
  | cons e es ih =>
    obtain ⟨he, hes⟩ := dispatchedConnected_cons hes
    obtain ⟨hkept, hkepts⟩ := List.forall_mem_cons.mp hkept
    have hstays : e ≠ .clientDisconnected conn.id := by
      rintro rfl
      exact hkept rfl
    have hstep := hw.informed h hc hconn hwatch hann.1
    refine hstep.trans (ih (hw.step he) (h.step e) (hc.step h e) (lookup_step h hc hconn hstays)
      ?_ hes hkepts hann.2)
    exact (hw.watches_step hc he).mpr (Or.inr ⟨hkept, hwatch⟩)

/-- **Watch the workspace, then read, and you know.** A connected client watches a property of the
workspace and reads it. As long as it neither stops watching nor disconnects, whatever else happens,
with every change announced, the last `workspace.changed` it was sent, or else what it read, is what
anybody would read now. -/
theorem workspace_mirror (windows : List Window) (data : Window → WindowData)
    (workspace : WorkspaceData) (es fs : List Event)
    (hes : (load windows data workspace).dispatchedConnected (es ++ fs) = true)
    {conn : RpcConnection} {prop : JsString} {queryInfo : List JsString} {answer : QueryResult}
    {v : PropValue} :
    let s := (load windows data workspace).run es
    let s' := s.run fs
    s.connections.lookup conn.id = some conn → s.workspaceWatches.Watches conn.id prop →
    s.workspaceQuery queryInfo = .ok answer → (prop, v) ∈ answer →
    (∀ e ∈ fs, ¬ e.StopsWorkspace conn.id prop) → s.Announced fs →
    ∃ notes, s'.sent = s.sent ++ notes ∧ s'.workspaceQuery [prop] =
      .ok [(prop, known v (notes.filterMap (Notified.workspaceNews conn prop)))] := by
  intro s s' hconn hwatch hquery hv hkept hann
  obtain ⟨hes, hfs⟩ := dispatchedConnected_append.mp hes
  obtain ⟨hprop, rfl⟩ := value_of_queryAll hquery hv
  have hw : s.WatchersAlive := (watchersAlive_load windows data workspace).run hes
  obtain ⟨notes, hsent, hknown⟩ := hw.informed_run
    ((wellFormed_load windows data workspace).run es) (connected_run windows data workspace es)
    hconn hwatch hfs hkept hann
  refine ⟨notes, hsent, queryAll_eq_ok.mpr ⟨by simpa using hprop, ?_⟩⟩
  rw [hknown, List.eraseDups_cons]
  rfl

/-- A client that watches the activities is told of a new one. -/
theorem workspace_mirror_one :
    let activities := js "activities"
    let es : List Event := [.clientConnected 1,
      .request ⟨0, 1⟩ (.workspaceWatch (AList.insert activities true ∅))]
    let s := loadEmpty.run es
    let s' := s.run [.workspacePropChanged activities ⟨⟨[]⟩, [], [], [js "a1"]⟩]
    ∃ notes, s'.sent = s.sent ++ notes ∧ s'.workspaceQuery [activities] =
      .ok [(activities, known (.idSet [])
        (notes.filterMap (Notified.workspaceNews ⟨0, 1⟩ activities)))] := by
  intro activities es s s'
  have hannounces : s.Announces (.workspacePropChanged activities ⟨⟨[]⟩, [], [], [js "a1"]⟩) := by
    rw [Announces]
    decide
  exact workspace_mirror [] (fun _ => ⟨[], [], [], fun _ => .undefined⟩) ⟨⟨[]⟩, [], [], []⟩ es
    [.workspacePropChanged activities ⟨⟨[]⟩, [], [], [js "a1"]⟩] (by decide) rfl
    ⟨⟨0, 1, ⟨0, 1⟩, (), activities⟩, _, rfl, rfl⟩ (rfl : s.workspaceQuery [activities] = _)
    (List.mem_singleton_self _) (by simp [Event.StopsWorkspace]) ⟨hannounces, trivial⟩

end Script

end KwinApi
