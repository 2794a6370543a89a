import KwinApi.Script.Transition

/-!
# Connections and what an entry keeps

A connection object is alive exactly while it is the connected client of its id. The token and the
owner of an entry never change.

## Main definitions

* `KwinApi.Script.Connected` — the connection invariant

## Main results

* `Script.Connected.step`, `Script.connected_run`
* `Script.Transition.entry_eq` — the token and the owner of an entry stay
* `Script.Transition.registered_cases` — where a registered entry comes from
* `Script.alive_step`, `alive_keep` — who stays alive and who does not
-/

namespace KwinApi

namespace Script

variable {s s' : Script} {a : Option TokenAct}

/-- The connection objects and the registry of connected clients. -/
structure Connected (s : Script) : Prop where
  /-- References are handed out in order. -/
  ref_lt : ∀ c ∈ s.created, c.ref < s.created.length
  /-- A reference stands for one object. -/
  unique : ∀ c ∈ s.created, ∀ d ∈ s.created, c.ref = d.ref → c = d
  /-- An object is alive while it is the connected client of its id. -/
  alive_iff : ∀ c ∈ s.created, s.alive c.ref = true ↔ s.connections.lookup c.id = some c
  /-- The connected clients are objects that were created. -/
  known : ∀ id c, s.connections.lookup id = some c → c ∈ s.created ∧ c.id = id
  /-- So are the owners of entries. -/
  owner : ∀ r < s.tokens.nextEntry, (s.tokens.entries r).conn ∈ s.created

/-- Nobody connects or disconnects. -/
structure SameConns (s s' : Script) : Prop where
  created : s'.created = s.created
  alive : s'.alive = s.alive
  connections : s'.connections = s.connections

/-! ### Entries -/

/-- The token and the owner of an entry stay, and references are handed out in order. -/
theorem Transition.entry_eq (ht : Transition s s' a) (h : s.WellFormed) :
    s.tokens.nextEntry ≤ s'.tokens.nextEntry ∧
    ∀ q < s.tokens.nextEntry, (s'.tokens.entries q).token = (s.tokens.entries q).token ∧
      (s'.tokens.entries q).conn = (s.tokens.entries q).conn := by
  cases ht with
  | quiet hidle htokens hsent hnotes =>
    rw [htokens]
    exact ⟨le_rfl, fun q _ => ⟨rfl, rfl⟩⟩
  | issued hconn hfresh hrun htokens hsent =>
    rw [htokens]
    refine ⟨Nat.le_succ _, fun q hq => ?_⟩
    rw [TokenTable.entries_register_of_ne (Nat.ne_of_lt hq)]
    exact ⟨rfl, rfl⟩
  | validated hr hnone hrun hfree htokens hsent =>
    rw [htokens]
    exact ⟨le_rfl, fun q _ => ⟨TokenTable.token_bind .., TokenTable.conn_bind ..⟩⟩
  | superseding hr hnone hrun hp hpw htokens hsent =>
    rw [htokens]
    refine ⟨le_rfl, fun q _ => ?_⟩
    simp
  | withdrawn hr hcause htokens hsent =>
    rw [htokens]
    refine ⟨le_rfl, fun q _ => ?_⟩
    simp
  | expired hr hsome htokens hsent =>
    rw [htokens]
    refine ⟨le_rfl, fun q _ => ?_⟩
    simp
  | @dropped id htokens hsent =>
    have hlast := (h.unregisterAll (h.nodup_owned id) fun r hr => (h.mem_owned.mp hr).1).2
    rw [htokens]
    exact ⟨Nat.le_of_eq hlast.nextEntry.symm, fun q _ => ⟨hlast.token q, hlast.conn q⟩⟩

/-- An entry that is registered afterwards was so before and was not dropped, or was just issued. -/
theorem Transition.registered_cases (ht : Transition s s' a) (h : s.WellFormed) {q : ℕ}
    (hq : s'.tokens.Registered q) :
    (s.tokens.Registered q ∧ a ≠ some (.drop (s.tokens.entries q).conn.id)) ∨
    (q = s.tokens.nextEntry ∧ ∃ t, a = some (.issue t (s'.tokens.entries q).conn)) := by
  cases ht with
  | quiet hidle htokens hsent hnotes =>
    rw [htokens] at hq
    refine Or.inl ⟨hq, ?_⟩
    rintro rfl
    exact hidle
  | @issued conn t timer hconn hfresh hrun htokens hsent =>
    rw [htokens] at hq
    by_cases hqn : q = s.tokens.nextEntry
    · rw [htokens, hqn, TokenTable.entries_register_self]
      exact Or.inr ⟨rfl, t, rfl⟩
    · exact Or.inl ⟨(TokenTable.registered_register hfresh hqn).mp hq, nofun⟩
  | validated hr hnone hrun hfree htokens hsent =>
    rw [htokens, TokenTable.registered_bind] at hq
    exact Or.inl ⟨hq, nofun⟩
  | superseding hr hnone hrun hp hpw htokens hsent =>
    rw [htokens, TokenTable.registered_bind, TokenTable.registered_unregister hp] at hq
    exact Or.inl ⟨hq.2, nofun⟩
  | withdrawn hr hcause htokens hsent =>
    rw [htokens, TokenTable.registered_unregister hr] at hq
    refine Or.inl ⟨hq.2, ?_⟩
    intro hact
    cases hact
    cases hcause
  | expired hr hsome htokens hsent =>
    rw [htokens, TokenTable.registered_stopDeadline] at hq
    exact Or.inl ⟨hq, nofun⟩
  | @dropped id htokens hsent =>
    have hlast := (h.unregisterAll (h.nodup_owned id) fun r hr => (h.mem_owned.mp hr).1).2
    rw [htokens, hlast.registered, h.mem_owned] at hq
    refine Or.inl ⟨hq.2, fun hact => hq.1 ⟨hq.2, ?_⟩⟩
    simp only [Option.some.injEq, ClaimAct.drop.injEq] at hact
    exact hact.symm

/-- Tokens are issued to whoever asks. -/
theorem act_eq_issue {e : Event} {t : JsString} {conn : RpcConnection}
    (hact : s.act e = some (.issue t conn)) : ∃ req, e = .request conn req ∧ conn ∈ s.created ∧
      (s.dispatch conn req).map Prod.snd = some (.token t) := by
  have hshown : ∀ (w : Window) (caption : JsString), shown w caption ≠ some (.issue t conn) := by
    intro w caption
    rw [shown]
    split_ifs <;> simp
  cases e with
  | request c req =>
    simp only [act] at hact
    split_ifs at hact with hc
    split at hact
    · rename_i t' hd
      simp only [Option.some.injEq, ClaimAct.issue.injEq] at hact
      obtain ⟨rfl, rfl⟩ := hact
      exact ⟨req, rfl, hc, hd⟩
    · simp at hact
  | windowAdded w data =>
    simp only [act] at hact
    split_ifs at hact
    exact absurd hact (hshown w _)
  | captionChanged w caption =>
    simp only [act] at hact
    split_ifs at hact
    exact absurd hact (hshown w _)
  | clientConnected id => simp [act] at hact
  | windowPropChanged w prop data => simp [act] at hact
  | workspacePropChanged prop data => simp [act] at hact
  | clientDisconnected id | windowRemoved w | deadline r =>
    simp only [act] at hact
    split_ifs at hact
    simp at hact

/-- A new entry belongs to a connection that was created. -/
theorem Transition.owner_created (ht : Transition s s' a) (h : s.WellFormed)
    (howner : ∀ r < s.tokens.nextEntry, (s.tokens.entries r).conn ∈ s.created) :
    ∀ r < s'.tokens.nextEntry, (s'.tokens.entries r).conn ∈ s.created := by
  have hold : s'.tokens.nextEntry = s.tokens.nextEntry →
      ∀ r < s'.tokens.nextEntry, (s'.tokens.entries r).conn ∈ s.created := by
    intro hnext r hr
    rw [hnext] at hr
    rw [((ht.entry_eq h).2 r hr).2]
    exact howner r hr
  cases ht with
  | quiet hidle htokens hsent hnotes => exact hold (by rw [htokens])
  | issued hconn hfresh hrun htokens hsent =>
    rw [htokens]
    intro r hr
    by_cases hrn : r = s.tokens.nextEntry
    · rw [hrn, TokenTable.entries_register_self]
      exact hconn
    · rw [TokenTable.entries_register_of_ne hrn]
      exact howner r (Nat.lt_of_le_of_ne (Nat.le_of_lt_succ hr) hrn)
  | validated hr hnone hrun hfree htokens hsent => exact hold (by rw [htokens]; rfl)
  | superseding hr hnone hrun hp hpw htokens hsent => exact hold (by rw [htokens]; rfl)
  | withdrawn hr hcause htokens hsent => exact hold (by rw [htokens]; rfl)
  | expired hr hsome htokens hsent => exact hold (by rw [htokens]; rfl)
  | @dropped id htokens hsent =>
    have hlast := (h.unregisterAll (h.nodup_owned id) fun r hr => (h.mem_owned.mp hr).1).2
    exact hold (by rw [htokens]; exact hlast.nextEntry)

/-! ### Connections -/

theorem sameConns_supersede (s : Script) (r : ℕ) (w : Window) : SameConns s (s.supersede r w) := by
  rw [supersede]
  split
  · split_ifs
    · exact ⟨rfl, rfl, rfl⟩
    · exact ⟨rfl, rfl, rfl⟩
  · exact ⟨rfl, rfl, rfl⟩

theorem sameConns_checkCaption (s : Script) (w : Window) : SameConns s (s.checkCaption w) := by
  simp only [checkCaption]
  split_ifs
  · exact ⟨rfl, rfl, rfl⟩
  · split
    · exact ⟨rfl, rfl, rfl⟩
    · split_ifs
      · split
        · obtain ⟨hcreated, halive, hconns⟩ := sameConns_supersede s ‹ℕ› w
          exact ⟨hcreated, halive, hconns⟩
        · split_ifs
          · exact ⟨rfl, rfl, rfl⟩
          · exact ⟨rfl, rfl, rfl⟩
      · exact ⟨rfl, rfl, rfl⟩

theorem sameConns_dispatch {conn : RpcConnection} {req : Request} {answer : Answer}
    (hd : s.dispatch conn req = some (s', answer)) : SameConns s s' := by
  cases dispatch_cases hd with
  | idle hs hanswer => exact hs ▸ ⟨rfl, rfl, rfl⟩
  | issued hanswer hshape hfresh hrun hs => exact hs ▸ ⟨rfl, rfl, rfl⟩
  | watch hwindow hprops hanswer hs => exact hs ▸ ⟨rfl, rfl, rfl⟩
  | workspaceWatch hanswer hs => exact hs ▸ ⟨rfl, rfl, rfl⟩

/-- Only control events change who is connected. -/
theorem sameConns_step (s : Script) {e : Event} (hconn : ∀ id, e ≠ .clientConnected id)
    (hdisc : ∀ id, e ≠ .clientDisconnected id) : SameConns s (s.step e) := by
  cases e with
  | clientConnected id => exact absurd rfl (hconn id)
  | clientDisconnected id => exact absurd rfl (hdisc id)
  | request conn req =>
    simp only [step]
    split_ifs
    · cases hd : s.dispatch conn req with
      | none => exact ⟨rfl, rfl, rfl⟩
      | some res => exact sameConns_dispatch hd
    · exact ⟨rfl, rfl, rfl⟩
  | windowAdded window data =>
    simp only [step]
    split_ifs
    · exact ⟨rfl, rfl, rfl⟩
    · obtain ⟨hcreated, halive, hconns⟩ := sameConns_checkCaption { s with
        data := Function.update s.data window data
        windows := window :: s.windows } window
      exact ⟨hcreated, halive, hconns⟩
  | captionChanged window caption =>
    simp only [step]
    split_ifs
    · obtain ⟨hcreated, halive, hconns⟩ :=
        sameConns_checkCaption (s.setCaption window caption) window
      exact ⟨hcreated, halive, hconns⟩
    · exact ⟨rfl, rfl, rfl⟩
  | windowRemoved window =>
    simp only [step, onWindowRemoved]
    split_ifs
    · split <;> exact ⟨rfl, rfl, rfl⟩
    · exact ⟨rfl, rfl, rfl⟩
  | deadline r =>
    simp only [step, onTokenDeadline]
    split_ifs
    · split <;> exact ⟨rfl, rfl, rfl⟩
    · exact ⟨rfl, rfl, rfl⟩
  | windowPropChanged window prop data =>
    simp only [step, foldl_onWindowChanged]
    exact ⟨rfl, rfl, rfl⟩
  | workspacePropChanged prop data =>
    simp only [step, foldl_onWorkspaceChanged]
    exact ⟨rfl, rfl, rfl⟩

/-- The connections stay as they are, entries are owned as before or by somebody created. -/
theorem Connected.of_same (hc : s.Connected) (hsame : SameConns s s')
    (howner : ∀ r < s'.tokens.nextEntry, (s'.tokens.entries r).conn ∈ s.created) :
    s'.Connected := by
  obtain ⟨hcreated, halive, hconns⟩ := hsame
  refine ⟨?_, ?_, ?_, ?_, ?_⟩
  · rw [hcreated]
    exact hc.ref_lt
  · rw [hcreated]
    exact hc.unique
  · rw [hcreated, halive, hconns]
    exact hc.alive_iff
  · rw [hcreated, hconns]
    exact hc.known
  · rw [hcreated]
    exact howner

theorem Connected.connect (hc : s.Connected) (id : ℕ) : (s.onClientConnected id).Connected := by
  simp only [onClientConnected]
  split_ifs with hid
  · exact hc
  · have hid : s.connections.lookup id = none := Option.not_isSome_iff_eq_none.mp hid
    have hne : ∀ c ∈ s.created, c.ref ≠ s.created.length :=
      fun c hcr => Nat.ne_of_lt (hc.ref_lt c hcr)
    refine ⟨fun c hcr => ?_, fun c hcr d hdr hcd => ?_, fun c hcr => ?_, fun i c hic => ?_,
      fun r hr => List.mem_append_left _ (hc.owner r hr)⟩
    · rw [List.length_append, List.length_singleton]
      rcases List.mem_append.mp hcr with hcr | hcr
      · exact Nat.lt_succ_of_lt (hc.ref_lt c hcr)
      · rw [List.mem_singleton.mp hcr]
        exact Nat.lt_succ_self _
    · rcases List.mem_append.mp hcr with hcr | hcr <;> rcases List.mem_append.mp hdr with hdr | hdr
      · exact hc.unique c hcr d hdr hcd
      · rw [List.mem_singleton.mp hdr] at hcd
        exact absurd hcd (hne c hcr)
      · rw [List.mem_singleton.mp hcr] at hcd
        exact absurd hcd.symm (hne d hdr)
      · rw [List.mem_singleton.mp hcr, List.mem_singleton.mp hdr]
    · simp only
      rcases List.mem_append.mp hcr with hcr | hcr
      · rw [Function.update_of_ne (hne c hcr), hc.alive_iff c hcr]
        by_cases hci : c.id = id
        · rw [hci, hid, AList.lookup_insert]
          refine iff_of_false (by simp) fun heq => hne c hcr ?_
          rw [← Option.some.inj heq]
        · rw [AList.lookup_insert_ne hci]
      · rw [List.mem_singleton.mp hcr]
        simp
    · simp only at hic
      by_cases hi : i = id
      · subst hi
        rw [AList.lookup_insert] at hic
        cases hic
        exact ⟨List.mem_append_right _ (List.mem_singleton_self _), rfl⟩
      · rw [AList.lookup_insert_ne hi] at hic
        obtain ⟨hcr, hcid⟩ := hc.known i c hic
        exact ⟨List.mem_append_left _ hcr, hcid⟩

/-- The state in which a disconnected client's tokens and watches are dropped. -/
theorem Connected.disconnect (hc : s.Connected) (h : s.WellFormed) (id : ℕ) :
    (s.onClientDisconnected id).Connected := by
  have howner := (step_transition h (.clientDisconnected id)).owner_created h hc.owner
  simp only [step, onClientDisconnected] at howner
  simp only [onClientDisconnected]
  cases hid : s.connections.lookup id with
  | none => exact hc
  | some conn =>
    simp only [hid] at howner
    obtain ⟨hconn, rfl⟩ := hc.known id conn hid
    refine ⟨hc.ref_lt, hc.unique, fun c hcr => ?_, fun i c hic => ?_, howner⟩
    · change Function.update s.alive conn.ref false c.ref = true ↔
        (s.connections.erase conn.id).lookup c.id = some c
      by_cases hcc : c = conn
      · subst hcc
        simp [AList.lookup_erase]
      · rw [Function.update_of_ne fun href => hcc (hc.unique c hcr conn hconn href),
          hc.alive_iff c hcr]
        by_cases hci : c.id = conn.id
        · rw [hci, hid, AList.lookup_erase]
          exact iff_of_false (fun heq => hcc (Option.some.inj heq).symm) (by simp)
        · rw [AList.lookup_erase_ne hci]
    · change (s.connections.erase conn.id).lookup i = some c at hic
      by_cases hi : i = conn.id
      · subst hi
        simp [AList.lookup_erase] at hic
      · rw [AList.lookup_erase_ne hi] at hic
        exact hc.known i c hic

theorem Connected.step (hc : s.Connected) (h : s.WellFormed) (e : Event) :
    (s.step e).Connected := by
  by_cases hconn : ∃ id, e = .clientConnected id
  · obtain ⟨id, rfl⟩ := hconn
    exact hc.connect id
  · by_cases hdisc : ∃ id, e = .clientDisconnected id
    · obtain ⟨id, rfl⟩ := hdisc
      exact hc.disconnect h id
    · refine hc.of_same (sameConns_step s (fun id he => hconn ⟨id, he⟩)
        fun id he => hdisc ⟨id, he⟩) ?_
      exact (step_transition h e).owner_created h hc.owner

theorem connected_load (windows : List Window) (data : Window → WindowData)
    (workspace : WorkspaceData) : (load windows data workspace).Connected :=
  ⟨nofun, nofun, nofun, nofun, nofun⟩

theorem connected_run (windows : List Window) (data : Window → WindowData)
    (workspace : WorkspaceData) (es : List Event) :
    ((load windows data workspace).run es).Connected := by
  induction es using List.reverseRecOn with
  | nil => exact connected_load windows data workspace
  | append_singleton es e ih =>
    rw [run_concat]
    exact ih.step ((wellFormed_load windows data workspace).run es) e

/-- A connection object that is not alive stays so. -/
theorem alive_step (hc : s.Connected) {c : RpcConnection} (hcr : c ∈ s.created) {e : Event}
    (hdead : s.alive c.ref = false) : (s.step e).alive c.ref = false := by
  by_cases hconn : ∃ id, e = .clientConnected id
  · obtain ⟨id, rfl⟩ := hconn
    simp only [step, onClientConnected]
    split_ifs
    · exact hdead
    · simp only
      rw [Function.update_of_ne (Nat.ne_of_lt (hc.ref_lt c hcr))]
      exact hdead
  · by_cases hdisc : ∃ id, e = .clientDisconnected id
    · obtain ⟨id, rfl⟩ := hdisc
      simp only [step, onClientDisconnected]
      cases s.connections.lookup id with
      | none => exact hdead
      | some conn =>
        change Function.update s.alive conn.ref false c.ref = false
        by_cases href : c.ref = conn.ref
        · rw [href, Function.update_self]
        · rw [Function.update_of_ne href]
          exact hdead
    · rw [(sameConns_step s (fun id he => hconn ⟨id, he⟩) fun id he => hdisc ⟨id, he⟩).alive]
      exact hdead

/-- A connection object that is alive stays so until its client disconnects. -/
theorem alive_keep (hc : s.Connected) {c : RpcConnection} (hcr : c ∈ s.created) {e : Event}
    (halive : s.alive c.ref = true) (he : e ≠ .clientDisconnected c.id) :
    (s.step e).alive c.ref = true := by
  by_cases hconn : ∃ id, e = .clientConnected id
  · obtain ⟨id, rfl⟩ := hconn
    simp only [step, onClientConnected]
    split_ifs
    · exact halive
    · simp only
      rw [Function.update_of_ne (Nat.ne_of_lt (hc.ref_lt c hcr))]
      exact halive
  · by_cases hdisc : ∃ id, e = .clientDisconnected id
    · obtain ⟨id, rfl⟩ := hdisc
      simp only [step, onClientDisconnected]
      cases hid : s.connections.lookup id with
      | none => exact halive
      | some conn =>
        obtain ⟨hcreated, rfl⟩ := hc.known id conn hid
        change Function.update s.alive conn.ref false c.ref = true
        rw [Function.update_of_ne]
        · exact halive
        · intro href
          rw [hc.unique c hcr conn hcreated href] at he
          exact he rfl
    · rw [(sameConns_step s (fun id he => hconn ⟨id, he⟩) fun id he => hdisc ⟨id, he⟩).alive]
      exact halive

end Script

end KwinApi
