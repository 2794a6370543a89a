import KwinApi.Script.Connections
import KwinApi.Script.Ownership

/-!
# Window watches follow the tokens

A watch is set up through a token and torn down with it: the slots connected to the windows'
signals are exactly the handlers on the books, and the books hold only active tokens, with the
windows they are bound to.

## Main definitions

* `KwinApi.Script.Follows` — the watches follow the tokens
* `Script.dispatchedAlive` — runs that dispatch requests for connected clients only

## Main results

* `Script.follows_run` — in every reachable state
* `Script.Follows.fires` — whom a firing signal tells
* `Script.window_watches_follow` — slots, books, notifications and results together
-/

namespace KwinApi

namespace Script

variable {s s' : Script} {a : Option TokenAct}

/-- The window watches follow the tokens. -/
structure Follows (s : Script) : Prop where
  /-- The slots are exactly the handlers on the books, each connected once. -/
  consistent : s.watches.Consistent
  /-- A key is the token of a registered entry, and its window the one the entry is bound to. -/
  bound : ∀ t st, s.watches.watches.lookup t = some st →
    ∃ r, s.tokens.Registered r ∧ (s.tokens.entries r).token = t ∧
      (s.tokens.entries r).window = some st.source
  /-- The handlers notify the owner of the token. -/
  owner : ∀ r p handler, s.tokens.Registered r →
    s.watches.Stored (s.tokens.entries r).token p handler → handler.conn = (s.tokens.entries r).conn
  /-- Only watchable properties are watched. -/
  watchable : ∀ t p handler, s.watches.Stored t p handler → p ∈ watchProps

/-! ### Tokens leave with their watches -/

/-- Some tokens are dropped from the books; every other active entry stays as it is. -/
theorem Follows.of_drop (hf : s.Follows) {ts : List JsString}
    (hwatches : s'.watches = s.watches.dropAll ts)
    (hkeep : ∀ r, s.tokens.Registered r → (s.tokens.entries r).window ≠ none →
      (s.tokens.entries r).token ∉ ts → s'.tokens.Registered r ∧
      (s'.tokens.entries r).token = (s.tokens.entries r).token ∧
      (s'.tokens.entries r).window = (s.tokens.entries r).window ∧
      (s'.tokens.entries r).conn = (s.tokens.entries r).conn) : s'.Follows := by
  have hbound : ∀ t st, s'.watches.watches.lookup t = some st →
      ∃ r, s.tokens.Registered r ∧ (s.tokens.entries r).token = t ∧
        (s.tokens.entries r).window = some st.source ∧ t ∉ ts := by
    intro t st hst
    rw [hwatches, WatchTable.lookup_dropAll] at hst
    split_ifs at hst with hts
    obtain ⟨r, hr, ht, hw⟩ := hf.bound t st hst
    exact ⟨r, hr, ht, hw, hts⟩
  refine ⟨?_, fun t st hst => ?_, fun r p handler hr hstored => ?_, fun t p handler hstored => ?_⟩
  · rw [hwatches]
    exact hf.consistent.dropAll ts
  · obtain ⟨r, hr, rfl, hw, hts⟩ := hbound t st hst
    obtain ⟨hr', ht', hw', -⟩ := hkeep r hr (by simp [hw]) hts
    exact ⟨r, hr', ht', hw'.trans hw⟩
  · obtain ⟨st, hst, hhandler⟩ := id hstored
    obtain ⟨q, hq, hqt, hw, hts⟩ := hbound _ st hst
    obtain ⟨hq', ht', -, hconn⟩ := hkeep q hq (by simp [hw]) (hqt ▸ hts)
    obtain rfl : r = q := hr.eq_of_token_eq hq' (hqt.symm.trans ht'.symm)
    rw [hwatches, WatchTable.stored_dropAll, ← hqt] at hstored
    rw [hconn]
    exact hf.owner r p handler hq hstored.2
  · rw [hwatches, WatchTable.stored_dropAll] at hstored
    exact hf.watchable t p handler hstored.2

/-! ### `window.watch` -/

/-- A client sets or removes watches through a token that resolves to a window. -/
theorem Follows.of_call (hf : s.Follows) (h : s.WellFormed) (htokens : s'.tokens = s.tokens)
    {token : JsString} {conn : RpcConnection} {window : Window}
    {watchInfo : List (Sigma fun _ : JsString => Bool)}
    (hwindow : s.resolveTokenWindow token conn = .ok window)
    (hprops : ∀ e ∈ watchInfo, e.1 ∈ watchProps)
    (hwatches : s'.watches = (WatchTable.setAll token conn window s.watches watchInfo).1) :
    s'.Follows := by
  obtain ⟨o, hclaim⟩ := (resolveTokenWindow_eq_ok h).mp hwindow
  obtain ⟨r, hr, rfl, hcl⟩ := h.claims_eq_some.mp hclaim
  simp only [TokenTable.claim, Claim.mk.injEq] at hcl
  obtain ⟨hconn, hrw, -⟩ := hcl
  -- Whatever is filed under the token is about the window it resolves to.
  have hsource : ∀ st, s.watches.watches.lookup (s.tokens.entries r).token = some st →
      st.source = window := by
    intro st hst
    obtain ⟨q, hq, hqt, hqw⟩ := hf.bound _ st hst
    rw [hq.eq_of_token_eq hr hqt, hrw] at hqw
    exact (Option.some.inj hqw).symm
  have hset := @WatchTable.setAll_induction _ _ _ _ _ _ s.watches (s.tokens.entries r).token conn
    window _ _ (fun W => W.Consistent ∧
      (∀ st, W.watches.lookup (s.tokens.entries r).token = some st → st.source = window) ∧
      (∀ t, t ≠ (s.tokens.entries r).token → W.watches.lookup t = s.watches.watches.lookup t) ∧
      ∀ t p handler, W.Stored t p handler → s.watches.Stored t p handler ∨
        (t = (s.tokens.entries r).token ∧ p ∈ watchProps ∧ handler.conn = conn)) watchInfo
    (fun W e he hW => ?_) ⟨hf.consistent, hsource, fun _ _ => rfl, fun _ _ _ => Or.inl⟩
  · obtain ⟨hcons, hsrc, hother, hstored⟩ := hset
    rw [← hwatches] at hcons hsrc hother hstored
    refine ⟨hcons, fun t st hst => ?_, fun q p handler hq hh => ?_, fun t p handler hh => ?_⟩
    · rw [htokens]
      by_cases ht : t = (s.tokens.entries r).token
      · subst ht
        exact ⟨r, hr, rfl, hrw.trans (congrArg some (hsrc st hst).symm)⟩
      · rw [hother t ht] at hst
        exact hf.bound t st hst
    · rw [htokens] at hq hh ⊢
      rcases hstored _ _ _ hh with hh | ⟨ht, -, hhconn⟩
      · exact hf.owner q p handler hq hh
      · rw [hq.eq_of_token_eq hr ht, hconn, hhconn]
    · rcases hstored _ _ _ hh with hh | ⟨-, hp, -⟩
      · exact hf.watchable t p handler hh
      · exact hp
  · obtain ⟨hcons, hsrc, hother, hstored⟩ := hW
    refine ⟨hcons.set hsrc e.2, fun st hst => WatchTable.source_set hsrc e.2 hst,
      fun t ht => (WatchTable.lookup_set_of_ne ht e.2).trans (hother t ht),
      fun t p handler hh => ?_⟩
    rcases hh.of_set with hh | ⟨ht, hp, hhconn⟩
    · exact hstored t p handler hh
    · exact Or.inr ⟨ht, hp ▸ hprops e he, hhconn⟩

/-! ### Steps -/

/-- Every event keeps the watches with the tokens. -/
theorem Transition.follows (ht : Transition s s' a) (h : s.WellFormed) (hf : s.Follows) :
    s'.Follows := by
  have hsame : s'.watches = s.watches → s'.watches = s.watches.dropAll [] := id
  cases ht with
  | quiet hidle htokens hsent hnotes hcall =>
    cases hcall with
    | none hwatches =>
      refine hf.of_drop (hsame hwatches) fun r hr _ _ => ?_
      rw [htokens]
      exact ⟨hr, rfl, rfl, rfl⟩
    | call hwindow hprops hwatches => exact hf.of_call h htokens hwindow hprops hwatches
  | issued hconn hfresh hrun htokens hsent hwatches =>
    refine hf.of_drop (hsame hwatches) fun r hr _ _ => ?_
    have hne : r ≠ s.tokens.nextEntry := Nat.ne_of_lt (h.lt_next _ r hr)
    rw [htokens, TokenTable.registered_register hfresh hne, TokenTable.entries_register_of_ne hne]
    exact ⟨hr, rfl, rfl, rfl⟩
  | @validated q w hq hnone hrun hfree htokens hsent hwatches =>
    refine hf.of_drop (hsame hwatches) fun r hr hsome _ => ?_
    have hne : r ≠ q := by
      rintro rfl
      exact hsome hnone
    rw [htokens, TokenTable.registered_bind, TokenTable.entries_bind_of_ne hne]
    exact ⟨hr, rfl, rfl, rfl⟩
  | @superseding q p w hq hnone hrun hp hpw htokens hsent hwatches =>
    refine hf.of_drop hwatches fun r hr hsome hts => ?_
    have hne : r ≠ q := by
      rintro rfl
      exact hsome hnone
    have hnp : r ≠ p := by
      rintro rfl
      exact hts (List.mem_singleton_self _)
    rw [htokens, TokenTable.registered_bind, TokenTable.registered_unregister hp,
      TokenTable.entries_bind_of_ne hne]
    exact ⟨⟨hnp, hr⟩, by simp, by simp, by simp⟩
  | @withdrawn q a reason hq hcause htokens hsent hwatches =>
    refine hf.of_drop hwatches fun r hr hsome hts => ?_
    have hne : r ≠ q := by
      rintro rfl
      exact hts (List.mem_singleton_self _)
    rw [htokens, TokenTable.registered_unregister hq]
    exact ⟨⟨hne, hr⟩, by simp, by simp, by simp⟩
  | expired hq hsome htokens hsent hwatches =>
    refine hf.of_drop (hsame hwatches) fun r hr _ _ => ?_
    rw [htokens, TokenTable.registered_stopDeadline]
    exact ⟨hr, by simp, by simp, by simp⟩
  | @dropped id htokens hsent hwatches =>
    have hlast := (h.unregisterAll (h.nodup_owned id) fun r hr => (h.mem_owned.mp hr).1).2
    refine hf.of_drop hwatches fun r hr _ hts => ?_
    rw [htokens] at hts ⊢
    have hnot : r ∉ s.tokens.owned id :=
      fun hmem => hts (List.mem_map.mpr ⟨r, hmem, hlast.token r⟩)
    exact ⟨(hlast.registered r).mpr ⟨hnot, hr⟩, hlast.token r, hlast.window r, hlast.conn r⟩

theorem follows_run (windows : List Window) (data : Window → WindowData)
    (workspace : WorkspaceData) (es : List Event) :
    ((load windows data workspace).run es).Follows := by
  induction es using List.reverseRecOn with
  | nil => exact ⟨WatchTable.consistent_empty, nofun, nofun, nofun⟩
  | append_singleton es e ih =>
    have h := (wellFormed_load windows data workspace).run es
    rw [run_concat]
    exact (step_transition h e).follows h ih

/-! ### Requests of connected clients -/

/-- Requests are dispatched for connected clients only. -/
def dispatchedAlive : Script → List Event → Bool
  | _, [] => true
  | s, .request conn req :: es =>
    s.alive conn.ref && (s.step (.request conn req)).dispatchedAlive es
  | s, e :: es => (s.step e).dispatchedAlive es

/-- The registered tokens are owned by connected clients. -/
def OwnersAlive (s : Script) : Prop :=
  ∀ r, s.tokens.Registered r → s.alive (s.tokens.entries r).conn.ref = true

theorem dispatchedAlive_cons {e : Event} {es : List Event} (hes : s.dispatchedAlive (e :: es)) :
    (∀ conn req, e = .request conn req → s.alive conn.ref = true) ∧
      (s.step e).dispatchedAlive es := by
  cases e with
  | request conn req =>
    rw [dispatchedAlive, Bool.and_eq_true] at hes
    refine ⟨?_, hes.2⟩
    rintro _ _ ⟨⟩
    exact hes.1
  | _ => exact ⟨fun _ _ he => (nomatch he), hes⟩

theorem OwnersAlive.step (hl : s.OwnersAlive) (h : s.WellFormed) (hc : s.Connected) {e : Event}
    (he : ∀ conn req, e = .request conn req → s.alive conn.ref = true) :
    (s.step e).OwnersAlive := by
  intro q hq
  have ht := step_transition h e
  rcases ht.registered_cases h hq with ⟨hreg, hdrop⟩ | ⟨-, t, hact⟩
  · have hlt := h.lt_next _ q hreg
    have hcr := hc.owner q hlt
    rw [((ht.entry_eq h).2 q hlt).2]
    refine alive_keep hc hcr (hl q hreg) ?_
    rintro rfl
    -- Its client disconnects, so the entry was dropped.
    refine hdrop ?_
    simp only [act]
    rw [(hc.alive_iff _ hcr).mp (hl q hreg)]
    rfl
  · obtain ⟨req, heq, hcr, -⟩ := act_eq_issue hact
    refine alive_keep hc hcr (he _ req heq) ?_
    rw [heq]
    simp

theorem OwnersAlive.run (hl : s.OwnersAlive) (h : s.WellFormed) (hc : s.Connected)
    {es : List Event} (hes : s.dispatchedAlive es) : (s.run es).OwnersAlive := by
  induction es generalizing s with
  | nil => exact hl
  | cons e es ih =>
    obtain ⟨he, hes⟩ := dispatchedAlive_cons hes
    exact ih (hl.step h hc he) (h.step e) (hc.step h e) hes

/-! ### Signals -/

/-- The owner of a registered token is told the value of a property. -/
def Tells (s : Script) (prop : JsString) (value : PropValue) (t : JsString) (n : Notified) : Prop :=
  ∃ r, s.tokens.byToken.lookup t = some r ∧
    n = ⟨(s.tokens.entries r).conn, none, .windowChanged t prop value⟩

/-- What a firing signal sends: a notification for each slot connected to it, as long as the client
of the slot is connected. -/
theorem Follows.delivered (hf : s.Follows) (w : Window) (prop : JsString) (data : WindowData) :
    (s.step (.windowPropChanged w prop data)).sent = s.sent ++
      (s.watches.slots.filter fun slot => slot.source = w ∧ slot.prop = prop).flatMap fun slot =>
        s.delivered slot.handler.conn none (.windowChanged slot.handler.key prop
          (propValue ((s.step (.windowPropChanged w prop data)).data w) prop)) := by
  simp only [step, foldl_onWindowChanged]
  refine congrArg (s.sent ++ ·) (List.flatMap_congr fun slot hslot => ?_)
  obtain ⟨hmem, hon⟩ := List.mem_filter.mp hslot
  obtain ⟨hw, hp⟩ := of_decide_eq_true hon
  obtain ⟨-, hsource, hprop⟩ := (hf.consistent.slots_iff slot).mp hmem
  rw [← hsource, ← hprop, hw, hp]
  rfl

/-- With the owners of all tokens connected there is one notification for each slot. -/
theorem Follows.sent (hf : s.Follows) (hl : s.OwnersAlive) (w : Window) (prop : JsString)
    (data : WindowData) : (s.step (.windowPropChanged w prop data)).sent = s.sent ++
      (s.watches.slots.filter fun slot => slot.source = w ∧ slot.prop = prop).map fun slot =>
        ⟨slot.handler.conn, none, .windowChanged slot.handler.key prop
          (propValue ((s.step (.windowPropChanged w prop data)).data w) prop)⟩ := by
  rw [hf.delivered, List.map_eq_flatMap]
  refine congrArg (s.sent ++ ·) (List.flatMap_congr fun slot hslot => ?_)
  obtain ⟨hmem, -⟩ := List.mem_filter.mp hslot
  obtain ⟨hstored, -⟩ := (hf.consistent.slots_iff slot).mp hmem
  obtain ⟨st, hst, -⟩ := id hstored
  obtain ⟨r, hr, ht, -⟩ := hf.bound _ st hst
  rw [Script.delivered, hf.owner r _ slot.handler hr (ht.symm ▸ hstored), if_pos (hl r hr)]

/-- A firing signal tells the owner of each token with a watch on the property. -/
theorem Follows.fires (hf : s.Follows) (hl : s.OwnersAlive) (w : Window) (prop : JsString)
    (data : WindowData) : ∃ (ts : List JsString) (notes : List Notified), ts.Nodup ∧
      (∀ t, t ∈ ts ↔ ∃ st, s.watches.watches.lookup t = some st ∧ st.source = w ∧
        (st.handlers.lookup prop).isSome) ∧
      (s.step (.windowPropChanged w prop data)).sent = s.sent ++ notes ∧
      List.Forall₂ (s.Tells prop
        (propValue ((s.step (.windowPropChanged w prop data)).data w) prop)) ts notes := by
  have hslot : ∀ slot ∈ s.watches.slots.filter fun slot => slot.source = w ∧ slot.prop = prop,
      s.watches.Stored slot.handler.key prop slot.handler ∧ slot.handler.source = w ∧
        slot = ⟨w, prop, slot.handler⟩ := by
    intro slot hslot
    obtain ⟨hmem, hon⟩ := List.mem_filter.mp hslot
    obtain ⟨rfl, rfl⟩ := of_decide_eq_true hon
    obtain ⟨hstored, hsource, hprop⟩ := (hf.consistent.slots_iff slot).mp hmem
    exact ⟨hprop ▸ hstored, hsource.symm, rfl⟩
  refine ⟨(s.watches.slots.filter fun slot => slot.source = w ∧ slot.prop = prop).map
    fun slot => slot.handler.key, _, ?_, fun t => ?_, hf.sent hl w prop data, ?_⟩
  · refine List.Nodup.map_on (fun x hx y hy hxy => ?_) (hf.consistent.nodup.filter _)
    obtain ⟨⟨st, hst, hh⟩, -, hx⟩ := hslot x hx
    obtain ⟨⟨st', hst', hh'⟩, -, hy⟩ := hslot y hy
    rw [hxy, hst', Option.some.injEq] at hst
    rw [← hst, hh', Option.some.injEq] at hh
    rw [hx, hy, hh]
  · rw [List.mem_map]
    constructor
    · rintro ⟨slot, hmem, rfl⟩
      obtain ⟨⟨st, hst, hh⟩, hsource, -⟩ := hslot slot hmem
      obtain ⟨-, -, hsrc⟩ := hf.consistent.filed _ st _ _ hst hh
      exact ⟨st, hst, hsrc.symm.trans hsource, Option.isSome_iff_exists.mpr ⟨_, hh⟩⟩
    · rintro ⟨st, hst, rfl, hsome⟩
      obtain ⟨handler, hh⟩ := Option.isSome_iff_exists.mp hsome
      obtain ⟨hkey, hprop, hsource⟩ := hf.consistent.filed t st prop handler hst hh
      refine ⟨⟨st.source, prop, handler⟩, List.mem_filter.mpr ⟨?_, by simp⟩, hkey⟩
      refine (hf.consistent.slots_iff _).mpr ⟨⟨st, ?_, ?_⟩, hsource.symm, hprop.symm⟩
      · rw [hkey, hst]
      · rw [hprop, hh]
  · rw [List.forall₂_map_left_iff, List.forall₂_map_right_iff, List.forall₂_same]
    intro slot hmem
    obtain ⟨hstored, -, -⟩ := hslot slot hmem
    obtain ⟨st, hst, -⟩ := id hstored
    obtain ⟨r, hr, ht, -⟩ := hf.bound _ st hst
    refine ⟨r, ht ▸ hr, ?_⟩
    rw [hf.owner r prop slot.handler hr (ht.symm ▸ hstored)]

/-! ### Main result -/

/-- The slots on the windows are the handlers on the books; the books hold watches of active tokens
on their windows; a firing signal tells each owner once; a call reports what is on the books. -/
theorem window_watches_follow (windows : List Window) (data : Window → WindowData)
    (workspace : WorkspaceData) (es : List Event)
    (hes : (load windows data workspace).dispatchedAlive es = true) :
    let s := (load windows data workspace).run es
    ((s.watches.slots.map Slot.handler).Nodup ∧
      (∀ slot, slot ∈ s.watches.slots ↔ ∃ t st, s.watches.watches.lookup t = some st ∧
        st.handlers.lookup slot.prop = some slot.handler ∧ slot.source = st.source) ∧
      ∀ slot ∈ s.watches.slots, slot.prop ∈ watchProps) ∧
    (∀ t st, s.watches.watches.lookup t = some st → st.handlers.entries ≠ [] ∧
      ∃ r, s.tokens.byToken.lookup t = some r ∧ (s.tokens.entries r).state = .active ∧
        (s.tokens.entries r).window = some st.source) ∧
    (∀ w prop now, ∃ (ts : List JsString) (notes : List Notified), ts.Nodup ∧
      (∀ t, t ∈ ts ↔ ∃ st, s.watches.watches.lookup t = some st ∧ st.source = w ∧
        (st.handlers.lookup prop).isSome) ∧
      (s.step (.windowPropChanged w prop now)).sent = s.sent ++ notes ∧
      List.Forall₂ (s.Tells prop
        (propValue ((s.step (.windowPropChanged w prop now)).data w) prop)) ts notes) ∧
    ∀ conn t info s' result, s.dispatch conn (.windowWatch t info) = some (s', .watching result) →
      result.map Prod.fst = info.keys ∧
      ∀ p connected, (p, connected) ∈ result →
        (connected = true ↔ s'.watches.Watches t p) := by
  intro s
  have h : s.WellFormed := (wellFormed_load windows data workspace).run es
  have hf : s.Follows := follows_run windows data workspace es
  have hload : (load windows data workspace).OwnersAlive := by
    intro r hr
    cases hr
  have hl : s.OwnersAlive := hload.run (wellFormed_load windows data workspace)
    (connected_load windows data workspace) hes
  refine ⟨⟨?_, fun slot => ?_, fun slot hslot => ?_⟩, fun t st hst => ?_, fun w prop now => ?_,
    fun conn t info s' result hd => ?_⟩
  · refine List.Nodup.map_on (fun x hx y hy hxy => ?_) hf.consistent.nodup
    obtain ⟨-, hx, hx'⟩ := (hf.consistent.slots_iff x).mp hx
    obtain ⟨-, hy, hy'⟩ := (hf.consistent.slots_iff y).mp hy
    obtain ⟨_, _, _⟩ := x
    obtain ⟨_, _, _⟩ := y
    simp only at hx hx' hy hy' hxy
    rw [hx, hx', hy, hy', hxy]
  · rw [hf.consistent.slots_iff]
    constructor
    · rintro ⟨⟨st, hst, hh⟩, hsource, hprop⟩
      obtain ⟨-, -, hsrc⟩ := hf.consistent.filed _ st _ _ hst hh
      exact ⟨_, st, hst, hprop ▸ hh, hsource.trans hsrc⟩
    · rintro ⟨t, st, hst, hh, hsource⟩
      obtain ⟨hkey, hprop, hsrc⟩ := hf.consistent.filed t st _ _ hst hh
      refine ⟨⟨st, ?_, ?_⟩, hsource.trans hsrc.symm, hprop.symm⟩
      · rw [hkey, hst]
      · rw [hprop, hh]
  · obtain ⟨hstored, -, hprop⟩ := (hf.consistent.slots_iff slot).mp hslot
    rw [hprop]
    exact hf.watchable _ _ _ hstored
  · obtain ⟨r, hr, rfl, hw⟩ := hf.bound t st hst
    exact ⟨hf.consistent.nonempty _ st hst, r, hr, h.state_of_window hw, hw⟩
  · exact hf.fires hl w prop now
  · rw [dispatch, windowWatch, Option.some.injEq] at hd
    split at hd
    · simp at hd
    · split at hd
      · simp at hd
      · simp only [Prod.mk.injEq, Answer.watching.injEq] at hd
        obtain ⟨rfl, rfl⟩ := hd
        refine ⟨?_, fun p connected hmem => ?_⟩
        · rw [WatchTable.setAll_snd, List.map_map]
          rfl
        · exact WatchTable.setAll_result info.entries info.nodupKeys hmem

/-- Client 1 is issued a token, a new window shows it, and the client watches a property. -/
theorem window_watches_follow_one :
    let token : JsString := List.replicate 20 65
    let es : List Event := [.clientConnected 1,
      .request ⟨0, 1⟩ (.tokenRequest 1 [fun _ => ⟨0, 1, Nat.one_pos⟩]),
      .windowAdded ⟨⟨List.replicate 32 0, rfl⟩⟩ ⟨token, [], [], fun _ => .undefined⟩,
      .request ⟨0, 1⟩ (.windowWatch token (AList.insert (js "minimized") true ∅))]
    (loadEmpty.run es).watches.slots.length = 1 ∧
      ∀ slot ∈ (loadEmpty.run es).watches.slots, slot.prop ∈ watchProps := by
  intro token es
  refine ⟨by decide, ?_⟩
  exact (window_watches_follow [] _ _ es (by decide)).1.2.2

end Script

end KwinApi
