import KwinApi.Lib.Mirror
import KwinApi.Script.Loops
import KwinApi.Script.Outcome
import KwinApi.Script.Query
import KwinApi.Script.WindowWatch

/-!
# Clients that watch a window know its properties

A client that watches a property of its token's window and then reads it can follow it from there:
as long as it is connected, keeps the watch and is not told that its token became invalid, the last
`window.changed` it was sent, or else the value it read, is what it would read now.

KWin's part is that the signal of a property is emitted when the property changes.

## Main definitions

* `KwinApi.Notified.windowNews`, `Notified.Withdraws` — what a notification tells a client
* `KwinApi.Script.Announced` — runs in which every change of a property is announced
* `KwinApi.Script.Aside` — events that have nothing to do with watched windows
* `KwinApi.Script.Watching` — a client that watches a property

## Main results

* `KwinApi.Script.window_mirror`
-/

namespace KwinApi

/-- The value a notification reports to a client of a property of its token's window. -/
def Notified.windowNews (conn : RpcConnection) (token prop : JsString) (n : Notified) :
    Option PropValue :=
  match n.note with
  | .windowChanged t p value =>
    if n.conn = conn ∧ t = token ∧ p = prop then some value else none
  | _ => none

/-- A notification tells a client that its token became invalid. -/
def Notified.Withdraws (conn : RpcConnection) (token : JsString) (n : Notified) : Prop :=
  n.conn = conn ∧ ∃ reason window, n.note = .tokenInvalidated token reason window

/-- A request of a client to stop watching a property of its token's window. -/
def Event.Unwatches (conn : RpcConnection) (token prop : JsString) : Event → Prop
  | .request c (.windowWatch t info) => c = conn ∧ t = token ∧ ⟨prop, false⟩ ∈ info.entries
  | _ => False

namespace Script

variable {s s' : Script} {conn : RpcConnection} {t prop : JsString} {w : Window} {q r : ℕ}

/-- The event changes no watchable property but the one it announces. -/
def Announces (s : Script) : Event → Prop
  | .windowPropChanged w p data =>
    ∀ q ∈ watchProps, q ≠ p → propValue data q = propValue (s.data w) q
  | .workspacePropChanged p data =>
    ∀ q ∈ workspaceWatchProps, q ≠ p → workspaceValue data q = workspaceValue s.workspace q
  | _ => True

/-- Every change of a watchable property is announced. -/
def Announced : Script → List Event → Prop
  | _, [] => True
  | s, e :: es => s.Announces e ∧ (s.step e).Announced es

/-! ### Events that have nothing to do with properties -/

/-- Nobody is told about anything but tokens, the watches of the tokens that stay are left alone,
and so are the properties of the managed windows and of the workspace. -/
structure Aside (s s' : Script) : Prop where
  sent : ∃ notes, s'.sent = s.sent ++ notes ∧ ∀ n ∈ notes, n.note.tokenNews ≠ none
  watches : ∀ q, s.tokens.Registered q → s'.tokens.Registered q →
    s'.watches.watches.lookup (s.tokens.entries q).token =
      s.watches.watches.lookup (s.tokens.entries q).token
  values : ∀ w ∈ s.windows, ∀ p, propValue (s'.data w) p = propValue (s.data w) p
  workspace : s'.workspace = s.workspace

theorem Aside.of_eq (hsent : s'.sent = s.sent) (hwatches : s'.watches = s.watches)
    (hdata : s'.data = s.data) (hworkspace : s'.workspace = s.workspace) : Aside s s' := by
  refine ⟨⟨[], by rw [hsent, List.append_nil], by simp⟩, fun q _ _ => ?_, fun w _ p => ?_,
    hworkspace⟩
  · rw [hwatches]
  · rw [hdata]

theorem Aside.refl (s : Script) : Aside s s := .of_eq rfl rfl rfl rfl

/-- What happens to windows that are not managed does not count, nor do captions. -/
theorem Aside.congr {s₁ : Script} (h : Aside s₁ s') (hsent : s₁.sent = s.sent)
    (htokens : s₁.tokens = s.tokens) (hwatches : s₁.watches = s.watches)
    (hwindows : ∀ w ∈ s.windows, w ∈ s₁.windows)
    (hvalues : ∀ w ∈ s.windows, ∀ p, propValue (s₁.data w) p = propValue (s.data w) p)
    (hworkspace : s₁.workspace = s.workspace) : Aside s s' := by
  obtain ⟨hnotes, hkept, hdata, hsame⟩ := h
  rw [hsent] at hnotes
  rw [htokens, hwatches] at hkept
  exact ⟨hnotes, hkept, fun w hw p => (hdata w (hwindows w hw) p).trans (hvalues w hw p),
    hsame.trans hworkspace⟩

/-- A notification about a token. -/
theorem Aside.notifyClient (h : Aside s s') (c : RpcConnection) (about : Option ℕ)
    {note : Notification} (hnote : note.tokenNews ≠ none) :
    Aside s (s'.notifyClient c about note) := by
  obtain ⟨⟨notes, hsent, hnotes⟩, hwatches, hvalues, hworkspace⟩ := h
  refine ⟨⟨notes ++ s'.delivered c about note, ?_, fun n hn => ?_⟩, hwatches, hvalues, hworkspace⟩
  · rw [← List.append_assoc, ← hsent]
    rfl
  · rcases List.mem_append.mp hn with hn | hn
    · exact hnotes n hn
    · obtain rfl := mem_delivered hn
      exact hnote

theorem Aside.invalidate (hr : s.tokens.Registered r) (reason : TokenReason) :
    Aside s (s.invalidate r reason) := by
  have hdrop : Aside s (dropClientWatches { s with tokens := s.tokens.unregister r }
      [(s.tokens.entries r).token]) := by
    refine ⟨⟨[], (List.append_nil _).symm, by simp⟩, fun q hq hq' => ?_, fun _ _ _ => rfl, rfl⟩
    have hne : q ≠ r := ((TokenTable.registered_unregister hr).mp hq').1
    rw [dropClientWatches, WatchTable.lookup_dropAll, if_neg]
    rw [List.mem_singleton]
    exact fun htoken => hne (hq.eq_of_token_eq hr htoken)
  exact hdrop.notifyClient _ _ (Option.some_ne_none _)

/-- A token is bound to a window, after the one the window carried is superseded. -/
theorem Aside.validate (h : s.WellFormed) (hnone : (s.tokens.entries r).window = none)
    (w : Window) : Aside s (s.validate r w) := by
  have hsupersede : Aside s (s.supersede r w) := by
    rcases supersede_cases h hnone w with ⟨-, heq⟩ | ⟨q, -, hq, -, heq⟩
    · rw [heq]
      exact .refl s
    · rw [heq]
      exact .invalidate hq _
  have hbind : Aside s { s.supersede r w with tokens := (s.supersede r w).tokens.bind r w } :=
    ⟨hsupersede.sent, fun q hq hq' =>
      hsupersede.watches q hq (TokenTable.registered_bind.mp hq'), hsupersede.values,
      hsupersede.workspace⟩
  exact hbind.notifyClient _ _ (Option.some_ne_none _)

theorem Aside.checkCaption (h : s.WellFormed) (w : Window) : Aside s (s.checkCaption w) := by
  rcases checkCaption_cases h w with ⟨heq, -⟩ | ⟨r, -, hnone, heq⟩ | ⟨r, b, hm, -, -, heq⟩
  · rw [heq]
    exact .refl s
  · rw [heq]
    exact .validate h hnone w
  · rw [heq]
    exact .invalidate hm.registered _

/-- The tokens of a client are dropped with their watches. -/
theorem Aside.disconnect (h : s.WellFormed) (id : ℕ) : Aside s (s.onClientDisconnected id) := by
  have ht := step_transition h (.clientDisconnected id)
  rcases hid : s.connections.lookup id with _ | c
  · have heq : s.onClientDisconnected id = s := by rw [onClientDisconnected, hid]
    rw [heq]
    exact .refl s
  have hdata : (s.onClientDisconnected id).data = s.data ∧
      (s.onClientDisconnected id).workspace = s.workspace := by
    rw [onClientDisconnected, hid]
    exact ⟨rfl, rfl⟩
  rw [act, hid, Option.isSome_some, if_pos rfl] at ht
  rw [step] at ht
  cases ht with
  | quiet hidle => exact hidle.elim
  | withdrawn hr hcause => cases hcause
  | dropped htokens hsent hwatches =>
    refine ⟨⟨[], by rw [hsent, List.append_nil], by simp⟩, fun q hq hq' => ?_,
      fun w _ p => by rw [hdata.1], hdata.2⟩
    have hlast := (h.unregisterAll (h.nodup_owned id) fun r hr => (h.mem_owned.mp hr).1).2
    rw [htokens, hlast.registered] at hq'
    rw [hwatches, WatchTable.lookup_dropAll, if_neg]
    rintro hmem
    obtain ⟨r, hr, htoken⟩ := List.mem_map.mp hmem
    rw [htokens, hlast.token] at htoken
    exact hq'.1 (hq.eq_of_token_eq (h.mem_owned.mp hr).1 htoken.symm ▸ hr)

/-- **Only a `window.watch` and the signals have to do with the properties of windows.** -/
theorem aside_step (h : s.WellFormed) {e : Event}
    (hwatch : ∀ c t info, e ≠ .request c (.windowWatch t info))
    (hsignal : ∀ w p data, e ≠ .windowPropChanged w p data)
    (hworkspace : ∀ p data, e ≠ .workspacePropChanged p data) : Aside s (s.step e) := by
  cases e with
  | clientConnected id =>
    simp only [step, onClientConnected]
    split_ifs
    · exact .refl s
    · exact .of_eq rfl rfl rfl rfl
  | clientDisconnected id => exact .disconnect h id
  | request c req =>
    simp only [step]
    split_ifs
    swap
    · exact .refl s
    cases req with
    | tokenRequest timeout draws =>
      simp only [dispatch, tokenRequest]
      split_ifs
      · rcases generateToken s.tokens.byToken draws with _ | t
        · exact .refl s
        · exact .of_eq rfl rfl rfl rfl
      · exact .refl s
    | windowWatch t info => exact absurd rfl (hwatch c t info)
    | workspaceWatch info =>
      simp only [dispatch, workspaceWatch]
      split
      · exact .refl s
      · exact .of_eq rfl rfl rfl rfl
    | other => exact .refl s
  | windowAdded w data =>
    simp only [step]
    split_ifs with hw
    · exact .refl s
    · refine (Aside.checkCaption ?_ w).congr rfl rfl rfl (fun v hv => List.mem_cons_of_mem _ hv)
        (fun v hv p => ?_) rfl
      · exact h.remanage fun q v hq hv => List.mem_cons_of_mem _ (h.managed q v hq hv)
      · have hne : v ≠ w := ne_of_mem_of_not_mem hv hw
        simp only [Function.update_of_ne hne]
  | captionChanged w caption =>
    simp only [step]
    split_ifs
    · refine (Aside.checkCaption ?_ w).congr rfl rfl rfl (fun v hv => hv)
        (fun v hv p => ?_) rfl
      · exact h
      · -- A caption is none of the properties.
        by_cases hvw : v = w
        · subst hvw
          simp only [setCaption, Function.update_self, propValue]
        · simp only [setCaption, Function.update_of_ne hvw]
    · exact .refl s
  | windowRemoved w =>
    simp only [step]
    split_ifs
    · rcases onWindowRemoved_cases h w with ⟨-, heq⟩ | ⟨r, hr, -, heq⟩
      · rw [heq]
        exact .of_eq rfl rfl rfl rfl
      · rw [heq]
        have hinv := Aside.invalidate hr .windowClosed
        exact ⟨hinv.sent, hinv.watches, hinv.values, hinv.workspace⟩
    · exact .refl s
  | deadline r =>
    simp only [step]
    split_ifs with hrun
    · rcases deadline_cases h r with ⟨-, heq⟩ | ⟨-, heq⟩
      · rw [heq]
        exact .invalidate (h.running r hrun) _
      · rw [heq]
        exact .of_eq rfl rfl rfl rfl
    · exact .refl s
  | windowPropChanged w p data => exact absurd rfl (hsignal w p data)
  | workspacePropChanged p data => exact absurd rfl (hworkspace p data)

/-! ### A client that watches -/

/-- The client's token is active, and the client watches a property of the token's window. -/
structure Watching (s : Script) (r : ℕ) (conn : RpcConnection) (t prop : JsString) (w : Window) :
    Prop where
  registered : s.tokens.Registered r
  token : (s.tokens.entries r).token = t
  conn : (s.tokens.entries r).conn = conn
  window : (s.tokens.entries r).window = some w
  watches : s.watches.Watches t prop

/-- The notifications keep the client informed about the property. -/
abbrev Informed (conn : RpcConnection) (t prop : JsString) (w : Window) (s s' : Script) : Prop :=
  Told sent (Notified.windowNews conn t prop) (fun s => propValue (s.data w) prop) s s'

theorem act_eq_drop {e : Event} {id : ℕ} (hact : s.act e = some (.drop id)) :
    e = .clientDisconnected id := by
  have hshown : ∀ (w : Window) (caption : JsString), shown w caption ≠ some (.drop id) := by
    intro w caption
    rw [shown]
    split_ifs <;> simp
  cases e with
  | clientDisconnected i =>
    simp only [act] at hact
    split_ifs at hact
    simp_all
  | request c req =>
    simp only [act] at hact
    split_ifs at hact
    split at hact <;> simp at hact
  | windowAdded w data | captionChanged w caption =>
    simp only [act] at hact
    split_ifs at hact
    exact absurd hact (hshown _ _)
  | windowRemoved w | deadline r =>
    simp only [act] at hact
    split_ifs at hact
    simp at hact
  | _ => simp [act] at hact

/-- A token that is not said to be invalid stays as long as its client. -/
theorem Watching.entry (hw : s.Watching r conn t prop w) (h : s.WellFormed) (hc : s.Connected)
    (hl : s.alive conn.ref = true) {e : Event} (halive : (s.step e).alive conn.ref = true)
    {notes : List Notified} (hsent : (s.step e).sent = s.sent ++ notes)
    (hnotes : ∀ n ∈ notes, ¬ n.Withdraws conn t) :
    (s.step e).tokens.Registered r ∧ ((s.step e).tokens.entries r).token = t ∧
      ((s.step e).tokens.entries r).conn = conn ∧
      ((s.step e).tokens.entries r).window = some w := by
  have ht := step_transition h e
  obtain ⟨htoken, hconn⟩ := (ht.entry_eq h).2 r (h.lt_next _ r hw.registered)
  have howner : s.alive (s.tokens.entries r).conn.ref = true := hw.conn ▸ hl
  rw [htoken, hconn]
  cases ht.outcome h hw.registered with
  | kept hreg hwindow => exact ⟨hreg, hw.token, hw.conn, hwindow.trans hw.window⟩
  | validated hval =>
    have hpending := hval.pending
    rw [hw.window] at hpending
    cases hpending
  | @withdrawn reason hwith hreg habout =>
    -- The owner is told so.
    rw [about_append s notes r hsent, List.append_cancel_left_eq, invalidatedNote, delivered,
      if_pos howner] at habout
    have hmem := List.mem_of_mem_filter (habout ▸ List.mem_singleton_self _)
    exact absurd ⟨hw.conn, reason, _, congrArg (fun t => Notification.tokenInvalidated t reason _)
      hw.token⟩ (hnotes _ hmem)
  | dropped hdrop =>
    -- Its client is gone.
    obtain rfl := act_eq_drop hdrop
    have hcr := hc.owner r (h.lt_next _ r hw.registered)
    rw [← hw.conn] at halive
    have hlive := ((hc.step h _).alive_iff _ (created_step s _ _ hcr)).mp halive
    rw [step, onClientDisconnected, (hc.alive_iff _ hcr).mp howner] at hlive
    have herase : (s.connections.erase (s.tokens.entries r).conn.id).lookup
        (s.tokens.entries r).conn.id = some (s.tokens.entries r).conn := hlive
    rw [AList.lookup_erase] at herase
    cases herase

/-- A request about other watches leaves the watch alone. -/
theorem Watching.request (hw : s.Watching r conn t prop w) (h : s.WellFormed) {c : RpcConnection}
    {token : JsString} {info : AList fun _ : JsString => Bool}
    (hkept : ¬ Event.Unwatches conn t prop (.request c (.windowWatch token info))) :
    (s.step (.request c (.windowWatch token info))).watches.Watches t prop := by
  simp only [step, dispatch, windowWatch]
  split_ifs
  swap
  · exact hw.watches
  rcases hresolve : s.resolveTokenWindow token c with error | window
  · exact hw.watches
  simp only [Option.map_some, Option.getD_some]
  split
  · exact hw.watches
  by_cases htoken : t = token
  · subst htoken
    obtain ⟨o, hclaim⟩ := (resolveTokenWindow_eq_ok h).mp hresolve
    obtain ⟨q, hq, hqt, hcl⟩ := h.claims_eq_some.mp hclaim
    obtain rfl := hq.eq_of_token_eq hw.registered (hqt.trans hw.token.symm)
    have hconn : conn = c := hw.conn.symm.trans (congrArg Claim.owner hcl)
    rw [WatchTable.watches_setAll info.entries info.nodupKeys]
    by_cases hkey : prop ∈ info.entries.keys
    · obtain ⟨enable, hmem⟩ := List.exists_of_mem_keys hkey
      cases enable with
      | true => exact Or.inl hmem
      | false => exact absurd ⟨hconn.symm, rfl, hmem⟩ hkept
    · exact Or.inr ⟨hkey, hw.watches⟩
  · obtain ⟨handler, st, hst, hh⟩ := hw.watches
    exact ⟨handler, st, (WatchTable.lookup_setAll_of_ne htoken info.entries).trans hst, hh⟩

/-- A `window.watch` changes the watches of windows. -/
theorem step_windowWatch (s : Script) (c : RpcConnection) (token : JsString)
    (info : AList fun _ : JsString => Bool) :
    ∃ watches, s.step (.request c (.windowWatch token info)) = { s with watches } := by
  simp only [step, dispatch, windowWatch]
  split_ifs
  swap
  · exact ⟨s.watches, rfl⟩
  rcases s.resolveTokenWindow token c with error | window
  · exact ⟨s.watches, rfl⟩
  simp only [Option.map_some, Option.getD_some]
  split
  · exact ⟨s.watches, rfl⟩
  · exact ⟨_, rfl⟩

theorem informed_request (c : RpcConnection) (token : JsString)
    (info : AList fun _ : JsString => Bool) :
    Informed conn t prop w s (s.step (.request c (.windowWatch token info))) := by
  obtain ⟨watches, heq⟩ := step_windowWatch s c token info
  rw [heq]
  exact .silent (List.append_nil _).symm (by simp) rfl

/-- The notifications of a workspace signal. -/
theorem step_workspacePropChanged (s : Script) (p : JsString) (data : WorkspaceData) :
    ∃ notes, s.step (.workspacePropChanged p data) =
        { s with workspace := data, sent := s.sent ++ notes } ∧
      ∀ n ∈ notes, ∃ conn p value, n = ⟨conn, none, .workspaceChanged p value⟩ := by
  simp only [step, foldl_onWorkspaceChanged]
  refine ⟨_, rfl, fun n hn => ?_⟩
  obtain ⟨slot, -, hn⟩ := List.mem_flatMap.mp hn
  exact ⟨_, _, _, mem_delivered hn⟩

/-- What the notification of a slot tells the client. -/
theorem windowNews_slot {c : RpcConnection} {key p : JsString} {value x : PropValue} :
    Notified.windowNews conn t prop ⟨c, none, .windowChanged key p value⟩ = some x ↔
      (c = conn ∧ key = t ∧ p = prop) ∧ value = x := by
  simp only [Notified.windowNews]
  split_ifs with hfor
  · simp [hfor]
  · simp [hfor]

/-- **The signal of a property tells the client its value.** -/
theorem Watching.informed_signal (hw : s.Watching r conn t prop w) (hf : s.Follows)
    (hl : s.alive conn.ref = true) {v : Window} {p : JsString} {data : WindowData}
    (hann : s.Announces (.windowPropChanged v p data)) :
    Informed conn t prop w s (s.step (.windowPropChanged v p data)) := by
  obtain ⟨handler, st, hst, hh⟩ := hw.watches
  obtain ⟨q, hq, hqt, hqw⟩ := hf.bound t st hst
  obtain rfl := hq.eq_of_token_eq hw.registered (hqt.trans hw.token.symm)
  have hsource : st.source = w := Option.some.inj (hqw.symm.trans hw.window)
  obtain ⟨hkey, hprop, hsrc⟩ := hf.consistent.filed t st prop handler hst hh
  have hsent := hf.delivered v p data
  by_cases hthis : v = w ∧ p = prop
  · obtain ⟨rfl, rfl⟩ := hthis
    have howner : handler.conn = conn :=
      (hf.owner q p handler hq ⟨st, hqt ▸ hst, hh⟩).trans hw.conn
    have hslot : (⟨v, p, handler⟩ : Slot JsString RpcConnection Window JsString) ∈
        s.watches.slots.filter fun slot => slot.source = v ∧ slot.prop = p := by
      refine List.mem_filter.mpr ⟨(hf.consistent.slots_iff _).mpr
        ⟨⟨st, hkey ▸ hst, hprop ▸ hh⟩, ?_, hprop.symm⟩, by simp⟩
      rw [hsrc, hsource]
    refine .of_forall hsent ⟨⟨conn, none, .windowChanged t p _⟩,
      List.mem_flatMap.mpr ⟨_, hslot, ?_⟩, windowNews_slot.mpr ⟨⟨rfl, rfl, rfl⟩, rfl⟩⟩
      fun n hn x hnews => ?_
    · rw [delivered, howner, if_pos hl, hkey]
      exact List.mem_singleton_self _
    · obtain ⟨slot, -, hn⟩ := List.mem_flatMap.mp hn
      obtain rfl := mem_delivered hn
      exact (windowNews_slot.mp hnews).2.symm
  · refine .silent hsent (fun n hn => ?_) ?_
    · obtain ⟨slot, hslot, hn⟩ := List.mem_flatMap.mp hn
      obtain rfl := mem_delivered hn
      obtain ⟨hmem, hon⟩ := List.mem_filter.mp hslot
      obtain ⟨hv, -⟩ := of_decide_eq_true hon
      rw [Option.eq_none_iff_forall_ne_some]
      intro x hnews
      obtain ⟨⟨-, hslott, hp⟩, -⟩ := windowNews_slot.mp hnews
      -- A slot of this token is connected to the token's window.
      obtain ⟨⟨st', hst', hh'⟩, hslots, -⟩ := (hf.consistent.slots_iff slot).mp hmem
      obtain ⟨-, -, hsrc'⟩ := hf.consistent.filed _ st' _ _ hst' hh'
      rw [hslott, hst, Option.some.injEq] at hst'
      rw [← hst', hsource] at hsrc'
      exact hthis ⟨hv.symm.trans (hslots.trans hsrc'), hp⟩
    · have hdata : (s.step (.windowPropChanged v p data)).data = Function.update s.data v
          { data with captionNormal := (s.data v).captionNormal } := by
        simp only [step, foldl_onWindowChanged]
      rw [hdata]
      by_cases hv : w = v
      · subst hv
        have hne : prop ≠ p := fun hp => hthis ⟨rfl, hp.symm⟩
        rw [Function.update_self]
        exact hann prop (hf.watchable t prop handler ⟨st, hst, hh⟩) hne
      · rw [Function.update_of_ne hv]

/-- **One event.** A client that watches a property goes on watching it, and knows its value. -/
theorem Watching.step (hw : s.Watching r conn t prop w) (h : s.WellFormed) (hc : s.Connected)
    (hf : s.Follows) (hl : s.alive conn.ref = true) {e : Event} (hkept : ¬ e.Unwatches conn t prop)
    (hann : s.Announces e) (halive : (s.step e).alive conn.ref = true) {notes : List Notified}
    (hsent : (s.step e).sent = s.sent ++ notes) (hnotes : ∀ n ∈ notes, ¬ n.Withdraws conn t) :
    (s.step e).Watching r conn t prop w ∧ Informed conn t prop w s (s.step e) := by
  obtain ⟨hreg, htoken, hconn, hwindow⟩ := hw.entry h hc hl halive hsent hnotes
  have hwatching : (s.step e).watches.Watches t prop → (s.step e).Watching r conn t prop w :=
    fun hwatches => ⟨hreg, htoken, hconn, hwindow, hwatches⟩
  by_cases hwatch : ∃ c token info, e = .request c (.windowWatch token info)
  · obtain ⟨c, token, info, rfl⟩ := hwatch
    exact ⟨hwatching (hw.request h hkept), informed_request c token info⟩
  by_cases hsignal : ∃ v p data, e = .windowPropChanged v p data
  · obtain ⟨v, p, data, rfl⟩ := hsignal
    refine ⟨hwatching ?_, hw.informed_signal hf hl hann⟩
    simp only [Script.step, foldl_onWindowChanged]
    exact hw.watches
  by_cases hworkspace : ∃ p data, e = .workspacePropChanged p data
  · obtain ⟨p, data, rfl⟩ := hworkspace
    obtain ⟨notes, heq, hother⟩ := step_workspacePropChanged s p data
    rw [heq] at hwatching ⊢
    refine ⟨hwatching hw.watches, .silent rfl (fun n hn => ?_) rfl⟩
    obtain ⟨c, p, value, rfl⟩ := hother n hn
    rfl
  have haside : Aside s (s.step e) :=
    aside_step h (fun c token info he => hwatch ⟨c, token, info, he⟩)
      (fun v p data he => hsignal ⟨v, p, data, he⟩) fun p data he => hworkspace ⟨p, data, he⟩
  refine ⟨hwatching ?_, ?_⟩
  · obtain ⟨handler, st, hst, hh⟩ := hw.watches
    have hlook := haside.watches r hw.registered hreg
    rw [hw.token] at hlook
    exact ⟨handler, st, hlook.trans hst, hh⟩
  · obtain ⟨notes, hsent, hother⟩ := haside.sent
    refine .silent hsent (fun n hn => ?_)
      (haside.values w (h.managed r w hw.registered hw.window) prop)
    have hnews := hother n hn
    rw [Notified.windowNews]
    split
    · rename_i hnote
      rw [hnote] at hnews
      exact absurd rfl hnews
    · rfl

/-! ### Runs -/

theorem Transition.sent_append {a : Option TokenAct} (ht : Transition s s' a) :
    ∃ notes, s'.sent = s.sent ++ notes := by
  cases ht with
  | quiet hidle htokens hsent => exact ⟨_, hsent⟩
  | issued hconn hfresh hrun htokens hsent => exact ⟨[], hsent.trans (List.append_nil _).symm⟩
  | validated hr hnone hrun hfree htokens hsent => exact ⟨_, hsent⟩
  | superseding hr hnone hrun hq hqw htokens hsent =>
    exact ⟨_, hsent.trans (List.append_assoc ..)⟩
  | withdrawn hr hcause htokens hsent => exact ⟨_, hsent⟩
  | expired hr hsome htokens hsent => exact ⟨[], hsent.trans (List.append_nil _).symm⟩
  | dropped htokens hsent => exact ⟨[], hsent.trans (List.append_nil _).symm⟩

theorem sent_run (h : s.WellFormed) (es : List Event) :
    ∃ notes, (s.run es).sent = s.sent ++ notes := by
  induction es generalizing s with
  | nil => exact ⟨[], (List.append_nil _).symm⟩
  | cons e es ih =>
    obtain ⟨now, hnow⟩ := (step_transition h e).sent_append
    obtain ⟨later, hlater⟩ := ih (h.step e)
    exact ⟨now ++ later, by rw [← List.append_assoc, ← hnow, ← hlater]; rfl⟩

/-- A connection object that is alive was alive before. -/
theorem alive_of_run (h : s.WellFormed) (hc : s.Connected) {c : RpcConnection}
    (hcr : c ∈ s.created) {es : List Event} (halive : (s.run es).alive c.ref = true) :
    s.alive c.ref = true := by
  induction es generalizing s with
  | nil => exact halive
  | cons e es ih =>
    have hnext := ih (h.step e) (hc.step h e) (created_step s e c hcr) halive
    by_contra hdead
    rw [alive_step hc hcr (Bool.not_eq_true _ ▸ hdead)] at hnext
    cases hnext

/-- **A run of events.** -/
theorem Watching.run (hw : s.Watching r conn t prop w) (h : s.WellFormed) (hc : s.Connected)
    (hf : s.Follows) {es : List Event} (hkept : ∀ e ∈ es, ¬ e.Unwatches conn t prop)
    (hann : s.Announced es) (halive : (s.run es).alive conn.ref = true) {notes : List Notified}
    (hsent : (s.run es).sent = s.sent ++ notes) (hnotes : ∀ n ∈ notes, ¬ n.Withdraws conn t) :
    (s.run es).Watching r conn t prop w ∧ Informed conn t prop w s (s.run es) := by
  induction es generalizing s notes with
  | nil => exact ⟨hw, .refl s⟩
  | cons e es ih =>
    obtain ⟨hkept, hkepts⟩ := List.forall_mem_cons.mp hkept
    obtain ⟨now, hnow⟩ := (step_transition h e).sent_append
    obtain ⟨later, hlater⟩ := sent_run (h.step e) es
    have hboth : notes = now ++ later := by
      refine List.append_cancel_left (hsent.symm.trans ?_)
      rw [← List.append_assoc, ← hnow, ← hlater]
      rfl
    subst hboth
    obtain ⟨hnotes, hlaters⟩ := List.forall_mem_append.mp hnotes
    -- A client that is connected at the end was connected all the time.
    have hcr : conn ∈ s.created := hw.conn ▸ hc.owner r (h.lt_next _ r hw.registered)
    have hl := @alive_of_run s h hc conn hcr (e :: es) halive
    have hlive := alive_of_run (h.step e) (hc.step h e) (created_step s e conn hcr) halive
    obtain ⟨hw', hstep⟩ := hw.step h hc hf hl hkept hann.1 hlive hnow hnotes
    obtain ⟨hrun, hlast⟩ := ih hw' (h.step e) (hc.step h e) ((step_transition h e).follows h hf)
      hkepts hann.2 halive hlater hlaters
    exact ⟨hrun, hstep.trans hlast⟩

/-- A client that reads a property it watches. -/
theorem watching_of_query (h : s.WellFormed) (hwatch : s.watches.Watches t prop)
    {queryInfo : List JsString} {answer : QueryResult} {v : PropValue}
    (hquery : s.windowsQuery t queryInfo conn = .ok answer) (hv : (prop, v) ∈ answer) :
    ∃ r w, s.Watching r conn t prop w ∧ prop ∈ queryProps ∧ v = propValue (s.data w) prop := by
  rw [windowsQuery] at hquery
  rcases hresolve : s.resolveTokenWindow t conn with error | w
  · rw [hresolve] at hquery
    cases hquery
  rw [hresolve] at hquery
  obtain ⟨o, hclaim⟩ := (resolveTokenWindow_eq_ok h).mp hresolve
  obtain ⟨r, hr, htoken, hcl⟩ := h.claims_eq_some.mp hclaim
  obtain ⟨hprop, rfl⟩ := value_of_queryAll hquery hv
  exact ⟨r, w, ⟨hr, htoken, congrArg Claim.owner hcl, congrArg Claim.bound hcl, hwatch⟩, hprop, rfl⟩

/-- What such a client reads. -/
theorem Watching.query (hw : s.Watching r conn t prop w) (h : s.WellFormed)
    (hprop : prop ∈ queryProps) :
    s.windowsQuery t [prop] conn = .ok [(prop, propValue (s.data w) prop)] := by
  have hresolve : s.resolveTokenWindow t conn = .ok w := by
    refine (resolveTokenWindow_eq_ok h).mpr ⟨(s.tokens.claim r).isOpen, h.claims_eq_some.mpr
      ⟨r, hw.registered, hw.token, ?_⟩⟩
    simp [TokenTable.claim, hw.conn, hw.window]
  rw [windowsQuery, hresolve]
  refine queryAll_eq_ok.mpr ⟨by simpa using hprop, ?_⟩
  rw [List.eraseDups_cons]
  rfl

/-- **Watch, then read, and you know.** A client watches a property through its token and reads it.
Whatever happens after that, in whichever order, with every change announced: as long as the client
is connected, does not stop watching and is not sent `token.invalidated`, the last `window.changed`
it was sent, or else what it read, is what it would read now. -/
theorem window_mirror (windows : List Window) (data : Window → WindowData)
    (workspace : WorkspaceData) (es fs : List Event) {conn : RpcConnection} {t prop : JsString}
    {queryInfo : List JsString} {answer : QueryResult} {v : PropValue} :
    let s := (load windows data workspace).run es
    let s' := s.run fs
    s.watches.Watches t prop → s.windowsQuery t queryInfo conn = .ok answer →
    (prop, v) ∈ answer → (∀ e ∈ fs, ¬ e.Unwatches conn t prop) → s.Announced fs →
    ∃ notes, s'.sent = s.sent ++ notes ∧
      (s'.alive conn.ref = true → (∀ n ∈ notes, ¬ n.Withdraws conn t) →
        s'.windowsQuery t [prop] conn =
          .ok [(prop, known v (notes.filterMap (Notified.windowNews conn t prop)))]) := by
  intro s s' hwatch hquery hv hkept hann
  have h : s.WellFormed := (wellFormed_load windows data workspace).run es
  obtain ⟨notes, hsent⟩ := sent_run h fs
  refine ⟨notes, hsent, fun halive hnotes => ?_⟩
  obtain ⟨r, w, hw, hprop, rfl⟩ := watching_of_query h hwatch hquery hv
  obtain ⟨hw', now, hnow, hknown⟩ := hw.run h (connected_run windows data workspace es)
    (follows_run windows data workspace es) hkept hann halive hsent hnotes
  obtain rfl := List.append_cancel_left (hnow.symm.trans hsent)
  rw [hw'.query (h.run fs) hprop, hknown]

/-- A client that watches `minimized` reads it, is told once that it changed, and knows. -/
theorem window_mirror_one :
    let token : JsString := List.replicate 20 65
    let w : Window := ⟨⟨List.replicate 32 0, rfl⟩⟩
    let es : List Event := [.clientConnected 1,
      .request ⟨0, 1⟩ (.tokenRequest 1 [fun _ => ⟨0, 1, Nat.one_pos⟩]),
      .windowAdded w ⟨token, [], [], fun _ => .undefined⟩,
      .request ⟨0, 1⟩ (.windowWatch token (AList.insert (js "minimized") true ∅))]
    let fs : List Event := [.windowPropChanged w (js "minimized")
      ⟨[], [], [], fun p => if p = js "minimized" then .boolean true else .undefined⟩]
    ((loadEmpty.run es).run fs).windowsQuery token [js "minimized"] ⟨0, 1⟩ =
      .ok [(js "minimized", .boolean true)] := by
  intro token w es fs
  have hannounces : (loadEmpty.run es).Announces (.windowPropChanged w (js "minimized")
      ⟨[], [], [], fun p => if p = js "minimized" then .boolean true else .undefined⟩) := by
    rw [Announces]
    decide
  obtain ⟨notes, hsent, hknows⟩ := @window_mirror [] (fun _ => ⟨[], [], [], fun _ => .undefined⟩)
    ⟨⟨[]⟩, [], [], []⟩ es fs ⟨0, 1⟩ token (js "minimized") [js "minimized"]
    [(js "minimized", .undefined)] .undefined
    ⟨⟨0, token, ⟨0, 1⟩, w, js "minimized"⟩, _, rfl, rfl⟩ rfl (List.mem_singleton_self _)
    (by simp [fs, Event.Unwatches]) ⟨hannounces, trivial⟩
  have hnotes : notes =
      [⟨⟨0, 1⟩, none, .windowChanged token (js "minimized") (.boolean true)⟩] :=
    List.append_cancel_left (hsent.symm.trans (by decide))
  subst hnotes
  exact hknows (by decide) (by simp [Notified.Withdraws])

end Script

end KwinApi
