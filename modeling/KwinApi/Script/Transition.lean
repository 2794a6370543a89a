import KwinApi.Script.Registry

/-!
# What one event does to the tokens

Every event does one of seven things to the token registry and to the notifications about tokens.
Everything that is proved about tokens over runs is proved from this list.

## Main definitions

* `KwinApi.Script.about` — the notifications sent about an entry
* `Script.Cause` — why an entry is withdrawn
* `Script.Transition` — the seven cases

## Main results

* `Script.step_transition`
-/

namespace KwinApi

namespace Script

/-- The notifications sent about an entry. -/
def about (s : Script) (r : ℕ) : List Notified := s.sent.filter fun n => n.about = some r

/-- The `token.validated` of an entry, if it reaches the owner. -/
def validatedNote (s : Script) (r : ℕ) (caption : JsString) : List Notified :=
  s.delivered (s.tokens.entries r).conn (some r)
    (.tokenValidated (s.tokens.entries r).token caption)

/-- The `token.invalidated` of an entry, if it reaches the owner. -/
def invalidatedNote (s : Script) (r : ℕ) (reason : TokenReason) (window : Option JsString) :
    List Notified :=
  s.delivered (s.tokens.entries r).conn (some r)
    (.tokenInvalidated (s.tokens.entries r).token reason window)

/-- Why an entry is withdrawn by an act. A superseded entry is withdrawn by the validation of
another. -/
inductive Cause (s : Script) (r : ℕ) : TokenAct → TokenReason → Prop where
  /-- The deadline passes before any window showed the token. -/
  | timeout (hnone : (s.tokens.entries r).window = none) :
      Cause s r (.fire (s.tokens.entries r).token) .timeout
  /-- Another window shows the token before the deadline. -/
  | ambiguous {w b : Window} (hb : (s.tokens.entries r).window = some b) (hbw : b ≠ w)
      (hrun : (s.tokens.entries r).deadlineTimer.active = true) :
      Cause s r (.shows w (s.tokens.entries r).token) .ambiguous
  /-- The bound window is removed. -/
  | windowClosed {w : Window} (hw : (s.tokens.entries r).window = some w) :
      Cause s r (.remove w) .windowClosed

/-- An act that changes nothing about tokens. -/
def Idle (s : Script) : Option TokenAct → Prop
  | none => True
  | some (.shows w t) => ∀ r, s.tokens.Registered r → (s.tokens.entries r).token = t →
      (s.tokens.entries r).deadlineTimer.active = true → (s.tokens.entries r).window = some w
  | some (.remove w) => ∀ r, s.tokens.Registered r → (s.tokens.entries r).window ≠ some w
  | some _ => False

/-- What happens to the window watches while the tokens stay as they are. -/
inductive WatchCall (s s' : Script) : Prop where
  /-- Nothing. -/
  | none (hwatches : s'.watches = s.watches)
  /-- A client sets or removes watches through a token of its own. -/
  | call {token : JsString} {conn : RpcConnection} {window : Window}
      {watchInfo : AList fun _ : JsString => Bool}
      (hwindow : s.resolveTokenWindow token conn = .ok window)
      (hprops : ∀ e ∈ watchInfo.entries, e.1 ∈ watchProps)
      (hwatches : s'.watches =
        (WatchTable.setAll token conn window s.watches watchInfo.entries).1)

/-- What an event with the given act does to the tokens and their watches. -/
inductive Transition (s s' : Script) : Option TokenAct → Prop where
  /-- Nothing, and no notification about a token is sent. -/
  | quiet {a : Option TokenAct} {notes : List Notified} (hidle : s.Idle a)
      (htokens : s'.tokens = s.tokens) (hsent : s'.sent = s.sent ++ notes)
      (hnotes : ∀ n ∈ notes, n.about = none ∧ n.note.tokenNews = none)
      (hcall : WatchCall s s') : Transition s s' a
  /-- A fresh token is registered. -/
  | issued {conn : RpcConnection} {t : JsString} {timer : QTimer} (hconn : conn ∈ s.created)
      (hfresh : s.tokens.byToken.lookup t = none) (hrun : timer.active = true)
      (htokens : s'.tokens = s.tokens.register ⟨t, conn, .pending, none, timer⟩)
      (hsent : s'.sent = s.sent) (hwatches : s'.watches = s.watches) :
      Transition s s' (some (.issue t conn))
  /-- A pending entry is validated on a window that carries no token. -/
  | validated {r : ℕ} {w : Window} (hr : s.tokens.Registered r)
      (hnone : (s.tokens.entries r).window = none)
      (hrun : (s.tokens.entries r).deadlineTimer.active = true)
      (hfree : ∀ q, s.tokens.Registered q → (s.tokens.entries q).window ≠ some w)
      (htokens : s'.tokens = s.tokens.bind r w)
      (hsent : s'.sent = s.sent ++ s.validatedNote r (s'.windowInfo w))
      (hwatches : s'.watches = s.watches) :
      Transition s s' (some (.shows w (s.tokens.entries r).token))
  /-- A pending entry is validated on a window whose token is superseded first. -/
  | superseding {r q : ℕ} {w : Window} (hr : s.tokens.Registered r)
      (hnone : (s.tokens.entries r).window = none)
      (hrun : (s.tokens.entries r).deadlineTimer.active = true)
      (hq : s.tokens.Registered q) (hqw : (s.tokens.entries q).window = some w)
      (htokens : s'.tokens = (s.tokens.unregister q).bind r w)
      (hsent : s'.sent = s.sent ++ s.invalidatedNote q .superseded (some (s'.windowInfo w)) ++
        s.validatedNote r (s'.windowInfo w))
      (hwatches : s'.watches = s.watches.dropAll [(s.tokens.entries q).token]) :
      Transition s s' (some (.shows w (s.tokens.entries r).token))
  /-- An entry is withdrawn. -/
  | withdrawn {r : ℕ} {a : TokenAct} {reason : TokenReason} (hr : s.tokens.Registered r)
      (hcause : s.Cause r a reason) (htokens : s'.tokens = s.tokens.unregister r)
      (hsent : s'.sent = s.sent ++ s.invalidatedNote r reason
        ((s.tokens.entries r).window.map s'.windowInfo))
      (hwatches : s'.watches = s.watches.dropAll [(s.tokens.entries r).token]) :
      Transition s s' (some a)
  /-- The deadline of an active entry passes. -/
  | expired {r : ℕ} (hr : s.tokens.Registered r) (hsome : (s.tokens.entries r).window ≠ none)
      (htokens : s'.tokens = s.tokens.stopDeadline r) (hsent : s'.sent = s.sent)
      (hwatches : s'.watches = s.watches) :
      Transition s s' (some (.fire (s.tokens.entries r).token))
  /-- The tokens of a client are dropped. -/
  | dropped {id : ℕ} (htokens : s'.tokens = s.tokens.unregisterAll (s.tokens.owned id))
      (hsent : s'.sent = s.sent) (hwatches : s'.watches = s.watches.dropAll
        ((s.tokens.owned id).map fun r => (s'.tokens.entries r).token)) :
      Transition s s' (some (.drop id))

variable {s s' : Script} {r : ℕ} {w : Window}

/-- What an event does is told by the tokens, the liveness and the notifications before it. -/
theorem Transition.congr {s₁ : Script} {a : Option TokenAct} (h : Transition s₁ s' a)
    (hcreated : s₁.created = s.created) (halive : s₁.alive = s.alive)
    (htokens : s₁.tokens = s.tokens) (hwatches : s₁.watches = s.watches)
    (hsent : s₁.sent = s.sent) : Transition s s' a := by
  obtain ⟨_, _, _, _, _, _, _, _, _, _⟩ := s
  obtain ⟨_, _, _, _, _, _, _, _, _, _⟩ := s₁
  simp only at hcreated halive htokens hwatches hsent
  subst hcreated halive htokens hwatches hsent
  cases h with
  | quiet hidle htokens hsent hnotes hcall =>
    refine .quiet hidle htokens hsent hnotes ?_
    cases hcall with
    | none hwatches => exact .none hwatches
    | call hwindow hprops hwatches => exact .call hwindow hprops hwatches
  | issued hconn hfresh hrun htokens hsent hwatches =>
    exact .issued hconn hfresh hrun htokens hsent hwatches
  | validated hr hnone hrun hfree htokens hsent hwatches =>
    exact .validated hr hnone hrun hfree htokens hsent hwatches
  | superseding hr hnone hrun hq hqw htokens hsent hwatches =>
    exact .superseding hr hnone hrun hq hqw htokens hsent hwatches
  | withdrawn hr hcause htokens hsent hwatches =>
    refine .withdrawn hr ?_ htokens hsent hwatches
    cases hcause with
    | timeout hnone => exact .timeout hnone
    | ambiguous hb hbw hrun => exact .ambiguous hb hbw hrun
    | windowClosed hw => exact .windowClosed hw
  | expired hr hsome htokens hsent hwatches => exact .expired hr hsome htokens hsent hwatches
  | dropped htokens hsent hwatches => exact .dropped htokens hsent hwatches

/-- A handler that sends nothing and leaves the tokens alone. -/
theorem Transition.silent {a : Option TokenAct} (hidle : s.Idle a)
    (htokens : s'.tokens = s.tokens) (hsent : s'.sent = s.sent) (hcall : WatchCall s s') :
    Transition s s' a :=
  .quiet hidle htokens (hsent.trans (List.append_nil _).symm) nofun hcall

/-! ### Captions -/

theorem checkCaption_transition (h : s.WellFormed) (w : Window) :
    Transition s (s.checkCaption w) (shown w (s.data w).captionNormal) := by
  have hshown : ∀ {r}, s.Matched w r →
      shown w (s.data w).captionNormal = some (.shows w (s.tokens.entries r).token) := by
    intro r hm
    rw [shown, if_neg (Nat.not_lt.mpr hm.long), hm.shows]
  rcases checkCaption_cases h w with ⟨heq, hidle⟩ | ⟨r, hm, hnone, heq⟩ | ⟨r, b, hm, hb, hbw, heq⟩
  · rw [heq]
    refine .silent ?_ rfl rfl (.none rfl)
    rw [shown]
    split_ifs with hlen
    · trivial
    · intro r hr ht hrun
      exact hidle r ⟨hr, Nat.le_of_not_lt hlen, ht.symm, hrun⟩
  · rw [heq, hshown hm]
    rcases supersede_cases h hnone w with ⟨hfree, hsup⟩ | ⟨q, hne, hq, hqw, hsup⟩
    · refine .validated hm.registered hnone hm.running ?_ ?_ ?_ ?_
      · intro q hq hqw
        rw [h.byWindow_windowKey.mpr ⟨hq, hqw⟩] at hfree
        contradiction
      · simp only [validate, hsup, notifyClient]
      · simp only [validate, hsup, notifyClient, validatedNote, windowInfo, TokenTable.bind,
          Function.update_self]
        rfl
      · simp only [validate, hsup, notifyClient]
    · refine .superseding hm.registered hnone hm.running hq hqw ?_ ?_ ?_
      · simp only [validate, hsup, notifyClient]
        rfl
      · have hentry : (s.tokens.unregister q).entries r = s.tokens.entries r :=
          TokenTable.entries_stopDeadline_of_ne (Ne.symm hne)
        simp only [validate, hsup, notifyClient, validatedNote, TokenTable.bind,
          Function.update_self, tokens_invalidate, hentry]
        simp only [invalidate, notifyClient, hqw]
        rfl
      · simp only [validate, hsup, notifyClient]
        rfl
  · rw [heq, hshown hm]
    exact .withdrawn hm.registered (.ambiguous hb hbw hm.running) rfl rfl rfl

/-! ### Signals -/

theorem mem_delivered {conn : RpcConnection} {about : Option ℕ} {note : Notification}
    {n : Notified} (hn : n ∈ s.delivered conn about note) : n = ⟨conn, about, note⟩ := by
  rw [delivered] at hn
  split_ifs at hn
  · exact List.mem_singleton.mp hn
  · simp at hn

/-! ### Every event -/

/-- Every event does one of the seven things. -/
theorem step_transition (h : s.WellFormed) (e : Event) : Transition s (s.step e) (s.act e) := by
  cases e with
  | clientConnected id =>
    simp only [step, onClientConnected, act]
    split_ifs
    · exact .silent trivial rfl rfl (.none rfl)
    · exact .silent trivial rfl rfl (.none rfl)
  | clientDisconnected id =>
    simp only [step, onClientDisconnected, act]
    cases s.connections.lookup id with
    | none => exact .silent trivial rfl rfl (.none rfl)
    | some conn => exact .dropped rfl rfl rfl
  | request conn req =>
    simp only [step, act]
    split_ifs with hconn
    · cases hd : s.dispatch conn req with
      | none => exact .silent trivial rfl rfl (.none rfl)
      | some res =>
        obtain ⟨s', answer⟩ := res
        simp only [Option.map_some, Option.getD_some]
        cases dispatch_cases hd with
        | idle hs hanswer =>
          split
          · rename_i t ht
            exact absurd (Option.some.inj ht) (hanswer t)
          · rw [hs]
            exact .silent trivial rfl rfl (.none rfl)
        | issued hanswer hshape hfresh hrun hs =>
          rw [hanswer, hs]
          exact .issued hconn hfresh hrun rfl rfl rfl
        | watch hwindow hprops hanswer hs =>
          rw [hanswer, hs]
          exact .silent trivial rfl rfl (.call hwindow hprops rfl)
        | workspaceWatch hanswer hs =>
          rw [hanswer, hs]
          exact .silent trivial rfl rfl (.none rfl)
    · exact .silent trivial rfl rfl (.none rfl)
  | windowAdded window data =>
    simp only [step, act]
    split_ifs
    · exact .silent trivial rfl rfl (.none rfl)
    · have h' : WellFormed { s with
          data := Function.update s.data window data
          windows := window :: s.windows } :=
        h.remanage fun q v hq hv => List.mem_cons_of_mem _ (h.managed q v hq hv)
      have ht := checkCaption_transition h' window
      simp only [Function.update_self] at ht
      exact ht.congr rfl rfl rfl rfl rfl
  | captionChanged window caption =>
    simp only [step, act]
    split_ifs
    · have h' : (s.setCaption window caption).WellFormed := h
      have ht := checkCaption_transition h' window
      simp only [setCaption, Function.update_self] at ht
      exact ht.congr rfl rfl rfl rfl rfl
    · exact .silent trivial rfl rfl (.none rfl)
  | windowRemoved window =>
    simp only [step, act]
    split_ifs
    · rcases onWindowRemoved_cases h window with ⟨hfree, heq⟩ | ⟨r, hr, hrw, heq⟩
      · rw [heq]
        exact .silent hfree rfl rfl (.none rfl)
      · rw [heq]
        exact .withdrawn hr (.windowClosed hrw) rfl rfl rfl
    · exact .silent trivial rfl rfl (.none rfl)
  | deadline r =>
    simp only [step, act]
    split_ifs with hrun
    · rcases deadline_cases h r with ⟨hnone, heq⟩ | ⟨hsome, heq⟩
      · rw [heq]
        exact .withdrawn (h.running r hrun) (.timeout hnone) rfl rfl rfl
      · rw [heq]
        exact .expired (h.running r hrun) hsome rfl rfl rfl
    · exact .silent trivial rfl rfl (.none rfl)
  | windowPropChanged window prop data =>
    simp only [step, foldl_onWindowChanged, act]
    refine .quiet trivial rfl rfl (fun n hn => ?_) (.none rfl)
    obtain ⟨slot, -, hn⟩ := List.mem_flatMap.mp hn
    rw [mem_delivered hn]
    exact ⟨rfl, rfl⟩
  | workspacePropChanged prop data =>
    simp only [step, foldl_onWorkspaceChanged, act]
    refine .quiet trivial rfl rfl (fun n hn => ?_) (.none rfl)
    obtain ⟨slot, -, hn⟩ := List.mem_flatMap.mp hn
    rw [mem_delivered hn]
    exact ⟨rfl, rfl⟩

end Script

end KwinApi
