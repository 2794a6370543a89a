import KwinApi.Script.Script

/-!
# The token registry over the runs of the script

What the handlers of `tokens.ts` do to a well-formed registry, and that it stays well formed.

## Main definitions

* `KwinApi.Script.Matched` — the entry a caption names, while its deadline timer runs

## Main results

* `Script.checkCaption_cases`, `Script.supersede_cases` — what a caption can do
* `Script.registry_invariant` — the registry invariant of every reachable state
-/

namespace KwinApi

namespace Script

variable {s : Script} {r : ℕ} {w : Window}

/-- The registry invariant of a state. -/
abbrev WellFormed (s : Script) : Prop := s.tokens.WellFormed s.windows

/-- A window shows the token of a registered entry whose deadline timer runs. -/
structure Matched (s : Script) (w : Window) (r : ℕ) : Prop where
  /-- The entry is registered. -/
  registered : s.tokens.Registered r
  /-- The caption is long enough for a token. -/
  long : tokenLength ≤ (s.data w).captionNormal.length
  /-- It starts with the token. -/
  shows : (s.data w).captionNormal.take tokenLength = (s.tokens.entries r).token
  /-- The deadline has not passed. -/
  running : (s.tokens.entries r).deadlineTimer.active = true

/-! ### What the handlers do -/

theorem tokens_invalidate (s : Script) (r : ℕ) (reason : TokenReason) :
    (s.invalidate r reason).tokens = s.tokens.unregister r := rfl

theorem WellFormed.invalidate (h : s.WellFormed) (hr : s.tokens.Registered r)
    (reason : TokenReason) : (s.invalidate r reason).WellFormed :=
  TokenTable.WellFormed.unregister h hr

/-- Validating a pending entry supersedes the token the window carries, if there is one. -/
theorem supersede_cases (h : s.WellFormed) (hnone : (s.tokens.entries r).window = none)
    (w : Window) :
    (s.tokens.byWindow.lookup (windowKey w) = none ∧ s.supersede r w = s) ∨
    ∃ q, q ≠ r ∧ s.tokens.Registered q ∧ (s.tokens.entries q).window = some w ∧
      s.supersede r w = s.invalidate q .superseded := by
  rw [supersede]
  cases hlook : s.tokens.byWindow.lookup (windowKey w) with
  | none => exact Or.inl ⟨rfl, rfl⟩
  | some q =>
    obtain ⟨hq, hqw⟩ := h.byWindow_windowKey.mp hlook
    have hne : q ≠ r := by
      rintro rfl
      rw [hnone] at hqw
      contradiction
    exact Or.inr ⟨q, hne, hq, hqw, if_pos hne⟩

/-- What a caption does: nothing, validate a pending entry, or make an active one ambiguous. -/
theorem checkCaption_cases (h : s.WellFormed) (w : Window) :
    (s.checkCaption w = s ∧ ∀ r, s.Matched w r → (s.tokens.entries r).window = some w) ∨
    (∃ r, s.Matched w r ∧ (s.tokens.entries r).window = none ∧
      s.checkCaption w = s.validate r w) ∨
    ∃ r b, s.Matched w r ∧ (s.tokens.entries r).window = some b ∧ b ≠ w ∧
      s.checkCaption w = s.invalidate r .ambiguous := by
  have hlookup : ∀ r, s.Matched w r →
      s.tokens.byToken.lookup ((s.data w).captionNormal.take tokenLength) = some r :=
    fun r hr => hr.shows ▸ hr.registered
  simp only [checkCaption]
  split_ifs with hlen
  · refine Or.inl ⟨rfl, fun r hr => ?_⟩
    exact absurd hr.long (Nat.not_le.mpr hlen)
  · cases hlook : s.tokens.byToken.lookup ((s.data w).captionNormal.take tokenLength) with
    | none =>
      refine Or.inl ⟨rfl, fun r hr => ?_⟩
      rw [hlookup r hr] at hlook
      contradiction
    | some r =>
      have honly : ∀ q, s.Matched w q → q = r := by
        intro q hq
        rw [hlookup q hq] at hlook
        exact Option.some.inj hlook
      by_cases hrun : (s.tokens.entries r).deadlineTimer.active = true
      · have hm : s.Matched w r :=
          ⟨h.registered hlook, Nat.le_of_not_lt hlen, (h.token_eq _ r hlook).symm, hrun⟩
        simp only [hrun, if_true]
        cases hb : (s.tokens.entries r).window with
        | none => exact Or.inr (Or.inl ⟨r, hm, hb, rfl⟩)
        | some b =>
          by_cases hbw : b = w
          · subst hbw
            refine Or.inl ⟨by simp, fun q hq => ?_⟩
            rw [honly q hq, hb]
          · exact Or.inr (Or.inr ⟨r, b, hm, hb, hbw, by simp [hbw]⟩)
      · refine Or.inl ⟨by simp [hrun], fun q hq => ?_⟩
        exact absurd (honly q hq ▸ hq.running) hrun

theorem WellFormed.supersede (h : s.WellFormed) (hr : s.tokens.Registered r)
    (hnone : (s.tokens.entries r).window = none) (w : Window) :
    (s.supersede r w).WellFormed ∧ (s.supersede r w).tokens.Registered r ∧
      (s.supersede r w).tokens.byWindow.lookup (windowKey w) = none ∧
      (s.supersede r w).windows = s.windows ∧
      ((s.supersede r w).tokens.entries r) = s.tokens.entries r := by
  rcases supersede_cases h hnone w with ⟨hfree, heq⟩ | ⟨q, hne, hq, hqw, heq⟩
  · rw [heq]
    exact ⟨h, hr, hfree, rfl, rfl⟩
  · rw [heq, tokens_invalidate]
    refine ⟨h.invalidate hq _, (TokenTable.registered_unregister hq).mpr ⟨Ne.symm hne, hr⟩, ?_,
      rfl, TokenTable.entries_stopDeadline_of_ne (Ne.symm hne)⟩
    rw [Option.eq_none_iff_forall_ne_some]
    intro p hp
    obtain ⟨hpq, hp⟩ := (h.byWindow_unregister hq).mp hp
    obtain ⟨hpr, hpw⟩ := h.byWindow_windowKey.mp hp
    exact hpq (h.eq_of_window hpr hq hpw hqw)

theorem WellFormed.validate (h : s.WellFormed) (hr : s.tokens.Registered r)
    (hnone : (s.tokens.entries r).window = none) (hw : w ∈ s.windows) :
    (s.validate r w).WellFormed := by
  obtain ⟨h', hr', hfree, hwin, hentry⟩ := h.supersede hr hnone w
  refine h'.bind hr' (by rw [hentry, hnone]) ?_ hfree
  rwa [hwin]

theorem WellFormed.checkCaption (h : s.WellFormed) (hw : w ∈ s.windows) :
    (s.checkCaption w).WellFormed := by
  rcases checkCaption_cases h w with ⟨heq, -⟩ | ⟨r, hm, hnone, heq⟩ | ⟨r, b, hm, -, -, heq⟩
  · rwa [heq]
  · rw [heq]
    exact h.validate hm.registered hnone hw
  · rw [heq]
    exact h.invalidate hm.registered _

/-- A removed window withdraws the token bound to it. -/
theorem onWindowRemoved_cases (h : s.WellFormed) (w : Window) :
    ((∀ r, s.tokens.Registered r → (s.tokens.entries r).window ≠ some w) ∧
      s.onWindowRemoved w = s) ∨
    ∃ r, s.tokens.Registered r ∧ (s.tokens.entries r).window = some w ∧
      s.onWindowRemoved w = s.invalidate r .windowClosed := by
  rw [onWindowRemoved]
  cases hlook : s.tokens.byWindow.lookup (windowKey w) with
  | none =>
    refine Or.inl ⟨fun r hr hrw => ?_, rfl⟩
    rw [h.byWindow_windowKey.mpr ⟨hr, hrw⟩] at hlook
    contradiction
  | some r =>
    obtain ⟨hr, hrw⟩ := h.byWindow_windowKey.mp hlook
    exact Or.inr ⟨r, hr, hrw, rfl⟩

theorem WellFormed.onWindowRemoved (h : s.WellFormed) (w : Window) :
    (s.onWindowRemoved w).tokens.WellFormed
      ((s.onWindowRemoved w).windows.filter fun v => v ≠ w) := by
  rcases onWindowRemoved_cases h w with ⟨hno, heq⟩ | ⟨r, hr, hrw, heq⟩
  · rw [heq]
    refine h.remanage fun q v hq hv => ?_
    have hne : v ≠ w := by
      rintro rfl
      exact hno q hq hv
    exact List.mem_filter.mpr ⟨h.managed q v hq hv, decide_eq_true hne⟩
  · have h' := h.invalidate hr .windowClosed
    rw [heq]
    refine h'.remanage fun q v hq hv => ?_
    have hne : v ≠ w := by
      rintro rfl
      obtain ⟨hqr, hq⟩ := (TokenTable.registered_unregister hr).mp hq
      rw [tokens_invalidate, TokenTable.entries_unregister, TokenTable.window_stopDeadline] at hv
      exact hqr (h.eq_of_window hq hr hv hrw)
    exact List.mem_filter.mpr ⟨h'.managed q v hq hv, decide_eq_true hne⟩

/-- A deadline that passes while its entry is pending withdraws the token. -/
theorem deadline_cases (h : s.WellFormed) (r : ℕ) :
    ((s.tokens.entries r).window = none ∧
      ({ s with tokens := s.tokens.stopDeadline r }).onTokenDeadline r =
        s.invalidate r .timeout) ∨
    ((s.tokens.entries r).window ≠ none ∧
      ({ s with tokens := s.tokens.stopDeadline r }).onTokenDeadline r =
        { s with tokens := s.tokens.stopDeadline r }) := by
  rw [onTokenDeadline, TokenTable.state_stopDeadline]
  cases hw : (s.tokens.entries r).window with
  | none =>
    refine Or.inl ⟨rfl, ?_⟩
    rw [h.pending_of_window hw]
    simp only [invalidate, dropClientWatches, TokenTable.unregister_stopDeadline,
      TokenTable.token_stopDeadline, TokenTable.conn_stopDeadline, TokenTable.window_stopDeadline]
  | some b =>
    refine Or.inr ⟨nofun, ?_⟩
    rw [h.state_of_window hw]

theorem WellFormed.dropClientTokens (h : s.WellFormed) (clientId : ℕ) :
    (s.dropClientTokens clientId).WellFormed :=
  (TokenTable.WellFormed.unregisterAll h (h.nodup_owned clientId)
    fun _ hr => (h.mem_owned.mp hr).1).1

/-- What a dispatched message can do. -/
inductive Dispatched (s : Script) (conn : RpcConnection) (s' : Script) (answer : Answer) :
    Prop where
  /-- Nothing. -/
  | idle (hs : s' = s) (hanswer : ∀ t, answer ≠ .token t)
  /-- `token.request` registers a fresh token. -/
  | issued {t : JsString} {timer : QTimer} (hanswer : answer = .token t) (hshape : IsToken t)
      (hfresh : s.tokens.byToken.lookup t = none) (hrun : timer.active = true)
      (hs : s' = { s with tokens := s.tokens.register ⟨t, conn, .pending, none, timer⟩ })
  /-- `window.watch` sets the watches of a token that resolves to a window. -/
  | watch {token : JsString} {window : Window} {watchInfo : AList fun _ : JsString => Bool}
      (hwindow : s.resolveTokenWindow token conn = .ok window)
      (hprops : ∀ e ∈ watchInfo.entries, e.1 ∈ watchProps)
      (hanswer : answer =
        .watching (WatchTable.setAll token conn window s.watches watchInfo.entries).2)
      (hs : s' = { s with
        watches := (WatchTable.setAll token conn window s.watches watchInfo.entries).1 })
  /-- `workspace.watch` sets the watches of a client. -/
  | workspaceWatch {watchInfo : AList fun _ : JsString => Bool}
      (hanswer : answer =
        .watching (WatchTable.setAll conn.id conn () s.workspaceWatches watchInfo.entries).2)
      (hs : s' = { s with workspaceWatches :=
        (WatchTable.setAll conn.id conn () s.workspaceWatches watchInfo.entries).1 })

/-- Every dispatched message does one of these. -/
theorem dispatch_cases {s' : Script} {conn : RpcConnection} {req : Request} {answer : Answer}
    (hd : s.dispatch conn req = some (s', answer)) : Dispatched s conn s' answer := by
  cases req with
  | tokenRequest timeout draws =>
    rw [dispatch, tokenRequest] at hd
    split_ifs at hd
    · obtain ⟨t, ht, heq⟩ := Option.map_eq_some_iff.mp hd
      cases heq
      obtain ⟨hshape, hfresh⟩ := generateToken_spec ht
      exact .issued rfl hshape hfresh rfl rfl
    · cases hd
      exact .idle rfl nofun
  | windowWatch token watchInfo =>
    rw [dispatch, windowWatch, Option.some.injEq] at hd
    split at hd
    · cases hd
      exact .idle rfl nofun
    · rename_i window hwindow
      split at hd
      · cases hd
        exact .idle rfl nofun
      · rename_i hprops
        cases hd
        refine .watch hwindow (fun e he => ?_) rfl rfl
        simpa using List.find?_eq_none.mp hprops e he
  | workspaceWatch watchInfo =>
    rw [dispatch, workspaceWatch, Option.some.injEq] at hd
    split at hd
    · cases hd
      exact .idle rfl nofun
    · cases hd
      exact .workspaceWatch rfl rfl
  | other =>
    cases hd
    exact .idle rfl nofun

/-! ### Signals -/

/-- Emitting signals only sends notifications. -/
theorem foldl_onWindowChanged (s : Script)
    (slots : List (Slot JsString RpcConnection Window JsString)) :
    slots.foldl (fun s slot => s.onWindowChanged slot.handler) s =
      { s with sent := s.sent ++ slots.flatMap fun slot =>
        s.delivered slot.handler.conn none (.windowChanged slot.handler.key slot.handler.prop
          (propValue (s.data slot.handler.source) slot.handler.prop)) } := by
  induction slots generalizing s with
  | nil => simp
  | cons slot slots ih =>
    rw [List.foldl_cons, ih, List.flatMap_cons, ← List.append_assoc]
    rfl

theorem foldl_onWorkspaceChanged (s : Script)
    (slots : List (Slot ℕ RpcConnection Unit JsString)) :
    slots.foldl (fun s slot => s.onWorkspaceChanged slot.handler) s =
      { s with sent := s.sent ++ slots.flatMap fun slot =>
        s.delivered slot.handler.conn none (.workspaceChanged slot.handler.prop
          (workspaceValue s.workspace slot.handler.prop)) } := by
  induction slots generalizing s with
  | nil => simp
  | cons slot slots ih =>
    rw [List.foldl_cons, ih, List.flatMap_cons, ← List.append_assoc]
    rfl

/-! ### Every step keeps the invariant -/

theorem WellFormed.step (h : s.WellFormed) (e : Event) : (s.step e).WellFormed := by
  cases e with
  | clientConnected id =>
    simp only [Script.step, onClientConnected]
    split_ifs
    · exact h
    · exact h
  | clientDisconnected id =>
    simp only [Script.step, onClientDisconnected]
    split
    · exact h
    · rename_i conn _
      have h' : WellFormed { s with
          alive := Function.update s.alive conn.ref false
          connections := s.connections.erase id } := h
      exact h'.dropClientTokens id
  | request conn req =>
    simp only [Script.step]
    split_ifs
    · cases hd : s.dispatch conn req with
      | none => exact h
      | some res =>
        change res.1.WellFormed
        cases dispatch_cases hd with
        | idle hs hanswer => rwa [hs]
        | issued hanswer hshape hfresh hrun hs =>
          rw [hs]
          exact TokenTable.WellFormed.register h hshape hfresh rfl rfl hrun
        | watch hwindow hprops hanswer hs =>
          rw [hs]
          exact h
        | workspaceWatch hanswer hs =>
          rw [hs]
          exact h
    · exact h
  | windowAdded window data =>
    simp only [Script.step]
    split_ifs
    · exact h
    · refine WellFormed.checkCaption ?_ List.mem_cons_self
      exact h.remanage fun q v hq hv => List.mem_cons_of_mem _ (h.managed q v hq hv)
  | captionChanged window caption =>
    simp only [Script.step]
    split_ifs with hw
    · have h' : (s.setCaption window caption).WellFormed := h
      exact h'.checkCaption hw
    · exact h
  | windowRemoved window =>
    simp only [Script.step]
    split_ifs
    · exact h.onWindowRemoved window
    · exact h
  | deadline r =>
    simp only [Script.step]
    split_ifs with hrun
    · rcases deadline_cases h r with ⟨-, heq⟩ | ⟨hsome, heq⟩
      · rw [heq]
        exact h.invalidate (h.running r hrun) _
      · rw [heq]
        exact TokenTable.WellFormed.stopDeadline h ((h.active_iff r).mpr hsome)
    · exact h
  | windowPropChanged window prop data =>
    simp only [Script.step, foldl_onWindowChanged]
    exact h
  | workspacePropChanged prop data =>
    simp only [Script.step, foldl_onWorkspaceChanged]
    exact h

theorem wellFormed_load (windows : List Window) (data : Window → WindowData)
    (workspace : WorkspaceData) : (load windows data workspace).WellFormed :=
  TokenTable.wellFormed_empty windows

theorem WellFormed.run (h : s.WellFormed) (es : List Event) : (s.run es).WellFormed := by
  induction es generalizing s with
  | nil => exact h
  | cons e es ih => exact ih (h.step e)

/-- In every reachable state the registry is well formed: a key of `byToken` is its entry's token,
of 20 alphabet characters; active entries are those with a window; `byWindow` holds exactly the
registered active entries, under the keys of their windows; these windows are managed; and the
deadline timer of every registered pending entry runs. So different entries have different tokens
and a window carries at most one. -/
theorem registry_invariant (windows : List Window) (data : Window → WindowData)
    (workspace : WorkspaceData) (es : List Event) :
    let s := (load windows data workspace).run es
    s.tokens.WellFormed s.windows ∧
    (∀ q r, s.tokens.Registered q → s.tokens.Registered r →
      (s.tokens.entries q).token = (s.tokens.entries r).token → q = r) ∧
    (∀ q r w, s.tokens.Registered q → s.tokens.Registered r →
      (s.tokens.entries q).window = some w → (s.tokens.entries r).window = some w → q = r) := by
  intro s
  have h : s.WellFormed := (wellFormed_load windows data workspace).run es
  refine ⟨h, fun q r hq hr heq => hq.eq_of_token_eq hr heq, ?_⟩
  intro q r w hq hr hqw hrw
  exact h.eq_of_window hq hr hqw hrw

end Script

end KwinApi
