import KwinApi.Script.Transition

/-!
# Who controls which window

The registry of the script refines the abstract registry of claims: every event is the act it is
for the tokens. What a token resolves to is therefore what the history of the run says.

## Main results

* `KwinApi.Script.claims_step` — the refinement
* `Script.agrees_run` — the registry agrees with the history of the run
* `Script.resolveTokenWindow_iff_earned` — a token resolves to the window its owner earned
-/

namespace KwinApi

namespace Script

variable {s : Script} {r : ℕ} {w : Window}

/-- A disconnect names a client id. -/
abbrev clientOf : RpcConnection → ℕ := RpcConnection.id

/-! ### Evicting the token of a window -/

/-- Nobody is evicted from a window that carries no token. -/
theorem keep_of_free (h : s.WellFormed)
    (hfree : ∀ r, s.tokens.Registered r → (s.tokens.entries r).window ≠ some w) :
    s.tokens.claims.keep (fun cl => cl.bound ≠ some w) = s.tokens.claims := by
  funext t
  refine Option.ext fun cl => ?_
  rw [Registry.keep_eq_some, and_iff_left_iff_imp, h.claims_eq_some]
  rintro ⟨r, hr, -, rfl⟩
  exact decide_eq_true (hfree r hr)

/-- The token of a window is evicted. -/
theorem keep_of_bound (h : s.WellFormed) (hr : s.tokens.Registered r)
    (hrw : (s.tokens.entries r).window = some w) :
    s.tokens.claims.keep (fun cl => cl.bound ≠ some w) =
      Function.update s.tokens.claims (s.tokens.entries r).token none := by
  funext t
  by_cases ht : t = (s.tokens.entries r).token
  · subst ht
    rw [Function.update_self, Registry.keep, TokenTable.claims_of_lookup hr]
    simp [TokenTable.claim, hrw]
  · rw [Function.update_of_ne ht]
    refine Option.ext fun cl => ?_
    rw [Registry.keep_eq_some, and_iff_left_iff_imp, h.claims_eq_some]
    rintro ⟨q, hq, hqt, rfl⟩
    refine decide_eq_true fun hqw => ht ?_
    rw [← hqt, h.eq_of_window hq hr hqw hrw]

/-! ### Every event is an act -/

/-- What an event does to the claims, given what it is for the tokens. -/
def afterAct (R : Registry JsString RpcConnection Window) : Option TokenAct →
    Registry JsString RpcConnection Window
  | none => R
  | some a => R.step clientOf a

/-- An act that changes nothing about tokens changes no claim. -/
theorem afterAct_of_idle (h : s.WellFormed) {a : Option TokenAct} (hidle : s.Idle a) :
    afterAct s.tokens.claims a = s.tokens.claims := by
  rcases a with - | ⟨t, c⟩ | ⟨w, t⟩ | w | t | k
  · rfl
  · exact hidle.elim
  · have hbound : ∀ cl, s.tokens.claims t = some cl → cl.isOpen = true → cl.bound = some w := by
      intro cl hcl hopen
      obtain ⟨r, hr, ht, rfl⟩ := h.claims_eq_some.mp hcl
      exact hidle r hr ht hopen
    rw [afterAct, Registry.step]
    split
    · rename_i hcl
      have := hbound _ hcl rfl
      contradiction
    · rename_i b hcl
      rw [if_pos (Option.some.inj (hbound _ hcl rfl))]
    · rfl
  · exact keep_of_free h hidle
  · exact hidle.elim
  · exact hidle.elim

theorem Transition.claims {s' : Script} {a : Option TokenAct} (ht : Transition s s' a)
    (h : s.WellFormed) : s'.tokens.claims = afterAct s.tokens.claims a := by
  have hclaim : ∀ {r}, s.tokens.Registered r →
      s.tokens.claims (s.tokens.entries r).token = some (s.tokens.claim r) :=
    fun hr => TokenTable.claims_of_lookup hr
  cases ht with
  | quiet hidle htokens hsent hnotes => rw [htokens, afterAct_of_idle h hidle]
  | issued hconn hfresh hrun htokens hsent =>
    rw [htokens, h.claims_register, afterAct, Registry.step, hrun]
  | validated hr hnone hrun hfree htokens hsent =>
    rw [htokens, h.claims_bind hr, afterAct, Registry.step, hclaim hr, TokenTable.claim, hnone,
      hrun]
    simp only [Registry.bind, keep_of_free h hfree]
  | @superseding r q w hr hnone hrun hq hqw htokens hsent =>
    have hne : r ≠ q := by
      rintro rfl
      rw [hnone] at hqw
      contradiction
    have hr' := (TokenTable.registered_unregister hq).mpr ⟨hne, hr⟩
    have hentry : (s.tokens.unregister q).entries r = s.tokens.entries r :=
      TokenTable.entries_stopDeadline_of_ne hne
    have h' : (s.tokens.unregister q).WellFormed s.windows := TokenTable.WellFormed.unregister h hq
    rw [htokens, h'.claims_bind hr', hentry, h.claims_unregister, afterAct, Registry.step,
      hclaim hr, TokenTable.claim, hnone, hrun]
    simp only [Registry.bind, keep_of_bound h hq hqw]
  | withdrawn hr hcause htokens hsent =>
    rw [htokens, h.claims_unregister, afterAct]
    cases hcause with
    | timeout hnone =>
      rw [Registry.step, hclaim hr]
      simp [TokenTable.claim, Claim.close, hnone]
    | ambiguous hb hbw hrun =>
      rw [Registry.step, hclaim hr, TokenTable.claim, hb, hrun]
      simp [hbw]
    | windowClosed hw => exact (keep_of_bound h hr hw).symm
  | @expired r hr hsome htokens hsent =>
    obtain ⟨b, hb⟩ := Option.ne_none_iff_exists'.mp hsome
    rw [htokens, h.claims_stopDeadline hr, afterAct, Registry.step, hclaim hr]
    simp [TokenTable.claim, Claim.close, hb]
  | dropped htokens hsent => rw [htokens, h.claims_owned, afterAct, Registry.step]

/-- The refinement: on the claims every event is the act it is for the tokens. -/
theorem claims_step (h : s.WellFormed) (e : Event) :
    (s.step e).tokens.claims = afterAct s.tokens.claims (s.act e) :=
  (step_transition h e).claims h

/-! ### Runs -/

/-- The registry after a run is the abstract registry after its history. -/
theorem claims_run (windows : List Window) (data : Window → WindowData)
    (workspace : WorkspaceData) (es : List Event) :
    ((load windows data workspace).run es).tokens.claims =
      Registry.after clientOf ((load windows data workspace).history es) := by
  induction es using List.reverseRecOn with
  | nil => rfl
  | append_singleton es e ih =>
    have h := (wellFormed_load windows data workspace).run es
    rw [run_concat, claims_step h, history_concat, ih]
    cases ((load windows data workspace).run es).act e <;> rfl

/-- The registry agrees with the history of the run. -/
theorem agrees_run (windows : List Window) (data : Window → WindowData)
    (workspace : WorkspaceData) (es : List Event) :
    ((load windows data workspace).run es).tokens.claims.Agrees clientOf
      ((load windows data workspace).history es) := by
  rw [claims_run]
  exact Registry.after_agrees ..

/-- What a token resolves to is its claim. -/
theorem resolveTokenWindow_eq_ok (h : s.WellFormed) {t : JsString} {conn : RpcConnection} :
    s.resolveTokenWindow t conn = .ok w ↔ ∃ o, s.tokens.claims t = some ⟨conn, some w, o⟩ := by
  rw [resolveTokenWindow]
  cases hlook : s.tokens.byToken.lookup t with
  | none => simp [TokenTable.claims_of_lookup_none hlook]
  | some r =>
    rw [TokenTable.claims_of_lookup hlook]
    by_cases hconn : (s.tokens.entries r).conn = conn
    · cases hb : (s.tokens.entries r).window with
      | none => simp [hconn, hb, TokenTable.claim]
      | some b => simp [hconn, hb, TokenTable.claim, h.state_of_window hb]
    · simp [hconn, TokenTable.claim]

/-- A token gives exactly the control its owner earned: it resolves to `w` for `conn` if and only
if it was issued to `conn`, `w` was the first window to show it before its deadline, and since
then `w` was not removed, no other window showed it before the deadline, no other token was
validated on `w`, and the tokens of `conn` were not dropped. In every other case the method that
uses it throws. -/
theorem resolveTokenWindow_iff_earned (windows : List Window) (data : Window → WindowData)
    (workspace : WorkspaceData) (es : List Event) (t : JsString) (conn : RpcConnection) :
    let s := (load windows data workspace).run es
    let history := (load windows data workspace).history es
    (∀ w, s.resolveTokenWindow t conn = .ok w ↔ Earned clientOf conn t w history) ∧
    ((∃ e, s.resolveTokenWindow t conn = .error e) ↔
      ∀ w, ¬ Earned clientOf conn t w history) := by
  intro s history
  have h : s.WellFormed := (wellFormed_load windows data workspace).run es
  have hok : ∀ w, s.resolveTokenWindow t conn = .ok w ↔ Earned clientOf conn t w history := by
    intro w
    rw [resolveTokenWindow_eq_ok h, (agrees_run windows data workspace es).earned]
  refine ⟨hok, ?_⟩
  simp only [← hok]
  cases s.resolveTokenWindow t conn with
  | error e => simp
  | ok w => simp

end Script

end KwinApi
