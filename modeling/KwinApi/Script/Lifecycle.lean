import KwinApi.Script.Connections
import KwinApi.Script.Outcome
import KwinApi.Script.Ownership

/-!
# The life of a token, as its owner sees it

From request to withdrawal an entry is validated at most once and withdrawn at most once, and its
owner is told as long as it is connected. What happens to an entry in a step depends on the
history of the run only.

## Main definitions

* `KwinApi.Script.Ends` — why an act withdraws a token, read off the history
* `Script.Complete` — the news an entry can make
* `Script.LifecycleStep`, `Script.Lifecycle` — everything the owner of an entry can rely on

## Main results

* `Script.withdraws_iff_ends` — the state and the history agree about the causes
* `Script.token_lifecycle`
* `Script.leaves_silently` — nobody is told about the token of an owner that has disconnected
-/

namespace KwinApi

namespace Script

variable {s s' : Script} {q r : ℕ} {w : Window} {a : Option TokenAct} {h : List TokenAct}

/-! ### Causes in the history -/

/-- The act withdraws the token `t` of `c`, for the reason. -/
def Ends (h : List TokenAct) (c : RpcConnection) (t : JsString) : TokenAct → TokenReason → Prop
  -- The deadline passes and no window has shown the token.
  | .fire u, .timeout => u = t ∧ Waiting clientOf c t h
  -- A window other than the bound one shows the token before the deadline.
  | .shows w u, .ambiguous => u = t ∧ Running t h ∧ ∃ b, b ≠ w ∧ Earned clientOf c t b h
  -- Another token is validated on the bound window.
  | .shows w u, .superseded => Earned clientOf c t w h ∧ ∃ c', Waiting clientOf c' u h
  -- The bound window is removed.
  | .remove w, .windowClosed => Earned clientOf c t w h
  | _, _ => False

theorem waiting_iff_window (hs : s.WellFormed) (hh : s.tokens.claims.Agrees clientOf h)
    (hq : s.tokens.Registered q) :
    Waiting clientOf (s.tokens.entries q).conn (s.tokens.entries q).token h ↔
      (s.tokens.entries q).window = none := by
  rw [hh.waiting, TokenTable.claims_of_lookup hq, TokenTable.claim]
  simp only [Option.some.injEq, Claim.mk.injEq, true_and, and_iff_left_iff_imp]
  exact fun hnone => hs.deadline q hq (hs.pending_of_window hnone)

theorem earned_iff_window (hh : s.tokens.claims.Agrees clientOf h) (hq : s.tokens.Registered q) :
    Earned clientOf (s.tokens.entries q).conn (s.tokens.entries q).token w h ↔
      (s.tokens.entries q).window = some w := by
  rw [hh.earned, TokenTable.claims_of_lookup hq, TokenTable.claim]
  simp

theorem running_iff_active (hh : s.tokens.claims.Agrees clientOf h) (hq : s.tokens.Registered q) :
    Running (s.tokens.entries q).token h ↔ (s.tokens.entries q).deadlineTimer.active = true :=
  (hh.running _ _ (TokenTable.claims_of_lookup hq)).symm

/-- Somebody waits for a token to be shown: an act that shows it validates its entry. -/
theorem exists_waiting_iff (hs : s.WellFormed) (hh : s.tokens.claims.Agrees clientOf h)
    {u : JsString} : (∃ c, Waiting clientOf c u h) ↔
    ∃ r, s.tokens.Registered r ∧ s.Validates r w (some (.shows w u)) := by
  constructor
  · rintro ⟨c, hc⟩
    rw [hh.waiting] at hc
    obtain ⟨r, hr, rfl, hcl⟩ := hs.claims_eq_some.mp hc
    simp only [TokenTable.claim, Claim.mk.injEq] at hcl
    exact ⟨r, hr, rfl, hcl.2.1, hcl.2.2⟩
  · rintro ⟨r, hr, hval⟩
    refine ⟨(s.tokens.entries r).conn, ?_⟩
    rw [← hval.shows.2]
    exact (waiting_iff_window hs hh hr).mpr hval.pending

theorem validates_iff_waiting (hs : s.WellFormed) (hh : s.tokens.claims.Agrees clientOf h)
    (hq : s.tokens.Registered q) : s.Validates q w a ↔
    a = some (.shows w (s.tokens.entries q).token) ∧
      Waiting clientOf (s.tokens.entries q).conn (s.tokens.entries q).token h := by
  rw [waiting_iff_window hs hh hq]
  constructor
  · intro hval
    exact ⟨hval.act, hval.pending⟩
  · rintro ⟨hact, hnone⟩
    exact ⟨hact, hnone, hs.deadline q hq (hs.pending_of_window hnone)⟩

/-- State and history agree about why an entry is withdrawn. -/
theorem withdraws_iff_ends (hs : s.WellFormed) (hh : s.tokens.claims.Agrees clientOf h)
    (hq : s.tokens.Registered q) (a : TokenAct) (reason : TokenReason) :
    s.Withdraws q (some a) reason ↔
      Ends h (s.tokens.entries q).conn (s.tokens.entries q).token a reason := by
  cases a with
  | issue t c => cases reason <;> exact Iff.rfl
  | shows w t =>
    cases reason with
    | timeout => exact Iff.rfl
    | windowClosed => exact Iff.rfl
    | ambiguous =>
      simp only [Withdraws, Ends, earned_iff_window hh hq, running_iff_active hh hq]
    | superseded =>
      exact and_congr (earned_iff_window hh hq).symm (exists_waiting_iff hs hh).symm
  | remove w =>
    cases reason with
    | timeout => exact Iff.rfl
    | windowClosed => exact (earned_iff_window hh hq).symm
    | ambiguous => exact Iff.rfl
    | superseded => exact Iff.rfl
  | fire t =>
    cases reason with
    | timeout => simp only [Withdraws, Ends, waiting_iff_window hs hh hq]
    | windowClosed => exact Iff.rfl
    | ambiguous => exact Iff.rfl
    | superseded => exact Iff.rfl
  | drop k => cases reason <;> exact Iff.rfl

/-! ### The news of an entry -/

/-- The news an entry can make: a time-out, or a validation and then one withdrawal. -/
def Complete (news : List TokenNews) : Prop :=
  news <+: [.invalidated .timeout] ∨
    ∃ reason ∈ [TokenReason.windowClosed, .ambiguous, .superseded],
      news <+: [.validated, .invalidated reason]

/-- The news sent about an entry. -/
def news (s : Script) (r : ℕ) : List TokenNews :=
  (s.about r).filterMap fun n => n.note.tokenNews.map Prod.snd

/-- The news of a delivered notification. -/
theorem filterMap_delivered {conn : RpcConnection} {note : Notification} {x : JsString × TokenNews}
    (hnote : note.tokenNews = some x) :
    (s.delivered conn (some r) note).filterMap (fun n => n.note.tokenNews.map Prod.snd) =
      if s.alive conn.ref = true then [x.2] else [] := by
  rw [delivered]
  split_ifs with halive
  · simp [hnote]
  · rfl

/-- What has been sent about an entry by its state. -/
structure Traced (s : Script) (r : ℕ) : Prop where
  /-- Everything about the entry names its token and went to its owner. -/
  owner : ∀ n ∈ s.about r, n.conn = (s.tokens.entries r).conn ∧
    ∃ x, n.note.tokenNews = some ((s.tokens.entries r).token, x)
  /-- Nothing is sent about an entry that does not exist yet. -/
  fresh : s.tokens.nextEntry ≤ r → s.about r = []
  /-- Nothing is sent about a pending entry. -/
  pending : s.tokens.Registered r → (s.tokens.entries r).window = none → s.about r = []
  /-- The owner of an active entry knows that it was validated. -/
  active : s.tokens.Registered r → (s.tokens.entries r).window ≠ none →
    s.news r <+: [.validated] ∧
      (s.alive (s.tokens.entries r).conn.ref = true → s.news r = [.validated])
  /-- At any time the news are as they can be. -/
  complete : Complete (s.news r)

theorem complete_of_prefix {news : List TokenNews} (hnews : news <+: [.validated]) :
    Complete news :=
  Or.inr ⟨.windowClosed, by simp, hnews.trans (List.prefix_append [_] [_])⟩

theorem complete_nil : Complete [] := Or.inl List.nil_prefix

/-- A withdrawal completes the news: a time-out those of a pending entry, any other reason those of
an active one. -/
theorem Traced.complete_withdrawn (ht : s.Traced r) (hr : s.tokens.Registered r)
    {reason : TokenReason} (hreason : reason = .timeout ↔ (s.tokens.entries r).window = none) :
    Complete (s.news r ++
      if s.alive (s.tokens.entries r).conn.ref = true then [.invalidated reason] else []) := by
  by_cases hnone : (s.tokens.entries r).window = none
  · rw [news, ht.pending hr hnone, hreason.mpr hnone]
    split_ifs
    · exact Or.inl (List.prefix_refl _)
    · exact complete_nil
  · obtain ⟨hpre, hall⟩ := ht.active hr hnone
    split_ifs with halive
    · rw [hall halive]
      refine Or.inr ⟨reason, ?_, List.prefix_refl _⟩
      have hne : reason ≠ .timeout := fun h => hnone (hreason.mp h)
      cases reason <;> simp at hne ⊢
    · rw [List.append_nil]
      exact complete_of_prefix hpre

/-- A step that sends nothing about the entry and leaves it alone. -/
theorem Traced.same (ht : s.Traced r) (habout : s'.about r = s.about r)
    (hconn : (s'.tokens.entries r).conn = (s.tokens.entries r).conn)
    (htoken : (s'.tokens.entries r).token = (s.tokens.entries r).token)
    (hnext : s.tokens.nextEntry ≤ s'.tokens.nextEntry)
    (hreg : s'.tokens.Registered r → s.tokens.Registered r ∧
      (s'.tokens.entries r).window = (s.tokens.entries r).window)
    (halive : s'.alive (s.tokens.entries r).conn.ref = true →
      s.alive (s.tokens.entries r).conn.ref = true) : s'.Traced r := by
  have hnews : s'.news r = s.news r := by rw [news, habout, news]
  refine ⟨?_, fun hr => ?_, fun hr hnone => ?_, fun hr hsome => ?_, ?_⟩
  · rw [habout, hconn, htoken]
    exact ht.owner
  · rw [habout]
    exact ht.fresh (hnext.trans hr)
  · obtain ⟨hr, hwindow⟩ := hreg hr
    rw [habout]
    exact ht.pending hr (hwindow ▸ hnone)
  · obtain ⟨hr, hwindow⟩ := hreg hr
    rw [hnews, hconn]
    obtain ⟨hpre, hall⟩ := ht.active hr (hwindow ▸ hsome)
    exact ⟨hpre, fun h => hall (halive h)⟩
  · rw [hnews]
    exact ht.complete

/-- Only a time-out withdraws a pending entry, and it withdraws no other. -/
theorem Withdraws.timeout_iff {reason : TokenReason}
    (hw : s.Withdraws q a reason) :
    reason = .timeout ↔ (s.tokens.entries q).window = none := by
  rcases a with - | ⟨t, c⟩ | ⟨w, t⟩ | w | t | k
  · cases reason <;> exact hw.elim
  · exact (not_withdraws_issue hw).elim
  · rcases withdraws_shows.mp hw with ⟨rfl, -, -, b, -, hb⟩ | ⟨rfl, hb, -⟩
    · simp [hb]
    · simp [hb]
  · obtain ⟨rfl, hb⟩ := withdraws_remove.mp hw
    simp [hb]
  · obtain ⟨rfl, -, hb⟩ := withdraws_fire.mp hw
    simp [hb]
  · exact (not_withdraws_drop hw).elim

/-- What validates an entry withdraws it for no reason. -/
theorem Validates.not_withdraws (hval : s.Validates q w a) (reason : TokenReason) :
    ¬ s.Withdraws q a reason := by
  intro hwith
  rw [hval.act] at hwith
  rcases withdraws_shows.mp hwith with ⟨-, -, -, b, -, hb⟩ | ⟨-, hb, -⟩
  · rw [hval.pending] at hb
    contradiction
  · rw [hval.pending] at hb
    contradiction

/-- An act withdraws an entry for one reason. -/
theorem Withdraws.unique {reason reason' : TokenReason} (h : s.Withdraws q a reason)
    (h' : s.Withdraws q a reason') : reason = reason' := by
  rcases a with - | ⟨t, c⟩ | ⟨w, t⟩ | w | t | k
  · cases reason <;> exact h.elim
  · exact (not_withdraws_issue h).elim
  · rcases withdraws_shows.mp h with ⟨rfl, -, -, b, hbw, hb⟩ | ⟨rfl, hb, -⟩ <;>
      rcases withdraws_shows.mp h' with ⟨rfl, -, -, b', hbw', hb'⟩ | ⟨rfl, hb', -⟩
    · rfl
    · rw [hb] at hb'
      exact absurd (Option.some.inj hb') hbw
    · rw [hb] at hb'
      exact absurd (Option.some.inj hb').symm hbw'
    · rfl
  · rw [(withdraws_remove.mp h).1, (withdraws_remove.mp h').1]
  · rw [(withdraws_fire.mp h).1, (withdraws_fire.mp h').1]
  · exact (not_withdraws_drop h).elim

/-- An entry is traced by every step. -/
theorem Traced.step (ht : s.Traced r) (h : s.WellFormed) (hc : s.Connected) (e : Event) :
    (s.step e).Traced r := by
  have htr := step_transition h e
  obtain ⟨hnext, hentry⟩ := htr.entry_eq h
  by_cases hlt : r < s.tokens.nextEntry
  · obtain ⟨htoken, hconn⟩ := hentry r hlt
    have halive : (s.step e).alive (s.tokens.entries r).conn.ref = true →
        s.alive (s.tokens.entries r).conn.ref = true := by
      intro hal
      by_contra hdead
      rw [alive_step hc (hc.owner r hlt) (Bool.not_eq_true _ ▸ hdead)] at hal
      contradiction
    by_cases hr : s.tokens.Registered r
    · cases htr.outcome h hr with
      | kept hreg hwindow habout =>
        exact ht.same habout hconn htoken hnext (fun _ => ⟨hr, hwindow⟩) halive
      | validated hval hreg hwindow habout =>
        have hnews : (s.step e).news r =
            if s.alive (s.tokens.entries r).conn.ref = true then [.validated] else [] := by
          rw [news, habout, ht.pending hr hval.pending, List.nil_append]
          exact @filterMap_delivered s r _ (.tokenValidated _ _) (_, .validated) rfl
        have hpre : (s.step e).news r <+: [.validated] := by
          rw [hnews]
          split_ifs
          · exact List.prefix_refl _
          · exact List.nil_prefix
        refine ⟨fun n hn => ?_, fun hle => ?_, fun _ hnone => ?_, fun _ _ => ⟨hpre, ?_⟩,
          complete_of_prefix hpre⟩
        · rw [habout, ht.pending hr hval.pending, List.nil_append] at hn
          rw [mem_delivered hn, hconn, htoken]
          exact ⟨rfl, _, rfl⟩
        · exact absurd (hlt.trans_le (hnext.trans hle)) (Nat.lt_irrefl r)
        · rw [hwindow] at hnone
          contradiction
        · intro hal
          rw [hconn] at hal
          rw [hnews, if_pos (halive hal)]
      | @withdrawn reason hwith hreg habout =>
        refine ⟨fun n hn => ?_, fun hle => ?_, fun hr' => absurd hr' hreg,
          fun hr' => absurd hr' hreg, ?_⟩
        · rw [hconn, htoken]
          rw [habout] at hn
          rcases List.mem_append.mp hn with hn | hn
          · exact ht.owner n hn
          · rw [mem_delivered hn]
            exact ⟨rfl, _, rfl⟩
        · exact absurd (hlt.trans_le (hnext.trans hle)) (Nat.lt_irrefl r)
        · have hnews : (s.step e).news r = s.news r ++
              if s.alive (s.tokens.entries r).conn.ref = true then [.invalidated reason]
              else [] := by
            rw [news, habout, List.filterMap_append]
            exact congrArg (s.news r ++ ·)
              (@filterMap_delivered s r _ (.tokenInvalidated _ _ _) (_, .invalidated reason) rfl)
          rw [hnews]
          exact ht.complete_withdrawn hr hwith.timeout_iff
      | dropped hdrop hreg habout =>
        exact ht.same habout hconn htoken hnext (fun hr' => absurd hr' hreg) halive
    · obtain ⟨habout, hgone, -⟩ := htr.unregistered h hr
      exact ht.same habout hconn htoken hnext (fun hr' => absurd hr' (hgone hlt)) halive
  · have hr : ¬ s.tokens.Registered r := fun hr => hlt (h.lt_next _ r hr)
    obtain ⟨habout, -, hnone⟩ := htr.unregistered h hr
    have hnil : (s.step e).about r = [] := habout.trans (ht.fresh (Nat.le_of_not_lt hlt))
    refine ⟨?_, fun _ => hnil, fun _ _ => hnil, fun hr' hsome => absurd (hnone hr') hsome, ?_⟩
    · rw [hnil]
      exact nofun
    · rw [news, hnil]
      exact complete_nil

theorem traced_run (windows : List Window) (data : Window → WindowData)
    (workspace : WorkspaceData) (es : List Event) (r : ℕ) :
    ((load windows data workspace).run es).Traced r := by
  induction es using List.reverseRecOn with
  | nil => exact ⟨nofun, fun _ => rfl, fun _ _ => rfl, nofun, complete_nil⟩
  | append_singleton es e ih =>
    rw [run_concat]
    exact ih.step ((wellFormed_load windows data workspace).run es)
      (connected_run windows data workspace es) e

/-! ### The life of an entry -/

/-- One step, for a registered entry: `s'` is the state after the act `a`. The history `h` decides
what happens to the entry. -/
structure LifecycleStep (s s' : Script) (h : List TokenAct) (r : ℕ) (a : Option TokenAct) :
    Prop where
  /-- The entry leaves `byToken` when an act withdraws it or its client is dropped. -/
  leaves : ¬ s'.tokens.Registered r ↔
    (∃ act reason, a = some act ∧
      Ends h (s.tokens.entries r).conn (s.tokens.entries r).token act reason) ∨
    a = some (.drop (s.tokens.entries r).conn.id)
  /-- When the first window shows the token, the owner is told that it is validated. -/
  validated : ∀ w, a = some (.shows w (s.tokens.entries r).token) →
    Waiting clientOf (s.tokens.entries r).conn (s.tokens.entries r).token h →
    s'.about r = s.about r ++ s.validatedNote r (s'.windowInfo w)
  /-- When an act withdraws the token, the owner is told the reason. -/
  withdrawn : ∀ act reason, a = some act →
    Ends h (s.tokens.entries r).conn (s.tokens.entries r).token act reason →
    s'.about r = s.about r ++ s.invalidatedNote r reason
      ((s.tokens.entries r).window.map s'.windowInfo)
  /-- Otherwise nothing is sent about the entry. -/
  silent : (∀ w, a = some (.shows w (s.tokens.entries r).token) →
      ¬ Waiting clientOf (s.tokens.entries r).conn (s.tokens.entries r).token h) →
    (∀ act reason, a = some act →
      ¬ Ends h (s.tokens.entries r).conn (s.tokens.entries r).token act reason) →
    s'.about r = s.about r
  /-- A superseded token is withdrawn before the new one is validated. -/
  superseded : ∀ w u, a = some (.shows w u) →
    Ends h (s.tokens.entries r).conn (s.tokens.entries r).token (.shows w u) .superseded →
    ∃ q, s.tokens.Registered q ∧ (s.tokens.entries q).token = u ∧
      s'.sent = s.sent ++ s.invalidatedNote r .superseded (some (s'.windowInfo w)) ++
        s.validatedNote q (s'.windowInfo w)
  /-- A caption with the token after its deadline, or on the window it is bound to, changes and
  notifies nothing. -/
  ignored : ∀ w, a = some (.shows w (s.tokens.entries r).token) →
    ¬ Running (s.tokens.entries r).token h ∨
      Earned clientOf (s.tokens.entries r).conn (s.tokens.entries r).token w h →
    s' = { s with windows := s'.windows, data := s'.data }

/-- What the owner of an entry can rely on, in a state with the given history. -/
structure Lifecycle (s : Script) (h : List TokenAct) (r : ℕ) : Prop where
  /-- Token notifications about the entry name its token and go to its owner only. -/
  owner : ∀ n ∈ s.about r, n.conn = (s.tokens.entries r).conn ∧
    ∃ x, n.note.tokenNews = some ((s.tokens.entries r).token, x)
  /-- The news are a time-out, or a validation and one withdrawal, or a beginning of these. -/
  complete : Complete (s.news r)
  /-- What happens to a registered entry in one step. -/
  step : s.tokens.Registered r → ∀ e, LifecycleStep s (s.step e) h r (s.act e)
  /-- Once it has left the registry it never comes back, and nothing is sent about it. -/
  gone : r < s.tokens.nextEntry → ¬ s.tokens.Registered r → ∀ es,
    ¬ (s.run es).tokens.Registered r ∧ (s.run es).about r = s.about r

/-- Some act ends the token exactly when the entry is withdrawn. -/
theorem exists_ends_iff (hs : s.WellFormed) (hh : s.tokens.claims.Agrees clientOf h)
    (hr : s.tokens.Registered r) (a : Option TokenAct) :
    (∃ act reason, a = some act ∧
      Ends h (s.tokens.entries r).conn (s.tokens.entries r).token act reason) ↔
      ∃ reason, s.Withdraws r a reason := by
  cases a with
  | none =>
    refine iff_of_false (by simp) ?_
    rintro ⟨reason, hwith⟩
    cases reason <;> exact hwith
  | some act =>
    constructor
    · rintro ⟨act', reason, ha, hend⟩
      cases ha
      exact ⟨reason, (withdraws_iff_ends hs hh hr _ _).mpr hend⟩
    · rintro ⟨reason, hwith⟩
      exact ⟨act, reason, rfl, (withdraws_iff_ends hs hh hr _ _).mp hwith⟩

/-- The notifications when the history says that the token is superseded. -/
theorem sent_of_superseded (hs : s.WellFormed) (hh : s.tokens.claims.Agrees clientOf h)
    (hr : s.tokens.Registered r) {u : JsString} (ht : Transition s s' (some (.shows w u)))
    (hend : Ends h (s.tokens.entries r).conn (s.tokens.entries r).token (.shows w u)
      .superseded) :
    ∃ q, s.tokens.Registered q ∧ (s.tokens.entries q).token = u ∧
      s'.sent = s.sent ++ s.invalidatedNote r .superseded (some (s'.windowInfo w)) ++
        s.validatedNote q (s'.windowInfo w) := by
  obtain ⟨hrw, q, hq, hval⟩ := (withdraws_iff_ends hs hh hr _ _).mpr hend
  exact ⟨q, hq, hval.shows.2, ht.superseded hs hr hrw hq hval⟩

/-- A caption with the token after its deadline, or on the window it is bound to. -/
theorem step_of_ignored (hs : s.WellFormed) (hh : s.tokens.claims.Agrees clientOf h)
    (hr : s.tokens.Registered r) {e : Event}
    (ha : s.act e = some (.shows w (s.tokens.entries r).token))
    (hor : ¬ Running (s.tokens.entries r).token h ∨
      Earned clientOf (s.tokens.entries r).conn (s.tokens.entries r).token w h) :
    s.step e = { s with windows := (s.step e).windows, data := (s.step e).data } := by
  refine step_of_idle_caption hs ha fun q hq htoken hrun => ?_
  rw [hq.eq_of_token_eq hr htoken] at hrun ⊢
  rcases hor with hnot | hearned
  · exact absurd ((running_iff_active hh hr).mpr hrun) hnot
  · exact (earned_iff_window hh hr).mp hearned

theorem lifecycleStep (hs : s.WellFormed) (hh : s.tokens.claims.Agrees clientOf h)
    (hr : s.tokens.Registered r) (e : Event) : LifecycleStep s (s.step e) h r (s.act e) := by
  have ht := step_transition hs e
  have hwaits := fun w => @validates_iff_waiting s r w (s.act e) h hs hh hr
  have hexists := exists_ends_iff hs hh hr (s.act e)
  have hends : ∀ act reason, s.act e = some act →
      (Ends h (s.tokens.entries r).conn (s.tokens.entries r).token act reason ↔
        s.Withdraws r (s.act e) reason) := by
    intro act reason ha
    rw [ha, withdraws_iff_ends hs hh hr]
  have hsuperseded := fun w u (ha : s.act e = some (.shows w u)) =>
    @sent_of_superseded s (s.step e) r w h hs hh hr u (ha ▸ ht)
  have hignored := fun w => @step_of_ignored s r w h hs hh hr e
  have hout := ht.outcome hs hr
  cases hout with
  | kept hreg hwindow habout hval hwith hdrop =>
    refine ⟨?_, fun w ha hwait => ?_, fun act reason ha hend => ?_, fun _ _ => habout,
      hsuperseded, hignored⟩
    · rw [hexists]
      exact iff_of_false (not_not.mpr hreg) (not_or.mpr ⟨fun ⟨reason, h⟩ => hwith reason h, hdrop⟩)
    · exact absurd ((hwaits w).mpr ⟨ha, hwait⟩) (hval w)
    · exact absurd ((hends act reason ha).mp hend) (hwith reason)
  | @validated w hval hreg hwindow habout =>
    refine ⟨?_, fun w' ha hwait => ?_, fun act reason ha hend => ?_, fun hno _ => ?_,
      hsuperseded, hignored⟩
    · rw [hexists]
      refine iff_of_false (not_not.mpr hreg) (not_or.mpr ⟨?_, ?_⟩)
      · rintro ⟨reason, hwith⟩
        exact hval.not_withdraws reason hwith
      · rw [hval.act]
        exact nofun
    · rw [hval.act, Option.some.injEq, ClaimAct.shows.injEq] at ha
      rw [← ha.1]
      exact habout
    · exact absurd ((hends act reason ha).mp hend) (hval.not_withdraws reason)
    · obtain ⟨ha, hwait⟩ := (hwaits w).mp hval
      exact absurd hwait (hno w ha)
  | @withdrawn reason hwith hreg habout =>
    refine ⟨?_, fun w ha hwait => ?_, fun act reason' ha hend => ?_, fun _ hno => ?_,
      hsuperseded, hignored⟩
    · rw [hexists]
      exact iff_of_true hreg (Or.inl ⟨reason, hwith⟩)
    · exact absurd hwith (((hwaits w).mpr ⟨ha, hwait⟩).not_withdraws reason)
    · rw [((hends act reason' ha).mp hend).unique hwith]
      exact habout
    · obtain ⟨act, reason', ha, hend⟩ := hexists.mpr ⟨reason, hwith⟩
      exact absurd hend (hno act reason' ha)
  | dropped hdrop hreg habout =>
    refine ⟨iff_of_true hreg (Or.inr hdrop), fun w ha _ => ?_, fun act reason ha hend => ?_,
      fun _ _ => habout, hsuperseded, hignored⟩
    · rw [hdrop] at ha
      simp at ha
    · have hwith := (hends act reason ha).mp hend
      rw [hdrop] at hwith
      exact absurd hwith not_withdraws_drop

/-- What left the registry stays away. -/
theorem gone_run (hs : s.WellFormed) (hlt : r < s.tokens.nextEntry)
    (hr : ¬ s.tokens.Registered r) (es : List Event) :
    ¬ (s.run es).tokens.Registered r ∧ (s.run es).about r = s.about r := by
  induction es generalizing s with
  | nil => exact ⟨hr, rfl⟩
  | cons e es ih =>
    have ht := step_transition hs e
    obtain ⟨habout, hgone, -⟩ := ht.unregistered hs hr
    obtain ⟨hreg, habout'⟩ :=
      ih (hs.step e) (hlt.trans_le (ht.entry_eq hs).1) (hgone hlt)
    exact ⟨hreg, habout'.trans habout⟩

/-- Token notifications are about entries. -/
theorem Transition.tagged (ht : Transition s s' a)
    (hs : ∀ n ∈ s.sent, n.about = none → n.note.tokenNews = none) :
    ∀ n ∈ s'.sent, n.about = none → n.note.tokenNews = none := by
  have happend : ∀ notes, s'.sent = s.sent ++ notes →
      (∀ n ∈ notes, n.about = none → n.note.tokenNews = none) →
      ∀ n ∈ s'.sent, n.about = none → n.note.tokenNews = none := by
    intro notes hsent hnotes n hn
    rw [hsent] at hn
    rcases List.mem_append.mp hn with hn | hn
    · exact hs n hn
    · exact hnotes n hn
  have hdelivered : ∀ {conn r note}, ∀ n ∈ s.delivered conn (some r) note, n.about = none →
      n.note.tokenNews = none := by
    intro conn r note n hn hnone
    rw [mem_delivered hn] at hnone
    contradiction
  cases ht with
  | quiet hidle htokens hsent hnotes => exact happend _ hsent fun n hn _ => (hnotes n hn).2
  | issued hconn hfresh hrun htokens hsent => rwa [hsent]
  | validated hr hnone hrun hfree htokens hsent => exact happend _ hsent hdelivered
  | superseding hr hnone hrun hp hpw htokens hsent =>
    rw [List.append_assoc] at hsent
    refine happend _ hsent fun n hn => ?_
    rcases List.mem_append.mp hn with hn | hn
    · exact hdelivered n hn
    · exact hdelivered n hn
  | withdrawn hr hcause htokens hsent => exact happend _ hsent hdelivered
  | expired hr hsome htokens hsent => rwa [hsent]
  | dropped htokens hsent => rwa [hsent]

/-- In every reachable state every token notification is about an entry, and every entry lives as
its owner can expect: its notifications go to its owner only and are a time-out, or a validation
and one withdrawal; it leaves the registry at most once, in the step that withdraws it (with the
notification, if the owner is still connected) or silently when its client is dropped; and each
reason is given exactly in the steps the history says. -/
theorem token_lifecycle (windows : List Window) (data : Window → WindowData)
    (workspace : WorkspaceData) (es : List Event) :
    let s := (load windows data workspace).run es
    (∀ n ∈ s.sent, n.about = none → n.note.tokenNews = none) ∧
    ∀ r, Lifecycle s ((load windows data workspace).history es) r := by
  intro s
  have hs : s.WellFormed := (wellFormed_load windows data workspace).run es
  refine ⟨?_, fun r => ?_⟩
  · induction es using List.reverseRecOn with
    | nil => exact nofun
    | append_singleton es e ih =>
      have hs := (wellFormed_load windows data workspace).run es
      have ht := (step_transition hs e).tagged (ih hs)
      rw [← run_concat] at ht
      exact ht
  · have ht := traced_run windows data workspace es r
    exact ⟨ht.owner, ht.complete,
      fun hr e => lifecycleStep hs (agrees_run windows data workspace es) hr e,
      fun hlt hr es' => gone_run hs hlt hr es'⟩

/-- Client 1 connects and disconnects while a `token.request` of the batch it sent is still to be
dispatched. The token of that request times out: its entry leaves the registry, not because its
client is dropped, and nothing is sent. -/
theorem leaves_silently :
    let s := loadEmpty.run [.clientConnected 1, .clientDisconnected 1,
      .request ⟨0, 1⟩ (.tokenRequest 1 [fun _ => ⟨0, 1, Nat.one_pos⟩])]
    s.tokens.Registered 0 ∧ ¬ (s.step (.deadline 0)).tokens.Registered 0 ∧
      s.act (.deadline 0) ≠ some (.drop 1) ∧ (s.step (.deadline 0)).sent = s.sent := by
  decide

end Script

end KwinApi
