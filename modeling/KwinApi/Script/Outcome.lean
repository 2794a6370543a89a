import KwinApi.Script.Transition

/-!
# One step, seen from one entry

Of the seven things an event can do to the tokens, four can happen to a given registered entry.

## Main definitions

* `KwinApi.Script.Validates`, `Script.Withdraws` — what an act does to an entry
* `Script.Outcome` — the four things that can happen to a registered entry
* `Script.Spares` — an act that neither validates nor withdraws an entry

## Main results

* `Script.Transition.outcome` — a registered entry
* `Script.Transition.unregistered` — an entry that is not registered
* `Script.Transition.superseded` — the order of the notifications when a token is superseded
* `Script.step_of_idle_caption` — captions that change nothing
-/

namespace KwinApi

namespace Script

variable {s s' : Script} {q r : ℕ} {w : Window} {a : Option TokenAct}

/-! ### One step, for one entry -/

/-- The act validates the entry on the window. -/
structure Validates (s : Script) (q : ℕ) (w : Window) (a : Option TokenAct) : Prop where
  act : a = some (.shows w (s.tokens.entries q).token)
  pending : (s.tokens.entries q).window = none
  running : (s.tokens.entries q).deadlineTimer.active = true

/-- The act withdraws the entry for the reason. -/
def Withdraws (s : Script) (q : ℕ) : Option TokenAct → TokenReason → Prop
  | some (.fire t), .timeout =>
    t = (s.tokens.entries q).token ∧ (s.tokens.entries q).window = none
  | some (.shows w t), .ambiguous =>
    t = (s.tokens.entries q).token ∧ (s.tokens.entries q).deadlineTimer.active = true ∧
      ∃ b, b ≠ w ∧ (s.tokens.entries q).window = some b
  | some (.shows w t), .superseded =>
    (s.tokens.entries q).window = some w ∧ ∃ r, s.tokens.Registered r ∧ s.Validates r w
      (some (.shows w t))
  | some (.remove w), .windowClosed => (s.tokens.entries q).window = some w
  | _, _ => False

theorem withdraws_fire {t : JsString} {reason : TokenReason} :
    s.Withdraws q (some (.fire t)) reason ↔
      reason = .timeout ∧ t = (s.tokens.entries q).token ∧ (s.tokens.entries q).window = none := by
  cases reason <;> simp [Withdraws]

theorem withdraws_shows {t : JsString} {reason : TokenReason} :
    s.Withdraws q (some (.shows w t)) reason ↔
      (reason = .ambiguous ∧ t = (s.tokens.entries q).token ∧
        (s.tokens.entries q).deadlineTimer.active = true ∧
        ∃ b, b ≠ w ∧ (s.tokens.entries q).window = some b) ∨
      (reason = .superseded ∧ (s.tokens.entries q).window = some w ∧
        ∃ r, s.tokens.Registered r ∧ s.Validates r w (some (.shows w t))) := by
  cases reason <;> simp [Withdraws]

theorem withdraws_remove {reason : TokenReason} :
    s.Withdraws q (some (.remove w)) reason ↔
      reason = .windowClosed ∧ (s.tokens.entries q).window = some w := by
  cases reason <;> simp [Withdraws]

theorem not_withdraws_issue {t : JsString} {c : RpcConnection} {reason : TokenReason} :
    ¬ s.Withdraws q (some (.issue t c)) reason := by
  cases reason <;> exact id

theorem not_withdraws_drop {k : ℕ} {reason : TokenReason} :
    ¬ s.Withdraws q (some (.drop k)) reason := by
  cases reason <;> exact id

/-- The window a validating act is about. -/
theorem Validates.shows {v : Window} {t : JsString} (h : s.Validates q v (some (.shows w t))) :
    v = w ∧ (s.tokens.entries q).token = t := by
  have hact := h.act
  simp only [Option.some.injEq, ClaimAct.shows.injEq] at hact
  exact ⟨hact.1.symm, hact.2.symm⟩

/-- What can happen to a registered entry. -/
inductive Outcome (s s' : Script) (q : ℕ) (a : Option TokenAct) : Prop where
  /-- It stays as it is. -/
  | kept (hreg : s'.tokens.Registered q)
      (hwindow : (s'.tokens.entries q).window = (s.tokens.entries q).window)
      (habout : s'.about q = s.about q) (hval : ∀ w, ¬ s.Validates q w a)
      (hwith : ∀ reason, ¬ s.Withdraws q a reason)
      (hdrop : a ≠ some (.drop (s.tokens.entries q).conn.id))
  /-- It is validated. -/
  | validated {w : Window} (hval : s.Validates q w a) (hreg : s'.tokens.Registered q)
      (hwindow : (s'.tokens.entries q).window = some w)
      (habout : s'.about q = s.about q ++ s.validatedNote q (s'.windowInfo w))
  /-- It is withdrawn. -/
  | withdrawn {reason : TokenReason} (hwith : s.Withdraws q a reason)
      (hreg : ¬ s'.tokens.Registered q)
      (habout : s'.about q = s.about q ++ s.invalidatedNote q reason
        ((s.tokens.entries q).window.map s'.windowInfo))
  /-- It is dropped with its client. -/
  | dropped (hdrop : a = some (.drop (s.tokens.entries q).conn.id))
      (hreg : ¬ s'.tokens.Registered q) (habout : s'.about q = s.about q)

/-- A delivered notification is about one entry. -/
theorem filter_delivered (s : Script) (conn : RpcConnection) (r q : ℕ) (note : Notification) :
    (s.delivered conn (some r) note).filter (fun n => n.about = some q) =
      if r = q then s.delivered conn (some r) note else [] := by
  rw [delivered]
  split_ifs with halive hrq hrq
  · simp [hrq]
  · simp [hrq]
  · rfl
  · rfl

theorem about_append (s : Script) (notes : List Notified) (q : ℕ)
    (hsent : s'.sent = s.sent ++ notes) :
    s'.about q = s.about q ++ notes.filter fun n => n.about = some q := by
  rw [about, hsent, List.filter_append, about]

/-- Notifications that are not about entries. -/
theorem about_of_none {notes : List Notified} (hsent : s'.sent = s.sent ++ notes)
    (hnone : ∀ n ∈ notes, n.about = none) (q : ℕ) : s'.about q = s.about q := by
  have hnil : notes.filter (fun n => n.about = some q) = [] := by
    rw [List.filter_eq_nil_iff]
    intro n hn
    simp [hnone n hn]
  rw [about_append s _ q hsent, hnil, List.append_nil]

/-- A notification about another entry. -/
theorem about_of_ne {conn : RpcConnection} {note : Notification}
    (hsent : s'.sent = s.sent ++ s.delivered conn (some r) note) (hq : r ≠ q) :
    s'.about q = s.about q := by
  rw [about_append s _ q hsent, filter_delivered, if_neg hq, List.append_nil]

/-- A notification about the entry. -/
theorem about_self {conn : RpcConnection} {note : Notification}
    (hsent : s'.sent = s.sent ++ s.delivered conn (some q) note) :
    s'.about q = s.about q ++ s.delivered conn (some q) note := by
  rw [about_append s _ q hsent, filter_delivered, if_pos rfl]

/-! ### Acts that spare an entry -/

/-- The act neither validates nor withdraws the entry. -/
structure Spares (s : Script) (q : ℕ) (a : Option TokenAct) : Prop where
  not_validates : ∀ w, ¬ s.Validates q w a
  not_withdraws : ∀ reason, ¬ s.Withdraws q a reason

theorem spares_issue {t : JsString} {c : RpcConnection} : s.Spares q (some (.issue t c)) := by
  refine ⟨fun w hval => ?_, fun reason => not_withdraws_issue⟩
  have hact := hval.act
  simp at hact

theorem spares_drop {k : ℕ} : s.Spares q (some (.drop k)) := by
  refine ⟨fun w hval => ?_, fun reason => not_withdraws_drop⟩
  have hact := hval.act
  simp at hact

/-- The deadline of another entry, or of one that is bound. -/
theorem spares_fire (hr : s.tokens.Registered r) (hq : s.tokens.Registered q)
    (hbound : r = q → (s.tokens.entries q).window ≠ none) :
    s.Spares q (some (.fire (s.tokens.entries r).token)) := by
  refine ⟨fun w hval => ?_, fun reason hwith => ?_⟩
  · have hact := hval.act
    simp at hact
  · obtain ⟨-, htoken, hnone⟩ := withdraws_fire.mp hwith
    exact hbound (hr.eq_of_token_eq hq htoken) hnone

/-- A window shows the token of another entry: it is not bound to the window, or that token is
not pending. -/
theorem spares_shows (hr : s.tokens.Registered r) (hq : s.tokens.Registered q) (hrq : r ≠ q)
    (hfree : (s.tokens.entries r).window = none → (s.tokens.entries q).window ≠ some w) :
    s.Spares q (some (.shows w (s.tokens.entries r).token)) := by
  refine ⟨fun v hval => hrq (hr.eq_of_token_eq hq hval.shows.2.symm), fun reason hwith => ?_⟩
  rcases withdraws_shows.mp hwith with ⟨-, htoken, -⟩ | ⟨-, hqw, p, hp, hval⟩
  · exact hrq (hr.eq_of_token_eq hq htoken)
  · have hpr : p = r := hp.eq_of_token_eq hr hval.shows.2
    exact hfree (hpr ▸ hval.pending) hqw

/-- A window goes away that the entry is not bound to. -/
theorem spares_remove (hw : (s.tokens.entries q).window ≠ some w) :
    s.Spares q (some (.remove w)) := by
  refine ⟨fun v hval => ?_, fun reason hwith => hw (withdraws_remove.mp hwith).2⟩
  have hact := hval.act
  simp at hact

/-- An idle act spares every entry. -/
theorem Idle.spares (hidle : s.Idle a) (hq : s.tokens.Registered q) : s.Spares q a := by
  rcases a with - | ⟨t, c⟩ | ⟨w, t⟩ | w | t | k
  · refine ⟨fun w hval => ?_, fun reason => ?_⟩
    · cases hval.act
    · cases reason <;> exact id
  · exact spares_issue
  · refine ⟨fun v hval => ?_, fun reason hwith => ?_⟩
    · obtain ⟨rfl, rfl⟩ := hval.shows
      have hbound := hidle q hq rfl hval.running
      rw [hval.pending] at hbound
      contradiction
    · rcases withdraws_shows.mp hwith with ⟨-, rfl, hrun, b, hbw, hb⟩ | ⟨-, -, r, hr, hval⟩
      · have hbound := hidle q hq rfl hrun
        rw [hb] at hbound
        exact hbw (Option.some.inj hbound)
      · have hbound := hidle r hr hval.shows.2 hval.running
        rw [hval.pending] at hbound
        contradiction
  · exact spares_remove (hidle q hq)
  · exact hidle.elim
  · exact spares_drop

theorem Cause.withdraws {act : TokenAct} {reason : TokenReason} (hcause : s.Cause r act reason) :
    s.Withdraws r (some act) reason := by
  cases hcause with
  | timeout hnone => exact withdraws_fire.mpr ⟨rfl, rfl, hnone⟩
  | @ambiguous w b hb hbw hrun =>
    exact withdraws_shows.mpr (Or.inl ⟨rfl, rfl, hrun, b, hbw, hb⟩)
  | windowClosed hw => exact withdraws_remove.mpr ⟨rfl, hw⟩

/-- What withdraws one entry spares the others. -/
theorem Cause.spares {act : TokenAct} {reason : TokenReason} (hcause : s.Cause r act reason)
    (h : s.WellFormed) (hr : s.tokens.Registered r) (hq : s.tokens.Registered q) (hrq : r ≠ q) :
    s.Spares q (some act) := by
  cases hcause with
  | timeout hnone => exact spares_fire hr hq fun heq => absurd heq hrq
  | ambiguous hb hbw hrun =>
    refine spares_shows hr hq hrq fun hnone => ?_
    rw [hnone] at hb
    contradiction
  | windowClosed hw => exact spares_remove fun hqw => hrq (h.eq_of_window hr hq hw hqw)

theorem Cause.ne_drop {act : TokenAct} {reason : TokenReason} (hcause : s.Cause r act reason)
    (k : ℕ) : act ≠ .drop k := by
  cases hcause <;> simp

/-- An entry that is spared, and not dropped, stays as it is. -/
theorem Spares.kept (hspares : s.Spares q a) (hreg : s'.tokens.Registered q)
    (hwindow : (s'.tokens.entries q).window = (s.tokens.entries q).window)
    (habout : s'.about q = s.about q) (hdrop : a ≠ some (.drop (s.tokens.entries q).conn.id)) :
    Outcome s s' q a :=
  .kept hreg hwindow habout hspares.not_validates hspares.not_withdraws hdrop

/-! ### The four outcomes -/

/-- Each of the seven things that can happen to the tokens, seen from one registered entry. -/
theorem Transition.outcome (ht : Transition s s' a) (h : s.WellFormed)
    (hq : s.tokens.Registered q) : Outcome s s' q a := by
  cases ht with
  | quiet hidle htokens hsent hnotes =>
    refine (hidle.spares hq).kept (by rwa [htokens]) (by rw [htokens])
      (about_of_none hsent (fun n hn => (hnotes n hn).1) q) ?_
    rintro rfl
    exact hidle
  | issued hconn hfresh hrun htokens hsent =>
    have hne : q ≠ s.tokens.nextEntry := Nat.ne_of_lt (h.lt_next _ q hq)
    refine spares_issue.kept ?_ ?_ (by rw [about, hsent, about]) (by simp)
    · rw [htokens]
      exact (TokenTable.registered_register hfresh hne).mpr hq
    · rw [htokens, TokenTable.entries_register_of_ne hne]
  | @validated r w hr hnone hrun hfree htokens hsent =>
    by_cases hrq : r = q
    · subst hrq
      refine .validated ⟨rfl, hnone, hrun⟩ ?_ ?_ (about_self hsent)
      · rw [htokens]
        exact TokenTable.registered_bind.mpr hr
      · rw [htokens, TokenTable.entries_bind_self]
    · refine (spares_shows hr hq hrq fun _ => hfree q hq).kept ?_ ?_ (about_of_ne hsent hrq)
        (by simp)
      · rw [htokens]
        exact TokenTable.registered_bind.mpr hq
      · rw [htokens, TokenTable.entries_bind_of_ne (Ne.symm hrq)]
  | @superseding r p w hr hnone hrun hp hpw htokens hsent =>
    have hrp : r ≠ p := by
      rintro rfl
      rw [hnone] at hpw
      contradiction
    have hreg : s'.tokens.Registered q ↔ q ≠ p ∧ s.tokens.Registered q := by
      rw [htokens, TokenTable.registered_bind, TokenTable.registered_unregister hp]
    have habout : s'.about q = s.about q ++
        (if p = q then s.invalidatedNote p .superseded (some (s'.windowInfo w)) else []) ++
        if r = q then s.validatedNote r (s'.windowInfo w) else [] := by
      rw [List.append_assoc] at hsent
      rw [about_append s _ q hsent, List.filter_append, invalidatedNote, validatedNote,
        filter_delivered, filter_delivered, List.append_assoc]
    by_cases hpq : p = q
    · subst hpq
      refine .withdrawn (withdraws_shows.mpr (Or.inr ⟨rfl, hpw, r, hr, rfl, hnone, hrun⟩)) ?_ ?_
      · exact fun hp' => (hreg.mp hp').1 rfl
      · rw [habout, if_pos rfl, if_neg hrp, List.append_nil, hpw]
        rfl
    · by_cases hrq : r = q
      · subst hrq
        refine .validated ⟨rfl, hnone, hrun⟩ (hreg.mpr ⟨Ne.symm hpq, hr⟩) ?_ ?_
        · rw [htokens, TokenTable.entries_bind_self]
        · rw [habout, if_neg hpq, if_pos rfl, List.append_nil]
      · have hfree : (s.tokens.entries q).window ≠ some w :=
          fun hqw => hpq (h.eq_of_window hp hq hpw hqw)
        refine (spares_shows hr hq hrq fun _ => hfree).kept (hreg.mpr ⟨Ne.symm hpq, hq⟩) ?_ ?_
          (by simp)
        · rw [htokens, TokenTable.entries_bind_of_ne (Ne.symm hrq), TokenTable.entries_unregister,
            TokenTable.window_stopDeadline]
        · rw [habout, if_neg hpq, if_neg hrq, List.append_nil, List.append_nil]
  | @withdrawn r act reason hr hcause htokens hsent =>
    have hreg : s'.tokens.Registered q ↔ q ≠ r ∧ s.tokens.Registered q := by
      rw [htokens, TokenTable.registered_unregister hr]
    by_cases hrq : r = q
    · subst hrq
      exact .withdrawn hcause.withdraws (fun hr' => (hreg.mp hr').1 rfl) (about_self hsent)
    · refine (hcause.spares h hr hq hrq).kept (hreg.mpr ⟨Ne.symm hrq, hq⟩) ?_
        (about_of_ne hsent hrq) fun hdrop => hcause.ne_drop _ (Option.some.inj hdrop)
      rw [htokens, TokenTable.entries_unregister, TokenTable.window_stopDeadline]
  | @expired r hr hsome htokens hsent =>
    refine (spares_fire hr hq fun heq => heq ▸ hsome).kept ?_ ?_ (by rw [about, hsent, about])
      (by simp)
    · rw [htokens]
      exact TokenTable.registered_stopDeadline.mpr hq
    · rw [htokens, TokenTable.window_stopDeadline]
  | @dropped id htokens hsent =>
    have hlast := (h.unregisterAll (h.nodup_owned id) fun r hr => (h.mem_owned.mp hr).1).2
    have habout : s'.about q = s.about q := by rw [about, hsent, about]
    have hreg : s'.tokens.Registered q ↔
        ¬ (s.tokens.entries q).conn.id = id ∧ s.tokens.Registered q := by
      rw [htokens, hlast.registered, h.mem_owned]
      tauto
    by_cases hid : (s.tokens.entries q).conn.id = id
    · exact .dropped (by rw [hid]) (fun hq' => (hreg.mp hq').1 hid) habout
    · refine spares_drop.kept (hreg.mpr ⟨hid, hq⟩) ?_ habout fun hdrop => ?_
      · rw [htokens, hlast.window]
      · cases hdrop
        exact hid rfl

/-- An entry that is not registered stays so, and nothing is sent about it. -/
theorem Transition.unregistered (ht : Transition s s' a) (h : s.WellFormed)
    (hq : ¬ s.tokens.Registered q) : s'.about q = s.about q ∧
      (q < s.tokens.nextEntry → ¬ s'.tokens.Registered q) ∧
      (s'.tokens.Registered q → (s'.tokens.entries q).window = none) := by
  have hne : ∀ {r}, s.tokens.Registered r → r ≠ q := by
    rintro r hr rfl
    exact hq hr
  have hgone : ¬ s'.tokens.Registered q → (q < s.tokens.nextEntry → ¬ s'.tokens.Registered q) ∧
      (s'.tokens.Registered q → (s'.tokens.entries q).window = none) :=
    fun hgone => ⟨fun _ => hgone, fun hreg => absurd hreg hgone⟩
  cases ht with
  | quiet hidle htokens hsent hnotes =>
    refine ⟨about_of_none hsent (fun n hn => (hnotes n hn).1) q, hgone ?_⟩
    rwa [htokens]
  | issued hconn hfresh hrun htokens hsent =>
    refine ⟨by rw [about, hsent, about], fun hlt => ?_, fun hreg => ?_⟩
    · rw [htokens, TokenTable.registered_register hfresh (Nat.ne_of_lt hlt)]
      exact hq
    · by_cases hqn : q = s.tokens.nextEntry
      · rw [htokens, hqn, TokenTable.entries_register_self]
      · rw [htokens, TokenTable.registered_register hfresh hqn] at hreg
        exact absurd hreg hq
  | validated hr hnone hrun hfree htokens hsent =>
    refine ⟨about_of_ne hsent (hne hr), hgone ?_⟩
    rwa [htokens, TokenTable.registered_bind]
  | @superseding r p w hr hnone hrun hp hpw htokens hsent =>
    rw [List.append_assoc] at hsent
    refine ⟨?_, hgone ?_⟩
    · rw [about_append s _ q hsent, List.filter_append, invalidatedNote, validatedNote,
        filter_delivered, filter_delivered, if_neg (hne hp), if_neg (hne hr), List.append_nil,
        List.append_nil]
    · rw [htokens, TokenTable.registered_bind, TokenTable.registered_unregister hp]
      exact fun hreg => hq hreg.2
  | withdrawn hr hcause htokens hsent =>
    refine ⟨about_of_ne hsent (hne hr), hgone ?_⟩
    rw [htokens, TokenTable.registered_unregister hr]
    exact fun hreg => hq hreg.2
  | expired hr hsome htokens hsent =>
    refine ⟨by rw [about, hsent, about], hgone ?_⟩
    rwa [htokens, TokenTable.registered_stopDeadline]
  | @dropped id htokens hsent =>
    have hlast := (h.unregisterAll (h.nodup_owned id) fun r hr => (h.mem_owned.mp hr).1).2
    refine ⟨by rw [about, hsent, about], hgone ?_⟩
    rw [htokens, hlast.registered]
    exact fun hreg => hq hreg.2

/-- A superseded token is withdrawn before the new one is validated. -/
theorem Transition.superseded {t : JsString} (ht : Transition s s' (some (.shows w t)))
    (h : s.WellFormed) (hq : s.tokens.Registered q) (hqw : (s.tokens.entries q).window = some w)
    (hr : s.tokens.Registered r) (hval : s.Validates r w (some (.shows w t))) :
    s'.sent = s.sent ++ s.invalidatedNote q .superseded (some (s'.windowInfo w)) ++
      s.validatedNote r (s'.windowInfo w) := by
  have htoken := hval.shows.2
  cases ht with
  | quiet hidle htokens hsent hnotes =>
    have hbound := hidle r hr htoken hval.running
    rw [hval.pending] at hbound
    contradiction
  | validated hr' hnone hrun hfree htokens hsent => exact absurd hqw (hfree q hq)
  | superseding hr' hnone hrun hp hpw htokens hsent =>
    rw [hsent, h.eq_of_window hp hq hpw hqw, hr.eq_of_token_eq hr' htoken]
  | withdrawn hr' hcause htokens hsent =>
    cases hcause with
    | ambiguous hb hbw hrun =>
      rw [← hr.eq_of_token_eq hr' htoken, hval.pending] at hb
      contradiction

/-- A caption that matches nothing changes nothing. -/
theorem step_of_idle_caption (h : s.WellFormed) {t : JsString} {e : Event}
    (hact : s.act e = some (.shows w t)) (hidle : s.Idle (some (.shows w t))) :
    s.step e = { s with windows := (s.step e).windows, data := (s.step e).data } := by
  have hcheck : ∀ (s₁ : Script) (v : Window), s₁.WellFormed → s₁.tokens = s.tokens →
      shown v (s₁.data v).captionNormal = some (.shows w t) → s₁.checkCaption v = s₁ := by
    intro s₁ v h₁ htokens hshown
    have hidle₁ : ∀ r, s₁.Matched v r → (s₁.tokens.entries r).window = some v := by
      intro r hm
      rw [shown, if_neg (Nat.not_lt.mpr hm.long), Option.some.injEq, ClaimAct.shows.injEq] at hshown
      obtain ⟨rfl, ht⟩ := hshown
      have hr := hm.registered
      have hrun := hm.running
      have hshows := hm.shows.symm.trans ht
      rw [htokens] at hr hrun hshows ⊢
      exact hidle r hr hshows hrun
    rcases checkCaption_cases h₁ v with ⟨heq, -⟩ | ⟨r, hm, hnone, -⟩ | ⟨r, b, hm, hb, hbv, -⟩
    · exact heq
    · rw [hidle₁ r hm] at hnone
      contradiction
    · rw [hidle₁ r hm] at hb
      exact absurd (Option.some.inj hb).symm hbv
  cases e with
  | clientConnected id => simp [act] at hact
  | clientDisconnected id =>
    simp only [act] at hact
    split_ifs at hact
    simp at hact
  | request conn req =>
    simp only [act] at hact
    split_ifs at hact
    split at hact <;> simp at hact
  | windowAdded window data =>
    simp only [act] at hact
    split_ifs at hact with hw
    have h' : WellFormed { s with
        data := Function.update s.data window data
        windows := window :: s.windows } :=
      h.remanage fun q v hq hv => List.mem_cons_of_mem _ (h.managed q v hq hv)
    have heq := hcheck _ window h' rfl (by simpa using hact)
    simp only [step, hw, if_false, onWindowAdded]
    rw [heq]
  | captionChanged window caption =>
    simp only [act] at hact
    split_ifs at hact with hw
    have h' : (s.setCaption window caption).WellFormed := h
    have heq := hcheck _ window h' rfl (by simpa [setCaption] using hact)
    simp only [step, hw, if_true]
    rw [heq]
    rfl
  | windowRemoved window =>
    simp only [act] at hact
    split_ifs at hact
    simp at hact
  | deadline r =>
    simp only [act] at hact
    split_ifs at hact
    simp at hact
  | windowPropChanged window prop data => simp [act] at hact
  | workspacePropChanged prop data => simp [act] at hact

end Script

end KwinApi
