import KwinApi.Daemon.Server

/-!
# Sessions do not disturb each other

The server keeps its sessions in one table. A session is what its own events have made of it since
it was accepted: connections that come, other sessions and the object `/daemon` have no part in it.

## Main definitions

* `KwinApi.ServerOp.own` — the events of one session
* `KwinApi.SessionLink.life` — what they make of the session, until it ends

## Main results

* `KwinApi.Server.lookup_step`, `Server.lookup_run` — an id that was issued
* `KwinApi.sessions_isolated` — every session of every run
-/

namespace KwinApi

/-- What an event of the server is for the session `id`: something that happens to it, `none` when
it reports its end. -/
def ServerOp.own (id : ℕ) : ServerOp → Option (Option SessionOp)
  | .session i op => if i = id then some (some op) else none
  | .disconnected i => if i = id then some none else none
  | .accept _ => none
  | .poll _ => none
  | .timeout => none

/-- What happens to a session, as long as its connection is not over. -/
def SessionLink.life (bo : ByteOrder) : Option SessionLink → Option SessionOp → Option SessionLink
  | some l, some op => if (l.step bo op).alive then some (l.step bo op) else none
  | _, _ => none

namespace Server

variable {bo : ByteOrder} {s : Server} {id : ℕ}

/-- A session that was just accepted. -/
def Accepted (caps : BufferCaps) (answers : List AcceptAnswer) (id : ℕ) (l : SessionLink) : Prop :=
  ∃ fd stream closed session, .connection fd stream closed true ∈ answers ∧
    Session.make id fd caps.rx caps.tx = .ok session ∧ l = .init session stream closed

/-! ### Accepting -/

/-- What `addClient` does to the table. -/
theorem addClient_cases (s : Server) (fd : ℤ) (stream : List UInt8) (closed ok : Bool) :
    (s.addClient fd stream closed ok).nextId = s.nextId + 1 ∧
    (s.addClient fd stream closed ok).caps = s.caps ∧
    ((s.addClient fd stream closed ok).sessions = s.sessions ∨
      ok = true ∧ ∃ session, Session.make s.nextId fd s.caps.rx s.caps.tx = .ok session ∧
        (s.addClient fd stream closed ok).sessions =
          s.sessions.insert s.nextId (.init session stream closed)) := by
  unfold addClient
  simp only
  split
  · exact ⟨rfl, rfl, Or.inl rfl⟩
  · rename_i session hmake
    split_ifs with hok
    · exact ⟨rfl, rfl, Or.inr ⟨hok, session, hmake, rfl⟩⟩
    · exact ⟨rfl, rfl, Or.inl rfl⟩

/-- Ids that were issued before stand for the sessions they stood for. -/
theorem lookup_acceptClients_of_lt (answers : List AcceptAnswer) (hid : id < s.nextId) :
    (s.acceptClients answers).sessions.lookup id = s.sessions.lookup id := by
  induction answers generalizing s with
  | nil => rfl
  | cons a answers ih =>
    rcases a with ⟨fd, stream, closed, ok⟩ | e
    · rw [acceptClients]
      split_ifs
      · exact ih hid
      · obtain ⟨hnext, -, hsame | ⟨-, session, -, hinsert⟩⟩ := s.addClient_cases fd stream closed ok
        · rw [ih (by omega), hsame]
        · rw [ih (by omega), hinsert, AList.lookup_insert_ne (by omega)]
    · rw [acceptClients]
      split_ifs
      · exact ih hid
      · rfl

/-- A session was there before, or is one of those that were accepted. -/
theorem of_lookup_acceptClients {l : SessionLink} {answers : List AcceptAnswer}
    (hl : (s.acceptClients answers).sessions.lookup id = some l) :
    s.sessions.lookup id = some l ∨ Accepted s.caps answers id l := by
  induction answers generalizing s with
  | nil => exact Or.inl hl
  | cons a answers ih =>
    have hmore : ∀ caps, Accepted caps answers id l → Accepted caps (a :: answers) id l := by
      rintro caps ⟨fd, stream, closed, session, hmem, hnew⟩
      exact ⟨fd, stream, closed, session, List.mem_cons_of_mem a hmem, hnew⟩
    rcases a with ⟨fd, stream, closed, ok⟩ | e
    · rw [acceptClients] at hl
      split_ifs at hl
      · exact (ih hl).imp_right (hmore _)
      · obtain ⟨-, hcaps, hcases⟩ := s.addClient_cases fd stream closed ok
        rcases ih hl with hl | hnew
        swap
        · exact Or.inr (hmore _ (hcaps ▸ hnew))
        rcases hcases with hsame | ⟨rfl, session, hmake, hinsert⟩
        · exact Or.inl (hsame ▸ hl)
        rw [hinsert] at hl
        by_cases hid : id = s.nextId
        · subst hid
          rw [AList.lookup_insert, Option.some.injEq] at hl
          exact Or.inr ⟨fd, stream, closed, session, List.mem_cons_self, hmake, hl.symm⟩
        · rw [AList.lookup_insert_ne hid] at hl
          exact Or.inl hl
    · rw [acceptClients] at hl
      split_ifs at hl
      · exact (ih hl).imp_right (hmore _)
      · exact Or.inl hl

/-! ### One event -/

theorem lookup_onClientDisconnected (s : Server) (i id : ℕ) :
    (s.onClientDisconnected i).sessions.lookup id =
      if i = id then none else s.sessions.lookup id := by
  rw [onClientDisconnected]
  split_ifs with hmem hid hid
  · subst hid
    exact AList.lookup_erase ..
  · exact AList.lookup_erase_ne (Ne.symm hid)
  · subst hid
    exact AList.lookup_eq_none.mpr hmem
  · rfl

/-- What happens to one session leaves the others alone. -/
theorem lookup_sessionStep (s : Server) (i id : ℕ) (op : SessionOp) :
    (s.sessionStep bo i op).sessions.lookup id =
      if i = id then SessionLink.life bo (s.sessions.lookup id) (some op)
      else s.sessions.lookup id := by
  unfold sessionStep
  by_cases hid : i = id
  · subst hid
    rw [if_pos rfl]
    rcases hl : s.sessions.lookup i with _ | l
    · exact hl
    simp only [SessionLink.life]
    split_ifs
    · exact AList.lookup_insert ..
    · rw [lookup_onClientDisconnected, if_pos rfl]
  · rw [if_neg hid]
    rcases s.sessions.lookup i with _ | l
    · rfl
    simp only
    split_ifs
    · exact AList.lookup_insert_ne (Ne.symm hid)
    · rw [lookup_onClientDisconnected, if_neg hid]

/-- **A session sees its own events only**, once its id was issued. -/
theorem lookup_step {op : ServerOp} (hop : (∀ answers, op ≠ .accept answers) ∨ id < s.nextId) :
    (s.step bo op).sessions.lookup id =
      (op.own id).elim (s.sessions.lookup id) (SessionLink.life bo (s.sessions.lookup id)) := by
  cases op with
  | accept answers =>
    exact lookup_acceptClients_of_lt answers (hop.resolve_left fun h => h answers rfl)
  | session i op =>
    rw [step, lookup_sessionStep, ServerOp.own]
    split_ifs <;> rfl
  | disconnected i =>
    rw [step, lookup_onClientDisconnected, ServerOp.own]
    split_ifs
    · cases s.sessions.lookup id <;> rfl
    · rfl
  | poll call => rfl
  | timeout => rfl

/-- Ids are not given back, and the capacities stay. -/
theorem table_step (s : Server) (op : ServerOp) :
    s.nextId ≤ (s.step bo op).nextId ∧ (s.step bo op).caps = s.caps := by
  have haccept : ∀ (answers : List AcceptAnswer) (s : Server),
      s.nextId ≤ (s.acceptClients answers).nextId ∧ (s.acceptClients answers).caps = s.caps := by
    intro answers
    induction answers with
    | nil => exact fun _ => ⟨le_rfl, rfl⟩
    | cons a answers ih =>
      intro s
      rcases a with ⟨fd, stream, closed, ok⟩ | e
      · rw [acceptClients]
        split_ifs
        · exact ih s
        · obtain ⟨hnext, hcaps, -⟩ := s.addClient_cases fd stream closed ok
          obtain ⟨hle, hsame⟩ := ih (s.addClient fd stream closed ok)
          exact ⟨by omega, hsame.trans hcaps⟩
      · rw [acceptClients]
        split_ifs
        · exact ih s
        · exact ⟨le_rfl, rfl⟩
  have hdisconnected : ∀ i, s.nextId ≤ (s.onClientDisconnected i).nextId ∧
      (s.onClientDisconnected i).caps = s.caps := by
    intro i
    rw [onClientDisconnected]
    split_ifs <;> exact ⟨le_rfl, rfl⟩
  cases op with
  | accept answers => exact haccept answers s
  | session i op =>
    rw [step]
    unfold sessionStep
    split
    · exact ⟨le_rfl, rfl⟩
    · simp only
      split_ifs
      · exact ⟨le_rfl, rfl⟩
      · exact hdisconnected i
  | disconnected i => exact hdisconnected i
  | poll call => exact ⟨le_rfl, rfl⟩
  | timeout => exact ⟨le_rfl, rfl⟩

/-! ### Runs -/

/-- **A run, as one session sees it.** -/
theorem lookup_run (hid : id < s.nextId) (ops : List ServerOp) :
    (s.run bo ops).sessions.lookup id =
      (ops.filterMap (ServerOp.own id)).foldl (SessionLink.life bo) (s.sessions.lookup id) := by
  induction ops generalizing s with
  | nil => rfl
  | cons op ops ih =>
    have hrun : s.run bo (op :: ops) = (s.step bo op).run bo ops := rfl
    rw [hrun, ih (hid.trans_le (s.table_step op).1), lookup_step (Or.inr hid),
      List.filterMap_cons]
    cases op.own id <;> rfl

theorem caps_run (s : Server) (ops : List ServerOp) : (s.run bo ops).caps = s.caps := by
  induction ops using List.reverseRecOn with
  | nil => rfl
  | append_singleton ops op ih =>
    rw [run_concat]
    exact ((s.run bo ops).table_step op).2.trans ih

/-- A session is the run of its own events since it was accepted. -/
def Lived (bo : ByteOrder) (caps : BufferCaps) (ops : List ServerOp) (id : ℕ) (l : SessionLink) :
    Prop :=
  ∃ before answers after fd stream closed session own,
    ops = before ++ .accept answers :: after ∧ .connection fd stream closed true ∈ answers ∧
    Session.make id fd caps.rx caps.tx = .ok session ∧
    after.filterMap (ServerOp.own id) = List.map some own ∧
    l = own.foldl (SessionLink.step bo) (.init session stream closed)

/-- Something else happens to the server. -/
theorem Lived.other {caps : BufferCaps} {ops : List ServerOp} {l : SessionLink}
    (h : Lived bo caps ops id l) {op : ServerOp} (hop : op.own id = none) :
    Lived bo caps (ops ++ [op]) id l := by
  obtain ⟨before, answers, after, fd, stream, closed, session, own, rfl, hmem, hmake, hown, hl⟩ := h
  refine ⟨before, answers, after ++ [op], fd, stream, closed, session, own, by simp, hmem, hmake,
    ?_, hl⟩
  rw [List.filterMap_append, hown, List.filterMap_cons_none hop, List.filterMap_nil,
    List.append_nil]

/-- Something happens to the session. -/
theorem Lived.own {caps : BufferCaps} {ops : List ServerOp} {l : SessionLink}
    (h : Lived bo caps ops id l) (op : SessionOp) :
    Lived bo caps (ops ++ [.session id op]) id (l.step bo op) := by
  obtain ⟨before, answers, after, fd, stream, closed, session, own, rfl, hmem, hmake, hown, rfl⟩ :=
    h
  refine ⟨before, answers, after ++ [.session id op], fd, stream, closed, session, own ++ [op],
    by simp, hmem, hmake, ?_, ?_⟩
  · rw [List.filterMap_append, hown, List.map_append]
    simp [ServerOp.own]
  · rw [List.foldl_append, List.foldl_cons, List.foldl_nil]

theorem lived_of_lookup {maxClients : ℤ} {caps : BufferCaps} (h : start maxClients caps = .ok s)
    (ops : List ServerOp) {l : SessionLink} (hl : (s.run bo ops).sessions.lookup id = some l) :
    Lived bo caps ops id l := by
  have hcaps : s.caps = caps := by
    obtain ⟨d, -, rfl⟩ := eq_of_start h
    rfl
  induction ops using List.reverseRecOn generalizing l with
  | nil =>
    obtain ⟨d, -, rfl⟩ := eq_of_start h
    exact absurd hl (by simp [run])
  | append_singleton ops op ih =>
    rw [run_concat] at hl
    by_cases haccept : ∃ answers, op = .accept answers
    · obtain ⟨answers, rfl⟩ := haccept
      rcases of_lookup_acceptClients hl with hold | hnew
      · exact (ih hold).other rfl
      · obtain ⟨fd, stream, closed, session, hmem, hmake, rfl⟩ := hnew
        rw [caps_run, hcaps] at hmake
        exact ⟨ops, answers, [], fd, stream, closed, session, [], rfl, hmem, hmake, rfl, rfl⟩
    rw [lookup_step (Or.inl fun answers hop => haccept ⟨answers, hop⟩)] at hl
    rcases hown : op.own id with _ | _ | sop
    · rw [hown] at hl
      exact (ih hl).other hown
    · rw [hown] at hl
      exact absurd hl (by simp [SessionLink.life])
    · rw [hown, Option.elim_some] at hl
      rcases hold : (s.run bo ops).sessions.lookup id with _ | l₀
      · rw [hold] at hl
        cases hl
      rw [hold, SessionLink.life] at hl
      split_ifs at hl
      obtain rfl := Option.some.inj hl
      have hop : op = .session id sop := by
        cases op with
        | session i sop' =>
          rw [ServerOp.own] at hown
          split_ifs at hown with hi
          rw [hi, Option.some.inj (Option.some.inj hown)]
        | disconnected i =>
          rw [ServerOp.own] at hown
          split_ifs at hown
          cases hown
        | _ => cases hown
      rw [hop]
      exact (ih hold).own sop

end Server

/-- **Sessions do not disturb each other.** In every state of every run of the server each session
is exactly what its own events have made of it since its connection was accepted; and from that
state on, whatever the server does, the session of an id that was issued is what the events of that
id alone make of it, and is gone once it is gone. -/
theorem sessions_isolated {maxClients : ℤ} {caps : BufferCaps} {s : Server}
    (h : Server.start maxClients caps = .ok s) (bo : ByteOrder) (ops : List ServerOp) :
    let r := s.run bo ops
    (∀ id l, r.sessions.lookup id = some l → Server.Lived bo caps ops id l) ∧
    ∀ id ∈ r.issued, ∀ more : List ServerOp, (r.run bo more).sessions.lookup id =
      (more.filterMap (ServerOp.own id)).foldl (SessionLink.life bo) (r.sessions.lookup id) := by
  intro r
  refine ⟨fun id l hl => Server.lived_of_lookup h ops hl, fun id hid more => ?_⟩
  have hinv : r.Inv bo := Server.inv_run h ops
  have hlt : id < r.nextId := by
    have hpos := hinv.issued.2
    rw [hinv.issued.1, List.mem_range'_1] at hid
    generalize r.nextId = n at hid hpos ⊢
    omega
  exact Server.lookup_run hlt more

/-- Two clients, of which one goes. -/
theorem sessions_isolated_two : ∃ s, Server.start 2 ⟨0, 0, .inl rfl, .inl rfl⟩ = .ok s ∧
    let r := s.run .little [.accept [.connection 3 [] true true, .connection 4 [] true true]]
    (r.run .little [.session 1 .timeout, .disconnected 2]).sessions.lookup 1 =
      [some SessionOp.timeout].foldl (SessionLink.life .little) (r.sessions.lookup 1) :=
  ⟨_, rfl, (sessions_isolated rfl .little
    [.accept [.connection 3 [] true true, .connection 4 [] true true]]).2 1 (by decide) _⟩

end KwinApi
