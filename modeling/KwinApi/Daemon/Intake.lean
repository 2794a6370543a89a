import KwinApi.Daemon.Outbound

/-!
# What a callback takes in

A decoder is clear when it is inside a frame, or at a header whose payload fits. Then a callback
that finds bytes takes some. A decoder that is not clear takes nothing, and has messages queued;
they are what the next `poll` clears it of.

## Main definitions

* `KwinApi.Client.Clear` — the decoder can take bytes

## Main results

* `KwinApi.Reading.readAll_takes`, `Reading.readAll_idle`, `Reading.readAll_blocked` — one read loop
* `KwinApi.SessionLink.Inv.clear_of_messages` — with nothing queued the decoder is clear
-/

namespace KwinApi

open Framing LongPoll

variable {bo : ByteOrder} {stream : List UInt8} {cap : ℕ}

/-! ### One read -/

namespace Client

variable {c : Client} {p : Peer}

/-- The decoder can take bytes: it is inside a frame, or at a header whose payload fits. -/
def Clear (c : Client) : Prop :=
  c.Ready ∨ c.rxPaused = false ∧ c.rx.canFit c.msgLen.toNat = true

@[simp] theorem messages_offer (c : Client) : c.offer.rx.messages = c.rx.messages := by
  rw [offer]
  split <;> rfl

theorem read_of_ready (hfd : 0 ≤ c.fd) (hrun : c.rxPaused = false) (hready : c.Ready)
    (answers : List ReadAnswer) : c.read bo p answers = c.readLoop bo p answers := by
  rw [read, if_neg (not_lt.mpr hfd), if_neg (by simp [hrun]), if_neg hready]

end Client

/-- A `::read` that asks for something and finds something returns some of it. -/
theorem Peer.sysRead_deliver {p : Peer} {want : ℕ} (hwant : 1 ≤ want) (hin : p.inbox ≠ [])
    (k : ℕ) : p.sysRead want (.deliver k) = .bytes (p.inbox.take (min (k + 1) want)) := by
  rw [sysRead, if_neg (by omega), if_neg hin]

theorem Peer.sysRead_bytes_ne {p : Peer} {want : ℕ} {a : ReadAnswer} {bs : List UInt8}
    (hwant : 1 ≤ want) (h : p.sysRead want a = .bytes bs) : bs ≠ [] := by
  cases a with
  | errno e => cases h
  | deliver k =>
    simp only [Peer.sysRead] at h
    split_ifs at h with hzero hin
    cases h
    intro hnil
    rcases List.take_eq_nil_iff.mp hnil with hk | hin'
    · omega
    · exact hin hin'

namespace Reading

variable {handed handed' : List (List UInt8)} {c c' : Client} {p p' : Peer}

theorem one_le_want (h : Reading bo stream cap handed c p) (hready : c.Ready) : 1 ≤ c.want := by
  obtain ⟨q, part, hd⟩ := h.decodes
  exact (hd.safe hready (Nat.zero_le _)).one_le

/-- What was consumed is not there any more. -/
theorem length_inbox (h : Reading bo stream cap handed c p)
    (h' : Reading bo stream cap handed' c' p') (hpre : p.consumed <+: p'.consumed) :
    p'.inbox.length ≤ p.inbox.length := by
  have hlen := congrArg List.length (h.stream_eq.trans h'.stream_eq.symm)
  have hle := hpre.length_le
  simp only [List.length_append] at hlen
  omega

/-- A turn that gets bytes leaves fewer of them behind. -/
theorem readLoop_bytes (h : Reading bo stream cap handed c p) (hready : c.Ready) {a : ReadAnswer}
    {bs : List UInt8} (hb : p.sysRead c.want a = .bytes bs) (as : List ReadAnswer) :
    (c.readLoop bo p (a :: as)).peer.inbox.length < p.inbox.length := by
  obtain ⟨hlen, hin⟩ := Peer.sysRead_bytes hb
  have hbytes := h.record_bytes hready hlen hin
  have hpos := List.length_pos_iff.mpr (Peer.sysRead_bytes_ne (h.one_le_want hready) hb)
  have hlt : (p.record c c.want bs).inbox.length < p.inbox.length := by
    have hsplit := congrArg List.length hin
    rw [List.length_append] at hsplit
    show (p.inbox.drop bs.length).length < _
    omega
  rw [Client.readLoop, hb]
  simp only
  split
  · rename_i c' hc'
    rw [hc'] at hbytes
    refine lt_of_le_of_lt ?_ hlt
    exact hbytes.length_inbox (hbytes.readLoop (Client.ready_of_onBytes hc') as).1
      (c'.consumed_readLoop bo _ as)
  · exact hlt

/-- A read loop that gets no bytes leaves the decoder inside its frame. The induction is on the
answers of the kernel. -/
theorem readLoop_idle (h : Reading bo stream cap handed c p) (hready : c.Ready)
    {answers : List ReadAnswer}
    (hsame : (c.readLoop bo p answers).peer.inbox.length = p.inbox.length) :
    (c.readLoop bo p answers).client.Ready ∧
      (c.readLoop bo p answers).client.rx.messages = c.rx.messages := by
  induction answers generalizing c p with
  | nil => exact ⟨hready.offer, c.messages_offer⟩
  | cons a as ih =>
    cases hb : p.sysRead c.want a with
    | bytes bs => exact absurd hsame (h.readLoop_bytes hready hb as).ne
    | zero =>
      rw [Client.readLoop, hb]
      exact ⟨hready.offer, c.messages_offer⟩
    | errno e =>
      have hoffer : c.offer.Ready ∧ c.offer.rx.messages = c.rx.messages :=
        ⟨hready.offer, c.messages_offer⟩
      rw [Client.readLoop, hb] at hsame ⊢
      cases e with
      | EINTR =>
        obtain ⟨hready', hmessages⟩ := ih (h.record_nil hready) hready.offer hsame
        exact ⟨hready', hmessages.trans c.messages_offer⟩
      | _ => exact hoffer

/-- At a complete header, the length is that of a legal payload. -/
theorem atHeader (h : Reading bo stream cap handed c p) (hnot : ¬ c.Ready) :
    Legal c.msgLen.toNat ∧ c.rx.len = c.rx.completeLen := by
  obtain ⟨hs, hread⟩ := not_not.mp hnot
  obtain ⟨q, part, hd⟩ := h.decodes
  have hfull : c.haveRead.toNat = kHeaderLen := by
    obtain ⟨-, ⟨done, cur, -, -, hstage, -, -⟩, -⟩ := hd
    cases hstage with
    | header _ hle hlegal => exact Nat.le_antisymm hle hread
    | payload _ hs' => exact absurd (hs.symm.trans hs') (by decide)
    | discard _ hs' => exact absurd (hs.symm.trans hs') (by decide)
  obtain ⟨rfl, hlegal, -⟩ := hd.atHeader hs hfull
  exact ⟨hlegal, hd.holds.len⟩

/-- The decision about a header whose payload fits. -/
theorem read_of_fits (h : Reading bo stream cap handed c p) (hfd : 0 ≤ c.fd) (hnot : ¬ c.Ready)
    (hrun : c.rxPaused = false) (hfit : c.rx.canFit c.msgLen.toNat = true)
    (answers : List ReadAnswer) :
    c.read bo p answers =
      ⟨.progress, { c with rxState := .payload, haveRead := 0 }, p, answers⟩ := by
  obtain ⟨⟨hpos, hle⟩, -⟩ := h.atHeader hnot
  have hne : c.msgLen ≠ 0 := by
    intro h0
    rw [h0] at hpos
    exact absurd hpos (by decide)
  rw [Client.read, if_neg (not_lt.mpr hfd), if_neg (by simp [hrun]), if_pos (not_not.mp hnot),
    Client.headerDone, if_neg hne, if_neg (not_lt.mpr hle), if_pos hfit]

/-- A decoder that is not clear pauses. -/
theorem read_of_blocked (h : Reading bo stream cap handed c p) (hfd : 0 ≤ c.fd)
    (hblocked : ¬ c.Clear) (answers : List ReadAnswer) :
    c.read bo p answers = ⟨.paused, { c with rxPaused := true }, p, answers⟩ := by
  obtain ⟨hnot, hfull⟩ := not_or.mp hblocked
  obtain ⟨⟨hpos, hle⟩, -⟩ := h.atHeader hnot
  have hne : c.msgLen ≠ 0 := by
    intro h0
    rw [h0] at hpos
    exact absurd hpos (by decide)
  rw [Client.read, if_neg (not_lt.mpr hfd)]
  by_cases hp : c.rxPaused = true
  · rw [if_pos hp, ← hp]
  · rw [if_neg hp, if_pos (not_not.mp hnot), Client.headerDone, if_neg hne,
      if_neg (not_lt.mpr hle), if_neg fun hfit => hfull ⟨by simpa using hp, hfit⟩]

/-- A decoder in the payload stage has something to ask for. -/
theorem ready_of_fits : ({ c with rxState := .payload, haveRead := 0 } : Client).Ready :=
  fun hr => by cases hr.1

theorem not_paused (h : Reading bo stream cap handed c p) (hready : c.Ready) :
    c.rxPaused = false := by
  obtain ⟨q, part, hd⟩ := h.decodes
  exact hd.not_paused hready

theorem read_idle (h : Reading bo stream cap handed c p) (hfd : 0 ≤ c.fd) (hclear : c.Clear)
    {answers : List ReadAnswer}
    (hsame : (c.read bo p answers).peer.inbox.length = p.inbox.length) :
    (c.read bo p answers).client.Clear ∧
      (c.read bo p answers).client.rx.messages = c.rx.messages := by
  by_cases hready : c.Ready
  · rw [Client.read_of_ready hfd (h.not_paused hready) hready] at hsame ⊢
    exact (h.readLoop_idle hready hsame).imp_left Or.inl
  · obtain ⟨hrun, hfit⟩ := hclear.resolve_left hready
    rw [h.read_of_fits hfd hready hrun hfit]
    exact ⟨Or.inl ready_of_fits, rfl⟩

theorem read_takes (h : Reading bo stream cap handed c p) (hfd : 0 ≤ c.fd) (hready : c.Ready)
    (hin : p.inbox ≠ []) (k : ℕ) (as : List ReadAnswer) :
    (c.read bo p (.deliver k :: as)).peer.inbox.length < p.inbox.length := by
  rw [Client.read_of_ready hfd (h.not_paused hready) hready]
  exact h.readLoop_bytes hready (Peer.sysRead_deliver (h.one_le_want hready) hin k) as

/-! ### The read loop of the callback -/

theorem readTimes (h : Reading bo stream cap handed c p) (n : ℕ) (answers : List ReadAnswer) :
    Reading bo stream cap handed (c.readTimes bo n p answers).client
        (c.readTimes bo n p answers).peer ∧
      (c.readTimes bo n p answers).peer.inbox.length ≤ p.inbox.length := by
  induction n generalizing c p answers with
  | zero =>
    obtain ⟨hread, -⟩ := h.read answers
    exact ⟨hread, h.length_inbox hread (c.consumed_read bo p answers)⟩
  | succ n ih =>
    obtain ⟨hread, -⟩ := h.read answers
    have hle := h.length_inbox hread (c.consumed_read bo p answers)
    rw [Client.readTimes]
    split_ifs
    · obtain ⟨hlast, hle'⟩ := ih hread (c.read bo p answers).answers
      exact ⟨hlast, hle'.trans hle⟩
    · exact ⟨hread, hle⟩

theorem readTimes_idle (h : Reading bo stream cap handed c p) (hfd : 0 ≤ c.fd)
    (hclear : c.Clear) {n : ℕ} {answers : List ReadAnswer}
    (hsame : (c.readTimes bo n p answers).peer.inbox.length = p.inbox.length) :
    (c.readTimes bo n p answers).client.Clear ∧
      (c.readTimes bo n p answers).client.rx.messages = c.rx.messages := by
  induction n generalizing c p answers with
  | zero => exact h.read_idle hfd hclear hsame
  | succ n ih =>
    obtain ⟨hread, -⟩ := h.read answers
    have hle := h.length_inbox hread (c.consumed_read bo p answers)
    rw [Client.readTimes] at hsame ⊢
    split_ifs at hsame ⊢
    · have hle' := (hread.readTimes n (c.read bo p answers).answers).2
      have hfirst : (c.read bo p answers).peer.inbox.length = p.inbox.length := by omega
      obtain ⟨hclear', hmessages⟩ := h.read_idle hfd hclear hfirst
      have hfd' : 0 ≤ (c.read bo p answers).client.fd := by
        rw [(c.sameOut_read p answers).fd]
        exact hfd
      obtain ⟨hlast, hmessages'⟩ := ih hread hfd' hclear' (hsame.trans hfirst.symm)
      exact ⟨hlast, hmessages'.trans hmessages⟩
    · exact h.read_idle hfd hclear hsame

theorem readTimes_takes (h : Reading bo stream cap handed c p) (hfd : 0 ≤ c.fd)
    (hready : c.Ready) (hin : p.inbox ≠ []) (n k : ℕ) (as : List ReadAnswer) :
    (c.readTimes bo n p (.deliver k :: as)).peer.inbox.length < p.inbox.length := by
  have hlt := h.read_takes hfd hready hin k as
  cases n with
  | zero => exact hlt
  | succ n =>
    rw [Client.readTimes]
    split_ifs
    · exact lt_of_le_of_lt ((h.read (.deliver k :: as)).1.readTimes n _).2 hlt
    · exact hlt

/-- **Nothing was read**: the decoder stays clear, and no message is complete. -/
theorem readAll_idle (h : Reading bo stream cap handed c p) (hfd : 0 ≤ c.fd)
    (hclear : c.Clear) {answers : List ReadAnswer}
    (hsame : (c.readAll bo p answers).peer.inbox.length = p.inbox.length) :
    (c.readAll bo p answers).client.Clear ∧
      (c.readAll bo p answers).client.rx.messages = c.rx.messages :=
  h.readTimes_idle hfd hclear hsame

/-- **A decoder that is not clear** is left alone. -/
theorem readAll_blocked (h : Reading bo stream cap handed c p) (hfd : 0 ≤ c.fd)
    (hblocked : ¬ c.Clear) (answers : List ReadAnswer) :
    c.readAll bo p answers = ⟨.paused, { c with rxPaused := true }, p, answers⟩ := by
  rw [Client.readAll, Client.readTimes, h.read_of_blocked hfd hblocked]
  rfl

/-- **A decoder that is clear** takes some of the bytes that are there. -/
theorem readAll_takes (h : Reading bo stream cap handed c p) (hfd : 0 ≤ c.fd)
    (hclear : c.Clear) (hin : p.inbox ≠ []) (k : ℕ) (as : List ReadAnswer) :
    (c.readAll bo p (.deliver k :: as)).peer.inbox.length < p.inbox.length := by
  by_cases hready : c.Ready
  · exact h.readTimes_takes hfd hready hin _ k as
  · -- The first read makes the decision about the header.
    obtain ⟨hrun, hfit⟩ := hclear.resolve_left hready
    have hread := (h.read (.deliver k :: as)).1
    have hdecides := h.read_of_fits hfd hready hrun hfit (.deliver k :: as)
    rw [hdecides] at hread
    rw [Client.readAll, Client.readTimes, hdecides]
    exact hread.readTimes_takes hfd ready_of_fits hin _ k as

end Reading

/-! ### A connection that goes on -/

/-- An answer that is no failure: bytes, or none yet. -/
def ReadAnswer.Calm : ReadAnswer → Prop
  | .deliver _ => True
  | .errno e => e = .EAGAIN ∨ e = .EINTR

/-- The read did not find the connection over, and has used some of the answers. -/
structure ReadOut.GoesOn (answers : List ReadAnswer) (out : ReadOut) : Prop where
  closed : out.peer.closed = false
  eof : out.result ≠ .eof
  error : out.result ≠ .error
  answers : out.answers ⊆ answers

namespace Reading

variable {handed : List (List UInt8)} {c : Client} {p : Peer} {answers : List ReadAnswer}

theorem readLoop_goesOn (h : Reading bo stream cap handed c p) (hready : c.Ready)
    (hopen : p.closed = false) (hcalm : ∀ a ∈ answers, a.Calm) :
    (c.readLoop bo p answers).GoesOn answers := by
  induction answers generalizing c p with
  | nil => exact ⟨hopen, by simp [Client.readLoop], by simp [Client.readLoop],
    List.Subset.refl _⟩
  | cons a as ih =>
    obtain ⟨hfirst, hrest⟩ := List.forall_mem_cons.mp hcalm
    have hmore : ∀ {out : ReadOut}, out.GoesOn as → out.GoesOn (a :: as) := fun hout =>
      ⟨hout.closed, hout.eof, hout.error, List.subset_cons_of_subset a hout.answers⟩
    cases hb : p.sysRead c.want a with
    | zero =>
      have hclosed := (Peer.sysRead_zero (h.one_le_want hready) hb).1
      rw [hopen] at hclosed
      cases hclosed
    | errno e =>
      have hpeer : (p.record c c.want []).closed = false := hopen
      have hcalm' : e = .EAGAIN ∨ e = .EINTR := by
        cases a with
        | errno e' =>
          cases hb
          exact hfirst
        | deliver k =>
          simp only [Peer.sysRead] at hb
          split_ifs at hb
          cases hb
          exact Or.inl rfl
      rw [Client.readLoop, hb]
      rcases hcalm' with rfl | rfl
      · exact ⟨hpeer, by simp, by simp, List.subset_cons_self a as⟩
      · exact hmore (ih (h.record_nil hready) hready.offer hpeer hrest)
    | bytes bs =>
      obtain ⟨hlen, hin⟩ := Peer.sysRead_bytes hb
      have hbytes := h.record_bytes hready hlen hin
      rw [Client.readLoop, hb]
      simp only
      split
      · rename_i c' hc'
        rw [hc'] at hbytes
        exact hmore (ih hbytes (Client.ready_of_onBytes hc') hopen hrest)
      · rename_i r c' hc'
        refine ⟨hopen, ?_, ?_, List.subset_cons_self a as⟩
        · rcases Client.result_of_onBytes hc' with hr | hr <;> simp [hr]
        · rcases Client.result_of_onBytes hc' with hr | hr <;> simp [hr]

theorem read_goesOn (h : Reading bo stream cap handed c p) (hfd : 0 ≤ c.fd)
    (hopen : p.closed = false) (hcalm : ∀ a ∈ answers, a.Calm) :
    (c.read bo p answers).GoesOn answers := by
  by_cases hready : c.Ready
  · rw [Client.read_of_ready hfd (h.not_paused hready) hready]
    exact h.readLoop_goesOn hready hopen hcalm
  · by_cases hclear : c.Clear
    · obtain ⟨hrun, hfit⟩ := hclear.resolve_left hready
      rw [h.read_of_fits hfd hready hrun hfit]
      exact ⟨hopen, by simp, by simp, List.Subset.refl _⟩
    · rw [h.read_of_blocked hfd hclear]
      exact ⟨hopen, by simp, by simp, List.Subset.refl _⟩

/-- **A connection goes on** while it is not closed and no read fails. -/
theorem readAll_goesOn (h : Reading bo stream cap handed c p) (hfd : 0 ≤ c.fd)
    (hopen : p.closed = false) (hcalm : ∀ a ∈ answers, a.Calm) :
    (c.readAll bo p answers).GoesOn answers := by
  have htimes : ∀ n (c : Client) (p : Peer) (answers : List ReadAnswer),
      Reading bo stream cap handed c p → 0 ≤ c.fd → p.closed = false →
      (∀ a ∈ answers, a.Calm) → (c.readTimes bo n p answers).GoesOn answers := by
    intro n
    induction n with
    | zero => exact fun c p answers h hfd hopen hcalm => h.read_goesOn hfd hopen hcalm
    | succ n ih =>
      intro c p answers h hfd hopen hcalm
      have hread := h.read_goesOn hfd hopen hcalm
      rw [Client.readTimes]
      split_ifs
      · have hfd' : 0 ≤ (c.read bo p answers).client.fd := by
          rw [(c.sameOut_read p answers).fd]
          exact hfd
        have hlast := ih _ _ _ (h.read answers).1 hfd' hread.closed
          fun a ha => hcalm a (hread.answers ha)
        exact ⟨hlast.closed, hlast.eof, hlast.error,
          List.Subset.trans hlast.answers hread.answers⟩
      · exact hread
  exact htimes _ c p answers h hfd hopen hcalm

end Reading

/-- Nothing fails while the queued bytes are sent. -/
theorem TxBuffer.flushLoop_of_calm {t : TxBuffer} {sent : List UInt8} {answers : List SendAnswer}
    (hcalm : ∀ e, .fail e ∉ answers) : (t.flushLoop sent answers).2.2 = none := by
  induction answers generalizing t sent with
  | nil =>
    rw [flushLoop]
    split_ifs <;> rfl
  | cons a as ih =>
    have hrest : ∀ e, .fail e ∉ as := fun e he => hcalm e (List.mem_cons_of_mem a he)
    rw [flushLoop]
    split_ifs
    · rfl
    · cases a with
      | accept k => exact ih hrest
      | eintr => exact ih hrest
      | eagain => rfl
      | fail e => exact absurd List.mem_cons_self (hcalm e)

theorem Session.flushOutput_of_calm {s : Session} (hfd : 0 ≤ s.client.fd)
    {sends : List SendAnswer} (hcalm : ∀ e, .fail e ∉ sends) :
    (s.flushOutput sends).2 = false := by
  have hnone := @TxBuffer.flushLoop_of_calm s.client.tx [] sends hcalm
  have hflush : (s.client.tx.flush sends).1 = .ok (s.client.tx.flushLoop [] sends).2.1.length := by
    rw [TxBuffer.flush]
    rcases hl : s.client.tx.flushLoop [] sends with ⟨t, sent, e⟩
    rw [hl] at hnone
    cases hnone
    rfl
  rw [flushOutput, Client.flush, if_neg (not_lt.mpr hfd)]
  simp only
  split
  · rfl
  · rename_i hc
    rw [(Prod.mk.inj hc).1] at hflush
    cases hflush

/-! ### An empty queue -/

/-- **With nothing queued the decoder is clear**: every legal payload fits an empty buffer. -/
theorem SessionLink.Inv.clear_of_messages {l : SessionLink} (h : l.Inv bo stream cap)
    (hpause : l.session.PauseOk) (hcap : kMaxMessageLen + 2 ≤ cap)
    (hnone : l.session.client.rx.messages = 0) : l.session.client.Clear := by
  by_contra hblocked
  obtain ⟨m, part, hc, -⟩ := h
  have hreading : Reading bo stream cap m.handed l.session.client l.peer :=
    ⟨⟨m.queue, part, hc.decodes⟩, hc.capacity, hc.stream, hc.calls⟩
  obtain ⟨hnot, hfull⟩ := not_or.mp hblocked
  obtain ⟨⟨-, hle⟩, hlen⟩ := hreading.atHeader hnot
  -- The buffer holds the opening bracket and nothing else.
  have hempty : l.session.client.rx.len = 1 := by
    rw [hlen, hc.decodes.holds.completeLen, hc.decodes.holds.eq_nil_of_messages hnone]
    rfl
  have hfit : l.session.client.rx.canFit l.session.client.msgLen.toNat = true := by
    have hcapacity := hc.capacity
    refine decide_eq_true ?_
    omega
  refine hfull ⟨?_, hfit⟩
  by_contra hp
  have hno := (hpause.ok (by simpa using hp)).2
  exact absurd (hfit.symm.trans hno) (by decide)

end KwinApi
