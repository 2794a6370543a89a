import KwinApi.Daemon.Backpressure

/-!
# The interest mask of a session

The io source of a session is watched for input while reading is not paused and for room while
bytes are queued for the socket, and it is switched off when neither is wanted. The mask is
recomputed at some exits of the callbacks only; at the others nothing it depends on has changed.

## Main definitions

* `KwinApi.Session.interest` — the mask a session should have
* `KwinApi.Session.MaskOk` — it has that mask

## Main results

* `KwinApi.SessionLink.maskOk_step` — kept by whatever happens to a live session
* `KwinApi.interest_mask` — over a whole run
-/

namespace KwinApi

namespace Session

/-- The mask of a session, `none` when it is to be switched off. -/
def interest (s : Session) : Option IoMask :=
  if s.rxPaused = true ∧ s.client.tx.len = 0 then none
  else some ⟨!s.rxPaused, decide (0 < s.client.tx.len)⟩

/-- The io source is watched for what the session waits for. -/
def MaskOk (s : Session) : Prop := s.ioSource = s.interest

variable {bo : ByteOrder} {s : Session}

/-- `update_io_events` computes the mask. -/
theorem maskOk_updateIoEvents (s : Session) : s.updateIoEvents.MaskOk := by
  rw [MaskOk, updateIoEvents]
  simp only [interest, TxBuffer.pending, IoMask.mk.injEq, Bool.not_eq_false',
    decide_eq_false_iff_not, Nat.not_lt, Nat.le_zero]

/-- The mask depends on the pause and on the length of the TX queue. -/
theorem MaskOk.congr (h : s.MaskOk) {s' : Session} (hio : s'.ioSource = s.ioSource)
    (hpaused : s'.rxPaused = s.rxPaused) (htx : s'.client.tx = s.client.tx) : s'.MaskOk := by
  rw [MaskOk, hio, h, interest, interest, hpaused, htx]

theorem MaskOk.onRxDrained (h : s.MaskOk) : s.onRxDrained.MaskOk := by
  rw [Session.onRxDrained]
  split_ifs
  · exact maskOk_updateIoEvents _
  · exact h

/-- Answering a `poll` recomputes the mask when it lifts a pause. -/
theorem MaskOk.answered (h : s.MaskOk) (r : RxBuffer × PollPort × Bool) :
    (s.answered r).MaskOk := by
  have hrx : ({ s with client := { s.client with rx := r.1 }, port := r.2.1 } : Session).MaskOk :=
    h.congr rfl rfl rfl
  rw [Session.answered]
  split_ifs
  · exact hrx.onRxDrained
  · exact hrx

/-- A message that is refused leaves the TX queue as it is. -/
theorem MaskOk.push (h : s.MaskOk) (msg : List UInt8) : (s.push bo msg).2.MaskOk := by
  have hrefused : ∀ e, (s.client.push bo msg).1 = .error e →
      (s.client.push bo msg).2.tx = s.client.tx := by
    intro e he
    rw [Client.push] at he ⊢
    split_ifs at he ⊢
    · rfl
    · simp only at he ⊢
      rw [TxBuffer.push] at he ⊢
      split_ifs at he ⊢
      · rfl
      · rfl
  rw [Session.push]
  split
  · exact maskOk_updateIoEvents _
  · rename_i e c hc
    refine h.congr rfl rfl ?_
    rw [hc] at hrefused
    exact hrefused e rfl

/-- A callback of the io source that does not end the session ends with `update_io_events`. -/
theorem maskOk_handleIo {p : Peer} {revents : Revents} {reads : List ReadAnswer}
    {sends : List SendAnswer} (hopen : (s.handleIo bo p revents reads sends).2.2 = false) :
    (s.handleIo bo p revents reads sends).1.MaskOk := by
  simp only [Session.handleIo] at hopen ⊢
  rw [if_neg (Bool.eq_false_iff.mp hopen)]
  exact maskOk_updateIoEvents _

end Session

namespace SessionLink

variable {bo : ByteOrder} {l : SessionLink}

/-- Whatever happens to a session that stays alive, its io source is watched for what it waits
for. -/
theorem maskOk_step (h : l.alive = true → l.session.MaskOk) (op : SessionOp) :
    (l.step bo op).alive = true → (l.step bo op).session.MaskOk := by
  unfold step
  by_cases halive : l.alive = true
  · rw [if_neg (not_not.mpr halive)]
    have hmask := h halive
    cases op with
    | io revents reads sends =>
      intro halive'
      simp only [onIo] at halive' ⊢
      split at halive'
      · simp_all
      · split_ifs at halive' ⊢ with hclose
        · contradiction
        · exact Session.maskOk_handleIo (Bool.eq_false_iff.mpr hclose)
    | poll call => exact fun _ => hmask.answered _
    | push msg => exact fun _ => hmask.push msg
    | timeout =>
      intro _
      simp only
      split_ifs
      · exact hmask.congr rfl rfl rfl
      · exact hmask
    | destroy => exact fun hgone => absurd hgone Bool.false_ne_true
  · rw [if_pos halive]
    exact h

theorem maskOk_run (h : l.alive = true → l.session.MaskOk) (ops : List SessionOp) :
    (ops.foldl (step bo) l).alive = true → (ops.foldl (step bo) l).session.MaskOk := by
  induction ops generalizing l with
  | nil => exact h
  | cons op ops ih => exact ih (maskOk_step h op)

end SessionLink

/-- A fresh session waits for input and has nothing to send. -/
theorem Session.maskOk_make {id : ℕ} {fd : ℤ} {rxCap txCap : ℕ} {s : Session}
    (h : Session.make id fd rxCap txCap = .ok s) : s.MaskOk := by
  obtain ⟨c, hc, rfl⟩ := Session.eq_of_make h
  obtain ⟨rx, tx, -, htx, rfl⟩ := Client.eq_of_make hc
  have hempty : tx.len = 0 := by
    obtain ⟨hinv, hnone, -⟩ := TxBuffer.Inv.make htx
    rw [← hinv.length_queuedBytes, hnone, List.length_nil]
  rw [MaskOk, interest]
  simp [hempty]

/-- In every state of a live session the two flags of a pause agree, input is watched for exactly
while reading is not paused, room exactly while the TX buffer holds bytes, and the io source is
switched off exactly when neither is wanted. -/
theorem interest_mask {bo : ByteOrder} {id : ℕ} {fd : ℤ} {rxCap txCap : ℕ} {s : Session}
    (h : Session.make id fd rxCap txCap = .ok s) (stream : List UInt8) (closed : Bool)
    (ops : List SessionOp) :
    let l := ops.foldl (SessionLink.step bo) (.init s stream closed)
    l.alive = true →
      l.session.rxPaused = l.session.client.rxPaused ∧
      ((∃ mask, l.session.ioSource = some mask ∧ mask.epollin = true) ↔
        l.session.rxPaused = false) ∧
      ((∃ mask, l.session.ioSource = some mask ∧ mask.epollout = true) ↔
        0 < l.session.client.tx.len) ∧
      (l.session.ioSource = none ↔ l.session.rxPaused = true ∧ l.session.client.tx.len = 0) := by
  intro l halive
  have hpause : l.session.PauseOk := SessionLink.pauseOk_run (Session.pauseOk_make h) ops
  have hmask : l.session.ioSource = l.session.interest :=
    SessionLink.maskOk_run (fun _ => Session.maskOk_make h) ops halive
  refine ⟨hpause.agree, ?_⟩
  rw [hmask, Session.interest]
  split_ifs with hoff
  · obtain ⟨hpaused, hempty⟩ := hoff
    simp [hpaused, hempty]
  · refine ⟨by simp, by simp, ?_⟩
    simp only [false_iff]
    exact hoff

/-- A session that has queued a message is watched for room as well. -/
theorem interest_mask_two : ∃ s, Session.make 1 3 8 64 = .ok s ∧
    let l := [SessionOp.push [49]].foldl (SessionLink.step .little) (.init s [] false)
    (l.session.ioSource = none ↔ l.session.rxPaused = true ∧ l.session.client.tx.len = 0) :=
  ⟨_, rfl, (@interest_mask .little 1 3 8 64 _ rfl [] false [.push [49]] rfl).2.2.2⟩

end KwinApi
