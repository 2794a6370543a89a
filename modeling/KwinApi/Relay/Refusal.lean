import KwinApi.Relay.Handover

/-!
# A poll that is refused

`/cli{id}` refuses a `poll` while another one is pending. The poll loop of a client awaits one call
at a time, so this takes a call that the loop has given up: the object still keeps it when the next
one arrives.

## Main definitions

* `KwinApi.alreadyPending` — the reply
* `KwinApi.Handover.Patient` — only the last call is awaited, and a refusal has a reason

## Main results

* `KwinApi.SessionLink.isRefusal_step` — only a `poll` call is refused
* `KwinApi.refused_after_timeout` — a call is refused so only after the timer of an earlier one has
  fired
-/

namespace KwinApi

open LongPoll

variable {bo : ByteOrder} {stream : List UInt8} {cap : ℕ}

/-- The reply to a `poll` call while another one is pending. -/
def alreadyPending : Reply := .text (jsonString (ascii "error: a poll is already pending"))

theorem alreadyPending_isRefusal : alreadyPending.IsRefusal := by
  simp [alreadyPending, Reply.IsRefusal]

/-! ### Only a call is refused -/

/-- A batch is not one of the error texts: it begins with a bracket. -/
theorem not_isRefusal_splice (ms : List (List UInt8)) :
    ¬ (Reply.text (cString (splice ms))).IsRefusal := by
  have hhead : (cString (splice ms)).head? = some kOpen := by
    rw [cString, splice, List.takeWhile_cons_of_pos (by decide)]
    rfl
  intro h
  simp only [Reply.IsRefusal, List.mem_cons, List.not_mem_nil, or_false] at h
  rcases h with h | h | h <;>
    · rw [h] at hhead
      exact absurd hhead (by decide)

/-- A refusal stands for one. -/
theorem Sent.Stands.error {r : Sent} {a : Answer (List UInt8) Reply} (h : r.Stands a)
    (hr : r.reply.IsRefusal) : ∀ ms, a.result ≠ .ok ms := by
  intro ms ha
  have hreply := h.reply
  rw [ha] at hreply
  rw [hreply] at hr
  exact not_isRefusal_splice ms hr

/-- What a mailbox has answered in between, it has answered with messages. -/
def Obliges (m m' : Mailbox (List UInt8) Reply) : Prop :=
  ∃ t, m'.answers = m.answers ++ t ∧ ∀ a ∈ t, ∃ ms, a.result = .ok ms

variable {m m' : Mailbox (List UInt8) Reply}

theorem obliges_refl (m : Mailbox (List UInt8) Reply) : Obliges m m :=
  ⟨[], (List.append_nil _).symm, nofun⟩

theorem obliges_wake (m : Mailbox (List UInt8) Reply) (ms : List (List UInt8)) :
    Obliges m (m.arrive ms).wake := by
  rw [Mailbox.wake]
  split
  · exact obliges_refl m
  · split_ifs
    · exact obliges_refl m
    · exact ⟨_, rfl, List.forall_mem_singleton.mpr ⟨_, rfl⟩⟩

theorem obliges_expire (m : Mailbox (List UInt8) Reply) : Obliges m m.expire := by
  rw [Mailbox.expire]
  split
  · exact obliges_refl m
  · exact ⟨_, rfl, List.forall_mem_singleton.mpr ⟨_, rfl⟩⟩

/-- The refusals among the replies of a mailbox that answered with messages are old ones. -/
theorem Obliges.old (h : Obliges m m') {sent sent' : List Sent}
    (hsent : List.Forall₂ Sent.Stands sent m.answers)
    (hsent' : List.Forall₂ Sent.Stands sent' m'.answers) (hpre : sent <+: sent') :
    ∀ r ∈ sent', r.reply.IsRefusal → r ∈ sent := by
  obtain ⟨t, ht, hok⟩ := h
  obtain ⟨u, rfl⟩ := hpre
  rw [ht] at hsent'
  have hu : List.Forall₂ Sent.Stands u t := by
    have hdrop := List.forall₂_drop sent.length hsent'
    rwa [List.drop_left, hsent.length_eq, List.drop_left] at hdrop
  intro r hr hrefusal
  rcases List.mem_append.mp hr with hr | hr
  · exact hr
  · obtain ⟨a, ha, hra⟩ := exists_answer hu hr
    obtain ⟨ms, hms⟩ := hok a ha
    exact absurd hms (hra.error hrefusal ms)

namespace SessionLink

variable {l : SessionLink}

/-- **Only a `poll` call is refused.** -/
theorem isRefusal_step (h : l.Inv bo stream cap) {op : SessionOp} (hop : ∀ call, op ≠ .poll call) :
    ∀ r ∈ (l.step bo op).session.port.sent, r.reply.IsRefusal → r ∈ l.session.port.sent := by
  have hpre := (@later_other bo l op hop).sent
  by_cases halive : l.alive = true
  swap
  · rw [step.eq_def, if_pos halive]
    exact fun r hr _ => hr
  obtain ⟨m, part, hc, hquiet, -⟩ := h
  rw [step.eq_def, if_neg (not_not.mpr halive)] at hpre ⊢
  cases op with
  | io revents reads sends =>
    simp only at hpre ⊢
    cases hio : l.session.ioSource with
    | none =>
      simp only [onIo, hio]
      exact fun r hr _ => hr
    | some mask =>
      obtain ⟨ms, part', hr⟩ := hc.handleIo hquiet { revents with
        epollin := revents.epollin && mask.epollin
        epollout := revents.epollout && mask.epollout } reads sends
      have hsent : (l.onIo bo revents reads sends).session.port.sent =
          (l.session.handleIo bo l.peer { revents with
            epollin := revents.epollin && mask.epollin
            epollout := revents.epollout && mask.epollout } reads sends).1.port.sent := by
        simp only [onIo, hio]
        split_ifs <;> rfl
      rw [hsent] at hpre ⊢
      exact (obliges_wake m ms).old hc.serves.sent hr.serves.sent hpre
  | poll call => exact absurd rfl (hop call)
  | push msg =>
    simp only [Session.port_push]
    exact fun r hr _ => hr
  | timeout =>
    simp only at hpre ⊢
    split_ifs at hpre ⊢
    · exact (obliges_expire m).old hc.serves.sent (hc.serves.onTimeout hquiet).sent hpre
    · exact fun r hr _ => hr
  | destroy => exact fun r hr _ => hr

/-- A call is refused so only while another one waits. -/
theorem pending_of_refused (h : l.Inv bo stream cap) {timer : TimerSetup} {r : Sent}
    (hr : r ∈ (l.step bo (.poll ⟨.ok pollTimeoutMs, timer⟩)).session.port.sent)
    (hreply : r.reply = alreadyPending) : r ∈ l.session.port.sent ∨
      r.request = l.session.port.requests ∧ l.session.port.waiter.msg ≠ none := by
  by_cases halive : l.alive = true
  swap
  · rw [step.eq_def, if_pos halive] at hr
    exact Or.inl hr
  obtain ⟨m, part, hc, -⟩ := h
  rw [step.eq_def, if_neg (not_not.mpr halive)] at hr
  simp only [Session.handlePoll, Session.port_answered] at hr
  have hnew : ∀ {sent : List Sent} {r' : Sent}, r ∈ sent ++ [r'] → r'.reply ≠ alreadyPending →
      r ∈ sent := by
    intro sent r' hr hne
    rcases List.mem_append.mp hr with hr | hr
    · exact hr
    · rw [List.mem_singleton.mp hr] at hreply
      exact absurd hreply hne
  rw [handlePollRequest] at hr
  simp only at hr
  rw [if_neg (show ¬ (pollTimeoutMs < 0 ∨ kMaxPollTimeoutMs < pollTimeoutMs) by decide)] at hr
  split_ifs at hr with hpending hmessages hzero
  · rcases List.mem_append.mp hr with hr | hr
    · exact Or.inl hr
    · rw [List.mem_singleton.mp hr]
      exact Or.inr ⟨rfl, Option.isSome_iff_ne_none.mp hpending⟩
  · refine Or.inl (hnew hr fun hbatch => ?_)
    refine not_isRefusal_splice m.queue ?_
    rw [← hc.serves.holds.drainQueue.1, show Reply.text _ = alreadyPending from hbatch]
    exact alreadyPending_isRefusal
  · exact absurd hzero (by decide)
  · split at hr
    · refine Or.inl (hnew hr ?_)
      show Reply.text (cString (jsonString (ascii "error: cannot arm poll timer"))) ≠ _
      decide
    · exact Or.inl hr

end SessionLink

/-! ### The loop -/

namespace Handover

variable {h : Handover}

/-- The loop awaits its last call only, and a call that was refused has an earlier one that was
given up. -/
structure Patient (h : Handover) : Prop where
  last : ∀ q, h.loop = .awaiting q → q + 1 = h.called
  refused : ∀ r ∈ h.link.session.port.sent, r.reply = alreadyPending →
    ∃ q < r.request, q ∈ h.timedOut

/-- A request that waits and is not the last call was given up. -/
theorem Inv.waiting (hinv : h.Inv bo stream cap) (hlast : h.Patient)
    (hcalled : h.link.session.port.requests < h.called)
    (hwait : h.link.session.port.waiter.msg ≠ none) :
    ∃ q < h.link.session.port.requests, q ∈ h.timedOut := by
  obtain ⟨q, hq⟩ := Option.ne_none_iff_exists'.mp hwait
  obtain ⟨m, part, hc, -⟩ := hinv.link
  have hperm := hc.serves.served.account
  rw [← hc.serves.map_request, ← hc.serves.msg, ← hc.serves.requests, hq] at hperm
  have hlt : q < h.link.session.port.requests := List.mem_range.mp
    (hperm.subset (List.mem_append_left _ (List.mem_append_right _ (List.mem_singleton_self q))))
  have hnew : q ∉ h.link.session.port.sent.map Sent.request := by
    have hnodup := (List.nodup_append.mp (hperm.nodup_iff.mpr List.nodup_range)).1
    exact fun hold => (List.nodup_append.mp hnodup).2.2 q hold q (List.mem_singleton_self q) rfl
  refine ⟨q, hlt, ?_⟩
  rcases hinv.account q (hlt.trans hcalled) with hdone | hout | hawait
  · refine absurd ?_ hnew
    rw [← List.take_append_drop h.delivered h.link.session.port.sent, List.map_append]
    exact List.mem_append_left _ hdone
  · exact hout
  · have := hlast.last q hawait
    omega

theorem Patient.step (hpat : h.Patient) (hinv : h.Inv bo stream cap) (ev : HandoverEvent) :
    (h.step bo ev).Patient := by
  have hsession : ∀ op : SessionOp, (∀ call, op ≠ .poll call) →
      Patient { h with link := h.link.step bo op } := fun op hop =>
    ⟨hpat.last, fun r hr hreply => hpat.refused r
      (SessionLink.isRefusal_step hinv.link hop r hr (hreply ▸ alreadyPending_isRefusal)) hreply⟩
  cases ev with
  | io revents reads sends => exact hsession (.io revents reads sends) (by simp)
  | push msg => exact hsession (.push msg) (by simp)
  | expire => exact hsession .timeout (by simp)
  | receive timer =>
    rw [Handover.step]
    split_ifs with hcalled
    · refine ⟨hpat.last, fun r hr hreply => ?_⟩
      rcases SessionLink.pending_of_refused hinv.link hr hreply with hold | ⟨hrequest, hwait⟩
      · exact hpat.refused r hold hreply
      · rw [hrequest]
        exact hinv.waiting hpat hcalled hwait
    · exact hpat
  | deliver =>
    rw [Handover.step]
    split
    · exact hpat
    · rename_i r hr
      rcases h.deliver_cases r with ⟨hloop, loop, heq, -, hawait⟩ | ⟨-, heq⟩
      · rw [heq]
        exact ⟨fun q hq => by rw [hawait q hq]; exact hpat.last _ hloop, hpat.refused⟩
      · rw [heq]
        exact ⟨hpat.last, hpat.refused⟩
  | callTimeout =>
    rw [Handover.step]
    split
    · refine ⟨by simp, fun r hr hreply => ?_⟩
      obtain ⟨q, hq, hout⟩ := hpat.refused r hr hreply
      exact ⟨q, hq, List.mem_append_left _ hout⟩
    · exact hpat
  | slept =>
    rw [Handover.step]
    split
    · refine ⟨fun q hq => ?_, hpat.refused⟩
      rw [← PollLoop.awaiting.inj hq]
    · exact hpat
  | dispatch =>
    rw [Handover.step]
    split
    · exact ⟨by simp, hpat.refused⟩
    · exact ⟨by simp, hpat.refused⟩
    · exact hpat

theorem patient_run (hpat : h.Patient) (hinv : h.Inv bo stream cap) (evs : List HandoverEvent) :
    (h.run bo evs).Patient :=
  (List.foldlRecOn evs (Handover.step bo) (motive := fun h => h.Patient ∧ h.Inv bo stream cap)
    ⟨hpat, hinv⟩ fun _ hh ev _ => ⟨hh.1.step hh.2 ev, hh.2.step ev⟩).1

theorem timedOut_run (evs : List HandoverEvent) (hevs : .callTimeout ∉ evs) :
    (h.run bo evs).timedOut = h.timedOut := by
  induction evs using List.reverseRecOn with
  | nil => rfl
  | append_singleton evs ev ih =>
    rw [List.mem_append, List.mem_singleton, not_or] at hevs
    rw [run_concat, ← ih hevs.1]
    generalize h.run bo evs = h'
    cases ev with
    | callTimeout => exact absurd rfl hevs.2
    | receive timer =>
      rw [Handover.step]
      split_ifs <;> rfl
    | deliver =>
      rw [Handover.step]
      split
      · rfl
      · rename_i r hr
        rcases h'.deliver_cases r with ⟨-, loop, heq, -⟩ | ⟨-, heq⟩ <;> rw [heq]
    | slept | dispatch =>
      rw [Handover.step]
      split <;> rfl
    | _ => rfl

end Handover

/-- **A poll of the loop is refused as a second one only after a timeout.** In every state of every
run, a call that was answered so has an earlier one whose timer has fired; as long as no timer of a
call fires, every call is taken. The loop takes the answer for an error message. -/
theorem refused_after_timeout {id : ℕ} {fd : ℤ} {rxCap txCap : ℕ} {s : Session}
    (hs : Session.make id fd rxCap txCap = .ok s) (bo : ByteOrder) (stream : List UInt8)
    (closed : Bool) (evs : List HandoverEvent) :
    let h := (Handover.start s stream closed).run bo evs
    (∀ r ∈ h.link.session.port.sent, r.reply = alreadyPending →
      (∃ q < r.request, q ∈ h.timedOut) ∧ r.messages = []) ∧
    (.callTimeout ∉ evs → ∀ r ∈ h.link.session.port.sent, r.reply ≠ alreadyPending) := by
  intro h
  have hstart : (Handover.start s stream closed).Patient := by
    obtain ⟨c, -, rfl⟩ := Session.eq_of_make hs
    refine ⟨fun q hq => ?_, nofun⟩
    rw [← PollLoop.awaiting.inj hq]
    rfl
  have hpat : h.Patient := Handover.patient_run hstart (Handover.inv_start hs bo stream closed) evs
  refine ⟨fun r hr hreply => ⟨hpat.refused r hr hreply, ?_⟩, fun hevs r hr hreply => ?_⟩
  · rw [Sent.messages, hreply]
    rfl
  · obtain ⟨q, -, hout⟩ := hpat.refused r hr hreply
    have hnone : h.timedOut = [] := Handover.timedOut_run evs hevs
    rw [hnone] at hout
    exact List.not_mem_nil hout

/-- The second call of the loop is refused: the first one was given up and still waits. -/
theorem refused_after_timeout_one : ∃ s, Session.make 1 3 64 64 = .ok s ∧
    let h := (Handover.start s [] false).run .little
      [.receive ⟨.ok 0, .ok ()⟩, .callTimeout, .slept, .receive ⟨.ok 0, .ok ()⟩]
    ⟨1, 0, alreadyPending⟩ ∈ h.link.session.port.sent ∧ ∃ q < 1, q ∈ h.timedOut := by
  refine ⟨_, rfl, by decide +kernel, ?_⟩
  exact ((@refused_after_timeout 1 3 64 64 _ rfl .little [] false [.receive ⟨.ok 0, .ok ()⟩,
    .callTimeout, .slept, .receive ⟨.ok 0, .ok ()⟩]).1 ⟨1, 0, alreadyPending⟩
      (by decide +kernel) rfl).1

end KwinApi
