import KwinApi.Proto.Reader

/-!
# A client with room enough

With an RX buffer that holds the whole stream and the longest message besides, a client never
pauses, and takes whatever the kernel has.

## Main definitions

* `KwinApi.Client.Open` — a client that goes on reading
* `KwinApi.Reader.Delivers` — the payloads a reader has handed over or queued

## Main results

* `KwinApi.Reader.delivers` — they are the legal payloads of the frames read in full
* `KwinApi.Reader.exists_drained` — with room enough every run can be continued to the end of the
  stream
-/

namespace KwinApi

open Framing

/-! ### What the payloads take up -/

/-- The payloads of frames take up less than the frames. -/
theorem length_sealed_legalPayloads_le {bo : ByteOrder} {fs : List (Frame UInt8)}
    (hfs : ∀ f ∈ fs, f.WellFormed (wireHeader bo)) :
    (sealed (legalPayloads fs)).length ≤ (fs.flatMap Frame.symbols).length := by
  induction fs with
  | nil => exact Nat.le_refl _
  | cons f fs ih =>
    obtain ⟨hf, hrest⟩ := List.forall_mem_cons.mp hfs
    have hle := ih hrest
    have hsymbols : f.symbols.length = 4 + f.payload.length := by
      rw [Frame.symbols, List.length_append, hf.header, wireHeader_width]
    rw [List.flatMap_cons, List.length_append, hsymbols, legalPayloads]
    by_cases hlegal : Legal f.payload.length
    · rw [List.filter_cons_of_pos (by simpa using hlegal), List.map_cons]
      simp only [sealed, List.flatMap_cons, List.length_append, List.length_singleton]
      have hle' : (sealed (legalPayloads fs)).length ≤ _ := hle
      rw [sealed, legalPayloads] at hle'
      omega
    · rw [List.filter_cons_of_neg (by simpa using hlegal)]
      have hle' : (sealed (legalPayloads fs)).length ≤ _ := hle
      rw [legalPayloads] at hle'
      omega

namespace Client

variable {bo : ByteOrder} {c : Client} {S : List UInt8} {handed q : List (List UInt8)}
  {part : List UInt8}

/-- Between frames the buffer holds less than the stream so far. -/
theorem Decodes.len_le (h : c.Decodes bo S handed q part) (hs : c.rxState = .header) :
    c.rx.len ≤ S.length + 1 := by
  obtain ⟨hq, ⟨done, cur, rfl, hwf, hstage, hpay, -⟩, -⟩ := h
  have hpart : part = [] := by
    cases hstage with
    | header => rfl
    | payload _ hs' => exact absurd (hs.symm.trans hs') (by decide)
    | discard => rfl
  have hle := length_sealed_legalPayloads_le hwf
  have hlen := hq.len
  have hcl := hq.completeLen
  rw [hpay] at hle
  simp only [sealed, List.flatMap_append, List.length_append] at hle hcl ⊢
  rw [hpart, List.length_nil] at hlen
  omega

/-- A client that goes on reading: the socket is open, reading is not paused, and the next call
asks for bytes. -/
structure Open (c : Client) : Prop where
  fd : 0 ≤ c.fd
  running : c.rxPaused = false
  ready : c.Ready

theorem ready_of_haveRead (h : c.haveRead = 0) : c.Ready := by
  intro hr
  rw [h] at hr
  exact absurd hr.2 (by decide)

/-- The decision about a header leaves it open when the payload fits. -/
theorem Open.headerDone (hfd : 0 ≤ c.fd) (hrun : c.rxPaused = false)
    (hfit : ∀ n, n ≤ kMaxMessageLen → c.rx.canFit n = true) : c.headerDone.client.Open := by
  rw [Client.headerDone]
  split_ifs with hzero hlarge hroom
  · exact ⟨hfd, hrun, ready_of_haveRead rfl⟩
  · exact ⟨hfd, hrun, fun h => by cases h.1⟩
  · exact ⟨hfd, hrun, fun h => by cases h.1⟩
  · exact absurd (hfit _ (Nat.not_lt.mp hlarge)) hroom

/-- The bytes of a call leave it open when every payload fits between frames. -/
theorem Open.onBytes (h : c.Open)
    (hfit : c.rxState = .header → ∀ n, n ≤ kMaxMessageLen → c.rx.canFit n = true)
    (bs : List UInt8) : (c.onBytes bo bs).client.Open := by
  obtain ⟨hfd, hrun, hready⟩ := h
  rw [Client.onBytes]
  split
  · rename_i hs
    simp only
    split_ifs with hread
    · exact ⟨hfd, hrun, fun h => absurd h.2 (Nat.not_le.mpr hread)⟩
    · exact Open.headerDone hfd hrun (hfit hs)
  · rename_i hs
    simp only
    split_ifs
    · exact ⟨hfd, hrun, ready_of_haveRead rfl⟩
    · refine ⟨hfd, hrun, fun h => ?_⟩
      exact absurd (hs.symm.trans h.1) (by decide)
  · rename_i hs
    simp only
    split_ifs
    · exact ⟨hfd, hrun, ready_of_haveRead rfl⟩
    · refine ⟨hfd, hrun, fun h => ?_⟩
      exact absurd (hs.symm.trans h.1) (by decide)

theorem Open.offer (h : c.Open) : c.offer.Open := by
  refine ⟨?_, ?_, h.ready.offer⟩
  · rw [Client.offer]
    split
    · exact h.fd
    · exact h.fd
  · rw [Client.offer]
    split
    · exact h.running
    · exact h.running

end Client

/-! ### Reading on -/

namespace Reading

variable {bo : ByteOrder} {stream : List UInt8} {cap : ℕ} {handed : List (List UInt8)}
  {c : Client} {p : Peer}

/-- The buffer has room for the stream and the longest message besides. -/
abbrev Ample (stream : List UInt8) (cap : ℕ) : Prop := stream.length + kMaxMessageLen + 2 ≤ cap

theorem canFit (h : Reading bo stream cap handed c p) (hcap : Ample stream cap)
    (hs : c.rxState = .header) {n : ℕ} (hn : n ≤ kMaxMessageLen) : c.rx.canFit n = true := by
  obtain ⟨⟨q, part, hd⟩, rfl, rfl, -⟩ := h
  have hle := hd.len_le hs
  rw [Ample, List.length_append] at hcap
  refine decide_eq_true ?_
  omega

theorem open_readLoop (h : Reading bo stream cap handed c p) (hcap : Ample stream cap)
    (hopen : c.Open) (answers : List ReadAnswer) : (c.readLoop bo p answers).client.Open := by
  induction answers generalizing c p with
  | nil => exact hopen.offer
  | cons a as ih =>
    have hnil := h.record_nil hopen.ready
    simp only [Client.readLoop]
    split
    · exact ih hnil hopen.offer
    · exact hopen.offer
    · exact hopen.offer
    · exact hopen.offer
    · rename_i bs hb
      have hone : 1 ≤ c.want := by
        obtain ⟨q, part, hd⟩ := h.decodes
        exact (hd.safe hopen.ready (Nat.zero_le _)).one_le
      obtain ⟨hlen, hin⟩ := Peer.sysRead_bytes hb
      have hbytes := h.record_bytes hopen.ready hlen hin
      have hstill : (c.offer.onBytes bo bs).client.Open := by
        refine hopen.offer.onBytes (fun hs n hn => ?_) bs
        exact hnil.canFit hcap hs hn
      split
      · rename_i c' hc'
        rw [hc'] at hbytes hstill
        exact ih hbytes hstill
      · rename_i r c' hc'
        rwa [hc'] at hstill

theorem open_read (h : Reading bo stream cap handed c p) (hcap : Ample stream cap)
    (hopen : c.Open) (answers : List ReadAnswer) : (c.read bo p answers).client.Open := by
  rw [Client.read, if_neg (Int.not_lt.mpr hopen.fd), if_neg (by simp [hopen.running]),
    if_neg hopen.ready]
  exact h.open_readLoop hcap hopen answers

/-- One byte that is there is taken. -/
theorem length_inbox_read (h : Reading bo stream cap handed c p) (hopen : c.Open)
    (hne : p.inbox ≠ []) :
    (c.read bo p [.deliver 0]).peer.inbox.length + 1 = p.inbox.length := by
  have hone : 1 ≤ c.want := by
    obtain ⟨q, part, hd⟩ := h.decodes
    exact (hd.safe hopen.ready (Nat.zero_le _)).one_le
  have hsys : p.sysRead c.want (.deliver 0) = .bytes (p.inbox.take 1) := by
    rw [Peer.sysRead, if_neg (by omega), if_neg hne, Nat.min_eq_left (by omega)]
  obtain ⟨x, xs, hx⟩ := List.exists_cons_of_ne_nil hne
  rw [Client.read, if_neg (Int.not_lt.mpr hopen.fd), if_neg (by simp [hopen.running]),
    if_neg hopen.ready, Client.readLoop, hsys]
  simp only
  split
  · simp [Client.readLoop, Peer.record, hx]
  · simp [Peer.record, hx]

end Reading

/-! ### Readers -/

namespace Reader

/-- The payloads that were handed over and those that are queued, in order. -/
def Delivers (r : Reader) (payloads : List (List UInt8)) : Prop :=
  ∃ (batches : List (List (List UInt8))) (queued : List (List UInt8)),
    r.polled = batches.map (fun batch => (batch.length, splice batch)) ∧
    r.client.rx.messages = queued.length ∧
    r.client.rx.data.take r.client.rx.completeLen = kOpen :: sealed queued ∧
    batches.flatten ++ queued = payloads

/-- A reader delivers the legal payloads of the frames it has read in full. -/
theorem delivers {bo : ByteOrder} {stream : List UInt8} {cap : ℕ} {r : Reader}
    (h : r.Inv bo stream cap) :
    r.Delivers (legalPayloads (frames (wireHeader bo) r.peer.consumed)) := by
  obtain ⟨batches, hpolled, ⟨⟨q, part, hd⟩, -, -, -⟩⟩ := h
  exact ⟨batches, q, hpolled, hd.holds.messages, hd.holds.take_completeLen,
    hd.legalPayloads.symm⟩

/-- What has been read when nothing is left. -/
theorem consumed_of_drained {bo : ByteOrder} {stream : List UInt8} {cap : ℕ} {r : Reader}
    (h : r.Inv bo stream cap) (hin : r.peer.inbox = []) : r.peer.consumed = stream := by
  obtain ⟨batches, -, hr⟩ := h
  rw [← hr.stream_eq, hin, List.append_nil]

theorem open_step {bo : ByteOrder} {stream : List UInt8} {cap : ℕ} {r : Reader}
    (h : r.Inv bo stream cap) (hcap : Reading.Ample stream cap) (hopen : r.client.Open)
    (op : ReaderOp) : (r.step bo op).client.Open := by
  obtain ⟨batches, -, hr⟩ := h
  cases op with
  | read answers => exact hr.open_read hcap hopen answers
  | poll => exact ⟨hopen.fd, hopen.running, hopen.ready⟩
  | resume => exact ⟨hopen.fd, rfl, hopen.ready⟩

/-- With room enough, a reader can go on to the end of the stream. -/
theorem exists_drained {bo : ByteOrder} {stream : List UInt8} {cap : ℕ} {r : Reader}
    (h : r.Inv bo stream cap) (hcap : Reading.Ample stream cap) (hopen : r.client.Open) :
    ∃ ops : List ReaderOp, (ops.foldl (step bo) r).peer.inbox = [] := by
  induction hn : r.peer.inbox.length generalizing r with
  | zero => exact ⟨[], List.eq_nil_of_length_eq_zero hn⟩
  | succ n ih =>
    have hne : r.peer.inbox ≠ [] := by
      intro hnil
      rw [hnil] at hn
      contradiction
    have hlen : (r.step bo (.read [.deliver 0])).peer.inbox.length + 1 = r.peer.inbox.length := by
      obtain ⟨batches, -, hr⟩ := id h
      exact hr.length_inbox_read hopen hne
    obtain ⟨ops, hops⟩ := ih (h.step (.read [.deliver 0])) (open_step h hcap hopen _) (by omega)
    exact ⟨.read [.deliver 0] :: ops, hops⟩

end Reader

end KwinApi
