import KwinApi.Proto.Decoder

/-!
# Reading a client, call by call

`Client::read` preserves the invariant of the decoder, and so does everything that happens between
two calls: `poll()` with `drain()`, and `rx_resume()`. Over any schedule the queue, the payloads
handed over and the frames discarded are therefore functions of the bytes read so far.

## Main definitions

* `KwinApi.Reading` — the invariant of a decoder and its socket
* `KwinApi.Reader` — a client that is read and polled, with what its polls returned

## Main results

* `KwinApi.Reading.read` — one `Client::read`, whatever the kernel answers
* `KwinApi.Reader.decode_lossless` — decoding is lossless and independent of the schedule
* `KwinApi.Reader.read_path_safe` — the read path never leaves its buffers and never takes a
  request of no bytes for the end of the stream
-/

namespace KwinApi

open Framing Region

/-! ### One system call -/

theorem Peer.sysRead_bytes {p : Peer} {want : ℕ} {a : ReadAnswer} {bs : List UInt8}
    (h : p.sysRead want a = .bytes bs) :
    bs.length ≤ want ∧ p.inbox = bs ++ p.inbox.drop bs.length := by
  cases a with
  | errno e => cases h
  | deliver k =>
    simp only [Peer.sysRead] at h
    split_ifs at h
    cases h
    refine ⟨?_, ?_⟩
    · rw [List.length_take]
      omega
    · exact (List.prefix_iff_eq_append.mp (List.take_prefix _ _)).symm

/-- A `::read` that asks for something returns 0 only at the end of a closed stream. -/
theorem Peer.sysRead_zero {p : Peer} {want : ℕ} {a : ReadAnswer} (hw : 1 ≤ want)
    (h : p.sysRead want a = .zero) : p.closed = true ∧ p.inbox = [] := by
  cases a with
  | errno e => cases h
  | deliver k =>
    simp only [Peer.sysRead] at h
    split_ifs at h with h0 h1 h2
    · omega
    · exact ⟨h2, h1⟩

namespace Client

theorem capacity_headerDone (c : Client) : c.headerDone.client.rx.capacity = c.rx.capacity := by
  rw [headerDone]
  split_ifs <;> rfl

theorem capacity_onBytes (bo : ByteOrder) (c : Client) (bs : List UInt8) :
    (c.onBytes bo bs).client.rx.capacity = c.rx.capacity := by
  rw [onBytes]
  split
  · simp only
    split_ifs
    · rfl
    · exact capacity_headerDone _
  · simp only
    split_ifs <;> rfl
  · simp only
    split_ifs <;> rfl

@[simp] theorem capacity_offer (c : Client) : c.offer.rx.capacity = c.rx.capacity := by
  rw [offer]
  split <;> rfl

/-- The loop goes on only behind an empty frame, where the next header begins. -/
theorem ready_of_headerDone {c c' : Client} (h : c.headerDone = .loop c') : c'.Ready := by
  rw [headerDone] at h
  split_ifs at h
  cases h
  simp [Ready, kHeaderLen]

theorem ready_of_onBytes {bo : ByteOrder} {c c' : Client} {bs : List UInt8}
    (h : c.onBytes bo bs = .loop c') : c'.Ready := by
  rw [onBytes] at h
  split at h
  · simp only at h
    split_ifs at h
    exact ready_of_headerDone h
  · simp only at h
    split_ifs at h
  · simp only at h
    split_ifs at h

/-- With bytes read, a turn ends in progress or in a pause. -/
theorem result_of_headerDone {c c' : Client} {r : ReadResult} (h : c.headerDone = .ret r c') :
    r = .progress ∨ r = .paused := by
  rw [headerDone] at h
  split_ifs at h <;> cases h <;> simp

theorem result_of_onBytes {bo : ByteOrder} {c c' : Client} {bs : List UInt8} {r : ReadResult}
    (h : c.onBytes bo bs = .ret r c') : r = .progress ∨ r = .paused := by
  rw [onBytes] at h
  split at h
  · simp only at h
    split_ifs at h
    · cases h
      exact .inl rfl
    · exact result_of_headerDone h
  · simp only at h
    split_ifs at h <;> cases h <;> exact .inl rfl
  · simp only at h
    split_ifs at h <;> cases h <;> exact .inl rfl

/-- Reading only adds to the bytes consumed. -/
theorem consumed_readLoop (bo : ByteOrder) (c : Client) (p : Peer) (answers : List ReadAnswer) :
    p.consumed <+: (c.readLoop bo p answers).peer.consumed := by
  induction answers generalizing c p with
  | nil => exact List.prefix_append _ _
  | cons a as ih =>
    have hrecord (bs : List UInt8) : p.consumed <+: (p.record c c.want bs).consumed :=
      List.prefix_append _ _
    simp only [readLoop]
    split
    · exact (hrecord []).trans (ih _ _)
    · exact hrecord []
    · exact hrecord []
    · exact hrecord []
    · split
      · exact (hrecord _).trans (ih _ _)
      · exact hrecord _

theorem consumed_read (bo : ByteOrder) (c : Client) (p : Peer) (answers : List ReadAnswer) :
    p.consumed <+: (c.read bo p answers).peer.consumed := by
  rw [read]
  split_ifs
  · exact List.prefix_refl _
  · exact List.prefix_refl _
  · split
    · exact List.prefix_refl _
    · exact consumed_readLoop bo _ p answers
  · exact consumed_readLoop bo c p answers

end Client

/-! ### The invariant of a decoder and its socket -/

/-- The decoder has read a prefix of `stream`, in step with it; its RX buffer has `cap` bytes; and
every `::read` so far was safe. -/
structure Reading (bo : ByteOrder) (stream : List UInt8) (cap : ℕ) (handed : List (List UInt8))
    (c : Client) (p : Peer) : Prop where
  decodes : ∃ q part, c.Decodes bo p.consumed handed q part
  capacity : c.rx.capacity = cap
  stream_eq : p.consumed ++ p.inbox = stream
  calls : ∀ r ∈ p.calls, r.Safe

namespace Reading

variable {bo : ByteOrder} {stream : List UInt8} {cap : ℕ} {handed : List (List UInt8)}
  {c : Client} {p : Peer}

/-- A `::read` that brought nothing. -/
theorem record_nil (h : Reading bo stream cap handed c p) (hready : c.Ready) :
    Reading bo stream cap handed c.offer (p.record c c.want []) := by
  obtain ⟨⟨q, part, hd⟩, hcap, hstream, hcalls⟩ := h
  refine ⟨⟨q, part, ?_⟩, by rwa [Client.capacity_offer], ?_, ?_⟩
  · simpa [Peer.record] using hd.offer hready
  · simpa [Peer.record] using hstream
  · simp only [Peer.record, List.mem_append, List.mem_singleton]
    rintro r (hr | rfl)
    · exact hcalls r hr
    · exact hd.safe hready (Nat.zero_le _)

/-- A `::read` that brought `bs`. -/
theorem record_bytes (h : Reading bo stream cap handed c p) (hready : c.Ready) {bs : List UInt8}
    (hlen : bs.length ≤ c.want) (hin : p.inbox = bs ++ p.inbox.drop bs.length) :
    Reading bo stream cap handed (c.offer.onBytes bo bs).client (p.record c c.want bs) := by
  obtain ⟨⟨q, part, hd⟩, hcap, hstream, hcalls⟩ := h
  obtain ⟨q', part', hd'⟩ := (hd.offer hready).onBytes hready.offer
    (show bs.length ≤ c.offer.want by rwa [Client.want_offer])
  refine ⟨⟨q', part', hd'⟩, ?_, ?_, ?_⟩
  · rwa [Client.capacity_onBytes, Client.capacity_offer]
  · rw [← hstream, hin]
    simp [Peer.record, List.append_assoc]
  · simp only [Peer.record, List.mem_append, List.mem_singleton]
    rintro r (hr | rfl)
    · exact hcalls r hr
    · exact hd.safe hready hlen

/-- The loop of `Client::read`. The induction is on the answers of the kernel, of which every turn
takes one. -/
theorem readLoop (h : Reading bo stream cap handed c p) (hready : c.Ready)
    (answers : List ReadAnswer) :
    let out := c.readLoop bo p answers
    Reading bo stream cap handed out.client out.peer ∧
      (out.result = .eof → out.peer.closed = true ∧ out.peer.inbox = []) := by
  induction answers generalizing c p with
  | nil => exact ⟨h.record_nil hready, fun he => by cases he⟩
  | cons a as ih =>
    have hnil := h.record_nil hready
    have hone : 1 ≤ c.want := by
      obtain ⟨q, part, hd⟩ := h.decodes
      exact (hd.safe hready (Nat.zero_le _)).one_le
    simp only [Client.readLoop]
    split
    · exact ih hnil hready.offer
    · exact ⟨hnil, fun he => by cases he⟩
    · exact ⟨hnil, fun he => by cases he⟩
    · rename_i hz
      obtain ⟨hclosed, hin⟩ := Peer.sysRead_zero hone hz
      exact ⟨hnil, fun _ => ⟨hclosed, by simpa [Peer.record] using hin⟩⟩
    · rename_i bs hb
      obtain ⟨hlen, hin⟩ := Peer.sysRead_bytes hb
      have hbytes := h.record_bytes hready hlen hin
      split
      · rename_i c' hc'
        rw [hc'] at hbytes
        exact ih hbytes (Client.ready_of_onBytes hc')
      · rename_i r c' hc'
        rw [hc'] at hbytes
        refine ⟨hbytes, fun he => ?_⟩
        rcases Client.result_of_onBytes hc' with hr | hr <;>
          exact absurd (hr.symm.trans he) (by decide)

/-- The decision that is made again after a pause. -/
theorem headerDone (h : Reading bo stream cap handed c p) (hs : c.rxState = .header)
    (hread : kHeaderLen ≤ c.haveRead.toNat) (hrun : c.rxPaused = false) :
    Reading bo stream cap handed c.headerDone.client p := by
  obtain ⟨⟨q, part, hq, ⟨done, cur, hS, hwf, hstage, hpay, hdisc⟩, -⟩, hcap, hstream, hcalls⟩ := h
  cases hstage with
  | payload _ hs' => exact absurd (hs.symm.trans hs') (by decide)
  | discard _ hs' => exact absurd (hs.symm.trans hs') (by decide)
  | header _ hle hlegal =>
    have hfull : c.haveRead.toNat = kHeaderLen := Nat.le_antisymm hle hread
    refine ⟨⟨q, [], ?_⟩, by rwa [Client.capacity_headerDone], hstream, hcalls⟩
    rw [hS, hfull, List.take_of_length_le (by rw [Client.length_headerBytes])]
    exact Client.Decodes.headerDone hq hwf hs hfull hpay hdisc hrun

/-- **One `Client::read`**, whatever the kernel answers. -/
theorem read (h : Reading bo stream cap handed c p) (answers : List ReadAnswer) :
    let out := c.read bo p answers
    Reading bo stream cap handed out.client out.peer ∧
      (out.result = .eof → out.peer.closed = true ∧ out.peer.inbox = []) := by
  simp only [Client.read]
  split_ifs with hfd hp hready
  · exact ⟨h, fun he => by cases he⟩
  · exact ⟨h, fun he => by cases he⟩
  · have hdone := h.headerDone hready.1 hready.2 (by simpa using hp)
    split
    · rename_i r c' hc'
      rw [hc'] at hdone
      refine ⟨hdone, fun he => ?_⟩
      rcases Client.result_of_headerDone hc' with hr | hr <;>
        exact absurd (hr.symm.trans he) (by decide)
    · rename_i c' hc'
      rw [hc'] at hdone
      exact hdone.readLoop (Client.ready_of_headerDone hc') answers
  · exact h.readLoop hready answers

/-- Between two reads the queue is drained. -/
theorem drainQueue (h : Reading bo stream cap handed c p) :
    ∃ batch, c.rx.drainQueue.1 = splice batch ∧ batch.length = c.rx.messages ∧
      Reading bo stream cap (handed ++ batch) { c with rx := c.rx.drainQueue.2 } p := by
  obtain ⟨⟨q, part, hd⟩, hcap, hstream, hcalls⟩ := h
  refine ⟨q, hd.holds.drainQueue.1, hd.holds.messages.symm, ⟨[], part, hd.drainQueue⟩, ?_,
    hstream, hcalls⟩
  rw [← hcap, RxBuffer.drainQueue, RxBuffer.capacity_drain, RxBuffer.capacity_poll]

theorem rxResume (h : Reading bo stream cap handed c p) :
    Reading bo stream cap handed c.rxResume p := by
  obtain ⟨⟨q, part, hd⟩, hcap, hstream, hcalls⟩ := h
  exact ⟨⟨q, part, hd.rxResume⟩, hcap, hstream, hcalls⟩

end Reading

/-! ### A client that is read and polled -/

/-- One thing that happens to a client: a `Client::read` against some answers of the kernel, a
`poll()` with `drain()`, or an `rx_resume()`. -/
inductive ReaderOp where
  | read (answers : List ReadAnswer)
  | poll
  | resume

/-- A client and its socket, with the number of messages and the text of every `poll()` so far. -/
structure Reader where
  client : Client
  peer : Peer
  polled : List (ℕ × List UInt8)

namespace Reader

/-- A fresh client in front of a byte stream, which its peer closes at the end or not. -/
def init (c : Client) (stream : List UInt8) (closed : Bool) : Reader :=
  ⟨c, ⟨stream, [], closed, []⟩, []⟩

/-- One operation. -/
def step (bo : ByteOrder) (r : Reader) : ReaderOp → Reader
  | .read answers =>
    let out := r.client.read bo r.peer answers
    { r with client := out.client, peer := out.peer }
  | .poll =>
    { r with
      client := { r.client with rx := r.client.rx.drainQueue.2 }
      polled := r.polled ++ [(r.client.rx.messages, r.client.rx.drainQueue.1)] }
  | .resume => { r with client := r.client.rxResume }

/-- The polls so far returned splices of the payloads handed over, and the decoder is in step. -/
def Inv (bo : ByteOrder) (stream : List UInt8) (cap : ℕ) (r : Reader) : Prop :=
  ∃ batches : List (List (List UInt8)), r.polled = batches.map (fun b => (b.length, splice b)) ∧
    Reading bo stream cap batches.flatten r.client r.peer

theorem inv_init {bo : ByteOrder} {fd : ℤ} {rxCap txCap : ℕ} {c : Client}
    (h : Client.make fd rxCap txCap = .ok c) (stream : List UInt8) (closed : Bool) :
    (init c stream closed).Inv bo stream (effectiveCap rxCap) := by
  obtain ⟨hd, hcap⟩ := Client.Decodes.make h
  exact ⟨[], rfl, ⟨[], [], hd⟩, hcap, rfl, by simp [init]⟩

theorem Inv.step {bo : ByteOrder} {stream : List UInt8} {cap : ℕ} {r : Reader}
    (h : r.Inv bo stream cap) (op : ReaderOp) : (r.step bo op).Inv bo stream cap := by
  obtain ⟨batches, hpolled, hr⟩ := h
  cases op with
  | read answers => exact ⟨batches, hpolled, (hr.read answers).1⟩
  | poll =>
    obtain ⟨batch, htext, hlen, hr'⟩ := hr.drainQueue
    refine ⟨batches ++ [batch], ?_, ?_⟩
    · simp [Reader.step, hpolled, htext, hlen]
    · rw [List.flatten_append, List.flatten_singleton]
      exact hr'
  | resume => exact ⟨batches, hpolled, hr.rxResume⟩

theorem inv_run {bo : ByteOrder} {fd : ℤ} {rxCap txCap : ℕ} {c : Client}
    (h : Client.make fd rxCap txCap = .ok c) (stream : List UInt8) (closed : Bool)
    (ops : List ReaderOp) :
    (ops.foldl (step bo) (init c stream closed)).Inv bo stream (effectiveCap rxCap) :=
  List.foldlRecOn ops (step bo) (inv_init h stream closed) fun _ hr op _ => hr.step op

/-- **Decoding is lossless and independent of the schedule.** Whatever was read, polled and
resumed in whatever order: the payloads returned by the polls and those still queued are the legal
payloads of the frames read in full, the discarded frames are the others, and behind the queue
stand the payload bytes of a legal frame that is not complete. -/
theorem decode_lossless (bo : ByteOrder) {fd : ℤ} {rxCap txCap : ℕ} {c : Client}
    (h : Client.make fd rxCap txCap = .ok c) (stream : List UInt8) (closed : Bool)
    (ops : List ReaderOp) :
    let r := ops.foldl (step bo) (init c stream closed)
    let b := r.client.rx
    r.peer.consumed ++ r.peer.inbox = stream ∧
      (∃ (batches : List (List (List UInt8))) (queued : List (List UInt8)),
        r.polled = batches.map (fun batch => (batch.length, splice batch)) ∧
        b.messages = queued.length ∧ b.data.take b.completeLen = kOpen :: sealed queued ∧
        batches.flatten ++ queued = legalPayloads (frames (wireHeader bo) r.peer.consumed)) ∧
      r.client.discardedFrames = illegalCount (frames (wireHeader bo) r.peer.consumed) ∧
      slice b.data b.completeLen (b.len - b.completeLen) =
        Client.unfinishedPayload bo (remainder (wireHeader bo) r.peer.consumed) := by
  intro r b
  obtain ⟨batches, hpolled, ⟨q, part, hq, ⟨done, cur, hS, hwf, hstage, hpay, hdisc⟩, -⟩, -,
    hstream, -⟩ : r.Inv bo stream _ := inv_run h stream closed ops
  have hframes : frames (wireHeader bo) r.peer.consumed = done := by
    rw [hS, frames_flatMap_append hwf hstage.unfinished]
  have hrest : remainder (wireHeader bo) r.peer.consumed = cur := by
    rw [hS, remainder_flatMap_append hwf hstage.unfinished]
  have hlen : b.len = b.completeLen + part.length := hq.len
  rw [hframes, hrest, hstage.unfinishedPayload]
  refine ⟨hstream, ⟨batches, q, hpolled, hq.messages, hq.take_completeLen, hpay.symm⟩, hdisc, ?_⟩
  rw [hlen, Nat.add_sub_cancel_left]
  exact hq.slice_eq

/-- A stream with an empty frame and a payload that is read in two halves around a poll. -/
theorem decode_lossless_split : ∃ c, Client.make 3 16 16 = .ok c ∧
    let ops := List.replicate 9 (.read [.deliver 0]) ++
      [.poll, .resume, .read [.errno .EINTR, .deliver 8], .poll]
    let r := ops.foldl (step .little) (init c [0, 0, 0, 0, 2, 0, 0, 0, 49, 50] true)
    r.polled = [(0, [kOpen, kClose]), (1, [kOpen, 49, 50, kClose])] ∧
      r.peer.consumed ++ r.peer.inbox = [0, 0, 0, 0, 2, 0, 0, 0, 49, 50] :=
  ⟨_, rfl, by decide, (decode_lossless .little (show Client.make 3 16 16 = .ok _ from rfl)
    [0, 0, 0, 0, 2, 0, 0, 0, 49, 50] true _).1⟩

/-- **The read path never leaves its buffers and never fakes the end of the stream.** Every
`::read` made so far was safe, every range of the RX buffer that was stored to, moved or offered to
`::read` lies inside it, and `Client::read` reports `eof` only when the peer has closed. -/
theorem read_path_safe (bo : ByteOrder) {fd : ℤ} {rxCap txCap : ℕ} {c : Client}
    (h : Client.make fd rxCap txCap = .ok c) (stream : List UInt8) (closed : Bool)
    (ops : List ReaderOp) :
    let r := ops.foldl (step bo) (init c stream closed)
    (∀ call ∈ r.peer.calls, call.Safe) ∧
      (∀ span ∈ r.client.rx.touched, span.off + span.len ≤ r.client.rx.capacity) ∧
      r.client.rx.data.length = r.client.rx.capacity ∧
      (r.client.rxState = .header → r.client.haveRead.toNat ≤ kHeaderLen) ∧
      (r.client.rxState ≠ .header → r.client.haveRead.toNat < r.client.msgLen.toNat) ∧
      ∀ answers, (r.client.read bo r.peer answers).result = .eof →
        (r.client.read bo r.peer answers).peer.closed = true ∧
          (r.client.read bo r.peer answers).peer.inbox = [] := by
  intro r
  obtain ⟨batches, -, hr⟩ : r.Inv bo stream _ := inv_run h stream closed ops
  obtain ⟨⟨q, part, hd⟩, -, -, hcalls⟩ := id hr
  obtain ⟨hq, ⟨done, cur, -, -, hstage, -, -⟩, -⟩ := hd
  refine ⟨hcalls, hq.touched, r.client.rx.size, fun hs => ?_, fun hs => ?_,
    fun answers => (hr.read answers).2⟩
  · cases hstage with
    | header _ hle => exact hle
    | payload _ hs' => exact absurd (hs.symm.trans hs') (by decide)
    | discard _ hs' => exact absurd (hs.symm.trans hs') (by decide)
  · cases hstage with
    | header hs' => exact absurd hs' hs
    | payload _ _ _ hlt => exact hlt
    | discard _ _ _ hlt => exact hlt

/-- The smallest RX buffer, in front of an oversized frame of which the peer sends only a part. -/
theorem read_path_safe_two : ∃ c, Client.make 3 2 5 = .ok c ∧
    let r := [.read (List.replicate 2 (.deliver 9)), .resume, .poll,
      .read [.deliver 9, .deliver 9]].foldl (step .big) (init c [255, 255, 255, 255, 7] true)
    ∀ call ∈ r.peer.calls, call.Safe :=
  ⟨_, rfl, (read_path_safe .big (show Client.make 3 2 5 = .ok _ from rfl)
    [255, 255, 255, 255, 7] true _).1⟩

end Reader

end KwinApi
