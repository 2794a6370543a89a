import KwinApi.Native.Host
import KwinApi.Proto.Ample
import KwinApi.Proto.TxBuffer

/-!
# The host between the browser and the daemon

Three pieces of code frame the same streams: the host, the decoder of the daemon and its TX queue.
They agree on every boundary.

## Main definitions

* `KwinApi.SamePayloads` — two streams the decoder reads the same payloads from

## Main results

* `KwinApi.host_transparent` — the host against its own streams, against `Client::read` and against
  `TxBuffer::push`
-/

namespace KwinApi

open Framing

variable {bo : ByteOrder}

/-! ### The decoder of the daemon -/

/-- Clients that have taken all of one stream and all of the other have delivered the same payloads,
whatever their buffers are and however they were read and polled; and with room enough for a stream
every run can be continued until all of it is taken. -/
def SamePayloads (bo : ByteOrder) (s t : List UInt8) : Prop :=
  (∀ (fd fd' : ℤ) (rxCap rxCap' txCap txCap' : ℕ) (c c' : Client) (closed closed' : Bool)
      (ops ops' : List ReaderOp),
    Client.make fd rxCap txCap = .ok c → Client.make fd' rxCap' txCap' = .ok c' →
    (ops.foldl (Reader.step bo) (.init c s closed)).peer.inbox = [] →
    (ops'.foldl (Reader.step bo) (.init c' t closed')).peer.inbox = [] →
    ∃ payloads, (ops.foldl (Reader.step bo) (.init c s closed)).Delivers payloads ∧
      (ops'.foldl (Reader.step bo) (.init c' t closed')).Delivers payloads) ∧
  ∀ stream ∈ [s, t], ∀ (fd : ℤ) (rxCap txCap : ℕ) (c : Client) (closed : Bool)
      (ops : List ReaderOp), 0 ≤ fd → Client.make fd rxCap txCap = .ok c →
    stream.length + kMaxMessageLen + 2 ≤ c.rx.capacity →
    ∃ more : List ReaderOp,
      ((ops ++ more).foldl (Reader.step bo) (.init c stream closed)).peer.inbox = []

theorem Client.open_make {fd : ℤ} {rxCap txCap : ℕ} {c : Client} (hfd : 0 ≤ fd)
    (h : Client.make fd rxCap txCap = .ok c) : c.Open := by
  obtain ⟨rx, tx, -, -, rfl⟩ := Client.eq_of_make h
  exact ⟨hfd, rfl, Client.ready_of_haveRead rfl⟩

/-- With room enough, every run of a reader can be continued to the end of the stream. -/
theorem Reader.exists_drained_run {fd : ℤ} {rxCap txCap : ℕ} {c : Client} (hfd : 0 ≤ fd)
    (h : Client.make fd rxCap txCap = .ok c) {stream : List UInt8}
    (hcap : stream.length + kMaxMessageLen + 2 ≤ c.rx.capacity) (closed : Bool)
    (ops : List ReaderOp) : ∃ more : List ReaderOp,
      ((ops ++ more).foldl (Reader.step bo) (.init c stream closed)).peer.inbox = [] := by
  rw [(@Client.Decodes.make bo _ _ _ _ h).2] at hcap
  have hinv := @Reader.inv_run bo _ _ _ _ h stream closed ops
  have hopen : (ops.foldl (Reader.step bo) (.init c stream closed)).client.Open := by
    refine (List.foldlRecOn ops (Reader.step bo) (motive := fun r => r.client.Open ∧
      r.Inv bo stream (effectiveCap rxCap)) ?_ ?_).1
    · exact ⟨Client.open_make hfd h, Reader.inv_init h stream closed⟩
    · exact fun r hr op _ => ⟨Reader.open_step hr.2 hcap hr.1 op, hr.2.step op⟩
  obtain ⟨more, hmore⟩ := Reader.exists_drained hinv hcap hopen
  exact ⟨more, by rwa [List.foldl_append]⟩

theorem samePayloads_of_frames {s t : List UInt8}
    (h : frames (wireHeader bo) s = frames (wireHeader bo) t) : SamePayloads bo s t := by
  constructor
  · intro fd fd' rxCap rxCap' txCap txCap' c c' closed closed' ops ops' hc hc' hin hin'
    have hinv := @Reader.inv_run bo _ _ _ _ hc s closed ops
    have hinv' := @Reader.inv_run bo _ _ _ _ hc' t closed' ops'
    have hs := Reader.delivers hinv
    have ht := Reader.delivers hinv'
    rw [Reader.consumed_of_drained hinv hin] at hs
    rw [Reader.consumed_of_drained hinv' hin', ← h] at ht
    exact ⟨_, hs, ht⟩
  · intro stream _ fd rxCap txCap c closed ops hfd hc hcap
    exact Reader.exists_drained_run hfd hc hcap closed ops

/-- Without a frame that is refused, the frames that are let through are those of the stream. -/
theorem Lane.Bridged.frames_eq {l : Lane} (h : l.Bridged bo)
    (hnot : ¬ Oversized bo l.received) :
    Framing.frames (wireHeader bo) l.received = Framing.frames (wireHeader bo) l.written := by
  have hlarge := mt h.oversized_iff.mpr hnot
  obtain ⟨⟨fs, hreceived, hfs, hwritten⟩, hbuf⟩ := h
  have hwf : ∀ f ∈ fs, f.WellFormed (wireHeader bo) := fun f hf => (hfs f hf).1
  have hnil : Unfinished (wireHeader bo) [] := unfinished_of_length_lt (show 0 < 4 by decide)
  have hall := frames_flatMap_append hwf hnil
  rw [List.append_nil] at hall
  rw [hreceived, hwritten, frames_flatMap_append hwf (hbuf.resolve_right hlarge), hall]

/-! ### The TX queue of the daemon -/

/-- The frame of a payload. -/
def payloadFrame (bo : ByteOrder) (payload : List UInt8) : Frame UInt8 :=
  ⟨bo.encode kHeaderLen payload.length, payload⟩

theorem allowed_payloadFrame {payload : List UInt8} (h : payload.length ≤ kMaxMessageLen) :
    Allowed bo (payloadFrame bo payload) := by
  have hlt : payload.length < 256 ^ kHeaderLen :=
    Nat.lt_of_le_of_lt h (show kMaxMessageLen < 256 ^ kHeaderLen by decide)
  refine ⟨⟨ByteOrder.length_encode bo _ _, ?_⟩, h⟩
  exact (ByteOrder.decode_encode bo hlt).symm

theorem flatMap_frameBytes (payloads : List (List UInt8)) :
    payloads.flatMap (frameBytes bo) =
      (payloads.map (payloadFrame bo)).flatMap Frame.symbols := by
  rw [List.flatMap_map]
  rfl

/-- A push that is accepted is not too long. -/
theorem TxLink.accepted_le {t : TxBuffer} (ops : List TxOp) :
    ∀ p ∈ (ops.foldl (TxLink.step bo) (.init t)).accepted, p.length ≤ kMaxMessageLen := by
  refine List.foldlRecOn ops (TxLink.step bo)
    (motive := fun s => ∀ p ∈ s.accepted, p.length ≤ kMaxMessageLen) ?_ ?_
  · intro p hp
    exact absurd hp List.not_mem_nil
  · intro s hs op _
    cases op with
    | push msg =>
      simp only [TxLink.step]
      rcases Nat.lt_or_ge kMaxMessageLen msg.length with hlong | hmax
      · rw [TxBuffer.push_of_too_long hlong]
        exact hs
      · split
        · exact List.forall_mem_append.mpr ⟨hs, List.forall_mem_singleton.mpr hmax⟩
        · exact hs
    | flush answers => exact hs

/-- A direction that has read a part of a stream of whole frames has written the first of them, and
refused none. -/
theorem Lane.Bridged.take_frames {l : Lane} (h : l.Bridged bo) {payloads : List (List UInt8)}
    (hle : ∀ p ∈ payloads, p.length ≤ kMaxMessageLen)
    (hpre : l.received <+: payloads.flatMap (frameBytes bo)) :
    ¬ Oversized bo l.received ∧
      (∃ k, l.written = (payloads.take k).flatMap (frameBytes bo)) ∧
      (l.received = payloads.flatMap (frameBytes bo) →
        l.written = payloads.flatMap (frameBytes bo)) := by
  have hallowed : ∀ f ∈ payloads.map (payloadFrame bo), Allowed bo f := by
    intro f hf
    obtain ⟨p, hp, rfl⟩ := List.mem_map.mp hf
    exact allowed_payloadFrame (hle p hp)
  have hwf : ∀ f ∈ payloads.map (payloadFrame bo), f.WellFormed (wireHeader bo) := fun f hf =>
    (hallowed f hf).1
  have hnil : Unfinished (wireHeader bo) [] := unfinished_of_length_lt (show 0 < 4 by decide)
  have hsmall : ¬ TooLarge bo [] := fun h => absurd h.1 (show ¬ 4 ≤ 0 by decide)
  have hwhole : payloads.flatMap (frameBytes bo) =
      (payloads.map (payloadFrame bo)).flatMap Frame.symbols ++ [] := by
    rw [List.append_nil, flatMap_frameBytes]
  obtain ⟨rest, hrest⟩ := hpre
  have hnot : ¬ Oversized bo l.received := by
    intro hover
    have hmore := hover.append rest
    rw [hrest, hwhole] at hmore
    exact not_oversized_append hallowed hnil hsmall hmore
  have hlarge := mt h.oversized_iff.mpr hnot
  obtain ⟨⟨fs, hreceived, hfs, hwritten⟩, hbuf⟩ := id h
  have hun := hbuf.resolve_right hlarge
  have hfront := frames_prefix (fun f hf => (hfs f hf).1) hun rest
  rw [← hreceived, hrest, hwhole, frames_flatMap_append hwf hnil, hreceived,
    frames_flatMap_append (fun f hf => (hfs f hf).1) hun] at hfront
  refine ⟨hnot, ⟨fs.length, ?_⟩, ?_⟩
  · have heq := List.prefix_iff_eq_take.mp hfront
    rw [hwritten]
    generalize fs.length = k at heq ⊢
    rw [heq, ← List.map_take, ← flatMap_frameBytes]
  · intro hall
    have heq := h.written_eq
    rw [hall, hwhole, forwardable_append hallowed (Or.inl hnil), ← flatMap_frameBytes] at heq
    exact heq

/-! ### The three together -/

/-- **The host is transparent.** In every run with both sides open it has written, for either side,
the frames that are let through of what it received there, which is all there was until it stopped;
it stops only with exit code 1, and does when a header that announces too much was received in
full. Without such a header the decoder of the daemon reads the same payloads from what was written
as from what was received. What comes from the TX queue of the daemon is never refused, and its
payloads are forwarded once, in order. -/
theorem host_transparent (bo : ByteOrder) (es : List HostEvent) (hopen : ∀ e ∈ es, e.Open) :
    let m := Host.run bo es
    (∀ side, (m.lanes side).written =
        (forwardable bo (m.lanes side).received).flatMap Frame.symbols ∧
      (m.exit = none → (m.lanes side).received = es.flatMap (HostEvent.bytes side)) ∧
      (¬ Oversized bo (m.lanes side).received →
        SamePayloads bo (m.lanes side).received (m.lanes side).written)) ∧
      (m.exit = some 1 ↔ ∃ side, Oversized bo (m.lanes side).received) ∧
      (m.exit = none ∨ m.exit = some 1) ∧
      ∀ (txCap : ℕ) (t : TxBuffer) (ops : List TxOp), TxBuffer.make txCap = .ok t →
        let s := ops.foldl (TxLink.step bo) (.init t)
        (m.lanes .daemon).received <+: s.wire →
          ¬ Oversized bo (m.lanes .daemon).received ∧
          (∃ k, (m.lanes .daemon).written = (s.accepted.take k).flatMap (frameBytes bo)) ∧
          ((m.lanes .daemon).received = s.accepted.flatMap (frameBytes bo) →
            (m.lanes .daemon).written = s.accepted.flatMap (frameBytes bo)) := by
  intro m
  obtain ⟨hinv, hbytes⟩ := @Host.inv_run bo es hopen
  obtain ⟨hexit, hcodes⟩ := hinv.exit_iff
  refine ⟨fun side => ⟨(hinv.bridged side).written_eq, fun hexit => hbytes hexit side, ?_⟩,
    hexit, hcodes, ?_⟩
  · intro hnot
    exact samePayloads_of_frames ((hinv.bridged side).frames_eq hnot)
  · intro txCap t ops ht s hpre
    have hfifo : s.wire ++ s.tx.queuedBytes = s.accepted.flatMap (frameBytes bo) :=
      (TxLink.refines_run ht ops).fifo
    refine (hinv.bridged .daemon).take_frames (TxLink.accepted_le ops) ?_
    rw [← hfifo]
    exact hpre.trans (List.prefix_append _ _)

/-- Two frames of the TX queue, of which the second arrives in part. -/
theorem host_transparent_one :
    let es := [HostEvent.read .daemon [1, 0, 0, 0, 7, 1, 0]]
    let ops := [TxOp.push [7], .push [8], .flush [.accept 10]]
    ∃ t, TxBuffer.make 16 = .ok t ∧
      let s := ops.foldl (TxLink.step .little) (.init t)
      ∃ k, ((Host.run .little es).lanes .daemon).written =
        (s.accepted.take k).flatMap (frameBytes .little) := by
  intro es ops
  refine ⟨_, rfl, ?_⟩
  have hopen : ∀ e ∈ es, e.Open := List.forall_mem_singleton.mpr (show _ ≠ [] by decide)
  obtain ⟨-, -, -, htx⟩ := host_transparent .little es hopen
  have hreceived : ((Host.run .little es).lanes .daemon).received = [1, 0, 0, 0, 7, 1, 0] := rfl
  refine (htx 16 _ ops rfl ?_).2.1
  rw [hreceived]
  exact ⟨[0, 0, 8], by decide +kernel⟩

end KwinApi
