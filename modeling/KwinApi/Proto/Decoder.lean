import KwinApi.Proto.Client

/-!
# The invariant of the frame decoder

What the decoder has read is a sequence of whole frames followed by an unfinished one, and the
stage of the decoder says how far the unfinished one has come: `Stage`. The payloads of the whole
frames have been handed over or are queued, and the bytes of an unfinished legal payload stand
behind the queue: `Decodes`. Together with the room that was checked when the header was complete,
this is preserved by everything one `::read` can do.

## Main definitions

* `KwinApi.legalPayloads`, `illegalCount` — what a list of frames is worth to the decoder
* `KwinApi.Client.Stage` — the stage of the decoder against the unfinished frame
* `KwinApi.Client.Decodes` — the decoder against everything it has read
* `KwinApi.ReadCall.Safe` — a `::read` stays inside its destination

## Main results

* `KwinApi.Client.Decodes.headerDone` — the transition decision
* `KwinApi.Client.Decodes.onBytes` — the bytes of one successful `::read`
* `KwinApi.Client.Decodes.safe` — every `::read` the decoder makes is safe
-/

namespace KwinApi

open Framing

/-! ### Frames -/

/-- The payloads of the frames whose length is legal. -/
def legalPayloads (fs : List (Frame UInt8)) : List (List UInt8) :=
  (fs.filter fun f => Legal f.payload.length).map Frame.payload

/-- The number of frames whose length is not legal. -/
def illegalCount (fs : List (Frame UInt8)) : ℕ := fs.countP fun f => ¬ Legal f.payload.length

theorem legalPayloads_append_of_legal {fs : List (Frame UInt8)} {f : Frame UInt8}
    (h : Legal f.payload.length) : legalPayloads (fs ++ [f]) = legalPayloads fs ++ [f.payload] := by
  simp [legalPayloads, h]

theorem legalPayloads_append_of_not {fs : List (Frame UInt8)} {f : Frame UInt8}
    (h : ¬ Legal f.payload.length) : legalPayloads (fs ++ [f]) = legalPayloads fs := by
  simp [legalPayloads, h]

theorem illegalCount_append_of_legal {fs : List (Frame UInt8)} {f : Frame UInt8}
    (h : Legal f.payload.length) : illegalCount (fs ++ [f]) = illegalCount fs := by
  simp [illegalCount, h]

theorem illegalCount_append_of_not {fs : List (Frame UInt8)} {f : Frame UInt8}
    (h : ¬ Legal f.payload.length) : illegalCount (fs ++ [f]) = illegalCount fs + 1 := by
  simp [illegalCount, h]

/-! ### Unsigned arithmetic -/

theorem toNat_add_ofNat {a : UInt32} {n : ℕ} (h : a.toNat + n < 2 ^ 32) :
    (a + UInt32.ofNat n).toNat = a.toNat + n := by
  rw [UInt32.toNat_add, UInt32.toNat_ofNat', Nat.add_mod_mod, Nat.mod_eq_of_lt h]

theorem toNat_sub_of_le {a b : UInt32} (h : b.toNat ≤ a.toNat) :
    (a - b).toNat = a.toNat - b.toNat :=
  UInt32.toNat_sub_of_le a b (UInt32.le_iff_toNat_le.mpr h)

namespace Client

/-! ### The stage of the decoder -/

/-- The memory of `msg_len_`. -/
def headerBytes (bo : ByteOrder) (c : Client) : List UInt8 := bo.encode kHeaderLen c.msgLen.toNat

@[simp] theorem length_headerBytes (bo : ByteOrder) (c : Client) :
    (c.headerBytes bo).length = kHeaderLen := by
  simp [headerBytes]

theorem decode_headerBytes (bo : ByteOrder) (c : Client) :
    bo.decode (c.headerBytes bo) = c.msgLen.toNat :=
  bo.decode_encode (lt_of_lt_of_le c.msgLen.toNat_lt (by decide))

/-- The decoder has read `cur` of an unfinished frame, of which `part` are payload bytes that it
keeps. In the payload stage the buffer has room for what is missing and the separator. -/
inductive Stage (bo : ByteOrder) (c : Client) : List UInt8 → List UInt8 → Prop
  | header (hs : c.rxState = .header) (hle : c.haveRead.toNat ≤ kHeaderLen)
      (hlegal : c.haveRead.toNat = kHeaderLen → Legal c.msgLen.toNat) :
      Stage bo c ((c.headerBytes bo).take c.haveRead.toNat) []
  | payload (part : List UInt8) (hs : c.rxState = .payload)
      (hread : part.length = c.haveRead.toNat) (hlt : c.haveRead.toNat < c.msgLen.toNat)
      (hlegal : Legal c.msgLen.toNat)
      (hroom : c.rx.len + (c.msgLen.toNat - c.haveRead.toNat) + 1 ≤ c.rx.capacity) :
      Stage bo c (c.headerBytes bo ++ part) part
  | discard (junk : List UInt8) (hs : c.rxState = .discardOversized)
      (hread : junk.length = c.haveRead.toNat) (hlt : c.haveRead.toNat < c.msgLen.toNat)
      (hbig : kMaxMessageLen < c.msgLen.toNat) :
      Stage bo c (c.headerBytes bo ++ junk) []

/-- What the decoder has of the current frame is never a whole frame. -/
theorem Stage.unfinished {bo : ByteOrder} {c : Client} {cur part : List UInt8}
    (h : c.Stage bo cur part) : Unfinished (wireHeader bo) cur := by
  have hannounced : (wireHeader bo).announced (c.headerBytes bo) = c.msgLen.toNat :=
    decode_headerBytes bo c
  cases h with
  | header hs hle hlegal =>
    rcases Nat.lt_or_eq_of_le hle with hlt | heq
    · apply unfinished_of_length_lt
      rw [List.length_take, length_headerBytes]
      show _ < kHeaderLen
      omega
    · have hpos : 1 ≤ c.msgLen.toNat := (hlegal heq).1
      rw [heq, List.take_of_length_le (by rw [length_headerBytes]),
        ← List.append_nil (c.headerBytes bo)]
      exact unfinished_append (length_headerBytes bo c) (by rw [hannounced]; exact hpos)
  | payload part hs hread hlt =>
    exact unfinished_append (length_headerBytes bo c) (by rw [hannounced]; omega)
  | discard junk hs hread hlt =>
    exact unfinished_append (length_headerBytes bo c) (by rw [hannounced]; omega)

/-- The payload bytes of a legal frame that has begun: what stands behind its header. -/
def unfinishedPayload (bo : ByteOrder) (cur : List UInt8) : List UInt8 :=
  if kHeaderLen ≤ cur.length ∧ Legal (bo.decode (cur.take kHeaderLen)) then cur.drop kHeaderLen
  else []

theorem Stage.unfinishedPayload {bo : ByteOrder} {c : Client} {cur part : List UInt8}
    (h : c.Stage bo cur part) : unfinishedPayload bo cur = part := by
  have htake (bs : List UInt8) : (c.headerBytes bo ++ bs).take kHeaderLen = c.headerBytes bo :=
    List.take_left' (length_headerBytes bo c)
  have hdrop (bs : List UInt8) : (c.headerBytes bo ++ bs).drop kHeaderLen = bs :=
    List.drop_left' (length_headerBytes bo c)
  cases h with
  | header hs hle hlegal =>
    have hlen : ((c.headerBytes bo).take c.haveRead.toNat).length ≤ kHeaderLen := by
      rw [List.length_take, length_headerBytes]
      omega
    rw [Client.unfinishedPayload]
    split_ifs
    · exact List.drop_of_length_le hlen
    · rfl
  | payload part hs hread hlt hlegal =>
    rw [Client.unfinishedPayload, htake, hdrop, decode_headerBytes, if_pos]
    exact ⟨by rw [List.length_append, length_headerBytes]; omega, hlegal⟩
  | discard junk hs hread hlt hbig =>
    rw [Client.unfinishedPayload, htake, decode_headerBytes, if_neg]
    exact fun hl => absurd hl.2.2 (by omega)

/-- The stage depends on the counters, and on a buffer in which the room has not shrunk. -/
theorem Stage.congr {bo : ByteOrder} {c c' : Client} {cur part : List UInt8}
    (h : c.Stage bo cur part) (hs : c'.rxState = c.rxState) (hmsg : c'.msgLen = c.msgLen)
    (hhave : c'.haveRead = c.haveRead) (hcap : c'.rx.capacity = c.rx.capacity)
    (hlen : c'.rx.len ≤ c.rx.len) : c'.Stage bo cur part := by
  have hheader : c'.headerBytes bo = c.headerBytes bo := by rw [headerBytes, headerBytes, hmsg]
  cases h with
  | header hst hle hlegal =>
    rw [← hheader, ← hhave]
    rw [← hhave] at hle hlegal
    rw [← hmsg] at hlegal
    exact .header (hs.trans hst) hle hlegal
  | payload part hst hread hlt hlegal hroom =>
    rw [← hheader]
    rw [← hhave] at hread hlt hroom
    rw [← hmsg] at hlt hlegal hroom
    exact .payload part (hs.trans hst) hread hlt hlegal (by omega)
  | discard junk hst hread hlt hbig =>
    rw [← hheader]
    rw [← hhave] at hread hlt
    rw [← hmsg] at hlt hbig
    exact .discard junk (hs.trans hst) hread hlt hbig

/-! ### The decoder against the stream -/

/-- The decoder has read `S`: whole frames, of which the legal payloads were `handed` over or are
queued as `q`, then an unfinished frame with the payload bytes `part`. -/
structure Decodes (bo : ByteOrder) (c : Client) (S : List UInt8) (handed q : List (List UInt8))
    (part : List UInt8) : Prop where
  holds : c.rx.Holds q part
  stream : ∃ done cur, S = done.flatMap Frame.symbols ++ cur ∧
    (∀ f ∈ done, f.WellFormed (wireHeader bo)) ∧ c.Stage bo cur part ∧
    legalPayloads done = handed ++ q ∧ c.discardedFrames = illegalCount done
  paused : c.rxPaused = true → c.rxState = .header ∧ c.haveRead.toNat = kHeaderLen

variable {bo : ByteOrder} {c : Client} {S : List UInt8} {handed q : List (List UInt8)}
  {part : List UInt8}

theorem legalPayloads_header (hlegal : Legal c.msgLen.toNat)
    (hlen : part.length = c.msgLen.toNat) :
    (⟨c.headerBytes bo, part⟩ : Frame UInt8).WellFormed (wireHeader bo) ∧ Legal part.length :=
  ⟨⟨length_headerBytes bo c, hlen.trans (decode_headerBytes bo c).symm⟩, hlen ▸ hlegal⟩

/-- The decoder is not at a complete header, so it has something to ask `::read` for. -/
def Ready (c : Client) : Prop := ¬ (c.rxState = .header ∧ kHeaderLen ≤ c.haveRead.toNat)

/-- **The transition decision** keeps the decoder in step with the stream: an empty frame is
complete, an oversized one is begun, a legal one is begun when it fits and left alone when not. -/
theorem Decodes.headerDone {done : List (Frame UInt8)} (hq : c.rx.Holds q [])
    (hwf : ∀ f ∈ done, f.WellFormed (wireHeader bo)) (hs : c.rxState = .header)
    (hread : c.haveRead.toNat = kHeaderLen) (hpay : legalPayloads done = handed ++ q)
    (hdisc : c.discardedFrames = illegalCount done) (hrun : c.rxPaused = false) :
    Decodes bo c.headerDone.client (done.flatMap Frame.symbols ++ c.headerBytes bo) handed q
      [] := by
  rw [Client.headerDone]
  split_ifs with h0 hbig hfit
  · have hillegal : ¬ Legal ([] : List UInt8).length := by simp [Legal]
    refine ⟨hq, ⟨done ++ [⟨c.headerBytes bo, []⟩], [], ?_, ?_, ?_, ?_, ?_⟩, ?_⟩
    · simp [Frame.symbols]
    · intro f hf
      rcases List.mem_append.mp hf with hf | hf
      · exact hwf f hf
      · rw [List.mem_singleton.mp hf]
        refine ⟨length_headerBytes bo c, ?_⟩
        show 0 = bo.decode (c.headerBytes bo)
        rw [decode_headerBytes, h0]
        rfl
    · exact Stage.header hs (by simp [Turn.client]) (by simp [Turn.client, kHeaderLen])
    · rw [legalPayloads_append_of_not hillegal, hpay]
    · rw [illegalCount_append_of_not hillegal, ← hdisc]
      rfl
    · simp [Turn.client, hrun]
  · refine ⟨hq, ⟨done, c.headerBytes bo ++ [], by simp, hwf, ?_, hpay, hdisc⟩, ?_⟩
    · exact Stage.discard [] rfl rfl (Nat.lt_of_le_of_lt (Nat.zero_le _) hbig) hbig
    · simp [Turn.client, hrun]
  · have hpos : 0 < c.msgLen.toNat := Nat.pos_of_ne_zero fun h => h0 (UInt32.toNat_inj.mp h)
    have hroom : c.rx.len + c.msgLen.toNat + 1 ≤ c.rx.capacity := by
      simpa [RxBuffer.canFit] using hfit
    refine ⟨hq, ⟨done, c.headerBytes bo ++ [], by simp, hwf, ?_, hpay, hdisc⟩, ?_⟩
    · exact Stage.payload [] rfl rfl hpos ⟨hpos, Nat.not_lt.mp hbig⟩ hroom
    · simp [Turn.client, hrun]
  · have hpos : 0 < c.msgLen.toNat := Nat.pos_of_ne_zero fun h => h0 (UInt32.toNat_inj.mp h)
    refine ⟨hq, ⟨done, (c.headerBytes bo).take c.haveRead.toNat, ?_, hwf, ?_, hpay, hdisc⟩, ?_⟩
    · rw [hread, List.take_of_length_le (by rw [length_headerBytes])]
    · exact Stage.header hs (by rw [Turn.client, hread])
        fun _ => ⟨hpos, Nat.not_lt.mp hbig⟩
    · exact fun _ => ⟨hs, hread⟩

/-- Header bytes extend the ones already there. -/
theorem headerBytes_storeHeader {bs : List UInt8}
    (hfit : c.haveRead.toNat + bs.length ≤ kHeaderLen) :
    ((c.storeHeader bo bs).headerBytes bo).take (c.haveRead.toNat + bs.length) =
      (c.headerBytes bo).take c.haveRead.toNat ++ bs := by
  have hfit' : c.haveRead.toNat + bs.length ≤ (c.headerBytes bo).length := by
    rw [length_headerBytes]
    exact hfit
  have hlen : (Region.blit (c.headerBytes bo) c.haveRead.toNat bs).length = kHeaderLen := by simp
  have hlt := bo.decode_lt (Region.blit (c.headerBytes bo) c.haveRead.toNat bs)
  have hbytes : (c.storeHeader bo bs).headerBytes bo =
      Region.blit (c.headerBytes bo) c.haveRead.toNat bs := by
    show bo.encode kHeaderLen (UInt32.ofNat (bo.decode _)).toNat = _
    rw [UInt32.toNat_ofNat', Nat.mod_eq_of_lt (by rw [hlen] at hlt; exact hlt)]
    exact bo.encode_decode hlen
  rw [hbytes, Region.take_blit hfit']

theorem haveRead_storeHeader {bs : List UInt8} (hfit : c.haveRead.toNat + bs.length ≤ kHeaderLen) :
    (c.storeHeader bo bs).haveRead.toNat = c.haveRead.toNat + bs.length :=
  toNat_add_ofNat (lt_of_le_of_lt hfit (by decide))

/-- A paused decoder is at a complete header. -/
theorem Decodes.not_paused (h : c.Decodes bo S handed q part) (hready : c.Ready) :
    c.rxPaused = false := by
  by_contra hp
  obtain ⟨hs, hread⟩ := h.paused (by simpa using hp)
  exact hready ⟨hs, by rw [hread]⟩

/-- Bytes read in the header stage. -/
theorem Decodes.onBytes_header (h : c.Decodes bo S handed q part) (hready : c.Ready)
    {bs : List UInt8} (hlen : bs.length ≤ c.want) (hs : c.rxState = .header) :
    ∃ q' part', (c.onBytes bo bs).client.Decodes bo (S ++ bs) handed q' part' := by
  obtain ⟨hq, ⟨done, cur, rfl, hwf, hstage, hpay, hdisc⟩, hpaused⟩ := id h
  have hrun := h.not_paused hready
  cases hstage with
  | payload _ hs' => exact absurd (hs.symm.trans hs') (by decide)
  | discard _ hs' => exact absurd (hs.symm.trans hs') (by decide)
  | header _ hle hlegal =>
    have hfit : c.haveRead.toNat + bs.length ≤ kHeaderLen := by
      rw [want, hs] at hlen
      simp only at hlen
      omega
    have hread : (c.storeHeader bo bs).haveRead.toNat = c.haveRead.toNat + bs.length :=
      haveRead_storeHeader hfit
    refine ⟨q, [], ?_⟩
    rw [onBytes, hs]
    simp only
    split_ifs with hpart
    · refine ⟨hq, ⟨done, _, ?_, hwf, Stage.header hs hpart.le fun heq => ?_, hpay, hdisc⟩, ?_⟩
      · show _ = _ ++
          ((c.storeHeader bo bs).headerBytes bo).take (c.storeHeader bo bs).haveRead.toNat
        rw [hread, headerBytes_storeHeader hfit, List.append_assoc]
      · exact absurd heq hpart.ne
      · exact fun hp => absurd (hrun.symm.trans hp) (by decide)
    · have hfull : (c.storeHeader bo bs).haveRead.toNat = kHeaderLen := by omega
      have hcur := @headerBytes_storeHeader bo c bs hfit
      rw [← hread, hfull, List.take_of_length_le (by rw [length_headerBytes])] at hcur
      rw [List.append_assoc, ← hcur]
      exact Decodes.headerDone hq hwf hs hfull hpay hdisc hrun

/-- Bytes read in the payload stage. -/
theorem Decodes.onBytes_payload (h : c.Decodes bo S handed q part) {bs : List UInt8}
    (hlen : bs.length ≤ c.want) (hs : c.rxState = .payload) (hrun : c.rxPaused = false) :
    ∃ q' part', (c.onBytes bo bs).client.Decodes bo (S ++ bs) handed q' part' := by
  obtain ⟨hq, ⟨done, cur, rfl, hwf, hstage, hpay, hdisc⟩, -⟩ := h
  cases hstage with
  | header hs' => exact absurd (hs.symm.trans hs') (by decide)
  | discard _ hs' => exact absurd (hs.symm.trans hs') (by decide)
  | payload _ _ hread hlt hlegal hroom =>
    have hwant : bs.length ≤ c.msgLen.toNat - c.haveRead.toNat := by
      rwa [want, hs, toNat_sub_of_le hlt.le] at hlen
    have hsum : (c.haveRead + UInt32.ofNat bs.length).toNat = c.haveRead.toNat + bs.length :=
      toNat_add_ofNat (lt_of_le_of_lt (by omega) c.msgLen.toNat_lt)
    have hheld := hq.receive (show c.rx.len + bs.length ≤ c.rx.capacity by omega)
    have hpart : (part ++ bs).length = c.haveRead.toNat + bs.length := by
      rw [List.length_append, hread]
    rw [onBytes, hs]
    simp only
    split_ifs with hdone
    · have hfull : (part ++ bs).length = c.msgLen.toNat := by
        rw [hpart, ← hsum]
        exact congrArg UInt32.toNat hdone
      obtain ⟨hframe, hl⟩ := @legalPayloads_header bo c _ hlegal hfull
      have hlast : (c.storePayload bs).rx.len < (c.storePayload bs).rx.capacity := by
        show c.rx.len + bs.length < c.rx.capacity
        omega
      refine ⟨q ++ [part ++ bs], [], hheld.messageComplete hlast,
        ⟨done ++ [⟨c.headerBytes bo, part ++ bs⟩], [], ?_, ?_, ?_, ?_, ?_⟩, ?_⟩
      · simp [Frame.symbols, List.append_assoc]
      · intro f hf
        rcases List.mem_append.mp hf with hf | hf
        · exact hwf f hf
        · rwa [List.mem_singleton.mp hf]
      · exact Stage.header rfl (by simp [Turn.client]) (by simp [Turn.client, kHeaderLen])
      · rw [legalPayloads_append_of_legal hl, hpay, List.append_assoc]
      · rw [illegalCount_append_of_legal hl, ← hdisc]
        rfl
      · exact fun hp => absurd (hrun.symm.trans hp) (by decide)
    · have hne : c.haveRead.toNat + bs.length ≠ c.msgLen.toNat := fun heq =>
        hdone (UInt32.toNat_inj.mp (hsum.trans heq))
      refine ⟨q, part ++ bs, hheld, ⟨done, c.headerBytes bo ++ (part ++ bs), ?_, hwf, ?_, hpay,
        hdisc⟩, ?_⟩
      · simp [List.append_assoc]
      · refine Stage.payload (part ++ bs) hs (hpart.trans hsum.symm) ?_ hlegal ?_
        · show (c.haveRead + UInt32.ofNat bs.length).toNat < c.msgLen.toNat
          omega
        · show c.rx.len + bs.length +
            (c.msgLen.toNat - (c.haveRead + UInt32.ofNat bs.length).toNat) + 1 ≤ c.rx.capacity
          omega
      · exact fun hp => absurd (hrun.symm.trans hp) (by decide)

/-- Bytes read in the discard stage. -/
theorem Decodes.onBytes_discard (h : c.Decodes bo S handed q part) {bs : List UInt8}
    (hlen : bs.length ≤ c.want) (hs : c.rxState = .discardOversized) (hrun : c.rxPaused = false) :
    ∃ q' part', (c.onBytes bo bs).client.Decodes bo (S ++ bs) handed q' part' := by
  obtain ⟨hq, ⟨done, cur, rfl, hwf, hstage, hpay, hdisc⟩, -⟩ := h
  cases hstage with
  | header hs' => exact absurd (hs.symm.trans hs') (by decide)
  | payload _ hs' => exact absurd (hs.symm.trans hs') (by decide)
  | discard junk _ hread hlt hbig =>
    have hwant : bs.length ≤ c.msgLen.toNat - c.haveRead.toNat := by
      rw [want, hs] at hlen
      simp only [toNat_sub_of_le hlt.le] at hlen
      omega
    have hsum : (c.haveRead + UInt32.ofNat bs.length).toNat = c.haveRead.toNat + bs.length :=
      toNat_add_ofNat (lt_of_le_of_lt (by omega) c.msgLen.toNat_lt)
    have hjunk : (junk ++ bs).length = c.haveRead.toNat + bs.length := by
      rw [List.length_append, hread]
    rw [onBytes, hs]
    simp only
    split_ifs with hdone
    · have hfull : (junk ++ bs).length = c.msgLen.toNat := by
        rw [hjunk, ← hsum]
        exact congrArg UInt32.toNat hdone
      have hillegal : ¬ Legal (junk ++ bs).length := fun hl => by
        have := hl.2
        omega
      refine ⟨q, [], hq, ⟨done ++ [⟨c.headerBytes bo, junk ++ bs⟩], [], ?_, ?_, ?_, ?_, ?_⟩, ?_⟩
      · simp [Frame.symbols, List.append_assoc]
      · intro f hf
        rcases List.mem_append.mp hf with hf | hf
        · exact hwf f hf
        · rw [List.mem_singleton.mp hf]
          exact ⟨length_headerBytes bo c, hfull.trans (decode_headerBytes bo c).symm⟩
      · exact Stage.header rfl (by simp [Turn.client]) (by simp [Turn.client, kHeaderLen])
      · rw [legalPayloads_append_of_not hillegal, hpay]
      · rw [illegalCount_append_of_not hillegal, ← hdisc]
        rfl
      · exact fun hp => absurd (hrun.symm.trans hp) (by decide)
    · have hne : c.haveRead.toNat + bs.length ≠ c.msgLen.toNat := fun heq =>
        hdone (UInt32.toNat_inj.mp (hsum.trans heq))
      refine ⟨q, [], hq, ⟨done, c.headerBytes bo ++ (junk ++ bs), ?_, hwf, ?_, hpay, hdisc⟩, ?_⟩
      · simp [List.append_assoc]
      · refine Stage.discard (junk ++ bs) rfl (hjunk.trans hsum.symm) ?_ hbig
        show (c.haveRead + UInt32.ofNat bs.length).toNat < c.msgLen.toNat
        omega
      · exact fun hp => absurd (hrun.symm.trans hp) (by decide)

/-- **The bytes of one successful `::read`**, in any stage. -/
theorem Decodes.onBytes (h : c.Decodes bo S handed q part) (hready : c.Ready) {bs : List UInt8}
    (hlen : bs.length ≤ c.want) :
    ∃ q' part', (c.onBytes bo bs).client.Decodes bo (S ++ bs) handed q' part' := by
  have hrun := h.not_paused hready
  cases hs : c.rxState with
  | header => exact h.onBytes_header hready hlen hs
  | payload => exact h.onBytes_payload hlen hs hrun
  | discardOversized => exact h.onBytes_discard hlen hs hrun

end Client

/-! ### The calls of `::read` -/

/-- A `::read` asks for something and stays inside its destination: `msg_len_`, the RX buffer with
a byte to spare for the separator, or the scratch buffer. The `uint32_t` sum and difference around
it do not wrap. -/
structure ReadCall.Safe (r : ReadCall) : Prop where
  one_le : 1 ≤ r.want
  got_le : r.got ≤ r.want
  header : r.client.rxState = .header → r.client.haveRead.toNat + r.want ≤ kHeaderLen
  payload : r.client.rxState = .payload →
    r.client.rx.len + r.want + 1 ≤ r.client.rx.capacity
  discard : r.client.rxState = .discardOversized → r.want ≤ kDiscardChunk
  have_le : r.client.rxState ≠ .header →
    r.client.haveRead.toNat + r.got ≤ r.client.msgLen.toNat
  sub_eq : r.client.rxState ≠ .header → (r.client.msgLen - r.client.haveRead).toNat =
    r.client.msgLen.toNat - r.client.haveRead.toNat
  add_eq : (r.client.haveRead + UInt32.ofNat r.got).toNat = r.client.haveRead.toNat + r.got

namespace Client

variable {bo : ByteOrder} {c : Client} {S : List UInt8} {handed q : List (List UInt8)}
  {part : List UInt8}

/-- **Every `::read` the decoder makes is safe**, however much of it the kernel answers. -/
theorem Decodes.safe (h : c.Decodes bo S handed q part) (hready : c.Ready) {got : ℕ}
    (hgot : got ≤ c.want) : ReadCall.Safe ⟨c, c.want, got⟩ := by
  obtain ⟨-, ⟨done, cur, -, -, hstage, -, -⟩, -⟩ := h
  have hmsg := c.msgLen.toNat_lt
  cases hstage with
  | header hs hle =>
    have hlt : c.haveRead.toNat < kHeaderLen := by
      rcases Nat.lt_or_ge c.haveRead.toNat kHeaderLen with hlt | hge
      · exact hlt
      · exact absurd ⟨hs, hge⟩ hready
    have hwant : c.want = kHeaderLen - c.haveRead.toNat := by rw [want, hs]
    have hwidth : kHeaderLen < 2 ^ 32 := by decide
    refine ⟨?_, hgot, fun _ => ?_, fun h' => ?_, fun h' => ?_, fun h' => absurd hs h',
      fun h' => absurd hs h', toNat_add_ofNat ?_⟩
    · show 1 ≤ c.want
      omega
    · show c.haveRead.toNat + c.want ≤ kHeaderLen
      omega
    · exact absurd (hs.symm.trans h') (by decide)
    · exact absurd (hs.symm.trans h') (by decide)
    · show c.haveRead.toNat + got < 2 ^ 32
      omega
  | payload _ hs hread hlt hlegal hroom =>
    have hsub := toNat_sub_of_le hlt.le
    have hwant : c.want = c.msgLen.toNat - c.haveRead.toNat := by rw [want, hs, hsub]
    refine ⟨?_, hgot, fun h' => ?_, fun _ => ?_, fun h' => ?_, fun _ => ?_, fun _ => hsub,
      toNat_add_ofNat ?_⟩
    · show 1 ≤ c.want
      omega
    · exact absurd (hs.symm.trans h') (by decide)
    · show c.rx.len + c.want + 1 ≤ c.rx.capacity
      omega
    · exact absurd (hs.symm.trans h') (by decide)
    · show c.haveRead.toNat + got ≤ c.msgLen.toNat
      omega
    · show c.haveRead.toNat + got < 2 ^ 32
      omega
  | discard _ hs hread hlt =>
    have hsub := toNat_sub_of_le hlt.le
    have hwant : c.want = min (c.msgLen.toNat - c.haveRead.toNat) kDiscardChunk := by
      rw [want, hs]
      exact congrArg (min · kDiscardChunk) hsub
    have hchunk : 1 ≤ kDiscardChunk := by decide
    refine ⟨?_, hgot, fun h' => ?_, fun h' => ?_, fun _ => ?_, fun _ => ?_, fun _ => hsub,
      toNat_add_ofNat ?_⟩
    · show 1 ≤ c.want
      omega
    · exact absurd (hs.symm.trans h') (by decide)
    · exact absurd (hs.symm.trans h') (by decide)
    · show c.want ≤ kDiscardChunk
      omega
    · show c.haveRead.toNat + got ≤ c.msgLen.toNat
      omega
    · show c.haveRead.toNat + got < 2 ^ 32
      omega

/-! ### Offering the tail of the buffer -/

@[simp] theorem rxState_offer (c : Client) : c.offer.rxState = c.rxState := by
  rw [offer]
  split <;> rfl

@[simp] theorem haveRead_offer (c : Client) : c.offer.haveRead = c.haveRead := by
  rw [offer]
  split <;> rfl

@[simp] theorem msgLen_offer (c : Client) : c.offer.msgLen = c.msgLen := by
  rw [offer]
  split <;> rfl

@[simp] theorem want_offer (c : Client) : c.offer.want = c.want := by
  simp only [want, rxState_offer, haveRead_offer, msgLen_offer]

theorem Ready.offer (h : c.Ready) : c.offer.Ready := by
  rwa [Ready, rxState_offer, haveRead_offer]

/-- Handing the tail of the buffer to `::read` changes nothing the decoder relies on. -/
theorem Decodes.offer (h : c.Decodes bo S handed q part) (hready : c.Ready) :
    c.offer.Decodes bo S handed q part := by
  have hsafe := h.safe hready (Nat.zero_le _)
  rw [Client.offer]
  split
  · rename_i hs
    obtain ⟨hq, ⟨done, cur, hS, hwf, hstage, hpay, hdisc⟩, hpaused⟩ := h
    have hroom : c.rx.len + c.want + 1 ≤ c.rx.capacity := hsafe.payload hs
    exact ⟨hq.offerTail (by omega), ⟨done, cur, hS, hwf,
      hstage.congr rfl rfl rfl rfl le_rfl, hpay, hdisc⟩, hpaused⟩
  · exact h

/-- A fresh client has read nothing. -/
theorem Decodes.make {fd : ℤ} {rxCap txCap : ℕ} (h : Client.make fd rxCap txCap = .ok c) :
    c.Decodes bo [] [] [] [] ∧ c.rx.capacity = effectiveCap rxCap := by
  obtain ⟨rx, tx, hrx, -, rfl⟩ := Client.eq_of_make h
  obtain ⟨hq, hcap⟩ := RxBuffer.Holds.make hrx
  refine ⟨⟨hq, ⟨[], [], rfl, by simp, ?_, rfl, rfl⟩, fun hp => by cases hp⟩, hcap⟩
  exact Stage.header rfl (Nat.zero_le _) fun h0 => by cases h0

/-! ### What happens between two reads -/

/-- The queue is drained. The room a payload was promised only grows. -/
theorem Decodes.drainQueue (h : c.Decodes bo S handed q part) :
    ({ c with rx := c.rx.drainQueue.2 } : Client).Decodes bo S (handed ++ q) [] part := by
  obtain ⟨hq, ⟨done, cur, hS, hwf, hstage, hpay, hdisc⟩, hpaused⟩ := h
  obtain ⟨-, hheld⟩ := hq.drainQueue
  have hcap : c.rx.drainQueue.2.capacity = c.rx.capacity := by
    rw [RxBuffer.drainQueue, RxBuffer.capacity_drain, RxBuffer.capacity_poll]
  have hlen : c.rx.drainQueue.2.len ≤ c.rx.len := by
    rw [hheld.len, hheld.completeLen, hq.len, hq.completeLen]
    simp [sealed]
  refine ⟨hheld, ⟨done, cur, hS, hwf, hstage.congr rfl rfl rfl hcap hlen, ?_, hdisc⟩, hpaused⟩
  rw [hpay, List.append_nil]

/-- The pause is lifted. -/
theorem Decodes.rxResume (h : c.Decodes bo S handed q part) :
    c.rxResume.Decodes bo S handed q part := by
  obtain ⟨hq, ⟨done, cur, hS, hwf, hstage, hpay, hdisc⟩, -⟩ := h
  exact ⟨hq, ⟨done, cur, hS, hwf, hstage.congr rfl rfl rfl rfl le_rfl, hpay, hdisc⟩,
    fun hp => by cases hp⟩

/-- The decoder has nothing to do with the TX queue. -/
theorem Decodes.setTx (h : c.Decodes bo S handed q part) (tx : TxBuffer) :
    ({ c with tx := tx } : Client).Decodes bo S handed q part := by
  obtain ⟨hq, ⟨done, cur, hS, hwf, hstage, hpay, hdisc⟩, hpaused⟩ := h
  exact ⟨hq, ⟨done, cur, hS, hwf, hstage.congr rfl rfl rfl rfl le_rfl, hpay, hdisc⟩, hpaused⟩

/-- The payloads handed over and queued are the legal ones of the frames read in full. -/
theorem Decodes.legalPayloads (h : c.Decodes bo S handed q part) :
    legalPayloads (frames (wireHeader bo) S) = handed ++ q := by
  obtain ⟨-, ⟨done, cur, rfl, hwf, hstage, hpay, -⟩, -⟩ := h
  rw [frames_flatMap_append hwf hstage.unfinished, hpay]

/-- What a longer stream adds to them. -/
theorem Decodes.legalPayloads_append (h : c.Decodes bo S handed q part) (T : List UInt8) :
    ∃ ms, KwinApi.legalPayloads (frames (wireHeader bo) (S ++ T)) = handed ++ q ++ ms := by
  have hS := h.legalPayloads
  obtain ⟨-, ⟨done, cur, rfl, hwf, hstage, -, -⟩, -⟩ := h
  obtain ⟨more, hmore⟩ := frames_prefix hwf hstage.unfinished T
  refine ⟨KwinApi.legalPayloads more, ?_⟩
  rw [← hmore, ← hS]
  simp [KwinApi.legalPayloads]

end Client

end KwinApi
