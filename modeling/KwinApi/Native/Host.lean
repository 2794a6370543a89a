import KwinApi.Proto.Protocol
import Mathlib.Data.List.Basic
import Mathlib.Data.List.Induction
import Mathlib.Data.List.TakeWhile
import Mathlib.Logic.Function.Basic
import Mathlib.Tactic.Common

/-!
# The native messaging host

`kwin-api-host.py` stands between a browser and the daemon. It cuts what it reads on either side
into frames and writes each of them to the other side; a frame that announces too much ends it.

## Main definitions

* `KwinApi.packFrame`, `extractFrame`, `pump` — the framing of the host
* `KwinApi.Host`, `HostEvent`, `Host.step` — the main loop
* `KwinApi.forwardable`, `Oversized` — what a stream lets through, and whether it is refused

## Main results

* `KwinApi.Lane.Bridged.written_eq`, `Lane.Bridged.oversized_iff` — one direction of the bridge
* `KwinApi.Host.inv_run` — both directions, over every run
-/

namespace KwinApi

open Framing

/-! ### The framing of the host -/

/-- `pack_frame`: the length header and the payload. -/
def packFrame (bo : ByteOrder) (payload : List UInt8) : List UInt8 :=
  bo.encode kHeaderLen payload.length ++ payload

/-- `extract_frame`: a complete frame and the rest, or the buffer as it is. It raises for a frame
that announces too much. -/
def extractFrame (bo : ByteOrder) (buf : List UInt8) :
    Except ℕ (Option (List UInt8) × List UInt8) :=
  if buf.length < kHeaderLen then .ok (none, buf)
  else
    let n := bo.decode (buf.take kHeaderLen)
    if kMaxMessageLen < n then .error n
    else if buf.length < kHeaderLen + n then .ok (none, buf)
    else .ok (some ((buf.drop kHeaderLen).take n), buf.drop (kHeaderLen + n))

/-- What the inner loop leaves: the bytes written to the other side, the buffer, and the length
that was too large. -/
structure Pumped where
  written : List UInt8
  buf : List UInt8
  tooLarge : Option ℕ

theorem length_of_extractFrame {bo : ByteOrder} {buf rest payload : List UInt8}
    (h : extractFrame bo buf = .ok (some payload, rest)) : rest.length < buf.length := by
  rw [extractFrame] at h
  simp only at h
  split_ifs at h
  all_goals cases h
  have hpos : 0 < kHeaderLen := by decide
  rw [List.length_drop]
  omega

/-- The inner loop: extract frames and write them while there are any. -/
def pump (bo : ByteOrder) (buf : List UInt8) : Pumped :=
  match h : extractFrame bo buf with
  | .error n => ⟨[], buf, some n⟩
  | .ok (none, rest) => ⟨[], rest, none⟩
  | .ok (some payload, rest) =>
    have := length_of_extractFrame h
    let r := pump bo rest
    { r with written := packFrame bo payload ++ r.written }
  termination_by buf.length

/-! ### The main loop -/

/-- The two sides of the host. -/
inductive Side where
  | firefox
  | daemon
  deriving DecidableEq, Repr

/-- What is read on one side: the bytes that await framing, all bytes read so far, and the bytes
written to the other side for them. -/
structure Lane where
  buf : List UInt8
  received : List UInt8
  written : List UInt8

/-- The bytes that were read are framed, and the frames written to the other side. -/
def Lane.feed (bo : ByteOrder) (l : Lane) (data : List UInt8) : Lane × Option ℕ :=
  let r := pump bo (l.buf ++ data)
  (⟨r.buf, l.received ++ data, l.written ++ r.written⟩, r.tooLarge)

/-- The host with its exit code, once it has returned. -/
structure Host where
  lanes : Side → Lane
  exit : Option ℕ

/-- What the selector or the system reports. -/
inductive HostEvent where
  /-- `os.read` or `recv` returns: at most 65536 bytes, or none at the end of the stream. -/
  | read (side : Side) (data : List UInt8)
  /-- A read or a write raises, before anything else is written. -/
  | lost

namespace Host

/-- The host is connected to the daemon. -/
def start : Host := ⟨fun _ => ⟨[], [], []⟩, none⟩

/-- One turn of the main loop. -/
def step (bo : ByteOrder) (m : Host) (e : HostEvent) : Host :=
  if m.exit.isSome then m
  else
    match e with
    | .lost => { m with exit := some 0 }
    | .read side data =>
      if data = [] then { m with exit := some 0 }
      else
        let r := (m.lanes side).feed bo data
        ⟨Function.update m.lanes side r.1, if r.2.isSome then some 1 else none⟩

/-- A run of the host. -/
def run (bo : ByteOrder) (es : List HostEvent) : Host := es.foldl (step bo) start

end Host

/-- Both sides stay open. -/
def HostEvent.Open : HostEvent → Prop
  | .read _ data => data ≠ []
  | .lost => False

/-- The bytes an event brings on a side. -/
def HostEvent.bytes (side : Side) : HostEvent → List UInt8
  | .read side' data => if side' = side then data else []
  | .lost => []

/-! ### Frames that are let through -/

/-- A frame in its format that announces no more than is allowed. -/
def Allowed (bo : ByteOrder) (f : Frame UInt8) : Prop :=
  f.WellFormed (wireHeader bo) ∧ f.payload.length ≤ kMaxMessageLen

/-- The bytes begin with the complete header of a frame that announces too much. -/
def TooLarge (bo : ByteOrder) (s : List UInt8) : Prop :=
  kHeaderLen ≤ s.length ∧ kMaxMessageLen < bo.decode (s.take kHeaderLen)

/-- The complete frames of a stream in front of the first one that announces too much. -/
def forwardable (bo : ByteOrder) (s : List UInt8) : List (Frame UInt8) :=
  (frames (wireHeader bo) s).takeWhile fun f => f.payload.length ≤ kMaxMessageLen

/-- The stream has the complete header of a frame that announces too much. -/
def Oversized (bo : ByteOrder) (s : List UInt8) : Prop :=
  ∃ (fs : List (Frame UInt8)) (rest : List UInt8), s = fs.flatMap Frame.symbols ++ rest ∧
    (∀ f ∈ fs, Allowed bo f) ∧ TooLarge bo rest

variable {bo : ByteOrder} {s t : List UInt8}

theorem TooLarge.append (h : TooLarge bo s) (t : List UInt8) : TooLarge bo (s ++ t) := by
  obtain ⟨hlen, hlarge⟩ := h
  refine ⟨?_, ?_⟩
  · rw [List.length_append]
    omega
  · rwa [List.take_append_of_le_length hlen]

/-- More of a stream does not take a header back. -/
theorem Oversized.append (h : Oversized bo s) (t : List UInt8) : Oversized bo (s ++ t) := by
  obtain ⟨fs, rest, rfl, hfs, hlarge⟩ := h
  exact ⟨fs, rest ++ t, by rw [List.append_assoc], hfs, hlarge.append t⟩

/-- What a stream with such a header in front is split into begins with a frame that is too
long, if there is a complete frame at all. -/
theorem TooLarge.frames (h : TooLarge bo s) :
    ∀ f ∈ (frames (wireHeader bo) s).head?, kMaxMessageLen < f.payload.length := by
  obtain ⟨hlen, hlarge⟩ := h
  intro f hf
  rw [Framing.frames, split] at hf
  split_ifs at hf with hun
  · contradiction
  · obtain rfl := Option.some.inj hf
    rw [Unfinished, Nat.not_lt, Header.frameLength] at hun
    simp only [wireHeader_width, wireHeader_announced] at hun ⊢
    have hmin := Nat.min_eq_left (show bo.decode (s.take 4) ≤ s.length - 4 by omega)
    rw [List.length_take, List.length_drop, hmin]
    exact hlarge

/-! ### One direction -/

/-- A buffer is unfinished, begins with a frame that announces too much, or with one that is let
through; `extract_frame` tells which. -/
theorem extractFrame_cases (bo : ByteOrder) (buf : List UInt8) :
    (extractFrame bo buf = .ok (none, buf) ∧ Unfinished (wireHeader bo) buf ∧ ¬ TooLarge bo buf) ∨
      (∃ n, extractFrame bo buf = .error n ∧ TooLarge bo buf) ∨
      ∃ f rest, extractFrame bo buf = .ok (some f.payload, rest) ∧ Allowed bo f ∧
        buf = f.symbols ++ rest := by
  rw [extractFrame]
  simp only
  split_ifs with hheader hlarge hshort
  · refine Or.inl ⟨rfl, unfinished_of_length_lt hheader, fun hlarge => ?_⟩
    exact absurd hlarge.1 (Nat.not_le.mpr hheader)
  · exact Or.inr (Or.inl ⟨_, rfl, Nat.not_lt.mp hheader, hlarge⟩)
  · exact Or.inl ⟨rfl, hshort, fun h => hlarge h.2⟩
  · have hwidth : (buf.take kHeaderLen).length = kHeaderLen := by
      rw [List.length_take]
      omega
    have hpay : ((buf.drop kHeaderLen).take (bo.decode (buf.take kHeaderLen))).length =
        bo.decode (buf.take kHeaderLen) := by
      rw [List.length_take, List.length_drop]
      omega
    refine Or.inr (Or.inr ⟨⟨buf.take kHeaderLen, _⟩, _, rfl, ⟨⟨hwidth, hpay⟩, ?_⟩, ?_⟩)
    · rw [hpay]
      omega
    · rw [Frame.symbols, List.append_assoc, ← List.drop_drop, List.take_append_drop,
        List.take_append_drop]

/-- Packing the payload of a frame gives the frame. -/
theorem packFrame_payload {f : Frame UInt8} (hf : f.WellFormed (wireHeader bo)) :
    packFrame bo f.payload = f.symbols := by
  have hheader : bo.encode kHeaderLen (bo.decode f.header) = f.header :=
    ByteOrder.encode_decode bo hf.header
  rw [packFrame, hf.payload, wireHeader_announced, hheader, Frame.symbols]

theorem pump_of_none {buf rest : List UInt8} (h : extractFrame bo buf = .ok (none, rest)) :
    pump bo buf = ⟨[], rest, none⟩ := by
  rw [pump]
  split
  all_goals
    rename_i h'
    rw [h] at h'
    cases h'
  rfl

theorem pump_of_error {buf : List UInt8} {n : ℕ} (h : extractFrame bo buf = .error n) :
    pump bo buf = ⟨[], buf, some n⟩ := by
  rw [pump]
  split
  all_goals
    rename_i h'
    rw [h] at h'
    cases h'
  rfl

theorem pump_of_some {buf payload rest : List UInt8}
    (h : extractFrame bo buf = .ok (some payload, rest)) : pump bo buf =
      ⟨packFrame bo payload ++ (pump bo rest).written, (pump bo rest).buf,
        (pump bo rest).tooLarge⟩ := by
  rw [pump]
  split
  all_goals
    rename_i h'
    rw [h] at h'
    cases h'
  rfl

/-- The inner loop writes whole frames and stops at an unfinished one or at one that is too
large. -/
structure Pumps (bo : ByteOrder) (buf : List UInt8) (r : Pumped) : Prop where
  frames : ∃ fs : List (Frame UInt8), buf = fs.flatMap Frame.symbols ++ r.buf ∧
    (∀ f ∈ fs, Allowed bo f) ∧ r.written = fs.flatMap Frame.symbols
  stopped : r.tooLarge.isSome = true → TooLarge bo r.buf
  waiting : r.tooLarge.isSome = false → Unfinished (wireHeader bo) r.buf ∧ ¬ TooLarge bo r.buf

theorem pumps (bo : ByteOrder) (buf : List UInt8) : Pumps bo buf (pump bo buf) := by
  induction hn : buf.length using Nat.strong_induction_on generalizing buf with
  | _ n ih =>
    subst hn
    rcases extractFrame_cases bo buf with ⟨h, hun, hnot⟩ | ⟨n, h, hlarge⟩ | ⟨f, rest, h, hf, hbuf⟩
    · rw [pump_of_none h]
      exact ⟨⟨[], rfl, nofun, rfl⟩, nofun, fun _ => ⟨hun, hnot⟩⟩
    · rw [pump_of_error h]
      exact ⟨⟨[], rfl, nofun, rfl⟩, fun _ => hlarge, nofun⟩
    · rw [pump_of_some h, packFrame_payload hf.1]
      obtain ⟨⟨fs, hrest, hfs, hwritten⟩, hstopped, hwaiting⟩ :=
        ih rest.length (length_of_extractFrame h) rest rfl
      refine ⟨⟨f :: fs, ?_, List.forall_mem_cons.mpr ⟨hf, hfs⟩, ?_⟩, hstopped, hwaiting⟩
      · rw [List.flatMap_cons, List.append_assoc, ← hrest, hbuf]
      · rw [List.flatMap_cons, hwritten]

/-- One direction of the bridge: the bytes read are the frames that were written to the other side,
all let through, and the buffer. -/
structure Lane.Bridged (bo : ByteOrder) (l : Lane) : Prop where
  frames : ∃ fs : List (Frame UInt8), l.received = fs.flatMap Frame.symbols ++ l.buf ∧
    (∀ f ∈ fs, Allowed bo f) ∧ l.written = fs.flatMap Frame.symbols
  buf : Unfinished (wireHeader bo) l.buf ∨ TooLarge bo l.buf

theorem takeWhile_allowed {fs : List (Frame UInt8)} (hfs : ∀ f ∈ fs, Allowed bo f)
    (gs : List (Frame UInt8)) (hgs : ∀ f ∈ gs.head?, kMaxMessageLen < f.payload.length) :
    (fs ++ gs).takeWhile (fun f => f.payload.length ≤ kMaxMessageLen) = fs := by
  have hstop : gs.takeWhile (fun f => f.payload.length ≤ kMaxMessageLen) = [] := by
    rcases gs with _ | ⟨g, gs⟩
    · rfl
    · exact List.takeWhile_cons_of_neg (by simpa using hgs g rfl)
  rw [List.takeWhile_append_of_pos (fun f hf => by simpa using (hfs f hf).2), hstop,
    List.append_nil]

/-- What stands in front of an unfinished frame or one that is too large is what is let through. -/
theorem forwardable_append {fs : List (Frame UInt8)} {r : List UInt8}
    (hfs : ∀ f ∈ fs, Allowed bo f) (hr : Unfinished (wireHeader bo) r ∨ TooLarge bo r) :
    forwardable bo (fs.flatMap Frame.symbols ++ r) = fs := by
  rw [forwardable, Framing.frames, split_flatMap fun f hf => (hfs f hf).1]
  refine takeWhile_allowed hfs _ ?_
  rcases hr with hr | hr
  · rw [split_of_unfinished hr]
    simp
  · exact hr.frames

/-- An unfinished frame that does not announce too much is not a header that does, however it is
cut. -/
theorem not_oversized_append {fs : List (Frame UInt8)} {r : List UInt8}
    (hfs : ∀ f ∈ fs, Allowed bo f) (hr : Unfinished (wireHeader bo) r) (hnot : ¬ TooLarge bo r) :
    ¬ Oversized bo (fs.flatMap Frame.symbols ++ r) := by
  rintro ⟨gs, rest, heq, hgs, hlarge⟩
  have hsplit : (fs, r) =
      (gs ++ (split (wireHeader bo) rest).1, (split (wireHeader bo) rest).2) := by
    rw [← split_flatMap_append (fun f hf => (hfs f hf).1) hr, heq,
      split_flatMap fun f hf => (hgs f hf).1]
  obtain ⟨hframes, hrest⟩ := Prod.mk.inj hsplit
  by_cases hun : Unfinished (wireHeader bo) rest
  · rw [split_of_unfinished hun] at hrest
    exact hnot (hrest ▸ hlarge)
  · have hne : (split (wireHeader bo) rest).1 ≠ [] := by
      rw [split, if_neg hun]
      exact List.cons_ne_nil _ _
    obtain ⟨f, gs', hf⟩ := List.exists_cons_of_ne_nil hne
    have hlong := hlarge.frames f (by rw [Framing.frames, hf]; rfl)
    have hshort := (hfs f (by rw [hframes, hf]; simp)).2
    omega

namespace Lane.Bridged

variable {l : Lane}

/-- What was written is what is let through. -/
theorem written_eq (h : l.Bridged bo) :
    l.written = (forwardable bo l.received).flatMap Frame.symbols := by
  obtain ⟨⟨fs, hreceived, hfs, hwritten⟩, hbuf⟩ := h
  rw [hreceived, forwardable_append hfs hbuf, hwritten]

/-- The bytes read have the header of a frame that is refused exactly when the buffer begins with
it. -/
theorem oversized_iff (h : l.Bridged bo) : Oversized bo l.received ↔ TooLarge bo l.buf := by
  obtain ⟨⟨fs, hreceived, hfs, hwritten⟩, hbuf⟩ := h
  rw [hreceived]
  constructor
  · intro hover
    by_contra hnot
    exact not_oversized_append hfs (hbuf.resolve_right hnot) hnot hover
  · exact fun hlarge => ⟨fs, l.buf, rfl, hfs, hlarge⟩

/-- More bytes are read. -/
theorem feed (h : l.Bridged bo) (data : List UInt8) :
    (l.feed bo data).1.Bridged bo ∧
      (TooLarge bo (l.feed bo data).1.buf ↔ (l.feed bo data).2.isSome = true) := by
  obtain ⟨⟨fs, hreceived, hfs, hwritten⟩, -⟩ := h
  obtain ⟨⟨gs, hbuf, hgs, hmore⟩, hstopped, hwaiting⟩ := pumps bo (l.buf ++ data)
  refine ⟨⟨⟨fs ++ gs, ?_, List.forall_mem_append.mpr ⟨hfs, hgs⟩, ?_⟩, ?_⟩, ?_, hstopped⟩
  · show l.received ++ data = _
    rw [List.flatMap_append, List.append_assoc, hreceived, List.append_assoc, hbuf]
    rfl
  · show l.written ++ _ = _
    rw [List.flatMap_append, ← hwritten, ← hmore]
  · rcases Bool.eq_false_or_eq_true (pump bo (l.buf ++ data)).tooLarge.isSome with hr | hr
    · exact Or.inr (hstopped hr)
    · exact Or.inl (hwaiting hr).1
  · intro hlarge
    by_contra hr
    exact (hwaiting (Bool.eq_false_iff.mpr hr)).2 hlarge

end Lane.Bridged

/-! ### Both directions -/

namespace Host

/-- Both directions are bridged, and the host has stopped with exit code 1 when a buffer begins with
a header that is too large. -/
structure Inv (bo : ByteOrder) (m : Host) : Prop where
  bridged : ∀ side, (m.lanes side).Bridged bo
  exit : m.exit = none ∧ (∀ side, ¬ TooLarge bo (m.lanes side).buf) ∨
    m.exit = some 1 ∧ ∃ side, TooLarge bo (m.lanes side).buf

theorem inv_start (bo : ByteOrder) : start.Inv bo := by
  have hun : Unfinished (wireHeader bo) [] := unfinished_of_length_lt (show 0 < 4 by decide)
  refine ⟨fun _ => ⟨⟨[], rfl, nofun, rfl⟩, Or.inl hun⟩, Or.inl ⟨rfl, ?_⟩⟩
  rintro side ⟨hlen, -⟩
  exact absurd hlen (Nat.not_le.mpr (show 0 < 4 by decide))

/-- An event changes nothing once the host has returned. -/
theorem step_of_exit {m : Host} {code : ℕ} (h : m.exit = some code) (e : HostEvent) :
    m.step bo e = m := by
  rw [step.eq_def, if_pos (by simp [h])]

theorem step_read {m : Host} (h : m.exit = none) {data : List UInt8} (hne : data ≠ [])
    (side : Side) : m.step bo (.read side data) =
      ⟨Function.update m.lanes side ((m.lanes side).feed bo data).1,
        if ((m.lanes side).feed bo data).2.isSome then some 1 else none⟩ := by
  rw [step.eq_def, if_neg (by simp [h])]
  simp only
  rw [if_neg hne]

/-- While both sides stay open, an event is read as long as the host runs. -/
theorem Inv.step {m : Host} (h : m.Inv bo) {e : HostEvent} (he : e.Open) :
    (m.step bo e).Inv bo ∧ (m.exit = none → ∀ side,
      ((m.step bo e).lanes side).received = (m.lanes side).received ++ e.bytes side) := by
  obtain ⟨hbridged, ⟨hexit, hrunning⟩ | ⟨hexit, hstopped⟩⟩ := h
  · cases e with
    | lost => exact absurd he not_false
    | read side data =>
      obtain ⟨hlane, hlarge⟩ := (hbridged side).feed data
      rw [step_read hexit he]
      refine ⟨⟨fun side' => ?_, ?_⟩, fun _ side' => ?_⟩
      · show Lane.Bridged bo (Function.update m.lanes side _ side')
        rcases eq_or_ne side' side with rfl | hside
        · rwa [Function.update_self]
        · rw [Function.update_of_ne hside]
          exact hbridged side'
      · by_cases hover : ((m.lanes side).feed bo data).2.isSome = true
        · refine Or.inr ⟨if_pos hover, side, ?_⟩
          show TooLarge bo (Function.update m.lanes side _ side).buf
          rw [Function.update_self]
          exact hlarge.mpr hover
        · refine Or.inl ⟨if_neg hover, fun side' => ?_⟩
          show ¬ TooLarge bo (Function.update m.lanes side _ side').buf
          rcases eq_or_ne side' side with rfl | hside
          · rw [Function.update_self]
            exact fun h => hover (hlarge.mp h)
          · rw [Function.update_of_ne hside]
            exact hrunning side'
      · show (Function.update m.lanes side _ side').received = _
        rcases eq_or_ne side' side with rfl | hside
        · rw [Function.update_self, HostEvent.bytes, if_pos rfl]
          rfl
        · rw [Function.update_of_ne hside, HostEvent.bytes, if_neg hside.symm, List.append_nil]
  · rw [step_of_exit hexit, hexit]
    exact ⟨⟨hbridged, Or.inr ⟨hexit, hstopped⟩⟩, nofun⟩

theorem run_concat (bo : ByteOrder) (es : List HostEvent) (e : HostEvent) :
    run bo (es ++ [e]) = (run bo es).step bo e :=
  List.foldl_concat ..

/-- Over every run with both sides open. -/
theorem inv_run {es : List HostEvent} (hopen : ∀ e ∈ es, e.Open) :
    (run bo es).Inv bo ∧ ((run bo es).exit = none → ∀ side,
      ((run bo es).lanes side).received = es.flatMap (HostEvent.bytes side)) := by
  induction es using List.reverseRecOn with
  | nil => exact ⟨inv_start bo, fun _ _ => rfl⟩
  | append_singleton es e ih =>
    obtain ⟨hes, he⟩ := List.forall_mem_append.mp hopen
    obtain ⟨hinv, hbytes⟩ := ih hes
    obtain ⟨hstep, hmore⟩ := hinv.step (he e (List.mem_singleton_self e))
    rw [run_concat]
    refine ⟨hstep, fun hexit side => ?_⟩
    have hrunning : (run bo es).exit = none := by
      rcases hcase : (run bo es).exit with _ | code
      · rfl
      · rw [step_of_exit hcase, hcase] at hexit
        contradiction
    rw [hmore hrunning, hbytes hrunning, List.flatMap_append, List.flatMap_singleton]

/-- The host stops with exit code 1 exactly when the header of a frame that announces too much was
received in full on a side. -/
theorem Inv.exit_iff {m : Host} (h : m.Inv bo) :
    (m.exit = some 1 ↔ ∃ side, Oversized bo (m.lanes side).received) ∧
      (m.exit = none ∨ m.exit = some 1) := by
  have hover : (∃ side, Oversized bo (m.lanes side).received) ↔
      ∃ side, TooLarge bo (m.lanes side).buf :=
    exists_congr fun side => (h.bridged side).oversized_iff
  rw [hover]
  rcases h.exit with ⟨hexit, hnot⟩ | ⟨hexit, hlarge⟩
  · rw [hexit]
    exact ⟨⟨nofun, fun ⟨side, hside⟩ => absurd hside (hnot side)⟩, Or.inl rfl⟩
  · rw [hexit]
    exact ⟨⟨fun _ => hlarge, fun _ => rfl⟩, Or.inr rfl⟩

end Host

end KwinApi
