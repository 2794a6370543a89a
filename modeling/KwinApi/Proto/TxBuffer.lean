import KwinApi.Lib.Ring
import KwinApi.Proto.Protocol
import Mathlib.Data.List.Basic

/-!
# The TX queue

`TxBuffer` of `tx_buffer.cpp`: a ring of complete frames. `head` is the next byte to flush, `tail`
the next byte to write, `len` the bytes in between. Both positions stay inside the buffer by
construction; that `tail` is where the queued bytes end is an invariant of the operations.

The socket is a list of answers, one for each call of `send`. An exhausted list answers `EAGAIN`.

## Main definitions

* `KwinApi.TxBuffer` — the ring, with `make`, `writeRing`, `push` and `flush`
* `KwinApi.TxBuffer.queuedBytes` — the bytes not yet flushed, in order
* `KwinApi.TxLink` — a TX queue in use, with what was accepted on either side of it

## Main results

* `KwinApi.TxBuffer.Inv.push`, `Inv.flush` — one specification for each operation
* `KwinApi.TxLink.fifo` — over any interleaving of pushes and flushes, the ring is a bounded FIFO
  of whole frames
-/

namespace KwinApi

open Region

/-- What the kernel answers to one `send`. It never accepts nothing and never more than offered:
`accept k` takes `k + 1` bytes, or all that were offered when they are fewer. -/
inductive SendAnswer where
  | accept (k : ℕ)
  | eintr
  | eagain
  | fail (e : Errno)
  deriving DecidableEq, Repr

/-- The TX ring buffer. `touched` records the ranges given to `memcpy` and `send`. -/
structure TxBuffer where
  data : List UInt8
  capacity : ℕ
  head : ℕ
  tail : ℕ
  len : ℕ
  touched : List Span
  size : data.length = capacity
  head_lt : head < capacity
  tail_lt : tail < capacity

namespace TxBuffer

/-- The constructor. -/
def make (capacity : ℕ) : Except String TxBuffer :=
  if h : capacity < kHeaderLen + 1 then .error "TxBuffer: capacity too small"
  else .ok
    { data := List.replicate capacity 0
      capacity := capacity
      head := 0
      tail := 0
      len := 0
      touched := []
      size := List.length_replicate
      head_lt := by omega
      tail_lt := by omega }

/-- Bytes are queued. -/
def pending (t : TxBuffer) : Bool := 0 < t.len

/-- One turn of the loop of `write_ring`: as much of `src` as fits before the wrap point. -/
def writeChunk (t : TxBuffer) (src : List UInt8) : TxBuffer :=
  let chunk := min src.length (t.capacity - t.tail)
  { t with
    data := blit t.data t.tail (src.take chunk)
    tail := (t.tail + chunk) % t.capacity
    len := t.len + chunk
    touched := t.touched ++ [⟨t.tail, chunk⟩]
    size := by rw [length_blit, t.size]
    tail_lt := Nat.mod_lt _ (Nat.zero_lt_of_lt t.tail_lt) }

/-- Copy `src` into the ring at the write position. -/
def writeRing (t : TxBuffer) (src : List UInt8) : TxBuffer :=
  if src = [] then t
  else writeRing (t.writeChunk src) (src.drop (min src.length (t.capacity - t.tail)))
termination_by src.length
decreasing_by
  have hsrc : 0 < src.length := List.length_pos_of_ne_nil ‹_›
  have htail := t.tail_lt
  rw [List.length_drop]
  omega

/-- Queue one message as a complete frame. -/
def push (bo : ByteOrder) (t : TxBuffer) (msg : List UInt8) : Except Errno Unit × TxBuffer :=
  if msg.length > kMaxMessageLen then (.error .EMSGSIZE, t)
  else if t.len + kHeaderLen + msg.length > t.capacity then (.error .ENOBUFS, t)
  else (.ok (), (t.writeRing (bo.encode kHeaderLen msg.length)).writeRing msg)

/-- Offer `chunk` contiguous bytes to `send`. -/
def offer (t : TxBuffer) (chunk : ℕ) : TxBuffer :=
  { t with touched := t.touched ++ [⟨t.head, chunk⟩] }

/-- `send` accepted `n` bytes: move the read position. -/
def accept (t : TxBuffer) (n : ℕ) : TxBuffer :=
  { t with
    head := (t.head + n) % t.capacity
    len := t.len - n
    head_lt := Nat.mod_lt _ (Nat.zero_lt_of_lt t.head_lt) }

/-- The loop of `flush`: the ring it leaves, the bytes `send` accepted and the hard error that
ended it, if any. -/
def flushLoop (t : TxBuffer) (sent : List UInt8) :
    List SendAnswer → TxBuffer × List UInt8 × Option Errno
  | [] =>
    if t.len = 0 then (t, sent, none)
    else (t.offer (min t.len (t.capacity - t.head)), sent, none)
  | a :: as =>
    if t.len = 0 then (t, sent, none)
    else
      let chunk := min t.len (t.capacity - t.head)
      let t' := t.offer chunk
      match a with
      | .accept k =>
        let n := min (k + 1) chunk
        flushLoop (t'.accept n) (sent ++ slice t.data t.head n) as
      | .eintr => flushLoop t' sent as
      | .eagain => (t', sent, none)
      | .fail e => (t', sent, some e)

/-- Rewind an empty ring to the front. -/
def rewind (t : TxBuffer) : TxBuffer :=
  if t.len = 0 then
    { t with
      head := 0
      tail := 0
      head_lt := Nat.zero_lt_of_lt t.head_lt
      tail_lt := Nat.zero_lt_of_lt t.head_lt }
  else t

/-- Flush queued bytes to the socket: the bytes written or a hard error, the ring afterwards, and
the bytes `send` accepted on the way. -/
def flush (t : TxBuffer) (answers : List SendAnswer) : Except Errno ℕ × TxBuffer × List UInt8 :=
  match t.flushLoop [] answers with
  | (t', sent, some e) => (.error e, t', sent)
  | (t', sent, none) => (.ok sent.length, t'.rewind, sent)

/-! ### The queued bytes -/

/-- The `len` bytes from `head` on, with wrap-around. -/
def queuedBytes (t : TxBuffer) : List UInt8 := Ring.window t.data t.head t.len

/-- The write position is where the queued bytes end, they fit, and every range that was handed
out is non-empty and lies inside the buffer. -/
structure Inv (t : TxBuffer) : Prop where
  tail_eq : t.tail = (t.head + t.len) % t.capacity
  len_le : t.len ≤ t.capacity
  touched : ∀ s ∈ t.touched, 0 < s.len ∧ s.Within t.capacity

theorem Inv.length_queuedBytes {t : TxBuffer} (ht : t.Inv) : t.queuedBytes.length = t.len :=
  Ring.length_window (t.size.symm ▸ ht.len_le)

theorem Inv.make {capacity : ℕ} {t : TxBuffer} (h : make capacity = .ok t) :
    t.Inv ∧ t.queuedBytes = [] ∧ t.capacity = capacity := by
  rw [TxBuffer.make] at h
  split_ifs at h
  cases h
  exact ⟨⟨by simp, by simp, by simp⟩, by simp [queuedBytes], rfl⟩

@[simp] theorem capacity_writeChunk (t : TxBuffer) (src : List UInt8) :
    (t.writeChunk src).capacity = t.capacity := rfl

@[simp] theorem len_writeChunk (t : TxBuffer) (src : List UInt8) :
    (t.writeChunk src).len = t.len + min src.length (t.capacity - t.tail) := rfl

/-- One turn of `write_ring` appends its chunk to the queued bytes. -/
theorem Inv.writeChunk {t : TxBuffer} (ht : t.Inv) {src : List UInt8} (hne : src ≠ [])
    (hfit : t.len + src.length ≤ t.capacity) :
    (t.writeChunk src).Inv ∧ (t.writeChunk src).queuedBytes =
      t.queuedBytes ++ src.take (min src.length (t.capacity - t.tail)) := by
  have hsrc : 0 < src.length := List.length_pos_of_ne_nil hne
  have htail := t.tail_lt
  have hchunk : (src.take (min src.length (t.capacity - t.tail))).length =
      min src.length (t.capacity - t.tail) := by rw [List.length_take]; omega
  refine ⟨⟨?_, ?_, ?_⟩, ?_⟩
  · simp only [TxBuffer.writeChunk]
    rw [ht.tail_eq, Nat.mod_add_mod, Nat.add_assoc]
  · simp only [len_writeChunk, capacity_writeChunk]
    omega
  · simp only [TxBuffer.writeChunk, List.mem_append, List.mem_singleton]
    rintro s (hs | rfl)
    · exact ht.touched s hs
    · have hlen : 0 < min src.length (t.capacity - t.tail) := by omega
      exact ⟨hlen, show t.tail + min src.length (t.capacity - t.tail) ≤ t.capacity by omega⟩
  · have hhead : t.head < t.data.length := by rw [t.size]; exact t.head_lt
    have htail_eq : (t.head + t.len) % t.data.length = t.tail := by rw [t.size, ht.tail_eq]
    have hwin := Ring.window_blit hhead
      (show _ + (src.take (min src.length (t.capacity - t.tail))).length ≤ _ by
        rw [htail_eq, hchunk, t.size]; omega)
      (by rw [hchunk, t.size]; omega)
    rw [htail_eq, hchunk] at hwin
    exact hwin

/-- **`write_ring` appends.** -/
theorem Inv.writeRing {t : TxBuffer} {src : List UInt8} (ht : t.Inv)
    (hfit : t.len + src.length ≤ t.capacity) :
    (t.writeRing src).Inv ∧ (t.writeRing src).queuedBytes = t.queuedBytes ++ src ∧
      (t.writeRing src).capacity = t.capacity ∧
      (t.writeRing src).len = t.len + src.length := by
  induction t, src using TxBuffer.writeRing.induct with
  | case1 t => simpa [TxBuffer.writeRing] using ht
  | case2 t src hne ih =>
    obtain ⟨hinv, hbytes⟩ := ht.writeChunk hne hfit
    have hdrop : (src.drop (min src.length (t.capacity - t.tail))).length =
        src.length - min src.length (t.capacity - t.tail) := List.length_drop
    obtain ⟨h1, h2, h3, h4⟩ := ih hinv
      (by rw [hdrop, len_writeChunk, capacity_writeChunk]; omega)
    rw [TxBuffer.writeRing, if_neg hne]
    refine ⟨h1, ?_, h3, ?_⟩
    · rw [h2, hbytes, List.append_assoc, List.take_append_drop]
    · rw [h4, hdrop, len_writeChunk]
      omega

theorem push_of_too_long {t : TxBuffer} {bo : ByteOrder} {msg : List UInt8}
    (h : kMaxMessageLen < msg.length) : t.push bo msg = (.error .EMSGSIZE, t) := by
  rw [push, if_pos h]

theorem push_of_full {t : TxBuffer} {bo : ByteOrder} {msg : List UInt8}
    (hmax : msg.length ≤ kMaxMessageLen) (h : t.capacity < t.len + kHeaderLen + msg.length) :
    t.push bo msg = (.error .ENOBUFS, t) := by
  rw [push, if_neg (by omega), if_pos h]

/-- A message that is short enough and fits is appended as one whole frame. -/
theorem Inv.push_of_fits {t : TxBuffer} (bo : ByteOrder) (ht : t.Inv) {msg : List UInt8}
    (hmax : msg.length ≤ kMaxMessageLen) (h : t.len + kHeaderLen + msg.length ≤ t.capacity) :
    (t.push bo msg).1 = .ok () ∧ (t.push bo msg).2.Inv ∧
      (t.push bo msg).2.capacity = t.capacity ∧
      (t.push bo msg).2.queuedBytes = t.queuedBytes ++ frameBytes bo msg := by
  have hhead : (bo.encode kHeaderLen msg.length).length = kHeaderLen := by simp
  have hroom : t.len + (bo.encode kHeaderLen msg.length).length ≤ t.capacity := by omega
  obtain ⟨hi, hb, hc, hl⟩ := ht.writeRing hroom
  have hroom' : (t.writeRing (bo.encode kHeaderLen msg.length)).len + msg.length ≤
      (t.writeRing (bo.encode kHeaderLen msg.length)).capacity := by omega
  obtain ⟨hi', hb', hc', -⟩ := hi.writeRing hroom'
  rw [push, if_neg (by omega), if_neg (by omega)]
  refine ⟨rfl, hi', hc'.trans hc, ?_⟩
  rw [hb', hb, frameBytes, List.append_assoc]

/-! ### Flushing -/

/-- The contiguous bytes offered to `send`, when something is queued. -/
theorem Inv.offer {t : TxBuffer} (ht : t.Inv) (hlen : t.len ≠ 0) :
    (t.offer (min t.len (t.capacity - t.head))).Inv := by
  have hhead := t.head_lt
  refine ⟨ht.tail_eq, ht.len_le, ?_⟩
  simp only [TxBuffer.offer, List.mem_append, List.mem_singleton]
  rintro s (hs | rfl)
  · exact ht.touched s hs
  · have hpos : 0 < min t.len (t.capacity - t.head) := by omega
    exact ⟨hpos, show t.head + min t.len (t.capacity - t.head) ≤ t.capacity by omega⟩

/-- What `send` accepts is the front of the queued bytes, also across the wrap point. -/
theorem Inv.accept {t : TxBuffer} (ht : t.Inv) {n : ℕ} (hn : n ≤ min t.len (t.capacity - t.head)) :
    (t.accept n).Inv ∧ slice t.data t.head n ++ (t.accept n).queuedBytes = t.queuedBytes := by
  have hhead := t.head_lt
  have hle := ht.len_le
  refine ⟨⟨?_, ?_, ht.touched⟩, ?_⟩
  · simp only [TxBuffer.accept]
    rw [Nat.mod_add_mod, ht.tail_eq, show t.head + n + (t.len - n) = t.head + t.len by omega]
  · simp only [TxBuffer.accept]
    omega
  · simp only [TxBuffer.accept, queuedBytes]
    rw [← Ring.window_eq_slice (by rw [t.size]; omega), ← t.size,
      ← Ring.window_add (by rw [t.size]; omega), Nat.add_sub_cancel' (by omega)]

theorem Inv.rewind {t : TxBuffer} (ht : t.Inv) :
    t.rewind.Inv ∧ t.rewind.queuedBytes = t.queuedBytes ∧ t.rewind.capacity = t.capacity := by
  rw [TxBuffer.rewind]
  split_ifs with h
  · refine ⟨⟨?_, ht.len_le, ht.touched⟩, ?_, rfl⟩
    · simp [h]
    · simp [queuedBytes, h]
  · exact ⟨ht, rfl, rfl⟩

/-- The loop of `flush` moves bytes from the front of the ring to the socket, in order. -/
theorem Inv.flushLoop {t : TxBuffer} (ht : t.Inv) (sent : List UInt8) (answers : List SendAnswer) :
    (t.flushLoop sent answers).1.Inv ∧ (t.flushLoop sent answers).1.capacity = t.capacity ∧
      (t.flushLoop sent answers).2.1 ++ (t.flushLoop sent answers).1.queuedBytes =
        sent ++ t.queuedBytes := by
  induction answers generalizing t sent with
  | nil =>
    rw [TxBuffer.flushLoop]
    split_ifs with h
    · exact ⟨ht, rfl, rfl⟩
    · exact ⟨ht.offer h, rfl, rfl⟩
  | cons a as ih =>
    rw [TxBuffer.flushLoop]
    split_ifs with h
    · exact ⟨ht, rfl, rfl⟩
    · have hoff := ht.offer h
      cases a with
      | accept k =>
        have hk : min (k + 1) (min t.len (t.capacity - t.head)) ≤
            min t.len (t.capacity - t.head) := Nat.min_le_right _ _
        obtain ⟨hacc, hbytes⟩ := hoff.accept hk
        obtain ⟨h1, h2, h3⟩ := ih hacc
          (sent ++ slice t.data t.head (min (k + 1) (min t.len (t.capacity - t.head))))
        refine ⟨h1, h2, h3.trans ?_⟩
        rw [List.append_assoc]
        exact congrArg (sent ++ ·) hbytes
      | eintr => exact ih hoff sent
      | eagain => exact ⟨hoff, rfl, rfl⟩
      | fail e => exact ⟨hoff, rfl, rfl⟩

/-- **`flush`** loses nothing: what `send` accepted and what is still queued make up what was
queued before. -/
theorem Inv.flush {t : TxBuffer} (ht : t.Inv) (answers : List SendAnswer) :
    (t.flush answers).2.1.Inv ∧ (t.flush answers).2.1.capacity = t.capacity ∧
      (t.flush answers).2.2 ++ (t.flush answers).2.1.queuedBytes = t.queuedBytes := by
  obtain ⟨h1, h2, h3⟩ := ht.flushLoop [] answers
  rw [TxBuffer.flush]
  rcases hl : t.flushLoop [] answers with ⟨t', sent, e⟩
  rw [hl] at h1 h2 h3
  cases e with
  | some e => exact ⟨h1, h2, h3⟩
  | none =>
    obtain ⟨hr, hb, hc⟩ := h1.rewind
    exact ⟨hr, hc.trans h2, (congrArg (sent ++ ·) hb).trans (by simpa using h3)⟩

end TxBuffer

/-! ## A TX queue in use -/

/-- One use of a TX queue: a `push` of some payload or a `flush` against some answers of `send`. -/
inductive TxOp where
  | push (msg : List UInt8)
  | flush (answers : List SendAnswer)

/-- A TX queue with its history: the bytes `send` accepted so far, and the payloads of the pushes
that returned 0. -/
structure TxLink where
  tx : TxBuffer
  wire : List UInt8
  accepted : List (List UInt8)

namespace TxLink

/-- A fresh TX queue. -/
def init (t : TxBuffer) : TxLink := ⟨t, [], []⟩

/-- One operation on the queue. -/
def step (bo : ByteOrder) (s : TxLink) : TxOp → TxLink
  | .push msg =>
    match s.tx.push bo msg with
    | (.ok (), t) => { s with tx := t, accepted := s.accepted ++ [msg] }
    | (.error _, t) => { s with tx := t }
  | .flush answers =>
    let r := s.tx.flush answers
    { s with tx := r.2.1, wire := s.wire ++ r.2.2 }

/-- The refinement relation: the ring is the part of the stream of whole frames that has not left
yet. -/
structure Refines (bo : ByteOrder) (capacity : ℕ) (s : TxLink) : Prop where
  inv : s.tx.Inv
  capacity_eq : s.tx.capacity = capacity
  fifo : s.wire ++ s.tx.queuedBytes = s.accepted.flatMap (frameBytes bo)

theorem Refines.push {bo : ByteOrder} {capacity : ℕ} {s : TxLink} (hs : s.Refines bo capacity)
    (msg : List UInt8) : (s.step bo (.push msg)).Refines bo capacity := by
  simp only [step]
  rcases Nat.lt_or_ge kMaxMessageLen msg.length with hlong | hmax
  · rw [TxBuffer.push_of_too_long hlong]
    exact hs
  rcases Nat.lt_or_ge s.tx.capacity (s.tx.len + kHeaderLen + msg.length) with hfull | hfits
  · rw [TxBuffer.push_of_full hmax hfull]
    exact hs
  · obtain ⟨hok, hi, hc, hb⟩ := hs.inv.push_of_fits bo hmax hfits
    rcases hp : s.tx.push bo msg with ⟨r, t⟩
    rw [hp] at hok hi hc hb
    subst hok
    refine ⟨hi, hc.trans hs.capacity_eq, ?_⟩
    simp only at hb
    rw [hb, ← List.append_assoc, hs.fifo, List.flatMap_append, List.flatMap_singleton]

theorem Refines.flush {bo : ByteOrder} {capacity : ℕ} {s : TxLink} (hs : s.Refines bo capacity)
    (answers : List SendAnswer) : (s.step bo (.flush answers)).Refines bo capacity := by
  obtain ⟨hi, hc, hb⟩ := hs.inv.flush answers
  refine ⟨hi, hc.trans hs.capacity_eq, ?_⟩
  simp only [step]
  rw [List.append_assoc, hb, hs.fifo]

theorem refines_run {bo : ByteOrder} {capacity : ℕ} {t : TxBuffer}
    (h : TxBuffer.make capacity = .ok t) (ops : List TxOp) :
    (ops.foldl (step bo) (init t)).Refines bo capacity := by
  obtain ⟨hi, hb, hc⟩ := TxBuffer.Inv.make h
  refine List.foldlRecOn ops (step bo) ⟨hi, hc, by simpa [init] using hb⟩ fun s hs op _ => ?_
  cases op with
  | push msg => exact hs.push msg
  | flush answers => exact hs.flush answers

/-- **The TX ring is a bounded FIFO of whole frames**, for any interleaving of pushes and
flushes. -/
theorem fifo (bo : ByteOrder) {capacity : ℕ} {t : TxBuffer} (h : TxBuffer.make capacity = .ok t)
    (ops : List TxOp) :
    let s := ops.foldl (step bo) (init t)
    s.wire ++ Ring.window s.tx.data s.tx.head s.tx.len = s.accepted.flatMap (frameBytes bo) ∧
      (∀ msg, ((s.tx.push bo msg).1 = .error .EMSGSIZE ↔ kMaxMessageLen < msg.length) ∧
        ((s.tx.push bo msg).1 = .error .ENOBUFS ↔
          msg.length ≤ kMaxMessageLen ∧ capacity < s.tx.len + kHeaderLen + msg.length) ∧
        ((s.tx.push bo msg).1 = .ok () ↔
          msg.length ≤ kMaxMessageLen ∧ s.tx.len + kHeaderLen + msg.length ≤ capacity) ∧
        ((s.tx.push bo msg).1 ≠ .ok () → (s.tx.push bo msg).2 = s.tx)) ∧
      s.tx.data.length = capacity ∧ s.tx.head < capacity ∧ s.tx.tail < capacity ∧
      s.tx.len ≤ capacity ∧ s.tx.tail = (s.tx.head + s.tx.len) % capacity ∧
      ∀ span ∈ s.tx.touched, 0 < span.len ∧ span.off + span.len ≤ capacity := by
  intro s
  have hs : s.Refines bo capacity := refines_run h ops
  obtain ⟨hi, rfl, hfifo⟩ := hs
  refine ⟨hfifo, fun msg => ?_, s.tx.size, s.tx.head_lt, s.tx.tail_lt, hi.len_le, hi.tail_eq,
    hi.touched⟩
  rcases Nat.lt_or_ge kMaxMessageLen msg.length with hlong | hmax
  · rw [TxBuffer.push_of_too_long hlong]
    simp [hlong]
  rcases Nat.lt_or_ge s.tx.capacity (s.tx.len + kHeaderLen + msg.length) with hfull | hfits
  · rw [TxBuffer.push_of_full hmax hfull]
    simp [hmax, hfull]
  · have hok := (hi.push_of_fits bo hmax hfits).1
    rw [hok]
    simp [hmax, hfits]

/-- The ring of the smallest capacity, used across its wrap point. -/
theorem fifo_five :
    let s := [TxOp.push [7], .flush [.accept 2], .flush [.eintr, .accept 9], .push [8]].foldl
      (step .little) (init ⟨List.replicate 5 0, 5, 0, 0, 0, [], rfl, by decide, by decide⟩)
    s.wire ++ Ring.window s.tx.data s.tx.head s.tx.len = s.accepted.flatMap (frameBytes .little) :=
  (fifo .little (show TxBuffer.make 5 = .ok _ from rfl) _).1

end TxLink

end KwinApi
