import KwinApi.Lib.Region
import KwinApi.Proto.Protocol
import Mathlib.Data.List.Basic

/-!
# The RX message queue

`RxBuffer` of `rx_buffer.cpp`: a byte buffer that holds `[`, then every complete message followed
by a comma, then the bytes of a message that is still being received. `poll` turns the last comma
of the complete messages into `]` and returns them as one array, `drain` drops them.

`messages` counts in `ℕ` what the source counts in `unsigned`, of 32 bits. A queued message that is
not empty takes two bytes with its comma, so the two differ only in a buffer of `2 ^ 33` bytes and
more (`RxBuffer.Holds.messages_lt`). The class documents at most 16 MB, and the configuration does
not ask for that.

## Main definitions

* `KwinApi.RxBuffer` — the buffer, with `make`, `append`, `messageComplete`, `poll` and `drain`
* `KwinApi.splice` — a list of payloads as an array text, payloads verbatim
* `KwinApi.RxBuffer.Holds` — the queue a buffer stands for

## Main results

* `KwinApi.RxBuffer.Holds.receive`, `Holds.messageComplete`, `Holds.append` — filling the queue
* `KwinApi.RxBuffer.Holds.drainQueue` — `poll` returns the splice of the whole queue, and `drain`
  keeps exactly the bytes of the unfinished message
-/

namespace KwinApi

open Region

/-- `[` -/
def kOpen : UInt8 := 91

/-- `]` -/
def kClose : UInt8 := 93

/-- `,` -/
def kComma : UInt8 := 44

/-- The RX buffer. `touched` records the ranges written, moved or offered to `read`. -/
structure RxBuffer where
  data : List UInt8
  len : ℕ
  capacity : ℕ
  completeLen : ℕ
  messages : ℕ
  touched : List Span
  size : data.length = capacity

namespace RxBuffer

/-- The constructor. -/
def make (capacity : ℕ) : Except String RxBuffer :=
  if capacity < 2 then .error "RxBuffer: capacity too small"
  else .ok
    { data := blit (List.replicate capacity 0) 0 [kOpen]
      len := 1
      capacity := capacity
      completeLen := 1
      messages := 0
      touched := [⟨0, 1⟩]
      size := by simp }

/-- Whether a payload of `n` bytes and its separator still fit. -/
def canFit (b : RxBuffer) (n : ℕ) : Bool := b.len + n + 1 ≤ b.capacity

/-- Store bytes from offset `off` on. -/
def store (b : RxBuffer) (off : ℕ) (bytes : List UInt8) : RxBuffer :=
  { b with
    data := blit b.data off bytes
    touched := b.touched ++ [⟨off, bytes.length⟩]
    size := by rw [length_blit, b.size] }

/-- The bytes `data_ + len_` on are offered to `read`, which may fill `want` of them. -/
def offerTail (b : RxBuffer) (want : ℕ) : RxBuffer :=
  { b with touched := b.touched ++ [⟨b.len, want⟩] }

/-- Move the end of the used bytes. -/
def advance (b : RxBuffer) (n : ℕ) : RxBuffer := { b with len := b.len + n }

/-- Seal the payload that was written at the tail with a comma. -/
def messageComplete (b : RxBuffer) : RxBuffer :=
  { b.store b.len [kComma] with
    len := b.len + 1
    completeLen := b.len + 1
    messages := b.messages + 1 }

/-- Copy one complete payload into the queue. -/
def append (b : RxBuffer) (payload : List UInt8) : Except Errno Unit × RxBuffer :=
  if ¬ b.canFit payload.length then (.error .ENOBUFS, b)
  else (.ok (), ((b.store b.len payload).advance payload.length).messageComplete)

/-- The complete messages as one array text. -/
def poll (b : RxBuffer) : List UInt8 × RxBuffer :=
  if b.messages = 0 then ([kOpen, kClose], b)
  else
    let b' := b.store (b.completeLen - 1) [kClose]
    (b'.data.take b.completeLen, b')

/-- Drop the complete messages and shift the bytes behind them to the front. -/
def drain (b : RxBuffer) : RxBuffer :=
  if b.messages = 0 then b
  else
    let tail := b.len - b.completeLen
    let b' := if 0 < tail then
        { b.store 1 (slice b.data b.completeLen tail) with
          touched := b.touched ++ [⟨b.completeLen, tail⟩, ⟨1, tail⟩] }
      else b
    { b' with len := 1 + tail, completeLen := 1, messages := 0 }

/-- `drain_queue` of `dbus_util.cpp`: copy the queued messages out and drop them. -/
def drainQueue (b : RxBuffer) : List UInt8 × RxBuffer := (b.poll.1, b.poll.2.drain)

end RxBuffer

/-! ### Array texts -/

/-- A list of payloads as an array text: `[`, the payloads verbatim with commas between, `]`. -/
def splice (payloads : List (List UInt8)) : List UInt8 :=
  kOpen :: ([kComma].intercalate payloads ++ [kClose])

/-- Every payload with its separator, as they stand in the buffer. -/
def sealed (payloads : List (List UInt8)) : List UInt8 := payloads.flatMap (· ++ [kComma])

theorem sealed_append_singleton (q : List (List UInt8)) (p : List UInt8) :
    sealed (q ++ [p]) = sealed q ++ p ++ [kComma] := by
  simp [sealed]

theorem length_le_length_sealed (q : List (List UInt8)) : q.length ≤ (sealed q).length := by
  induction q with
  | nil => simp
  | cons p q ih =>
    simp only [sealed, List.flatMap_cons, List.length_append, List.length_cons,
      List.length_nil] at ih ⊢
    omega

/-- A payload that is not empty takes two bytes with its separator. -/
theorem two_mul_length_le_length_sealed {q : List (List UInt8)} (hne : ∀ p ∈ q, p ≠ []) :
    2 * q.length ≤ (sealed q).length := by
  induction q with
  | nil => simp
  | cons p q ih =>
    obtain ⟨hp, hq⟩ := List.forall_mem_cons.mp hne
    have hpos := List.length_pos_iff.mpr hp
    have hrest := ih hq
    simp only [sealed, List.flatMap_cons, List.length_append, List.length_cons,
      List.length_nil] at hrest ⊢
    omega

/-- The separators stand behind the payloads in the buffer and between them in the array. -/
theorem sealed_eq_intercalate {q : List (List UInt8)} (hq : q ≠ []) :
    sealed q = [kComma].intercalate q ++ [kComma] := by
  induction q with
  | nil => exact absurd rfl hq
  | cons p q ih =>
    cases q with
    | nil => simp [sealed, List.intercalate]
    | cons p' q =>
      rw [sealed, List.flatMap_cons, ← sealed, ih (by simp), List.intercalate_cons_cons]
      simp [List.append_assoc]

namespace RxBuffer

/-! ### The queue a buffer stands for -/

/-- `b` holds the complete messages `q` and, behind them, the bytes `part` of an unfinished one;
every range it handed out lies inside it. -/
structure Holds (b : RxBuffer) (q : List (List UInt8)) (part : List UInt8) : Prop where
  bytes : b.data.take b.len = kOpen :: (sealed q ++ part)
  completeLen : b.completeLen = 1 + (sealed q).length
  len : b.len = b.completeLen + part.length
  messages : b.messages = q.length
  len_le : b.len ≤ b.capacity
  touched : ∀ s ∈ b.touched, s.Within b.capacity

variable {b : RxBuffer} {q : List (List UInt8)} {part : List UInt8}

theorem Holds.make {capacity : ℕ} (h : make capacity = .ok b) :
    b.Holds [] [] ∧ b.capacity = capacity := by
  rw [RxBuffer.make] at h
  split_ifs at h with hcap
  cases h
  refine ⟨⟨?_, rfl, rfl, rfl, ?_, ?_⟩, rfl⟩
  · have hfit : 0 + [kOpen].length ≤ (List.replicate capacity (0 : UInt8)).length := by
      rw [List.length_singleton, List.length_replicate]
      omega
    exact take_blit hfit
  · show 1 ≤ capacity
    omega
  · simp only [List.mem_singleton, forall_eq]
    show 0 + 1 ≤ capacity
    omega

theorem Holds.messages_lt_capacity (h : b.Holds q part) : b.messages < b.capacity := by
  have h1 := length_le_length_sealed q
  have h2 := h.len_le
  rw [h.len, h.completeLen] at h2
  rw [h.messages]
  omega

/-- **The counter does not wrap** in a buffer below `2 ^ 33` bytes. -/
theorem Holds.messages_lt (h : b.Holds q part) (hne : ∀ p ∈ q, p ≠ [])
    (hcap : b.capacity < 2 ^ 33) : b.messages < 2 ^ 32 := by
  have h1 := two_mul_length_le_length_sealed hne
  have h2 := h.len_le
  rw [h.len, h.completeLen] at h2
  rw [h.messages]
  omega

@[simp] theorem capacity_store (b : RxBuffer) (off : ℕ) (bytes : List UInt8) :
    (b.store off bytes).capacity = b.capacity := rfl

@[simp] theorem capacity_messageComplete (b : RxBuffer) :
    b.messageComplete.capacity = b.capacity := rfl

theorem touched_store {off : ℕ} {bytes : List UInt8} (h : ∀ s ∈ b.touched, s.Within b.capacity)
    (hfit : off + bytes.length ≤ b.capacity) :
    ∀ s ∈ (b.store off bytes).touched, s.Within b.capacity := by
  simp only [store, List.mem_append, List.mem_singleton]
  rintro s (hs | rfl)
  · exact h s hs
  · exact hfit

theorem Holds.offerTail (h : b.Holds q part) {want : ℕ} (hw : b.len + want ≤ b.capacity) :
    (b.offerTail want).Holds q part := by
  refine ⟨h.bytes, h.completeLen, h.len, h.messages, h.len_le, ?_⟩
  simp only [RxBuffer.offerTail, List.mem_append, List.mem_singleton]
  rintro s (hs | rfl)
  · exact h.touched s hs
  · exact hw

/-- Bytes written at the tail extend the unfinished message. -/
theorem Holds.receive (h : b.Holds q part) {bs : List UInt8}
    (hfit : b.len + bs.length ≤ b.capacity) :
    ((b.store b.len bs).advance bs.length).Holds q (part ++ bs) := by
  refine ⟨?_, h.completeLen, ?_, h.messages, hfit, touched_store h.touched hfit⟩
  · show (blit b.data b.len bs).take (b.len + bs.length) = _
    rw [take_blit (by rw [b.size]; exact hfit), h.bytes]
    simp [List.append_assoc]
  · show b.len + bs.length = b.completeLen + (part ++ bs).length
    rw [h.len, List.length_append, Nat.add_assoc]

/-- Sealing the unfinished message puts it at the end of the queue. -/
theorem Holds.messageComplete (h : b.Holds q part) (hfit : b.len < b.capacity) :
    b.messageComplete.Holds (q ++ [part]) [] := by
  have hlen := h.len
  have hcl := h.completeLen
  refine ⟨?_, ?_, rfl, ?_, hfit, touched_store h.touched hfit⟩
  · show (blit b.data b.len [kComma]).take (b.len + 1) = _
    have htake := take_blit (show b.len + [kComma].length ≤ b.data.length by
      rw [b.size]
      exact hfit)
    rw [List.length_singleton] at htake
    rw [htake, h.bytes, sealed_append_singleton]
    simp [List.append_assoc]
  · show b.len + 1 = _
    rw [sealed_append_singleton]
    simp only [List.length_append, List.length_singleton]
    omega
  · show b.messages + 1 = _
    rw [h.messages, List.length_append, List.length_singleton]

theorem Holds.append (h : b.Holds q []) {payload : List UInt8} :
    (b.append payload).2.capacity = b.capacity ∧
      if b.canFit payload.length then
        (b.append payload).1 = .ok () ∧ (b.append payload).2.Holds (q ++ [payload]) []
      else b.append payload = (.error .ENOBUFS, b) := by
  rw [RxBuffer.append]
  by_cases hfit : b.canFit payload.length
  · have hle : b.len + payload.length + 1 ≤ b.capacity := by simpa [canFit] using hfit
    rw [if_neg (not_not.mpr hfit), if_pos hfit]
    refine ⟨rfl, rfl, ?_⟩
    have hrec := h.receive (show b.len + payload.length ≤ b.capacity by omega)
    rw [List.nil_append] at hrec
    exact hrec.messageComplete (show b.len + payload.length < b.capacity by omega)
  · rw [if_pos hfit, if_neg hfit]
    exact ⟨rfl, rfl⟩

@[simp] theorem capacity_append (b : RxBuffer) (payload : List UInt8) :
    (b.append payload).2.capacity = b.capacity := by
  rw [RxBuffer.append]
  split_ifs <;> rfl

/-! ### Polling and draining -/

@[simp] theorem capacity_poll (b : RxBuffer) : b.poll.2.capacity = b.capacity := by
  rw [poll]
  split_ifs <;> rfl

@[simp] theorem len_poll (b : RxBuffer) : b.poll.2.len = b.len := by
  rw [poll]
  split_ifs <;> rfl

@[simp] theorem completeLen_poll (b : RxBuffer) : b.poll.2.completeLen = b.completeLen := by
  rw [poll]
  split_ifs <;> rfl

@[simp] theorem messages_poll (b : RxBuffer) : b.poll.2.messages = b.messages := by
  rw [poll]
  split_ifs <;> rfl

@[simp] theorem capacity_drain (b : RxBuffer) : b.drain.capacity = b.capacity := by
  simp only [drain]
  split_ifs <;> rfl

@[simp] theorem messages_drain (b : RxBuffer) : b.drain.messages = 0 := by
  rw [drain]
  split_ifs with h
  · exact h
  · rfl

theorem Holds.eq_nil_of_messages (h : b.Holds q part) (hm : b.messages = 0) : q = [] :=
  List.length_eq_zero_iff.mp (h.messages ▸ hm)

/-- With a message queued, the last separator is behind the opening bracket. -/
theorem Holds.two_le_completeLen (h : b.Holds q part) (hm : b.messages ≠ 0) :
    2 ≤ b.completeLen := by
  have hq := length_le_length_sealed q
  have hlen := h.completeLen
  rw [h.messages] at hm
  omega

theorem Holds.completeLen_le (h : b.Holds q part) : b.completeLen ≤ b.data.length := by
  have hlen := h.len
  have hle := h.len_le
  rw [b.size]
  omega

/-- `poll` returns the whole queue as an array text. -/
theorem Holds.poll_text (h : b.Holds q part) : b.poll.1 = splice q := by
  rw [poll]
  split_ifs with hm
  · rw [h.eq_nil_of_messages hm]
    rfl
  · have htwo := h.two_le_completeLen hm
    have hcl := h.completeLen
    have hq : q ≠ [] := fun hq => hm (by rw [h.messages, hq, List.length_nil])
    have hsealed := sealed_eq_intercalate hq
    have hpos : (sealed q).length = ([kComma].intercalate q).length + 1 := by
      rw [hsealed, List.length_append, List.length_singleton]
    have hpre : b.data.take (b.completeLen - 1) = kOpen :: [kComma].intercalate q := by
      have htake := congrArg (List.take (b.completeLen - 1)) h.bytes
      rw [List.take_take, Nat.min_eq_left (by have := h.len; omega)] at htake
      rw [htake, hsealed, show b.completeLen - 1 = ([kComma].intercalate q).length + 1 by omega,
        List.take_succ_cons, List.append_assoc, List.take_left' rfl]
    have htake := take_blit (show b.completeLen - 1 + [kClose].length ≤ b.data.length by
      rw [List.length_singleton]
      have := h.completeLen_le
      omega)
    rw [List.length_singleton, Nat.sub_add_cancel (by omega), hpre] at htake
    exact htake

/-- `poll` only stores inside the complete messages. -/
theorem Holds.drop_poll (h : b.Holds q part) :
    b.poll.2.data.drop b.completeLen = b.data.drop b.completeLen := by
  rw [poll]
  split_ifs with hm
  · rfl
  · have htwo := h.two_le_completeLen hm
    have hle := h.completeLen_le
    have hfit : b.completeLen - 1 + [kClose].length ≤ b.data.length := by
      rw [List.length_singleton]
      omega
    show (blit b.data (b.completeLen - 1) [kClose]).drop b.completeLen = _
    rw [blit_of_le hfit, List.length_singleton, Nat.sub_add_cancel (by omega),
      List.drop_left' (by
        simp only [List.length_append, List.length_take, List.length_singleton]
        omega)]

/-- The complete messages stand behind the opening bracket. -/
theorem Holds.take_completeLen (h : b.Holds q part) :
    b.data.take b.completeLen = kOpen :: sealed q := by
  have htake := congrArg (List.take b.completeLen) h.bytes
  have hlen := h.len
  rw [List.take_take, Nat.min_eq_left (by omega)] at htake
  rw [htake, h.completeLen, Nat.add_comm 1, List.take_succ_cons, List.take_left' rfl]

theorem Holds.take_one (h : b.Holds q part) : b.data.take 1 = [kOpen] := by
  have htake := congrArg (List.take 1) h.bytes
  rw [List.take_take, Nat.min_eq_left (by have := h.len; have := h.completeLen; omega)] at htake
  exact htake

/-- `poll` leaves the opening bracket alone. -/
theorem Holds.take_one_poll (h : b.Holds q part) : b.poll.2.data.take 1 = [kOpen] := by
  rw [poll]
  split_ifs with hm
  · exact h.take_one
  · have htwo := h.two_le_completeLen hm
    have hle := h.completeLen_le
    exact (take_blit_of_le (by rw [List.length_singleton]; omega) (by omega)).trans h.take_one

theorem Holds.touched_poll (h : b.Holds q part) :
    ∀ s ∈ b.poll.2.touched, s.Within b.capacity := by
  rw [poll]
  split_ifs with hm
  · exact h.touched
  · have htwo := h.two_le_completeLen hm
    have hle := h.completeLen_le
    rw [b.size] at hle
    exact touched_store h.touched (by rw [List.length_singleton]; omega)

/-- The bytes behind the complete messages are those of the unfinished one. -/
theorem Holds.slice_eq (h : b.Holds q part) : slice b.data b.completeLen part.length = part := by
  rw [slice_eq_drop_take, ← h.len, h.bytes, h.completeLen, Nat.add_comm 1, List.drop_succ_cons,
    List.drop_left' rfl]

theorem slice_congr_of_drop {mem mem' : List UInt8} {off n : ℕ}
    (h : mem'.drop off = mem.drop off) : slice mem' off n = slice mem off n := by
  rw [slice, slice, h]

/-- A buffer whose messages are dropped keeps the bytes behind them. -/
theorem holds_drain {c : RxBuffer} (hm : c.messages ≠ 0) (hone : c.data.take 1 = [kOpen])
    (hpart : slice c.data c.completeLen part.length = part)
    (hlen : c.len = c.completeLen + part.length) (hpos : 1 ≤ c.completeLen)
    (hle : c.len ≤ c.capacity) (htouched : ∀ s ∈ c.touched, s.Within c.capacity) :
    c.drain.Holds [] part := by
  have htail : c.len - c.completeLen = part.length := by omega
  rw [drain, if_neg hm]
  simp only [htail]
  split_ifs with hp
  · refine ⟨?_, rfl, rfl, rfl, ?_, ?_⟩
    · show (blit c.data 1 (slice c.data c.completeLen part.length)).take (1 + part.length) = _
      have hfit : 1 + part.length ≤ c.data.length := by
        rw [c.size]
        omega
      rw [hpart, take_blit hfit, hone]
      rfl
    · show 1 + part.length ≤ c.capacity
      omega
    · show ∀ s ∈ c.touched ++ [_, _], s.Within c.capacity
      simp only [List.mem_append, List.mem_cons, List.not_mem_nil, or_false]
      rintro s (hs | rfl | rfl)
      · exact htouched s hs
      · show c.completeLen + part.length ≤ c.capacity
        omega
      · show 1 + part.length ≤ c.capacity
        omega
  · have hnil : part = [] := List.length_eq_zero_iff.mp (by omega)
    subst hnil
    refine ⟨hone, rfl, rfl, rfl, ?_, htouched⟩
    show 1 + 0 ≤ c.capacity
    omega

theorem Holds.drain (h : b.Holds q part) : b.drain.Holds [] part := by
  by_cases hm : b.messages = 0
  · have hq : q = [] := h.eq_nil_of_messages hm
    subst hq
    rw [RxBuffer.drain, if_pos hm]
    exact h
  · have htwo := h.two_le_completeLen hm
    exact holds_drain hm h.take_one h.slice_eq h.len (by omega) h.len_le h.touched

/-- **`poll`, then `drain`**: the reply is the splice of the whole queue, and what stays are the
bytes of the unfinished message. -/
theorem Holds.drainQueue (h : b.Holds q part) :
    b.drainQueue.1 = splice q ∧ b.drainQueue.2.Holds [] part := by
  refine ⟨h.poll_text, ?_⟩
  show b.poll.2.drain.Holds [] part
  by_cases hm : b.messages = 0
  · rw [poll, if_pos hm]
    exact h.drain
  · have htwo := h.two_le_completeLen hm
    refine holds_drain ?_ h.take_one_poll ?_ ?_ ?_ ?_ ?_
    · rwa [messages_poll]
    · rw [completeLen_poll]
      exact (slice_congr_of_drop h.drop_poll).trans h.slice_eq
    · rw [len_poll, completeLen_poll]
      exact h.len
    · rw [completeLen_poll]
      omega
    · rw [len_poll, capacity_poll]
      exact h.len_le
    · rw [capacity_poll]
      exact h.touched_poll

end RxBuffer

end KwinApi
