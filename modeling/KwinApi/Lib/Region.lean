import Mathlib.Data.List.Basic
import Mathlib.Data.List.TakeDrop

/-!
# A list as a block of memory

A fixed block of memory is a list, a write is `blit` and a read is `slice`. Both are total: what
falls outside the block is dropped, so the length of a block never changes. That a write stays
inside the block is a hypothesis on the lemmas, not part of the definitions.

## Main definitions

* `Region.blit` — overwrite a block from an offset on
* `Region.slice` — read `n` cells from an offset on

## Main results

* `Region.length_blit` — a write does not resize the block
* `Region.take_blit` — after a write inside the block, the prefix up to its end
* `Region.getElem?_blit` — a cell after a write
-/

namespace Region

variable {α : Type*}

/-- Overwrite `mem` from offset `off` on with `src`. Cells past the end are dropped. -/
def blit (mem : List α) (off : ℕ) (src : List α) : List α :=
  mem.take off ++ src.take (mem.length - off) ++ mem.drop (off + src.length)

/-- The `n` cells of `mem` from offset `off` on. -/
def slice (mem : List α) (off n : ℕ) : List α := (mem.drop off).take n

@[simp] theorem length_blit (mem : List α) (off : ℕ) (src : List α) :
    (blit mem off src).length = mem.length := by
  simp only [blit, List.length_append, List.length_take, List.length_drop]
  omega

theorem blit_of_le {mem src : List α} {off : ℕ} (h : off + src.length ≤ mem.length) :
    blit mem off src = mem.take off ++ src ++ mem.drop (off + src.length) := by
  have hsrc : src.length ≤ mem.length - off := by omega
  rw [blit, List.take_of_length_le hsrc]

/-- The prefix up to the end of a write: what was there before, then what was written. -/
theorem take_blit {mem src : List α} {off : ℕ} (h : off + src.length ≤ mem.length) :
    (blit mem off src).take (off + src.length) = mem.take off ++ src := by
  rw [blit_of_le h, List.take_left' (by simp only [List.length_append, List.length_take]; omega)]

theorem take_blit_of_le {mem src : List α} {off n : ℕ} (h : off + src.length ≤ mem.length)
    (hn : n ≤ off) : (blit mem off src).take n = mem.take n := by
  have hlen : n ≤ (mem.take off).length := by rw [List.length_take]; omega
  rw [blit_of_le h, List.append_assoc, List.take_append_of_le_length hlen, List.take_take,
    Nat.min_eq_left hn]

/-- A cell after a write inside the block. -/
theorem getElem?_blit {mem src : List α} {off : ℕ} (h : off + src.length ≤ mem.length) (i : ℕ) :
    (blit mem off src)[i]? =
      if i < off then mem[i]? else if i < off + src.length then src[i - off]? else mem[i]? := by
  have hoff : (mem.take off).length = off := by rw [List.length_take]; omega
  rw [blit_of_le h, List.append_assoc]
  split_ifs with h1 h2
  · rw [List.getElem?_append_left (by omega), List.getElem?_take_of_lt h1]
  · rw [List.getElem?_append_right (by omega), hoff, List.getElem?_append_left (by omega)]
  · rw [List.getElem?_append_right (by omega), hoff, List.getElem?_append_right (by omega),
      List.getElem?_drop]
    congr 1
    omega

theorem length_slice {mem : List α} {off n : ℕ} (h : off + n ≤ mem.length) :
    (slice mem off n).length = n := by
  rw [slice, List.length_take, List.length_drop]
  omega

/-- A slice only depends on the prefix that ends with it. -/
theorem slice_eq_drop_take (mem : List α) (off n : ℕ) :
    slice mem off n = (mem.take (off + n)).drop off := by
  rw [slice, List.drop_take, Nat.add_sub_cancel_left]

theorem getElem?_slice {mem : List α} {off n i : ℕ} (h : i < n) :
    (slice mem off n)[i]? = mem[off + i]? := by
  rw [slice, List.getElem?_take_of_lt h, List.getElem?_drop]

end Region
