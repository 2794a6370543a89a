import KwinApi.Lib.Region
import Mathlib.Data.List.Rotate

/-!
# A block of memory read as a ring

`Ring.window mem head n` is the run of `n` cells that starts at `head` and wraps around at the end
of the block. The two moves of a ring buffer are a write just behind the window, which extends it
(`window_blit`), and a step of the head, which drops its front (`window_add`).

## Main definitions

* `Ring.window` — `n` cells from `head` on, with wrap-around

## Main results

* `Ring.window_add` — a window splits at any point
* `Ring.window_eq_slice` — a window that does not wrap is a slice
* `Ring.window_blit` — writing the cells behind a window appends to it
-/

namespace Ring

open Region

variable {α : Type*}

/-- The `n` cells of `mem` from `head` on, wrapping around at the end of `mem`. -/
def window (mem : List α) (head n : ℕ) : List α := (mem.rotate head).take n

@[simp] theorem window_zero (mem : List α) (head : ℕ) : window mem head 0 = [] := by
  simp [window]

theorem length_window {mem : List α} {head n : ℕ} (h : n ≤ mem.length) :
    (window mem head n).length = n := by
  rw [window, List.length_take, List.length_rotate]
  omega

theorem getElem?_window {mem : List α} {head n i : ℕ} (hi : i < n) (hn : n ≤ mem.length) :
    (window mem head n)[i]? = mem[(head + i) % mem.length]? := by
  rw [window, List.getElem?_take_of_lt hi, List.getElem?_rotate (by omega), Nat.add_comm i head]

/-- Where a cell of the ring lies: before the wrap point or behind it. -/
theorem add_mod_cases {head i n : ℕ} (hh : head < n) (hi : i < n) :
    (head + i) % n = if head + i < n then head + i else head + i - n := by
  split_ifs with h
  · exact Nat.mod_eq_of_lt h
  · rw [Nat.mod_eq_sub_mod (by omega), Nat.mod_eq_of_lt (by omega)]

theorem window_add {mem : List α} {head n m : ℕ} (h : n + m ≤ mem.length) :
    window mem head (n + m) = window mem head n ++ window mem ((head + n) % mem.length) m := by
  have hn : (window mem head n).length = n := length_window (by omega)
  refine List.ext_getElem? fun i => ?_
  rcases Nat.lt_or_ge i n with h1 | h1
  · rw [List.getElem?_append_left (by omega), getElem?_window (by omega) h,
      getElem?_window h1 (by omega)]
  · rw [List.getElem?_append_right (by omega), hn]
    rcases Nat.lt_or_ge i (n + m) with h2 | h2
    · rw [getElem?_window h2 h, getElem?_window (by omega) (by omega), Nat.mod_add_mod,
        show head + n + (i - n) = head + i by omega]
    · rw [List.getElem?_eq_none (by rw [length_window h]; omega),
        List.getElem?_eq_none (by rw [length_window (by omega)]; omega)]

theorem window_eq_slice {mem : List α} {head n : ℕ} (h : head + n ≤ mem.length) :
    window mem head n = slice mem head n := by
  refine List.ext_getElem? fun i => ?_
  rcases Nat.lt_or_ge i n with hi | hi
  · rw [getElem?_window hi (by omega), getElem?_slice hi, Nat.mod_eq_of_lt (by omega)]
  · rw [List.getElem?_eq_none (by rw [length_window (by omega)]; omega),
      List.getElem?_eq_none (by rw [length_slice h]; omega)]

/-- Cells written outside a window leave it as it was. -/
theorem window_blit_of_behind {mem src : List α} {head n : ℕ} (hh : head < mem.length)
    (hfit : (head + n) % mem.length + src.length ≤ mem.length)
    (hn : n + src.length ≤ mem.length) :
    window (blit mem ((head + n) % mem.length) src) head n = window mem head n := by
  refine List.ext_getElem? fun i => ?_
  rcases Nat.lt_or_ge i n with hi | hi
  · rw [getElem?_window hi (by rw [length_blit]; omega), getElem?_window hi (by omega),
      getElem?_blit hfit, length_blit]
    rcases Nat.eq_zero_or_pos src.length with hs | hs
    · split_ifs <;> first | rfl | omega
    · rw [add_mod_cases hh (by omega : i < mem.length),
        add_mod_cases hh (by omega : n < mem.length)]
      split_ifs <;> first | rfl | omega
  · rw [List.getElem?_eq_none (by rw [length_window (by rw [length_blit]; omega)]; omega),
      List.getElem?_eq_none (by rw [length_window (by omega)]; omega)]

/-- **Writing behind a window appends to it.** -/
theorem window_blit {mem src : List α} {head n : ℕ} (hh : head < mem.length)
    (hfit : (head + n) % mem.length + src.length ≤ mem.length)
    (hn : n + src.length ≤ mem.length) :
    window (blit mem ((head + n) % mem.length) src) head (n + src.length) =
      window mem head n ++ src := by
  have hnew : window (blit mem ((head + n) % mem.length) src) ((head + n) % mem.length)
      src.length = src := by
    rw [window_eq_slice (by rw [length_blit]; exact hfit), slice_eq_drop_take, take_blit hfit,
      List.drop_left' (by rw [List.length_take]; omega)]
  rw [window_add (by rw [length_blit]; omega), window_blit_of_behind hh hfit hn, length_blit, hnew]

end Ring
