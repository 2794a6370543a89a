import Mathlib.Data.List.TakeDrop
import Mathlib.Data.List.Flatten

/-!
# Length-prefixed framing of a stream

A stream is cut into frames: a header of fixed width, which announces a length, and a payload of
that length. `Framing.split` is the reference reading of a whole stream, against which an
incremental decoder is compared. What makes the comparison work is `split_flatMap_append`: any way
to write a stream as well-formed frames followed by an unfinished one is the way `split` finds.

## Main definitions

* `Framing.Header` — a header format: its width and the length it announces
* `Framing.Frame`, `Frame.WellFormed` — one frame, and when its parts agree
* `Framing.split`, `frames`, `remainder` — the complete frames of a stream, and what is left

## Main results

* `Framing.split_flatMap_append` — the decomposition of a stream is unique
* `Framing.frames_prefix` — more of a stream, more frames
-/

namespace Framing

variable {α : Type*}

/-- A header format: a fixed, positive number of symbols, and the payload length they announce. -/
structure Header (α : Type*) where
  /-- The number of symbols of a header. -/
  width : ℕ
  /-- The payload length a header announces. -/
  announced : List α → ℕ
  width_pos : 0 < width

/-- One frame of a stream. -/
structure Frame (α : Type*) where
  /-- The header, as it stands in the stream. -/
  header : List α
  /-- The symbols behind the header. -/
  payload : List α
  deriving DecidableEq, Repr

/-- The symbols of a frame, in stream order. -/
def Frame.symbols (f : Frame α) : List α := f.header ++ f.payload

variable (H : Header α)

/-- The parts of a frame have the lengths its format asks for. -/
structure Frame.WellFormed (f : Frame α) : Prop where
  header : f.header.length = H.width
  payload : f.payload.length = H.announced f.header

/-- The length of the frame a stream starts with, as far as its header is there. -/
def Header.frameLength (s : List α) : ℕ := H.width + H.announced (s.take H.width)

/-- No complete frame can be cut from the front of `s`. -/
def Unfinished (s : List α) : Prop := s.length < H.frameLength s

instance (s : List α) : Decidable (Unfinished H s) := inferInstanceAs (Decidable (_ < _))

/-- The complete frames of a stream and the unfinished rest behind them. -/
def split (s : List α) : List (Frame α) × List α :=
  if Unfinished H s then ([], s)
  else
    let rest := split (s.drop (H.frameLength s))
    (⟨s.take H.width, (s.drop H.width).take (H.announced (s.take H.width))⟩ :: rest.1, rest.2)
termination_by s.length
decreasing_by
  rename_i h
  have hpos := H.width_pos
  rw [Unfinished, Nat.not_lt] at h
  rw [List.length_drop]
  simp only [Header.frameLength] at h ⊢
  omega

/-- The complete frames of a stream. -/
def frames (s : List α) : List (Frame α) := (split H s).1

/-- What a stream holds behind its complete frames. -/
def remainder (s : List α) : List α := (split H s).2

variable {H}

theorem split_of_unfinished {s : List α} (h : Unfinished H s) : split H s = ([], s) := by
  rw [split, if_pos h]

/-- A header that is still being received. -/
theorem unfinished_of_length_lt {s : List α} (h : s.length < H.width) : Unfinished H s := by
  rw [Unfinished, Header.frameLength]
  omega

/-- A complete header with less payload behind it than it announces. -/
theorem unfinished_append {hd part : List α} (hh : hd.length = H.width)
    (h : part.length < H.announced hd) : Unfinished H (hd ++ part) := by
  rw [Unfinished, Header.frameLength, List.length_append, List.take_left' hh]
  omega

theorem split_append {f : Frame α} (hf : f.WellFormed H) (s : List α) :
    split H (f.symbols ++ s) = (f :: (split H s).1, (split H s).2) := by
  have htake : (f.symbols ++ s).take H.width = f.header := by
    rw [Frame.symbols, List.append_assoc, List.take_left' hf.header]
  have hdrop : (f.symbols ++ s).drop H.width = f.payload ++ s := by
    rw [Frame.symbols, List.append_assoc, List.drop_left' hf.header]
  have hlen : H.frameLength (f.symbols ++ s) = f.symbols.length := by
    rw [Header.frameLength, htake, Frame.symbols, List.length_append, hf.header, hf.payload]
  have hfin : ¬ Unfinished H (f.symbols ++ s) := by
    rw [Unfinished, hlen, List.length_append]
    omega
  rw [split, if_neg hfin]
  simp only [htake, hdrop, hlen]
  rw [List.take_left' hf.payload, List.drop_left' rfl]

/-- Whole frames in front of a stream are read off one by one. -/
theorem split_flatMap {fs : List (Frame α)} (hfs : ∀ f ∈ fs, f.WellFormed H) (s : List α) :
    split H (fs.flatMap Frame.symbols ++ s) = (fs ++ (split H s).1, (split H s).2) := by
  induction fs with
  | nil => rfl
  | cons f fs ih =>
    rw [List.flatMap_cons, List.append_assoc, split_append (hfs f (by simp)),
      ih fun g hg => hfs g (List.mem_cons_of_mem _ hg)]
    rfl

/-- **The decomposition of a stream is unique.** However a stream was found to be a sequence of
well-formed frames followed by an unfinished one, `split` finds the same. -/
theorem split_flatMap_append {fs : List (Frame α)} {r : List α} (hfs : ∀ f ∈ fs, f.WellFormed H)
    (hr : Unfinished H r) : split H (fs.flatMap Frame.symbols ++ r) = (fs, r) := by
  rw [split_flatMap hfs, split_of_unfinished hr, List.append_nil]

theorem frames_flatMap_append {fs : List (Frame α)} {r : List α} (hfs : ∀ f ∈ fs, f.WellFormed H)
    (hr : Unfinished H r) : frames H (fs.flatMap Frame.symbols ++ r) = fs := by
  rw [frames, split_flatMap_append hfs hr]

/-- A stream that is one frame. -/
theorem frames_symbols {f : Frame α} (hf : f.WellFormed H) : frames H f.symbols = [f] := by
  have hnil : Unfinished H [] := unfinished_of_length_lt H.width_pos
  rw [frames, ← List.append_nil f.symbols, split_append hf, split_of_unfinished hnil]

theorem remainder_flatMap_append {fs : List (Frame α)} {r : List α}
    (hfs : ∀ f ∈ fs, f.WellFormed H) (hr : Unfinished H r) :
    remainder H (fs.flatMap Frame.symbols ++ r) = r := by
  rw [remainder, split_flatMap_append hfs hr]

/-- The frames of a stream stay when more of it comes. -/
theorem frames_prefix {fs : List (Frame α)} {r : List α} (hfs : ∀ f ∈ fs, f.WellFormed H)
    (hr : Unfinished H r) (s : List α) :
    frames H (fs.flatMap Frame.symbols ++ r) <+: frames H (fs.flatMap Frame.symbols ++ r ++ s) := by
  rw [frames_flatMap_append hfs hr, List.append_assoc, frames, split_flatMap hfs]
  exact List.prefix_append _ _

end Framing
