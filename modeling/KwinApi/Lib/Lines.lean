import Mathlib.Data.List.Basic
import Mathlib.Data.List.Flatten
import Mathlib.Tactic.Common

/-!
# Lines of a stream

A stream is cut at every separator: complete lines, which a separator ends, and a rest without one.
A reader that gets the stream in parts keeps the rest and puts the next part behind it; the lines it
finds are the lines of the whole stream, wherever it is cut.

## Main definitions

* `KwinApi.Lines.complete`, `Lines.rest` — the lines of a stream, and what stands behind the last

## Main results

* `Lines.flatMap_complete_append_rest` — lines and rest make up the stream
* `Lines.complete_append`, `Lines.rest_append` — a stream that goes on
* `Lines.complete_of_mem` — one line after the other
-/

namespace KwinApi

namespace Lines

variable {α : Type*} [DecidableEq α] {sep : α} {lines : List (List α)} {line s t : List α}

/-- The lines that are ended by a separator. -/
def complete (sep : α) (s : List α) : List (List α) := (s.splitOn sep).dropLast

/-- What stands behind the last separator. -/
def rest (sep : α) (s : List α) : List α := (s.splitOn sep).getLast (List.splitOn_ne_nil sep s)

/-- A stream without a separator has no line. -/
theorem complete_of_not_mem (h : sep ∉ s) : complete sep s = [] := by
  rw [complete, List.splitOn_eq_singleton h]
  rfl

theorem rest_of_not_mem (h : sep ∉ s) : rest sep s = s := by
  simp only [rest, List.splitOn_eq_singleton h]
  rfl

/-- The first line. -/
theorem complete_cons (h : sep ∉ line) (s : List α) :
    complete sep (line ++ sep :: s) = line :: complete sep s := by
  rw [complete, List.splitOn_append_cons_self_of_not_mem h,
    List.dropLast_cons_of_ne_nil (List.splitOn_ne_nil sep s), complete]

theorem rest_cons (h : sep ∉ line) (s : List α) : rest sep (line ++ sep :: s) = rest sep s := by
  simp only [rest, List.splitOn_append_cons_self_of_not_mem h]
  exact List.getLast_cons (List.splitOn_ne_nil sep s)

/-- Every stream consists of lines and a rest. -/
theorem exists_eq_flatMap_append (sep : α) (s : List α) :
    ∃ (lines : List (List α)) (r : List α), s = lines.flatMap (· ++ [sep]) ++ r ∧
      (∀ line ∈ lines, sep ∉ line) ∧ sep ∉ r := by
  induction s with
  | nil => exact ⟨[], [], rfl, by simp, List.not_mem_nil⟩
  | cons a s ih =>
    obtain ⟨lines, r, rfl, hlines, hr⟩ := ih
    by_cases ha : a = sep
    · subst ha
      exact ⟨[] :: lines, r, by simp, List.forall_mem_cons.mpr ⟨List.not_mem_nil, hlines⟩, hr⟩
    · have hcons : ∀ l : List α, sep ∉ l → sep ∉ a :: l := by
        intro l hl hmem
        rcases List.mem_cons.mp hmem with heq | hmem
        · exact ha heq.symm
        · exact hl hmem
      cases lines with
      | nil => exact ⟨[], a :: r, rfl, by simp, hcons r hr⟩
      | cons line lines =>
        obtain ⟨hline, hlines⟩ := List.forall_mem_cons.mp hlines
        exact ⟨(a :: line) :: lines, r, by simp,
          List.forall_mem_cons.mpr ⟨hcons line hline, hlines⟩, hr⟩

/-- Lines in front of a stream are its first lines. -/
theorem complete_flatMap_append (h : ∀ line ∈ lines, sep ∉ line) (s : List α) :
    complete sep (lines.flatMap (· ++ [sep]) ++ s) = lines ++ complete sep s := by
  induction lines with
  | nil => rfl
  | cons line lines ih =>
    obtain ⟨hline, hlines⟩ := List.forall_mem_cons.mp h
    rw [List.flatMap_cons, List.append_assoc, List.append_assoc, List.singleton_append,
      complete_cons hline, ih hlines, List.cons_append]

theorem rest_flatMap_append (h : ∀ line ∈ lines, sep ∉ line) (s : List α) :
    rest sep (lines.flatMap (· ++ [sep]) ++ s) = rest sep s := by
  induction lines with
  | nil => rfl
  | cons line lines ih =>
    obtain ⟨hline, hlines⟩ := List.forall_mem_cons.mp h
    rw [List.flatMap_cons, List.append_assoc, List.append_assoc, List.singleton_append,
      rest_cons hline, ih hlines]

/-- No line holds a separator, nor does the rest. -/
theorem not_mem_complete (sep : α) (s : List α) :
    (∀ line ∈ complete sep s, sep ∉ line) ∧ sep ∉ rest sep s := by
  obtain ⟨lines, r, rfl, hlines, hr⟩ := exists_eq_flatMap_append sep s
  rw [complete_flatMap_append hlines, rest_flatMap_append hlines, complete_of_not_mem hr,
    rest_of_not_mem hr, List.append_nil]
  exact ⟨hlines, hr⟩

/-- **Lines and rest make up the stream.** -/
theorem flatMap_complete_append_rest (sep : α) (s : List α) :
    (complete sep s).flatMap (· ++ [sep]) ++ rest sep s = s := by
  obtain ⟨lines, r, rfl, hlines, hr⟩ := exists_eq_flatMap_append sep s
  rw [complete_flatMap_append hlines, rest_flatMap_append hlines, complete_of_not_mem hr,
    rest_of_not_mem hr, List.append_nil]

/-- **A stream that goes on**: further lines begin with the rest of the lines before. -/
theorem complete_append (sep : α) (s t : List α) :
    complete sep (s ++ t) = complete sep s ++ complete sep (rest sep s ++ t) := by
  have hs := flatMap_complete_append_rest sep s
  rw [← complete_flatMap_append (not_mem_complete sep s).1, ← List.append_assoc, hs]

theorem rest_append (sep : α) (s t : List α) :
    rest sep (s ++ t) = rest sep (rest sep s ++ t) := by
  have hs := flatMap_complete_append_rest sep s
  rw [← rest_flatMap_append (not_mem_complete sep s).1 (rest sep s ++ t), ← List.append_assoc, hs]

/-- The first line, cut off at the first separator. -/
theorem complete_of_mem (h : sep ∈ s) :
    complete sep s = s.take (s.idxOf sep) :: complete sep (s.drop (s.idxOf sep + 1)) ∧
      rest sep s = rest sep (s.drop (s.idxOf sep + 1)) := by
  have hlt : s.idxOf sep < s.length := List.idxOf_lt_length_iff.mpr h
  have hline : sep ∉ s.take (s.idxOf sep) := by
    rw [List.mem_take_iff_idxOf_lt h]
    exact Nat.lt_irrefl _
  have hsplit : s = s.take (s.idxOf sep) ++ sep :: s.drop (s.idxOf sep + 1) := by
    have hcons := List.drop_eq_getElem_cons hlt
    rw [List.getElem_idxOf hlt] at hcons
    rw [← hcons, List.take_append_drop]
  have hfirst := complete_cons hline (s.drop (s.idxOf sep + 1))
  have hrest := rest_cons hline (s.drop (s.idxOf sep + 1))
  rw [← hsplit] at hfirst hrest
  exact ⟨hfirst, hrest⟩

theorem length_rest_le (sep : α) (s : List α) : (rest sep s).length ≤ s.length := by
  have hlen := congrArg List.length (flatMap_complete_append_rest sep s)
  rw [List.length_append] at hlen
  omega

end Lines

end KwinApi
