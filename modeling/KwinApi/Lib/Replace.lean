import Mathlib.Data.List.Infix
import Mathlib.Tactic.Common

/-!
# Occurrences of a text

Where a needle stands in a text, and the pieces a text falls into at the leftmost occurrences that
do not overlap. A replacement that cannot take part in an occurrence creates none when the pieces
are joined with it.

## Main definitions

* `KwinApi.find` — the first occurrence
* `KwinApi.Pieces` — the pieces between the leftmost non-overlapping occurrences
* `KwinApi.Inert` — texts that take no part in an occurrence

## Main results

* `KwinApi.Pieces.intercalate` — the pieces joined with the needle are the text
* `KwinApi.Pieces.not_infix_intercalate` — joined with an inert text they hold no occurrence
-/

namespace KwinApi

variable {α : Type*}

/-! ### The first occurrence -/

section Find

variable [DecidableEq α]

/-- The position of the first occurrence. -/
def find (needle : List α) : List α → Option ℕ
  | [] => if needle = [] then some 0 else none
  | c :: cs => if needle <+: c :: cs then some 0 else (find needle cs).map (· + 1)

theorem find_eq_none {needle s : List α} : find needle s = none ↔ ¬ needle <:+: s := by
  induction s with
  | nil => simp [find]
  | cons c cs ih =>
    rw [find, List.infix_cons_iff]
    split_ifs with h
    · simp [h]
    · simp [h, ih]

theorem find_eq_some {needle s : List α} {i : ℕ} (h : find needle s = some i) :
    needle <+: s.drop i ∧ ∀ j < i, ¬ needle <+: s.drop j := by
  induction s generalizing i with
  | nil =>
    rw [find] at h
    split_ifs at h with hnil
    obtain rfl := Option.some.inj h
    exact ⟨hnil ▸ List.nil_prefix, nofun⟩
  | cons c cs ih =>
    rw [find] at h
    split_ifs at h with hhere
    · obtain rfl := Option.some.inj h
      exact ⟨hhere, nofun⟩
    · obtain ⟨k, hk, rfl⟩ := Option.map_eq_some_iff.mp h
      obtain ⟨hat, hbefore⟩ := ih hk
      refine ⟨hat, fun j hj => ?_⟩
      rcases j with _ | j
      · exact hhere
      · exact hbefore j (by omega)

/-- The needle of an occurrence fits behind its position. -/
theorem add_length_le_of_find {needle s : List α} {i : ℕ} (h : find needle s = some i)
    (hne : needle ≠ []) : i + needle.length ≤ s.length := by
  have hle := (find_eq_some h).1.length_le
  have hpos := List.length_pos_iff.mpr hne
  rw [List.length_drop] at hle
  omega

/-- A text around its first occurrence. -/
theorem eq_of_find {needle s : List α} {i : ℕ} (h : find needle s = some i) :
    s = s.take i ++ (needle ++ s.drop (i + needle.length)) := by
  obtain ⟨t, ht⟩ := (find_eq_some h).1
  have hdrop : s.drop (i + needle.length) = t := by
    rw [← List.drop_drop, ← ht, List.drop_left]
  rw [hdrop, ht, List.take_append_drop]

end Find

/-! ### Pieces -/

/-- The pieces of a text between the leftmost occurrences of the needle that do not overlap. -/
inductive Pieces (needle : List α) : List α → List (List α) → Prop where
  | last {s : List α} (h : ¬ needle <:+: s) : Pieces needle s [s]
  /-- Behind the first piece stands the first occurrence. -/
  | cons {p rest : List α} {ps : List (List α)}
      (hfirst : ∀ i < p.length, ¬ needle <+: (p ++ (needle ++ rest)).drop i)
      (h : Pieces needle rest ps) : Pieces needle (p ++ (needle ++ rest)) (p :: ps)

variable {needle s : List α} {ps : List (List α)}

theorem Pieces.ne_nil (h : Pieces needle s ps) : ps ≠ [] := by
  cases h <;> exact List.cons_ne_nil _ _

/-- Joining pieces with one in front. -/
theorem intercalate_cons {p r : List α} (hne : ps ≠ []) :
    r.intercalate (p :: ps) = p ++ (r ++ r.intercalate ps) := by
  obtain ⟨q, qs, rfl⟩ := List.exists_cons_of_ne_nil hne
  rw [List.intercalate_cons_cons, List.append_assoc]

/-- The pieces with the needle between them are the text. -/
theorem Pieces.intercalate (h : Pieces needle s ps) : needle.intercalate ps = s := by
  induction h with
  | last h => exact List.intercalate_singleton
  | cons hfirst h ih => rw [intercalate_cons h.ne_nil, ih]

/-- No piece holds the needle. -/
theorem not_infix_of_first {p rest : List α} (hne : needle ≠ [])
    (hfirst : ∀ i < p.length, ¬ needle <+: (p ++ (needle ++ rest)).drop i) : ¬ needle <:+: p := by
  rintro ⟨u, t, rfl⟩
  have hpos := List.length_pos_iff.mpr hne
  refine hfirst u.length ?_ ?_
  · simp only [List.length_append]
    omega
  · rw [List.append_assoc, List.append_assoc, List.drop_left]
    exact List.prefix_append _ _

/-! ### Joining with another text -/

/-- A text that takes no part in an occurrence: one of its elements is not in the needle, and it
holds neither the first nor the last element of the needle. -/
structure Inert (needle r : List α) : Prop where
  stranger : ∃ c ∈ r, c ∉ needle
  head : ∀ c ∈ r, needle.head? ≠ some c
  last : ∀ c ∈ r, needle.getLast? ≠ some c

/-- No occurrence lies across an element that is not in the needle. -/
theorem infix_of_stranger {x y : List α} {c : α} (hc : c ∉ needle) (hne : needle ≠ [])
    (h : needle <:+: x ++ c :: y) : needle <:+: x ∨ needle <:+: y := by
  have hfirst : ∀ l, l ≠ [] → l <+: c :: y → c ∈ l := by
    rintro l hl ⟨t, ht⟩
    obtain ⟨d, ds, rfl⟩ := List.exists_cons_of_ne_nil hl
    obtain ⟨rfl, -⟩ := List.cons.inj ht
    exact List.mem_cons_self
  rcases List.infix_append_iff_ne_nil.mp h with h | h | ⟨l₁, l₂, -, hl₂, rfl, -, h⟩
  · exact Or.inl h
  · rcases List.infix_cons_iff.mp h with h | h
    · exact absurd (hfirst _ hne h) hc
    · exact Or.inr h
  · exact absurd (List.mem_append_right _ (hfirst _ hl₂ h)) hc

/-- No occurrence begins in elements that differ from its first one. -/
theorem infix_of_append_left {v s : List α} (hv : ∀ c ∈ v, needle.head? ≠ some c)
    (hne : needle ≠ []) (h : needle <:+: v ++ s) : needle <:+: s := by
  obtain ⟨a, t, rfl⟩ := List.exists_cons_of_ne_nil hne
  have hnot : a ∉ v := fun ha => hv a ha rfl
  rcases List.infix_append_iff_ne_nil.mp h with h | h | ⟨l₁, l₂, hl₁, -, heq, h, -⟩
  · exact absurd (h.subset List.mem_cons_self) hnot
  · exact h
  · obtain ⟨d, ds, rfl⟩ := List.exists_cons_of_ne_nil hl₁
    obtain ⟨rfl, -⟩ := List.cons.inj heq
    exact absurd (h.subset List.mem_cons_self) hnot

/-- No occurrence ends in elements that differ from its last one. -/
theorem infix_of_append_right {u s : List α} (hu : ∀ c ∈ u, needle.getLast? ≠ some c)
    (hne : needle ≠ []) (h : needle <:+: s ++ u) : needle <:+: s := by
  rw [← List.reverse_infix] at h ⊢
  rw [List.reverse_append] at h
  refine infix_of_append_left ?_ (by simpa using hne) h
  intro c hc
  rw [List.head?_reverse]
  exact hu c (List.mem_reverse.mp hc)

/-- **The pieces joined with an inert text hold no occurrence**, whatever inert text stands in
front. -/
theorem Pieces.not_infix_append {r : List α} (h : Pieces needle s ps) (hne : needle ≠ [])
    (hr : Inert needle r) {w : List α} (hw : ∀ c ∈ w, needle.head? ≠ some c) :
    ¬ needle <:+: w ++ r.intercalate ps := by
  obtain ⟨c, hc, hnot⟩ := hr.stranger
  obtain ⟨u, v, hr'⟩ := List.append_of_mem hc
  induction h generalizing w with
  | last h =>
    rw [List.intercalate_singleton]
    exact fun hocc => h (infix_of_append_left hw hne hocc)
  | @cons p rest ps hfirst h ih =>
    have hsplit : w ++ r.intercalate (p :: ps) =
        (w ++ p ++ u) ++ c :: (v ++ r.intercalate ps) := by
      rw [intercalate_cons h.ne_nil]
      nth_rewrite 1 [hr']
      simp only [List.append_assoc, List.cons_append]
    rw [hsplit]
    intro hocc
    rcases infix_of_stranger hnot hne hocc with hocc | hocc
    · have hu : ∀ d ∈ u, needle.getLast? ≠ some d := fun d hd =>
        hr.last d (hr' ▸ List.mem_append_left _ hd)
      have hp := infix_of_append_right hu hne hocc
      exact not_infix_of_first hne hfirst (infix_of_append_left hw hne hp)
    · refine ih (fun d hd => hr.head d ?_) hocc
      rw [hr']
      exact List.mem_append_right _ (List.mem_cons_of_mem _ hd)

theorem Pieces.not_infix_intercalate {r : List α} (h : Pieces needle s ps) (hne : needle ≠ [])
    (hr : Inert needle r) : ¬ needle <:+: r.intercalate ps := by
  have hnot := @Pieces.not_infix_append _ _ _ _ _ h hne hr [] nofun
  rwa [List.nil_append] at hnot

end KwinApi
