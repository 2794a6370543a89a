import Mathlib.Data.List.Induction
import Mathlib.Data.List.TakeWhile
import Mathlib.Data.Nat.Digits.Defs

/-!
# Integers written in a base

A signed integer as C libraries read it: any whitespace, a sign or none, and one digit or more, the
most significant one first. The characters are those of a numeral system, which carries the facts
that keep the three parts of a text apart.

## Main definitions

* `KwinApi.NumeralSystem` — a base and its characters
* `NumeralSystem.ofDigits` — the number of a row of digits
* `NumeralSystem.Denotes` — the texts of an integer

## Main results

* `NumeralSystem.ofDigits_eq_foldl` — Horner's rule
* `NumeralSystem.denotes_iff` — the whitespace is the longest beginning of the text that is one
* `NumeralSystem.Denotes.unique` — a text stands for one integer at most
-/

namespace KwinApi

/-- A base with its digits, its two signs and the whitespace that may stand before a number. -/
structure NumeralSystem (α : Type*) where
  base : ℕ
  value : α → ℕ
  isDigit : α → Bool
  isSpace : α → Bool
  plus : α
  minus : α
  plus_ne_minus : plus ≠ minus
  isSpace_of_isDigit : ∀ c, isDigit c = true → isSpace c = false
  isSpace_plus : isSpace plus = false
  isSpace_minus : isSpace minus = false
  isDigit_plus : isDigit plus = false
  isDigit_minus : isDigit minus = false

namespace NumeralSystem

variable {α : Type*} (S : NumeralSystem α) {ds s text : List α} {n m : ℤ}

/-- The number that digits stand for, the most significant one first. -/
def ofDigits (ds : List α) : ℕ := Nat.ofDigits S.base (ds.reverse.map S.value)

/-- One digit or more. -/
def IsDigits (ds : List α) : Prop := ds ≠ [] ∧ ∀ d ∈ ds, S.isDigit d = true

/-- A number with a sign or without one. -/
inductive Signed : List α → ℤ → Prop where
  | unsigned {ds : List α} (hds : S.IsDigits ds) : Signed ds (S.ofDigits ds)
  | plus {ds : List α} (hds : S.IsDigits ds) : Signed (S.plus :: ds) (S.ofDigits ds)
  | minus {ds : List α} (hds : S.IsDigits ds) : Signed (S.minus :: ds) (-(S.ofDigits ds : ℤ))

/-- The texts of an integer: whitespace, and the number with its sign. -/
inductive Denotes : List α → ℤ → Prop where
  | mk {ws s : List α} {n : ℤ} (hws : ∀ c ∈ ws, S.isSpace c = true) (h : S.Signed s n) :
      Denotes (ws ++ s) n

/-- Horner's rule. -/
theorem ofDigits_eq_foldl (ds : List α) :
    S.ofDigits ds = ds.foldl (fun acc d => S.base * acc + S.value d) 0 := by
  induction ds using List.reverseRecOn with
  | nil => rfl
  | append_singleton ds d ih =>
    rw [List.foldl_append, List.foldl_cons, List.foldl_nil, ← ih, ofDigits, List.reverse_append,
      List.reverse_singleton, List.singleton_append, List.map_cons, Nat.ofDigits_cons, ofDigits,
      Nat.add_comm]

variable {S}

/-! ### The parts of a text -/

theorem Signed.ne_nil (h : S.Signed s n) : s ≠ [] := by
  cases h with
  | unsigned hds => exact hds.1
  | plus hds => exact List.cons_ne_nil _ _
  | minus hds => exact List.cons_ne_nil _ _

theorem Signed.isSpace_head {c : α} (h : S.Signed (c :: s) n) : S.isSpace c = false := by
  cases h with
  | unsigned hds => exact S.isSpace_of_isDigit c (hds.2 c List.mem_cons_self)
  | plus hds => exact S.isSpace_plus
  | minus hds => exact S.isSpace_minus

theorem signed_minus : S.Signed (S.minus :: ds) n ↔ S.IsDigits ds ∧ n = -(S.ofDigits ds : ℤ) := by
  constructor
  · intro h
    generalize ht : S.minus :: ds = t at h
    cases h with
    | unsigned hds =>
      subst ht
      exact absurd (hds.2 S.minus List.mem_cons_self) (by simp [S.isDigit_minus])
    | plus hds => exact absurd (List.cons.inj ht).1.symm S.plus_ne_minus
    | minus hds =>
      obtain ⟨-, rfl⟩ := List.cons.inj ht
      exact ⟨hds, rfl⟩
  · rintro ⟨hds, rfl⟩
    exact .minus hds

theorem signed_plus : S.Signed (S.plus :: ds) n ↔ S.IsDigits ds ∧ n = S.ofDigits ds := by
  constructor
  · intro h
    generalize ht : S.plus :: ds = t at h
    cases h with
    | unsigned hds =>
      subst ht
      exact absurd (hds.2 S.plus List.mem_cons_self) (by simp [S.isDigit_plus])
    | plus hds =>
      obtain ⟨-, rfl⟩ := List.cons.inj ht
      exact ⟨hds, rfl⟩
    | minus hds => exact absurd (List.cons.inj ht).1 S.plus_ne_minus
  · rintro ⟨hds, rfl⟩
    exact .plus hds

theorem signed_of_ne (hplus : s.head? ≠ some S.plus) (hminus : s.head? ≠ some S.minus) :
    S.Signed s n ↔ S.IsDigits s ∧ n = S.ofDigits s := by
  constructor
  · intro h
    cases h with
    | unsigned hds => exact ⟨hds, rfl⟩
    | plus hds => exact absurd rfl hplus
    | minus hds => exact absurd rfl hminus
  · rintro ⟨hds, rfl⟩
    exact .unsigned hds

theorem Signed.unique (h : S.Signed s n) (h' : S.Signed s m) : n = m := by
  cases h with
  | unsigned hds =>
    cases h' with
    | unsigned _ => rfl
    | plus _ => exact absurd (hds.2 S.plus List.mem_cons_self) (by simp [S.isDigit_plus])
    | minus _ => exact absurd (hds.2 S.minus List.mem_cons_self) (by simp [S.isDigit_minus])
  | plus hds => exact (signed_plus.mp h').2.symm
  | minus hds => exact (signed_minus.mp h').2.symm

/-- The number begins behind all the whitespace at the start of the text. -/
theorem denotes_iff : S.Denotes text n ↔ S.Signed (text.dropWhile S.isSpace) n := by
  constructor
  · intro h
    obtain @⟨ws, s, _, hws, h⟩ := h
    rw [List.dropWhile_append_of_pos hws]
    cases s with
    | nil => exact absurd rfl h.ne_nil
    | cons c s => rwa [List.dropWhile_cons_of_neg (by simp [h.isSpace_head])]
  · intro h
    rw [← List.takeWhile_append_dropWhile (p := S.isSpace) (l := text)]
    exact .mk (fun c hc => List.mem_takeWhile_imp hc) h

theorem Denotes.unique (h : S.Denotes text n) (h' : S.Denotes text m) : n = m :=
  (denotes_iff.mp h).unique (denotes_iff.mp h')

end NumeralSystem

end KwinApi
