import Mathlib.Tactic.Common
import Mathlib.Tactic.SplitIfs

/-!
# Steps that may return early

A program whose steps hand a state on, or leave with a result, is a chain in `Except`. Such a chain
is judged by two conditions at once: one for the results it leaves with, one for the state it goes
on with.

## Main definitions

* `KwinApi.Meets` — every result satisfies the one condition, the state handed on the other
* `KwinApi.leaveIf` — the step that leaves on a condition
* `KwinApi.Goes` — the step that hands a state on

## Main results

* `Meets.bind`, `meets_leaveIf` — the rules of composition
* `Meets.bind_congr` — when two ways to go on make no difference
* `Meets.goes_bind`, `goes_leaveIf` — when a chain goes on
-/

namespace KwinApi

universe u v

variable {ρ : Type u} {σ τ : Type v} {P : ρ → Prop} {Q : σ → Prop} {R : τ → Prop}

/-- What a step leaves with satisfies `P`, what it goes on with satisfies `Q`. -/
def Meets (P : ρ → Prop) (Q : σ → Prop) : Except ρ σ → Prop
  | .error r => P r
  | .ok s => Q s

/-- Leave with `r` if the condition holds, and go on with the state otherwise. -/
def leaveIf (p : Prop) [Decidable p] (r : ρ) (s : σ) : Except ρ σ :=
  if p then .error r else .ok s

theorem Meets.bind {m : Except ρ σ} {k : σ → Except ρ τ} (h : Meets P Q m)
    (hk : ∀ s, Q s → Meets P R (k s)) : Meets P R (m >>= k) := by
  cases m with
  | error r => exact h
  | ok s => exact hk s h

theorem meets_leaveIf {p : Prop} [Decidable p] {r : ρ} {s : σ} (hleave : p → P r)
    (hgo : ¬ p → Q s) : Meets P Q (leaveIf p r s) := by
  rw [leaveIf]
  split_ifs with h
  · exact hleave h
  · exact hgo h

/-- What a chain leaves with satisfies its first condition. -/
theorem Meets.of_error {m : Except ρ σ} (h : Meets P Q m) {r : ρ} (hm : m = .error r) : P r := by
  rw [hm] at h
  exact h

/-- A chain is the same for two ways to go on that agree on what its first step hands on. -/
theorem Meets.bind_congr {m : Except ρ σ} (h : Meets P Q m) {k k' : σ → Except ρ τ}
    (hk : ∀ s, Q s → k s = k' s) : m >>= k = m >>= k' := by
  cases m with
  | error r => rfl
  | ok s => exact hk s h

/-- A step goes on. -/
def Goes (m : Except ρ σ) : Prop := ∃ s, m = .ok s

theorem goes_ok (s : σ) : Goes (Except.ok s : Except ρ σ) := ⟨s, rfl⟩

theorem not_goes_error (r : ρ) : ¬ Goes (Except.error r : Except ρ σ) := by
  rintro ⟨s, hs⟩
  cases hs

theorem exists_error_iff {m : Except ρ σ} : (∃ r, m = .error r) ↔ ¬ Goes m := by
  cases m with
  | error r => exact iff_of_true ⟨r, rfl⟩ (not_goes_error r)
  | ok s => exact iff_of_false (by simp) (not_not.mpr (goes_ok s))

theorem goes_leaveIf {p : Prop} [Decidable p] {r : ρ} {s : σ} : Goes (leaveIf p r s) ↔ ¬ p := by
  rw [leaveIf]
  split_ifs with h
  · exact iff_of_false (not_goes_error r) (not_not.mpr h)
  · exact iff_of_true (goes_ok s) h

/-- A chain goes on exactly when its first step does and, from whatever that hands on, the rest. -/
theorem Meets.goes_bind {m : Except ρ σ} {k : σ → Except ρ τ} {A B : Prop} (h : Meets P Q m)
    (hm : Goes m ↔ A) (hk : ∀ s, Q s → (Goes (k s) ↔ B)) : Goes (m >>= k) ↔ A ∧ B := by
  rw [← hm]
  cases m with
  | error r => exact iff_of_false (not_goes_error r) fun hboth => not_goes_error r hboth.1
  | ok s => exact (hk s h).trans (and_iff_right (goes_ok s)).symm

end KwinApi
