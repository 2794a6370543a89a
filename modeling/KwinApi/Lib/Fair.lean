import Mathlib.Order.WellFounded

/-!
# Fair runs reach their goal

The rule of helpful events: in every state that is short of the goal, one kind of event is helpful.
An event either takes a rank down, or it leaves the rank and the helpful kind as they are and is not
helpful itself. When every kind of event happens again and again, the goal is reached.

## Main definitions

* `KwinApi.Fair` — every kind of event happens again and again
* `KwinApi.Fair.Advances` — what one event does on the way to the goal

## Main results

* `KwinApi.Fair.reaches` — the goal is reached
-/

namespace KwinApi

variable {σ ε κ α : Type*}

/-- Every kind of event happens again and again. -/
def Fair (isOf : κ → ε → Prop) (event : ℕ → ε) : Prop := ∀ k n, ∃ m, n ≤ m ∧ isOf k (event m)

namespace Fair

variable {isOf : κ → ε → Prop} {event : ℕ → ε} {state : ℕ → σ} {rank : σ → α} {helper : σ → κ}
  {Goal : σ → Prop}

/-- An event takes the rank down, or is no help and leaves the rank and the helpful kind alone. -/
def Advances [LT α] (isOf : κ → ε → Prop) (rank : σ → α) (helper : σ → κ) (s : σ) (e : ε)
    (s' : σ) : Prop :=
  rank s' < rank s ∨ rank s' = rank s ∧ helper s' = helper s ∧ ¬ isOf (helper s) e

/-- What is left of a fair run is fair. -/
theorem shift (hfair : Fair isOf event) (n : ℕ) : Fair isOf fun i => event (n + i) := by
  intro k m
  obtain ⟨i, hle, hi⟩ := hfair k (n + m)
  obtain ⟨j, rfl⟩ := Nat.exists_eq_add_of_le (Nat.le_trans (Nat.le_add_right n m) hle)
  exact ⟨j, Nat.le_of_add_le_add_left hle, hi⟩

/-- Short of the goal, the rank goes down before long: until the helpful event happens, the rank
and the helpful kind stay. -/
theorem exists_rank_lt [LT α] (hfair : Fair isOf event)
    (hstep : ∀ n, ¬ Goal (state n) →
      Advances isOf rank helper (state n) (event n) (state (n + 1)))
    (hnever : ∀ n, ¬ Goal (state n)) (n : ℕ) : ∃ m, rank (state m) < rank (state n) := by
  obtain ⟨m, hle, hhelps⟩ := hfair (helper (state n)) n
  by_contra hnone
  have hstays : ∀ k, n ≤ k → k ≤ m →
      rank (state k) = rank (state n) ∧ helper (state k) = helper (state n) := by
    intro k hk
    induction k, hk using Nat.le_induction with
    | base => exact fun _ => ⟨rfl, rfl⟩
    | succ k hk ih =>
      intro hkm
      obtain ⟨hrank, hhelper⟩ := ih (by omega)
      rcases hstep k (hnever k) with hlt | ⟨hrank', hhelper', -⟩
      · exact absurd ⟨k + 1, hrank ▸ hlt⟩ hnone
      · exact ⟨hrank'.trans hrank, hhelper'.trans hhelper⟩
  obtain ⟨hrank, hhelper⟩ := hstays m hle le_rfl
  rcases hstep m (hnever m) with hlt | ⟨-, -, hnot⟩
  · exact hnone ⟨m + 1, hrank ▸ hlt⟩
  · exact hnot (hhelper ▸ hhelps)

/-- **A fair run reaches its goal**, as the rank cannot go down for ever. -/
theorem reaches [LT α] [WellFoundedLT α] (hfair : Fair isOf event)
    (hstep : ∀ n, ¬ Goal (state n) →
      Advances isOf rank helper (state n) (event n) (state (n + 1))) : ∃ n, Goal (state n) := by
  by_contra hnone
  have hnever : ∀ n, ¬ Goal (state n) := fun n hn => hnone ⟨n, hn⟩
  have hall : ∀ a n, rank (state n) ≠ a := by
    intro a
    induction a using WellFoundedLT.induction with
    | ind a ih =>
      intro n hn
      obtain ⟨m, hm⟩ := hfair.exists_rank_lt hstep hnever n
      exact ih _ (hn ▸ hm) m rfl
  exact hall _ 0 rfl

end Fair

end KwinApi
