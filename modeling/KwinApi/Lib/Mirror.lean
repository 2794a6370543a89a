import Mathlib.Data.List.Basic
import Mathlib.Tactic.Common

/-!
# Mirrors kept by notifications

Somebody reads a value once and is notified of it from then on. What they know is the last
notification, or what they read. The mirror is coherent when each step of the observed system either
leaves the value alone and says nothing, or says the new value last.

## Main definitions

* `KwinApi.known` — what an observer knows
* `KwinApi.Told` — the log of a system keeps its observers informed from one state to another

## Main results

* `Told.trans` — steps compose
* `Told.of_forall` — a step that announces the new value
-/

namespace KwinApi

variable {S N V : Type*}

/-- The last value an observer was told, or the one it started with. -/
def known (v : V) (told : List V) : V := told.getLast?.getD v

@[simp] theorem known_nil (v : V) : known v [] = v := rfl

@[simp] theorem known_append (v : V) (told more : List V) :
    known v (told ++ more) = known (known v told) more := by
  rcases List.eq_nil_or_concat more with rfl | ⟨more, last, rfl⟩
  · simp
  · simp [known, ← List.append_assoc]

/-- Whoever is told only one value, at least once, knows it. -/
theorem known_eq_of_forall {v w : V} {told : List V} (hne : told ≠ [])
    (hall : ∀ x ∈ told, x = w) : known v told = w := by
  rw [known, List.getLast?_eq_some_getLast hne, Option.getD_some]
  exact hall _ (List.getLast_mem hne)

variable (log : S → List N) (news : N → Option V) (value : S → V)

/-- From one state to another the log grew by notifications after which an observer who knew the
value before knows it now. -/
def Told (s s' : S) : Prop :=
  ∃ notes, log s' = log s ++ notes ∧ known (value s) (notes.filterMap news) = value s'

variable {log news value} {s s' s'' : S}

theorem Told.refl (s : S) : Told log news value s s := ⟨[], by simp, rfl⟩

theorem Told.trans (h : Told log news value s s') (h' : Told log news value s' s'') :
    Told log news value s s'' := by
  obtain ⟨notes, hlog, hknown⟩ := h
  obtain ⟨more, hlog', hknown'⟩ := h'
  refine ⟨notes ++ more, ?_, ?_⟩
  · rw [hlog', hlog, List.append_assoc]
  · rw [List.filterMap_append, known_append, hknown, hknown']

/-- Nothing is said, and the value stays. -/
theorem Told.silent {notes : List N} (hlog : log s' = log s ++ notes)
    (hnews : ∀ n ∈ notes, news n = none) (hvalue : value s' = value s) :
    Told log news value s s' := by
  refine ⟨notes, hlog, ?_⟩
  rw [List.filterMap_eq_nil_iff.mpr hnews, known_nil, hvalue]

/-- The new value is said, and no other. -/
theorem Told.of_forall {notes : List N} (hlog : log s' = log s ++ notes)
    (hsome : ∃ n ∈ notes, news n = some (value s'))
    (hall : ∀ n ∈ notes, ∀ x, news n = some x → x = value s') :
    Told log news value s s' := by
  refine ⟨notes, hlog, known_eq_of_forall ?_ fun x hx => ?_⟩
  · obtain ⟨n, hn, hnews⟩ := hsome
    exact List.ne_nil_of_mem (List.mem_filterMap.mpr ⟨n, hn, hnews⟩)
  · obtain ⟨n, hn, hnews⟩ := List.mem_filterMap.mp hx
    exact hall n hn x hnews

end KwinApi
