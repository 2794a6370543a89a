import Mathlib.Data.Finset.Erase
import Mathlib.Data.Finset.Insert
import Mathlib.Data.List.Induction

/-!
# Logs of arrivals and departures

Somebody who cannot see a table keeps track of its keys by a log: a key arrives, a key leaves. The
log is orderly when every key arrives at most once and leaves at most once, after that. Then a key
is present exactly when its only entry is the arrival, and an entry that does not reach the reader
shows at once: what the reader replays is not the table any more.

## Main definitions

* `Presence.replay` — the keys that are present
* `Presence.about` — the entries for one key
* `Presence.Orderly` — every key arrives once and leaves once

## Main results

* `Presence.Orderly.mem_replay` — who is present in an orderly log
* `Presence.Orderly.replay_ne` — a lost entry shows
-/

namespace Presence

/-- What a log says about a key. -/
inductive Change where
  | arrives
  | leaves
  deriving DecidableEq, Repr

/-- A log of changes of keys. -/
abbrev Log (κ : Type*) := List (Change × κ)

variable {κ : Type*} [DecidableEq κ]

/-- One entry in the reader's table. -/
def apply (present : Finset κ) (e : Change × κ) : Finset κ :=
  match e.1 with
  | .arrives => insert e.2 present
  | .leaves => present.erase e.2

/-- The keys that are present after a log. -/
def replay (l : Log κ) : Finset κ := l.foldl apply ∅

/-- The entries for one key. -/
def about (k : κ) (l : Log κ) : List Change :=
  l.filterMap fun e => if e.2 = k then some e.1 else none

/-- Every key arrives at most once, and leaves at most once after that. -/
def Orderly (l : Log κ) : Prop := ∀ k, about k l <+: [.arrives, .leaves]

/-- The keys that arrive, in order. -/
def arrivals (l : Log κ) : List κ :=
  l.filterMap fun e => if e.1 = .arrives then some e.2 else none

@[simp] theorem about_nil (k : κ) : about k [] = [] := rfl

theorem about_append (k : κ) (l l' : Log κ) : about k (l ++ l') = about k l ++ about k l' :=
  List.filterMap_append

theorem about_self (k : κ) (c : Change) : about k [(c, k)] = [c] := by
  simp [about]

theorem about_of_ne {k k' : κ} (h : k' ≠ k) (c : Change) : about k [(c, k')] = [] := by
  simp [about, h]

theorem about_sublist {l l' : Log κ} (h : l.Sublist l') (k : κ) :
    (about k l).Sublist (about k l') := h.filterMap _

theorem about_eq_nil {k : κ} {l : Log κ} : about k l = [] ↔ k ∉ l.map Prod.snd := by
  constructor
  · intro h hk
    obtain ⟨e, he, rfl⟩ := List.mem_map.mp hk
    have hnone := List.filterMap_eq_nil_iff.mp h e he
    rw [if_pos rfl] at hnone
    cases hnone
  · intro h
    refine List.filterMap_eq_nil_iff.mpr fun e he => if_neg ?_
    rintro rfl
    exact h (List.mem_map_of_mem he)

omit [DecidableEq κ] in
theorem arrivals_append (l l' : Log κ) : arrivals (l ++ l') = arrivals l ++ arrivals l' :=
  List.filterMap_append

omit [DecidableEq κ] in
theorem arrivals_sublist {l l' : Log κ} (h : l.Sublist l') : (arrivals l).Sublist (arrivals l') :=
  h.filterMap _

/-- A key that arrives has an entry that says so. -/
theorem mem_arrivals (k : κ) (l : Log κ) : k ∈ arrivals l ↔ .arrives ∈ about k l := by
  simp only [arrivals, about, List.mem_filterMap]
  constructor
  · rintro ⟨⟨c, k'⟩, he, hc⟩
    split_ifs at hc with harr
    cases hc
    exact ⟨(c, k'), he, by rw [if_pos rfl]; exact congrArg some harr⟩
  · rintro ⟨⟨c, k'⟩, he, hc⟩
    split_ifs at hc with hk
    cases hc
    exact ⟨(.arrives, k'), he, by rw [if_pos rfl]; exact congrArg some hk⟩

theorem replay_concat (l : Log κ) (e : Change × κ) : replay (l ++ [e]) = apply (replay l) e := by
  rw [replay, replay, List.foldl_append, List.foldl_cons, List.foldl_nil]

/-- A key is present when its last entry says so. -/
theorem mem_replay (k : κ) (l : Log κ) :
    k ∈ replay l ↔ (about k l).getLast? = some .arrives := by
  induction l using List.reverseRecOn with
  | nil => simp [replay]
  | append_singleton l e ih =>
    obtain ⟨c, k'⟩ := e
    rw [replay_concat, about_append]
    by_cases hk : k' = k
    · subst hk
      rw [about_self, List.getLast?_append]
      cases c <;> simp [apply]
    · rw [about_of_ne hk, List.append_nil, ← ih]
      have hne : k ≠ k' := fun h => hk h.symm
      cases c <;> simp [apply, hne]

/-! ### Orderly logs -/

theorem orderly_nil : Orderly ([] : Log κ) := fun _ => List.nil_prefix

theorem Orderly.concat {l : Log κ} (h : Orderly l) {e : Change × κ}
    (he : about e.2 l ++ [e.1] <+: [.arrives, .leaves]) : Orderly (l ++ [e]) := by
  intro k
  rw [about_append]
  by_cases hk : e.2 = k
  · subst hk
    rwa [about_self]
  · rw [about_of_ne hk, List.append_nil]
    exact h k

/-- A key that is not in the log may arrive. -/
theorem Orderly.arrives {l : Log κ} (h : Orderly l) {k : κ} (hk : about k l = []) :
    Orderly (l ++ [(.arrives, k)]) :=
  h.concat (by rw [hk]; exact ⟨[.leaves], rfl⟩)

/-- A key that is present may leave. -/
theorem Orderly.leaves {l : Log κ} (h : Orderly l) {k : κ} (hk : about k l = [.arrives]) :
    Orderly (l ++ [(.leaves, k)]) :=
  h.concat (by rw [hk]; exact List.prefix_refl _)

/-- The cases of a key in an orderly log. -/
theorem Orderly.cases {l : Log κ} (h : Orderly l) (k : κ) :
    about k l = [] ∨ about k l = [.arrives] ∨ about k l = [.arrives, .leaves] := by
  have hk := List.prefix_iff_eq_take.mp (h k)
  have hlen := (h k).length_le
  rw [List.length_cons, List.length_singleton] at hlen
  have hcases : (about k l).length = 0 ∨ (about k l).length = 1 ∨ (about k l).length = 2 := by
    omega
  rcases hcases with h0 | h1 | h2
  · exact Or.inl (List.length_eq_zero_iff.mp h0)
  · rw [h1] at hk
    exact Or.inr (Or.inl hk)
  · rw [h2] at hk
    exact Or.inr (Or.inr hk)

/-- **Who is present** in an orderly log: the keys whose only entry is the arrival. -/
theorem Orderly.mem_replay {l : Log κ} (h : Orderly l) (k : κ) :
    k ∈ replay l ↔ about k l = [.arrives] := by
  rw [Presence.mem_replay]
  rcases h.cases k with hk | hk | hk
  all_goals
    rw [hk]
    decide

/-- **A lost entry shows.** When of some further entries, no two for the same key, not all are kept,
the keys that are present differ. -/
theorem Orderly.replay_ne {l new kept : Log κ} (h : Orderly (l ++ new))
    (hnodup : (new.map Prod.snd).Nodup) (hkept : kept.Sublist new) (hne : kept ≠ new) :
    replay (l ++ kept) ≠ replay (l ++ new) := by
  obtain ⟨⟨c, k⟩, hmem, hlost⟩ : ∃ e ∈ new, e ∉ kept := by
    by_contra hall
    push Not at hall
    exact hne (hkept.eq_of_length_le (((hnodup.of_map _).subperm hall).length_le))
  -- the lost entry is the only new one for its key
  have hnew : about k new = [c] := by
    obtain ⟨new₁, new₂, rfl⟩ := List.append_of_mem hmem
    rw [List.map_append, List.map_cons] at hnodup
    obtain ⟨-, hcons, hdisj⟩ := List.nodup_append.mp hnodup
    have h₁ : k ∉ new₁.map Prod.snd := fun hk => hdisj k hk k List.mem_cons_self rfl
    have h₂ : k ∉ new₂.map Prod.snd := (List.nodup_cons.mp hcons).1
    rw [List.append_cons, about_append, about_append, about_self, about_eq_nil.mpr h₁,
      about_eq_nil.mpr h₂]
    rfl
  have hold : about k kept = [] := by
    have hsub := about_sublist hkept k
    rw [hnew] at hsub
    rcases List.sublist_singleton.mp hsub with hnil | hsingle
    · exact hnil
    · obtain ⟨e, he, heq⟩ := List.mem_filterMap.mp (hsingle ▸ List.mem_singleton_self c :
        c ∈ about k kept)
      obtain ⟨rfl, rfl⟩ : e.2 = k ∧ e.1 = c := by
        split_ifs at heq with hk
        exact ⟨hk, Option.some.inj heq⟩
      exact absurd he hlost
  intro heq
  have hiff : k ∈ replay (l ++ kept) ↔ k ∈ replay (l ++ new) := by rw [heq]
  have hlog := h k
  rw [Presence.mem_replay, Presence.mem_replay, about_append, about_append, hold, hnew,
    List.append_nil] at hiff
  rw [about_append, hnew] at hlog
  have hbefore : Orderly l := fun k' => by
    have hk' := h k'
    rw [about_append] at hk'
    exact (List.prefix_append _ _).trans hk'
  rcases hbefore.cases k with hk | hk | hk
  all_goals
    rw [hk] at hiff hlog
    cases c <;> revert hiff hlog <;> decide

end Presence
