import Mathlib.Data.List.Basic
import Mathlib.Tactic.Common

/-!
# A caller with a timer

One party calls another one again and again, one call at a time. Calls are numbered, and answers
travel in order. The caller may give a call up at any time; an answer that arrives after that is
ignored. An answer may also be one that the caller never gets to see.

The answers that were sent are a list of the environment, which only grows. What the caller has
taken is known exactly: the answers that arrived, without those to calls it gave up.

## Main definitions

* `Caller` — the caller, with `call`, `giveUp` and `arrive`
* `Caller.Inv` — every call is answered, given up or awaited
* `Caller.accounted`, `Caller.lost` — the answers of the calls that were not given up, and of those
  that were

## Main results

* `Caller.Inv.grow`, `Inv.call`, `Inv.giveUp`, `Inv.arrive` — kept by whatever happens
* `Caller.accounted_append_lost` — every answer is to a call that was given up or to one that was
  not
-/

/-- A caller with the answers it has taken. -/
structure Caller (ρ : Type*) where
  called : ℕ
  arrived : ℕ
  awaiting : Option ℕ
  givenUp : List ℕ
  taken : List ρ

namespace Caller

variable {ρ : Type*}

/-- The first call was made. -/
def start : Caller ρ := ⟨1, 0, some 0, [], []⟩

/-- The next call is made, unless one is awaited. -/
def call (c : Caller ρ) : Caller ρ :=
  if c.awaiting = none then { c with called := c.called + 1, awaiting := some c.called } else c

/-- The awaited call is given up. -/
def giveUp (c : Caller ρ) : Caller ρ :=
  match c.awaiting with
  | some q => { c with awaiting := none, givenUp := c.givenUp ++ [q] }
  | none => c

/-- The answer to a call arrives; `none` is one that the caller does not get to see. -/
def arrive (c : Caller ρ) (request : ℕ) : Option ρ → Caller ρ
  | none => { c with arrived := c.arrived + 1 }
  | some r =>
    if c.awaiting = some request then
      { c with arrived := c.arrived + 1, awaiting := none, taken := c.taken ++ [r] }
    else { c with arrived := c.arrived + 1 }

/-- The answers to the calls that were not given up. -/
def accounted (givenUp : List ℕ) (sent : List (ℕ × Option ρ)) : List ρ :=
  sent.filterMap fun a => if a.1 ∈ givenUp then none else a.2

/-- The answers to the calls that were given up. -/
def lost (givenUp : List ℕ) (sent : List (ℕ × Option ρ)) : List ρ :=
  sent.filterMap fun a => if a.1 ∈ givenUp then a.2 else none

/-- Every call is answered, given up or awaited, and what was taken are the answers that arrived
without those to calls that were given up. -/
structure Inv (c : Caller ρ) (sent : List (ℕ × Option ρ)) : Prop where
  arrived : c.arrived ≤ sent.length
  nodup : (sent.map Prod.fst).Nodup
  called : ∀ a ∈ sent, a.1 < c.called
  awaiting : ∀ q, c.awaiting = some q → q < c.called ∧ q ∉ c.givenUp ∧
    ∀ r, (q, some r) ∉ sent.take c.arrived
  account : ∀ q < c.called, c.awaiting = some q ∨ q ∈ c.givenUp ∨
    ∃ r, (q, some r) ∈ sent.take c.arrived
  givenUp : ∀ q ∈ c.givenUp, q < c.called
  taken : c.taken = accounted c.givenUp (sent.take c.arrived)

variable {c : Caller ρ} {sent : List (ℕ × Option ρ)}

theorem inv_start : (start : Caller ρ).Inv [] where
  arrived := Nat.le_refl 0
  nodup := List.nodup_nil
  called := nofun
  awaiting := by
    rintro q hq
    cases hq
    exact ⟨Nat.one_pos, nofun, nofun⟩
  account q hq := Or.inl (congrArg some (Nat.lt_one_iff.mp hq).symm)
  givenUp := nofun
  taken := rfl

/-- Further answers are sent. -/
theorem Inv.grow (h : c.Inv sent) {sent' : List (ℕ × Option ρ)} (hgrow : sent <+: sent')
    (hnodup : (sent'.map Prod.fst).Nodup) (hcalled : ∀ a ∈ sent', a.1 < c.called) :
    c.Inv sent' := by
  have htake : sent'.take c.arrived = sent.take c.arrived := by
    obtain ⟨t, rfl⟩ := hgrow
    exact List.take_append_of_le_length h.arrived
  refine ⟨Nat.le_trans h.arrived hgrow.length_le, hnodup, hcalled, ?_, ?_, h.givenUp, ?_⟩
  · rw [htake]
    exact h.awaiting
  · rw [htake]
    exact h.account
  · rw [htake]
    exact h.taken

/-- The next call is made. -/
theorem Inv.call (h : c.Inv sent) : c.call.Inv sent := by
  rw [Caller.call]
  split_ifs with hidle
  · have hless : ∀ a ∈ sent, a.1 ≠ c.called := fun a ha => Nat.ne_of_lt (h.called a ha)
    refine ⟨h.arrived, h.nodup, fun a ha => Nat.lt_succ_of_lt (h.called a ha), ?_, ?_,
      fun q hq => Nat.lt_succ_of_lt (h.givenUp q hq), h.taken⟩
    · intro q hq
      cases hq
      refine ⟨Nat.lt_succ_self _, fun hout => Nat.lt_irrefl _ (h.givenUp _ hout), fun r hr => ?_⟩
      exact hless _ (List.mem_of_mem_take hr) rfl
    · intro q hq
      rcases Nat.lt_succ_iff_lt_or_eq.mp hq with hq | rfl
      · rcases h.account q hq with hq | hq
        · rw [hidle] at hq
          cases hq
        · exact Or.inr hq
      · exact Or.inl rfl
  · exact h

/-- The awaited call is given up. -/
theorem Inv.giveUp (h : c.Inv sent) : c.giveUp.Inv sent := by
  rw [Caller.giveUp]
  split
  · rename_i q hq
    obtain ⟨hlt, -, hnone⟩ := h.awaiting q hq
    refine ⟨h.arrived, h.nodup, h.called, nofun, fun q' hq' => ?_, fun q' hq' => ?_, ?_⟩
    · rcases h.account q' hq' with hq' | hq' | hq'
      · rw [hq] at hq'
        cases hq'
        exact Or.inr (Or.inl (List.mem_append_right _ (List.mem_singleton_self _)))
      · exact Or.inr (Or.inl (List.mem_append_left _ hq'))
      · exact Or.inr (Or.inr hq')
    · rcases List.mem_append.mp hq' with hq' | hq'
      · exact h.givenUp q' hq'
      · rw [List.mem_singleton.mp hq']
        exact hlt
    · -- The call that is given up has not contributed anything.
      refine h.taken.trans (List.filterMap_congr fun a ha => ?_)
      by_cases heq : a.1 = q
      · have hunseen : a.2 = none := by
          cases hr : a.2 with
          | none => rfl
          | some r => exact absurd (show (q, some r) ∈ _ from heq ▸ hr ▸ ha) (hnone r)
        simp [hunseen]
      · simp [heq]
  · exact h

/-- An answer that arrives is awaited or comes too late. -/
theorem Inv.late (h : c.Inv sent) {q : ℕ} {r : Option ρ} (hr : sent[c.arrived]? = some (q, r))
    (hq : c.awaiting ≠ some q) : q ∈ c.givenUp := by
  obtain ⟨hlt, hget⟩ := List.getElem?_eq_some_iff.mp hr
  rcases h.account q (h.called _ (List.mem_of_getElem? hr)) with hq' | hq' | ⟨r', hr'⟩
  · exact absurd hq' hq
  · exact hq'
  · have hnodup := h.nodup
    rw [← List.take_append_drop c.arrived sent, List.drop_eq_getElem_cons hlt, hget,
      List.map_append, List.map_cons] at hnodup
    exact absurd rfl ((List.nodup_append.mp hnodup).2.2 q (List.mem_map_of_mem hr') q
      List.mem_cons_self)

/-- **The next answer arrives.** -/
theorem Inv.arrive (h : c.Inv sent) {q : ℕ} {r : Option ρ}
    (hr : sent[c.arrived]? = some (q, r)) : (c.arrive q r).Inv sent := by
  have hlt : c.arrived < sent.length := (List.getElem?_eq_some_iff.mp hr).1
  have htake : sent.take (c.arrived + 1) = sent.take c.arrived ++ [(q, r)] := by
    rw [List.take_add_one, hr]
    rfl
  have hnew : ∀ q' r', (q', some r') ∈ sent.take (c.arrived + 1) →
      (q', some r') ∈ sent.take c.arrived ∨ q' = q ∧ r = some r' := by
    intro q' r' hr'
    rw [htake, List.mem_append, List.mem_singleton, Prod.mk.injEq] at hr'
    exact hr'.imp_right fun heq => ⟨heq.1, heq.2.symm⟩
  have haccount : ∀ q' < c.called, c.awaiting = some q' ∨ q' ∈ c.givenUp ∨
      ∃ r', (q', some r') ∈ sent.take (c.arrived + 1) := by
    intro q' hq'
    refine (h.account q' hq').imp_right (Or.imp_right fun ⟨r', hr'⟩ => ⟨r', ?_⟩)
    rw [htake]
    exact List.mem_append_left _ hr'
  have htaken : accounted c.givenUp (sent.take (c.arrived + 1)) =
      c.taken ++ accounted c.givenUp [(q, r)] := by
    rw [htake, accounted, List.filterMap_append, h.taken]
    rfl
  cases r with
  | none =>
    refine ⟨hlt, h.nodup, h.called, fun q' hq' => ?_, haccount, h.givenUp, ?_⟩
    · obtain ⟨hlt', hout, hnone⟩ := h.awaiting q' hq'
      refine ⟨hlt', hout, fun r' hr' => ?_⟩
      rcases hnew q' r' hr' with hr' | ⟨-, hr'⟩
      · exact hnone r' hr'
      · cases hr'
    · refine Eq.trans ?_ htaken.symm
      simp [Caller.arrive, accounted]
  | some v =>
    rw [Caller.arrive]
    split_ifs with hq
    · obtain ⟨-, hin, -⟩ := h.awaiting q hq
      refine ⟨hlt, h.nodup, h.called, nofun, fun q' hq' => ?_, h.givenUp, ?_⟩
      · rcases haccount q' hq' with heq | hq'
        · rw [hq] at heq
          cases heq
          refine Or.inr (Or.inr ⟨v, ?_⟩)
          rw [htake]
          exact List.mem_append_right _ (List.mem_singleton_self _)
        · exact Or.inr hq'
      · refine Eq.trans ?_ htaken.symm
        simp [accounted, hin]
    · have hout := h.late hr hq
      refine ⟨hlt, h.nodup, h.called, fun q' hq' => ?_, haccount, h.givenUp, ?_⟩
      · obtain ⟨hlt', hin, hnone⟩ := h.awaiting q' hq'
        refine ⟨hlt', hin, fun r' hr' => ?_⟩
        rcases hnew q' r' hr' with hr' | ⟨rfl, -⟩
        · exact hnone r' hr'
        · exact hin hout
      · refine Eq.trans ?_ htaken.symm
        simp [accounted, hout]

/-- Every answer that was seen is to a call that was given up or to one that was not. -/
theorem accounted_append_lost (givenUp : List ℕ) (sent : List (ℕ × Option ρ)) :
    (accounted givenUp sent ++ lost givenUp sent).Perm (sent.filterMap Prod.snd) := by
  induction sent with
  | nil => exact .refl []
  | cons a sent ih =>
    obtain ⟨q, _ | r⟩ := a
    · simpa [accounted, lost] using ih
    · by_cases hq : q ∈ givenUp
      · simpa [accounted, lost, hq] using List.perm_middle.trans (ih.cons r)
      · simpa [accounted, lost, hq] using ih.cons r

theorem accounted_sublist (givenUp : List ℕ) (sent : List (ℕ × Option ρ)) :
    (accounted givenUp sent).Sublist (sent.filterMap Prod.snd) := by
  induction sent with
  | nil => exact .slnil
  | cons a sent ih =>
    obtain ⟨q, _ | r⟩ := a
    · simpa [accounted] using ih
    · by_cases hq : q ∈ givenUp
      · simpa [accounted, hq] using ih.cons r
      · simpa [accounted, hq] using ih.cons_cons r

end Caller
