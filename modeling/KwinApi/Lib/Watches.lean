import Mathlib.Data.List.AList
import Mathlib.Data.List.Nodup

/-!
# Watches: signal slots and the books kept on them

Somebody watches a property of a source by connecting a handler to the property's signal. The
signals only know their slots; which handlers belong to which key is kept in a map of maps, and
whoever stops watching has to disconnect exactly the handlers found there.

## Main definitions

* `KwinApi.Handler`, `Slot`, `Watch`, `WatchTable` — closures, connections and the map of maps
* `WatchTable.set`, `WatchTable.setAll` — watch or stop watching
* `WatchTable.drop`, `WatchTable.dropAll` — forget keys
* `WatchTable.Consistent` — the slots are exactly the handlers on the books

## Main results

* `WatchTable.Consistent.set`, `Consistent.dropAll` — kept by the operations
* `WatchTable.watches_setAll`, `stored_dropAll` — what is on the books afterwards
* `WatchTable.setAll_result` — `setAll` reports what is on the books afterwards
-/

namespace KwinApi

/-- A handler: a closure with an identity of its own and what it captured. -/
structure Handler (κ ι σ π : Type*) where
  /-- Which closure it is. -/
  id : ℕ
  /-- The key it is filed under. -/
  key : κ
  /-- Whom it notifies. -/
  conn : ι
  /-- The source it reads. -/
  source : σ
  /-- The property it reports. -/
  prop : π
  deriving DecidableEq, Repr

/-- A handler connected to the signal of a property of a source. -/
structure Slot (κ ι σ π : Type*) where
  source : σ
  prop : π
  handler : Handler κ ι σ π
  deriving DecidableEq, Repr

/-- What is filed under one key: the source and a handler for each watched property. -/
structure Watch (κ ι σ π : Type*) where
  source : σ
  handlers : AList fun _ : π => Handler κ ι σ π

/-- The books and the connections. -/
structure WatchTable (κ ι σ π : Type*) where
  /-- The watches by key. -/
  watches : AList fun _ : κ => Watch κ ι σ π
  /-- The connected slots, the oldest first. -/
  slots : List (Slot κ ι σ π)
  /-- The identity of the next closure. -/
  nextHandler : ℕ

namespace WatchTable

variable {κ ι σ π : Type*} [DecidableEq κ] [DecidableEq π]

/-- Nothing is watched. -/
def empty : WatchTable κ ι σ π := ⟨∅, [], 0⟩

/-- Connect a new handler for `prop` and file it in the watch. -/
def connect (W : WatchTable κ ι σ π) (key : κ) (conn : ι) (source : σ) (prop : π)
    (state : Watch κ ι σ π) : WatchTable κ ι σ π :=
  let handler : Handler κ ι σ π := ⟨W.nextHandler, key, conn, source, prop⟩
  { watches := W.watches.insert key { state with handlers := state.handlers.insert prop handler }
    slots := W.slots ++ [⟨source, prop, handler⟩]
    nextHandler := W.nextHandler + 1 }

/-- The handler is on the books for the key and the property. -/
def Stored (W : WatchTable κ ι σ π) (key : κ) (prop : π) (handler : Handler κ ι σ π) : Prop :=
  ∃ state, W.watches.lookup key = some state ∧ state.handlers.lookup prop = some handler

/-- Some handler is on the books for the key and the property. -/
def Watches (W : WatchTable κ ι σ π) (key : κ) (prop : π) : Prop :=
  ∃ handler, W.Stored key prop handler

/-- The slots are exactly the handlers on the books, each connected once. -/
structure Consistent (W : WatchTable κ ι σ π) : Prop where
  /-- No slot is connected twice. -/
  nodup : W.slots.Nodup
  /-- A slot is connected if and only if its handler is on the books. -/
  slots_iff : ∀ slot, slot ∈ W.slots ↔ W.Stored slot.handler.key slot.handler.prop slot.handler ∧
    slot.source = slot.handler.source ∧ slot.prop = slot.handler.prop
  /-- A handler is filed under what it captured. -/
  filed : ∀ key state prop handler, W.watches.lookup key = some state →
    state.handlers.lookup prop = some handler →
    handler.key = key ∧ handler.prop = prop ∧ handler.source = state.source
  /-- No empty watch is kept. -/
  nonempty : ∀ key state, W.watches.lookup key = some state → state.handlers.entries ≠ []

theorem consistent_empty : (empty : WatchTable κ ι σ π).Consistent where
  nodup := List.nodup_nil
  slots_iff slot := by simp [empty, Stored]
  filed := by simp [empty]
  nonempty := by simp [empty]

variable {W : WatchTable κ ι σ π} {key : κ} {conn : ι} {source : σ} {prop : π}
  {state : Watch κ ι σ π} {handler : Handler κ ι σ π}

/-- The books after putting a watch under a key. -/
theorem stored_insert {k : κ} {p : π} {h : Handler κ ι σ π} {n : ℕ}
    {slots : List (Slot κ ι σ π)} :
    (⟨W.watches.insert key state, slots, n⟩ : WatchTable κ ι σ π).Stored k p h ↔
      if k = key then state.handlers.lookup p = some h else W.Stored k p h := by
  split_ifs with hk
  · subst hk
    simp [Stored, AList.lookup_insert]
  · simp [Stored, AList.lookup_insert_ne hk]

/-- The books after deleting a key. -/
theorem stored_erase {k : κ} {p : π} {h : Handler κ ι σ π} {n : ℕ}
    {slots : List (Slot κ ι σ π)} :
    (⟨W.watches.erase key, slots, n⟩ : WatchTable κ ι σ π).Stored k p h ↔
      k ≠ key ∧ W.Stored k p h := by
  by_cases hk : k = key
  · subst hk
    simp [Stored, AList.lookup_erase]
  · simp [Stored, AList.lookup_erase_ne hk, hk]

/-! ### Connecting -/

/-- `connect` adds one pair to the books. -/
theorem stored_connect (hbooks : ∀ p h, state.handlers.lookup p = some h ↔ W.Stored key p h)
    {k : κ} {p : π} {h : Handler κ ι σ π} :
    (W.connect key conn source prop state).Stored k p h ↔
      (k = key ∧ p = prop ∧ h = ⟨W.nextHandler, key, conn, source, prop⟩) ∨
      (¬ (k = key ∧ p = prop) ∧ W.Stored k p h) := by
  rw [connect, stored_insert]
  split_ifs with hk
  · subst hk
    by_cases hp : p = prop
    · subst hp
      simp [AList.lookup_insert, eq_comm]
    · simp [AList.lookup_insert_ne hp, hp, hbooks]
  · simp [hk]

theorem Consistent.connect (hW : W.Consistent)
    (hbooks : ∀ p h, state.handlers.lookup p = some h ↔ W.Stored key p h)
    (hsource : state.source = source)
    (hhandlers : ∀ p h, state.handlers.lookup p = some h → h.source = source)
    (hnew : state.handlers.lookup prop = none) :
    (W.connect key conn source prop state).Consistent := by
  have hfresh : ∀ h, ¬ W.Stored key prop h := by
    intro h hh
    rw [← hbooks, hnew] at hh
    simp at hh
  refine ⟨?_, fun slot => ?_, fun k st p h hst hh => ?_, fun k st hst => ?_⟩
  · refine hW.nodup.append (List.nodup_singleton _) ?_
    rw [List.disjoint_singleton]
    intro hmem
    exact hfresh _ ((hW.slots_iff _).mp hmem).1
  · rw [stored_connect hbooks]
    have hslot : slot ∈ (W.connect key conn source prop state).slots ↔
        slot ∈ W.slots ∨ slot = ⟨source, prop, ⟨W.nextHandler, key, conn, source, prop⟩⟩ := by
      simp [WatchTable.connect]
    rw [hslot, hW.slots_iff]
    constructor
    · rintro (⟨hst, hsrc, hprop⟩ | rfl)
      · refine ⟨Or.inr ⟨?_, hst⟩, hsrc, hprop⟩
        rintro ⟨hk, hp⟩
        rw [hk, hp] at hst
        exact hfresh _ hst
      · exact ⟨Or.inl ⟨rfl, rfl, rfl⟩, rfl, rfl⟩
    · rintro ⟨⟨-, -, hh⟩ | ⟨-, hst⟩, hsrc, hprop⟩
      · right
        obtain ⟨s, p, h⟩ := slot
        simp only at hh hsrc hprop
        subst hh
        rw [hsrc, hprop]
      · exact Or.inl ⟨hst, hsrc, hprop⟩
  · by_cases hk : k = key
    · subst hk
      simp only [WatchTable.connect, AList.lookup_insert, Option.some.injEq] at hst
      subst hst
      by_cases hp : p = prop
      · subst hp
        simp only [AList.lookup_insert, Option.some.injEq] at hh
        subst hh
        exact ⟨rfl, rfl, hsource.symm⟩
      · simp only [AList.lookup_insert_ne hp] at hh
        obtain ⟨st, hst, hh'⟩ := (hbooks p h).mp hh
        obtain ⟨hkey, hprop, -⟩ := hW.filed k st p h hst hh'
        exact ⟨hkey, hprop, (hhandlers p h hh).trans hsource.symm⟩
    · simp only [WatchTable.connect, AList.lookup_insert_ne hk] at hst
      exact hW.filed k st p h hst hh
  · by_cases hk : k = key
    · subst hk
      simp only [WatchTable.connect, AList.lookup_insert, Option.some.injEq] at hst
      subst hst
      simp [AList.entries_insert]
    · simp only [WatchTable.connect, AList.lookup_insert_ne hk] at hst
      exact hW.nonempty k st hst

/-- The slot of a stored handler is known. -/
theorem Consistent.slot_eq (hW : W.Consistent) (hstate : W.watches.lookup key = some state)
    (hhandler : state.handlers.lookup prop = some handler) {slot : Slot κ ι σ π}
    (hslot : slot ∈ W.slots) : slot = ⟨state.source, prop, handler⟩ ↔ slot.handler = handler := by
  obtain ⟨-, hp, hs⟩ := hW.filed key state prop handler hstate hhandler
  obtain ⟨-, hsrc, hprop⟩ := (hW.slots_iff slot).mp hslot
  constructor
  · rintro rfl
    rfl
  · intro h
    obtain ⟨s, p, h'⟩ := slot
    simp only at hsrc hprop h
    subst h
    rw [hsrc, hprop, hp, hs]

/-- Keeping some pairs on the books and their slots connected. -/
theorem Consistent.restrict (hW : W.Consistent) {W' : WatchTable κ ι σ π} (P : κ → π → Prop)
    (hnodup : W'.slots.Nodup)
    (hslots : ∀ slot, slot ∈ W'.slots ↔ slot ∈ W.slots ∧ P slot.handler.key slot.handler.prop)
    (hstored : ∀ k p h, W'.Stored k p h ↔ P k p ∧ W.Stored k p h)
    (hsource : ∀ k st', W'.watches.lookup k = some st' →
      st'.handlers.entries ≠ [] ∧ ∃ st, W.watches.lookup k = some st ∧ st.source = st'.source) :
    W'.Consistent := by
  refine ⟨hnodup, fun slot => ?_, fun k st' p h hst' hh => ?_, fun k st' hst' => ?_⟩
  · rw [hslots, hW.slots_iff, hstored]
    tauto
  · obtain ⟨-, st, hst, hsrc⟩ := hsource k st' hst'
    obtain ⟨-, st₁, hst₁, hh₁⟩ := (hstored k p h).mp ⟨st', hst', hh⟩
    obtain ⟨hkey, hprop, hhsrc⟩ := hW.filed k st₁ p h hst₁ hh₁
    rw [hst] at hst₁
    cases hst₁
    exact ⟨hkey, hprop, hhsrc.trans hsrc⟩
  · exact (hsource k st' hst').1

/-! ### Disconnecting -/

variable [DecidableEq ι] [DecidableEq σ]

/-- `signal.disconnect(handler)`: the slot is gone if it was there. -/
def disconnect (slots : List (Slot κ ι σ π)) (slot : Slot κ ι σ π) : List (Slot κ ι σ π) :=
  slots.filter fun s => s ≠ slot

/-- Disconnect the handler of `prop` and strike it from the watch, and the watch from the books
when it was the last one. -/
def release (W : WatchTable κ ι σ π) (key : κ) (prop : π) (state : Watch κ ι σ π)
    (handler : Handler κ ι σ π) : WatchTable κ ι σ π :=
  let handlers := state.handlers.erase prop
  { watches := if handlers.entries = [] then W.watches.erase key
      else W.watches.insert key { state with handlers := handlers }
    slots := disconnect W.slots ⟨state.source, prop, handler⟩
    nextHandler := W.nextHandler }

/-- Tear down everything filed under a key. -/
def drop (W : WatchTable κ ι σ π) (key : κ) : WatchTable κ ι σ π :=
  match W.watches.lookup key with
  | none => W
  | some state =>
    { watches := W.watches.erase key
      slots := state.handlers.entries.foldl
        (fun slots ph => disconnect slots ⟨state.source, ph.1, ph.2⟩) W.slots
      nextHandler := W.nextHandler }

/-- Tear down everything filed under some keys. -/
def dropAll (W : WatchTable κ ι σ π) (keys : List κ) : WatchTable κ ι σ π := keys.foldl drop W

theorem mem_disconnect {slots : List (Slot κ ι σ π)} {s slot : Slot κ ι σ π} :
    s ∈ disconnect slots slot ↔ s ∈ slots ∧ s ≠ slot := by
  simp [disconnect]

/-- Disconnecting several slots. -/
theorem mem_foldl_disconnect {γ : Type*} (f : γ → Slot κ ι σ π) (l : List γ)
    (slots : List (Slot κ ι σ π)) {s : Slot κ ι σ π} :
    s ∈ l.foldl (fun slots c => disconnect slots (f c)) slots ↔ s ∈ slots ∧ ∀ c ∈ l, s ≠ f c := by
  induction l generalizing slots with
  | nil => simp
  | cons c l ih =>
    rw [List.foldl_cons, ih, mem_disconnect, and_assoc, List.forall_mem_cons]

theorem nodup_foldl_disconnect {γ : Type*} (f : γ → Slot κ ι σ π) (l : List γ)
    {slots : List (Slot κ ι σ π)} (h : slots.Nodup) :
    (l.foldl (fun slots c => disconnect slots (f c)) slots).Nodup := by
  induction l generalizing slots with
  | nil => exact h
  | cons c l ih => exact ih (h.filter _)

/-- `release` strikes one pair from the books. -/
theorem stored_release (hstate : W.watches.lookup key = some state) {k : κ} {p : π}
    {h : Handler κ ι σ π} :
    (W.release key prop state handler).Stored k p h ↔
      ¬ (k = key ∧ p = prop) ∧ W.Stored k p h := by
  have hkey : ∀ p h, W.Stored key p h ↔ state.handlers.lookup p = some h := by
    intro p h
    simp [Stored, hstate]
  rw [release]
  split_ifs with hlast
  · rw [stored_erase]
    by_cases hk : k = key
    · subst hk
      simp only [ne_eq, not_true_eq_false, false_and, true_and, false_iff, not_and]
      intro hp hh
      rw [hkey, ← AList.lookup_erase_ne hp] at hh
      have hmem := AList.mem_lookup_iff.mp hh
      rw [hlast] at hmem
      simp at hmem
    · simp [hk]
  · rw [stored_insert]
    split_ifs with hk
    · subst hk
      by_cases hp : p = prop
      · subst hp
        simp [AList.lookup_erase]
      · simp [AList.lookup_erase_ne hp, hp, hkey]
    · simp [hk]

theorem Consistent.release (hW : W.Consistent) (hstate : W.watches.lookup key = some state)
    (hhandler : state.handlers.lookup prop = some handler) :
    (W.release key prop state handler).Consistent := by
  refine hW.restrict (fun k p => ¬ (k = key ∧ p = prop)) (hW.nodup.filter _) (fun slot => ?_)
    (fun k p h => stored_release hstate) (fun k st' hst' => ?_)
  · refine mem_disconnect.trans (and_congr_right fun hslot => not_congr ?_)
    rw [hW.slot_eq hstate hhandler hslot]
    constructor
    · rintro rfl
      obtain ⟨hkey, hprop, -⟩ := hW.filed key state prop _ hstate hhandler
      exact ⟨hkey, hprop⟩
    · rintro ⟨hkey, hprop⟩
      obtain ⟨⟨st, hst, hh⟩, -⟩ := (hW.slots_iff slot).mp hslot
      rw [hkey, hstate] at hst
      cases hst
      rw [hprop, hhandler] at hh
      exact (Option.some.inj hh).symm
  · simp only [WatchTable.release] at hst'
    by_cases hk : k = key
    · subst hk
      split_ifs at hst' with hlast
      · simp [AList.lookup_erase] at hst'
      · rw [AList.lookup_insert, Option.some.injEq] at hst'
        subst hst'
        exact ⟨hlast, state, hstate, rfl⟩
    · have hother : W.watches.lookup k = some st' := by
        split_ifs at hst' with hlast
        · rwa [AList.lookup_erase_ne hk] at hst'
        · rwa [AList.lookup_insert_ne hk] at hst'
      exact ⟨hW.nonempty k st' hother, st', hother, rfl⟩

/-- `drop` strikes the key from the books. -/
theorem stored_drop {k : κ} {p : π} {h : Handler κ ι σ π} :
    (W.drop key).Stored k p h ↔ k ≠ key ∧ W.Stored k p h := by
  rw [drop]
  cases hstate : W.watches.lookup key with
  | none =>
    refine (and_iff_right_of_imp ?_).symm
    rintro ⟨st, hst, -⟩ rfl
    simp [hstate] at hst
  | some state => exact stored_erase

theorem lookup_drop (W : WatchTable κ ι σ π) (key k : κ) :
    (W.drop key).watches.lookup k = if k = key then none else W.watches.lookup k := by
  rw [drop]
  split_ifs with hk
  · subst hk
    cases hstate : W.watches.lookup k with
    | none => exact hstate
    | some state => exact AList.lookup_erase ..
  · cases hstate : W.watches.lookup key with
    | none => rfl
    | some state => exact AList.lookup_erase_ne hk

theorem Consistent.drop (hW : W.Consistent) (key : κ) : (W.drop key).Consistent := by
  have hsource : ∀ k st', (W.drop key).watches.lookup k = some st' →
      st'.handlers.entries ≠ [] ∧ ∃ st, W.watches.lookup k = some st ∧ st.source = st'.source := by
    intro k st' hst'
    rw [lookup_drop] at hst'
    split_ifs at hst'
    exact ⟨hW.nonempty k st' hst', st', hst', rfl⟩
  cases hstate : W.watches.lookup key with
  | none => rwa [WatchTable.drop, hstate]
  | some state =>
    have hdrop : (W.drop key).slots = state.handlers.entries.foldl
        (fun slots ph => disconnect slots ⟨state.source, ph.1, ph.2⟩) W.slots := by
      rw [WatchTable.drop, hstate]
    refine hW.restrict (fun k _ => k ≠ key) ?_ (fun slot => ?_) (fun k p h => stored_drop) hsource
    · rw [hdrop]
      exact nodup_foldl_disconnect _ _ hW.nodup
    · rw [hdrop, mem_foldl_disconnect]
      refine and_congr_right fun hslot => ?_
      obtain ⟨hst, -⟩ := (hW.slots_iff slot).mp hslot
      constructor
      · intro hall hkey
        obtain ⟨st, hst, hh⟩ := hst
        rw [hkey, hstate] at hst
        cases hst
        refine hall ⟨slot.handler.prop, slot.handler⟩ (AList.mem_lookup_iff.mp hh) ?_
        exact (hW.slot_eq hstate hh hslot).mpr rfl
      · rintro hkey ⟨p, h⟩ hmem rfl
        have hh : state.handlers.lookup p = some h := AList.mem_lookup_iff.mpr hmem
        exact hkey (hW.filed key state p h hstate hh).1

theorem Consistent.dropAll (hW : W.Consistent) (keys : List κ) : (W.dropAll keys).Consistent := by
  induction keys generalizing W with
  | nil => exact hW
  | cons key keys ih => exact ih (hW.drop key)

theorem stored_dropAll {keys : List κ} {k : κ} {p : π} {h : Handler κ ι σ π} :
    (W.dropAll keys).Stored k p h ↔ k ∉ keys ∧ W.Stored k p h := by
  induction keys generalizing W with
  | nil => simp [dropAll]
  | cons key keys ih =>
    rw [dropAll, List.foldl_cons, ← dropAll, ih, stored_drop, List.mem_cons, not_or]
    tauto

theorem lookup_dropAll (W : WatchTable κ ι σ π) (keys : List κ) (k : κ) :
    (W.dropAll keys).watches.lookup k = if k ∈ keys then none else W.watches.lookup k := by
  induction keys generalizing W with
  | nil => rfl
  | cons key keys ih =>
    rw [dropAll, List.foldl_cons, ← dropAll, ih, lookup_drop]
    by_cases hk : k = key
    · simp [hk]
    · simp [hk]

/-! ### Setting -/

/-- Set or remove the listener for one property. Returns whether a listener is connected
afterwards. -/
def set (W : WatchTable κ ι σ π) (key : κ) (conn : ι) (source : σ) (prop : π) (enable : Bool) :
    WatchTable κ ι σ π × Bool :=
  let state := W.watches.lookup key
  if enable then
    let state := state.getD ⟨source, ∅⟩
    if (state.handlers.lookup prop).isSome then (W, true)
    else (W.connect key conn source prop state, true)
  else
    match state with
    | none => (W, false)
    | some state =>
      match state.handlers.lookup prop with
      | none => (W, false)
      | some handler => (W.release key prop state handler, false)

/-- Set or remove the listeners for several properties, with the result for each. -/
def setAll (key : κ) (conn : ι) (source : σ) :
    WatchTable κ ι σ π → List (Sigma fun _ : π => Bool) → WatchTable κ ι σ π × List (π × Bool)
  | W, [] => (W, [])
  | W, ⟨prop, enable⟩ :: rest =>
    let one := W.set key conn source prop enable
    let more := setAll key conn source one.1 rest
    (more.1, (prop, one.2) :: more.2)

/-- The result of `set` is what was asked for. -/
@[simp] theorem set_snd (W : WatchTable κ ι σ π) (key : κ) (conn : ι) (source : σ) (prop : π)
    (enable : Bool) : (W.set key conn source prop enable).2 = enable := by
  cases enable with
  | true =>
    simp only [set, if_true]
    split <;> rfl
  | false =>
    simp only [set, Bool.false_eq_true, if_false]
    split
    · rfl
    · split <;> rfl

/-- What `set` can do. -/
theorem set_cases (W : WatchTable κ ι σ π) (key : κ) (conn : ι) (source : σ) (prop : π)
    (enable : Bool) :
    ((enable = true ↔ W.Watches key prop) ∧ (W.set key conn source prop enable).1 = W) ∨
    (enable = true ∧ ∃ state, (W.watches.lookup key).getD ⟨source, ∅⟩ = state ∧
      state.handlers.lookup prop = none ∧
      (W.set key conn source prop enable).1 = W.connect key conn source prop state) ∨
    (enable = false ∧ ∃ state handler, W.watches.lookup key = some state ∧
      state.handlers.lookup prop = some handler ∧
      (W.set key conn source prop enable).1 = W.release key prop state handler) := by
  have hnone : W.watches.lookup key = none → ¬ W.Watches key prop := by
    rintro h ⟨handler, state, hstate, -⟩
    simp [h] at hstate
  cases enable with
  | true =>
    simp only [set, if_true]
    cases hlook : ((W.watches.lookup key).getD ⟨source, ∅⟩).handlers.lookup prop with
    | none => exact Or.inr (Or.inl ⟨trivial, _, rfl, hlook, by simp⟩)
    | some handler =>
      refine Or.inl ⟨iff_of_true trivial ?_, by simp⟩
      cases hstate : W.watches.lookup key with
      | none => simp [hstate] at hlook
      | some state =>
        rw [hstate] at hlook
        exact ⟨handler, state, hstate, hlook⟩
  | false =>
    simp only [set, Bool.false_eq_true, if_false]
    cases hstate : W.watches.lookup key with
    | none => exact Or.inl ⟨iff_of_false not_false (hnone hstate), rfl⟩
    | some state =>
      cases hlook : state.handlers.lookup prop with
      | none =>
        refine Or.inl ⟨iff_of_false not_false ?_, by simp [hlook]⟩
        rintro ⟨handler, state', hstate', hlook'⟩
        rw [hstate] at hstate'
        cases hstate'
        simp [hlook] at hlook'
      | some handler =>
        exact Or.inr (Or.inr ⟨trivial, state, handler, rfl, hlook, by simp [hlook]⟩)

omit [DecidableEq ι] [DecidableEq σ] in
/-- The watch `set` extends holds what is on the books for the key. -/
theorem getD_books (hstate : (W.watches.lookup key).getD ⟨source, ∅⟩ = state) (p : π)
    (h : Handler κ ι σ π) : state.handlers.lookup p = some h ↔ W.Stored key p h := by
  subst hstate
  cases hlook : W.watches.lookup key with
  | none => simp [Stored, hlook]
  | some state => simp [Stored, hlook]

theorem Consistent.set (hW : W.Consistent)
    (hsource : ∀ st, W.watches.lookup key = some st → st.source = source) (enable : Bool) :
    (W.set key conn source prop enable).1.Consistent := by
  rcases W.set_cases key conn source prop enable with
    ⟨-, hset⟩ | ⟨-, state, hstate, hnew, hset⟩ | ⟨-, state, handler, hstate, hhandler, hset⟩
  · rwa [hset]
  · rw [hset]
    have hsrc : state.source = source := by
      subst hstate
      cases hlook : W.watches.lookup key with
      | none => rfl
      | some state => exact hsource state hlook
    refine hW.connect (getD_books hstate) hsrc (fun p h hh => ?_) hnew
    obtain ⟨st, hst, hh'⟩ := (getD_books hstate p h).mp hh
    exact (hW.filed key st p h hst hh').2.2.trans (hsource st hst)
  · rw [hset]
    exact hW.release hstate hhandler

/-- The source under the key stays. -/
theorem source_set (hsource : ∀ st, W.watches.lookup key = some st → st.source = source)
    (enable : Bool) {st' : Watch κ ι σ π}
    (hst' : (W.set key conn source prop enable).1.watches.lookup key = some st') :
    st'.source = source := by
  rcases W.set_cases key conn source prop enable with
    ⟨-, hset⟩ | ⟨-, state, hstate, -, hset⟩ | ⟨-, state, handler, hstate, -, hset⟩
  · rw [hset] at hst'
    exact hsource st' hst'
  · rw [hset, connect, AList.lookup_insert, Option.some.injEq] at hst'
    subst hst'
    subst hstate
    cases hlook : W.watches.lookup key with
    | none => rfl
    | some state => exact hsource state hlook
  · rw [hset, release] at hst'
    split_ifs at hst'
    · simp [AList.lookup_erase] at hst'
    · rw [AList.lookup_insert, Option.some.injEq] at hst'
      subst hst'
      exact hsource state hstate

/-- Other keys are left alone. -/
theorem lookup_set_of_ne {k : κ} (hk : k ≠ key) (enable : Bool) :
    (W.set key conn source prop enable).1.watches.lookup k = W.watches.lookup k := by
  rcases W.set_cases key conn source prop enable with
    ⟨-, hset⟩ | ⟨-, state, -, -, hset⟩ | ⟨-, state, handler, -, -, hset⟩
  · rw [hset]
  · rw [hset, connect, AList.lookup_insert_ne hk]
  · rw [hset, release]
    split_ifs
    · exact AList.lookup_erase_ne hk
    · exact AList.lookup_insert_ne hk

/-- `set` decides about one pair. -/
theorem watches_set {enable : Bool} {k : κ} {p : π} :
    (W.set key conn source prop enable).1.Watches k p ↔
      if k = key ∧ p = prop then enable = true else W.Watches k p := by
  rcases W.set_cases key conn source prop enable with
    ⟨hiff, hset⟩ | ⟨rfl, state, hstate, hnew, hset⟩ | ⟨rfl, state, handler, hstate, -, hset⟩
  · rw [hset]
    split_ifs with hkp
    · rw [hkp.1, hkp.2, hiff]
    · rfl
  · rw [hset]
    simp only [Watches, stored_connect (getD_books hstate), ← and_assoc]
    split_ifs with hkp
    · simp [hkp]
    · simp [hkp]
  · rw [hset]
    simp only [Watches, stored_release hstate]
    split_ifs with hkp
    · simp [hkp]
    · simp [hkp]

/-- A handler on the books after `set` was there before or notifies the caller. -/
theorem Stored.of_set {enable : Bool} {k : κ} {p : π} {h : Handler κ ι σ π}
    (hh : (W.set key conn source prop enable).1.Stored k p h) :
    W.Stored k p h ∨ (k = key ∧ p = prop ∧ h.conn = conn) := by
  rcases W.set_cases key conn source prop enable with
    ⟨-, hset⟩ | ⟨-, state, hstate, -, hset⟩ | ⟨-, state, handler, hstate, -, hset⟩
  · rw [hset] at hh
    exact Or.inl hh
  · rw [hset, stored_connect (getD_books hstate)] at hh
    rcases hh with ⟨hk, hp, rfl⟩ | ⟨-, hh⟩
    · exact Or.inr ⟨hk, hp, rfl⟩
    · exact Or.inl hh
  · rw [hset, stored_release hstate] at hh
    exact Or.inl hh.2

/-! ### Setting several properties -/

theorem setAll_snd (W : WatchTable κ ι σ π) (info : List (Sigma fun _ : π => Bool)) :
    (setAll key conn source W info).2 = info.map fun e => (e.1, e.2) := by
  induction info generalizing W with
  | nil => rfl
  | cons e info ih =>
    obtain ⟨p, enable⟩ := e
    simp [setAll, ih]

/-- A property of the books that `set` preserves is preserved by `setAll`. -/
theorem setAll_induction {P : WatchTable κ ι σ π → Prop} (info : List (Sigma fun _ : π => Bool))
    (hstep : ∀ W, ∀ e ∈ info, P W → P (W.set key conn source e.1 e.2).1) (hP : P W) :
    P (setAll key conn source W info).1 := by
  induction info generalizing W with
  | nil => exact hP
  | cons e info ih =>
    exact ih (fun W e he => hstep W e (List.mem_cons_of_mem _ he))
      (hstep W e List.mem_cons_self hP)

/-- Other keys are left alone. -/
theorem lookup_setAll_of_ne {k : κ} (hk : k ≠ key) (info : List (Sigma fun _ : π => Bool)) :
    (setAll key conn source W info).1.watches.lookup k = W.watches.lookup k := by
  have hkeep := @setAll_induction _ _ _ _ _ _ W key conn source _ _
    (fun W' => W'.watches.lookup k = W.watches.lookup k) info
    (fun W' e _ hW' => (lookup_set_of_ne hk e.2).trans hW') rfl
  exact hkeep

/-- Stopping to watch changes nothing where nothing is watched. -/
theorem setAll_disable (hnone : W.watches.lookup key = none)
    (info : List (Sigma fun _ : π => Bool)) (hinfo : ∀ e ∈ info, e.2 = false) :
    (setAll key conn source W info).1 = W := by
  have hkeep := @setAll_induction _ _ _ _ _ _ W key conn source _ _ (fun W' => W' = W) info
    (fun W' e he hW' => ?_) rfl
  · exact hkeep
  · rw [hW', hinfo e he]
    simp [set, hnone]

/-- What is on the books for the key after `setAll`: what was asked for, and for the other
properties what was there. -/
theorem watches_setAll (info : List (Sigma fun _ : π => Bool)) (hinfo : info.NodupKeys) (p : π) :
    (setAll key conn source W info).1.Watches key p ↔
      (⟨p, true⟩ : Sigma fun _ : π => Bool) ∈ info ∨ (p ∉ info.keys ∧ W.Watches key p) := by
  induction info generalizing W with
  | nil => simp [setAll]
  | cons e info ih =>
    obtain ⟨q, enable⟩ := e
    obtain ⟨hq, hinfo⟩ := List.nodupKeys_cons.mp hinfo
    rw [setAll, ih hinfo, watches_set]
    by_cases hp : p = q
    · subst hp
      have hmem : (⟨p, true⟩ : Sigma fun _ : π => Bool) ∉ info := by
        intro h
        have hkeys := List.mem_keys_of_mem h
        exact hq hkeys
      cases enable <;> simp [hmem, hq]
    · simp [hp]

/-- `setAll` reports for each property whether it is watched afterwards. -/
theorem setAll_result (info : List (Sigma fun _ : π => Bool)) (hinfo : info.NodupKeys) {p : π}
    {connected : Bool} (h : (p, connected) ∈ (setAll key conn source W info).2) :
    connected = true ↔ (setAll key conn source W info).1.Watches key p := by
  rw [setAll_snd] at h
  obtain ⟨⟨q, enable⟩, hmem, heq⟩ := List.mem_map.mp h
  obtain ⟨rfl, rfl⟩ := Prod.mk.inj heq
  rw [watches_setAll info hinfo]
  cases enable with
  | true => simp [hmem]
  | false =>
    simp only [Bool.false_eq_true, false_iff, not_or, not_and]
    refine ⟨fun htrue => ?_, fun hkeys => absurd (List.mem_keys_of_mem hmem) hkeys⟩
    have := hinfo.eq_of_mk_mem hmem htrue
    contradiction

end WatchTable

end KwinApi
