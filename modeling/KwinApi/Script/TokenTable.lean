import KwinApi.Lib.Claims
import KwinApi.Script.Jsonrpc
import Mathlib.Data.List.AList
import Mathlib.Data.List.OfFn

/-!
# The token registry

Token entries are objects: the two maps and the closure of the entry's deadline timer share them.
The model keeps them on a heap and the maps hold references. This module is the registry by
itself; what the script does with it is in `KwinApi.Script.Script`.

## Main definitions

* `KwinApi.TokenEntry`, `TokenTable` — entries, `byToken` and `byWindow`
* `TokenTable.register`, `bind`, `stopDeadline`, `unregister`, `timerFired` — the updates the script
  makes
* `generateToken` — rejection sampling
* `TokenTable.WellFormed` — the registry invariant
* `TokenTable.claims` — what the registry says, token by token

## Main results

* `TokenTable.WellFormed.register`, `.bind`, `.unregister`, `.timerFired` and so on — every update
  keeps the invariant
* `TokenTable.claims_register`, `WellFormed.claims_bind` and so on — and what it does to the claims
-/

namespace KwinApi

/-- Tokens are 20 characters from the base64 alphabet. -/
def tokenLength : ℕ := 20

/-- `TOKEN_ALPHABET`. -/
def tokenAlphabet : JsString :=
  js "ABCDEFGHIJKLMNOPQRSTUVWXYZabcdefghijklmnopqrstuvwxyz0123456789+/"

/-- Upper bound for the validate-phase timeout. -/
def maxValidateTimeoutMs : ℤ := 3600000

/-- `Qt::CoarseTimer`. -/
def coarseTimer : ℕ := 1

/-- A `QTimer` as the script sets it up. -/
structure QTimer where
  singleShot : Bool
  timerType : ℕ
  interval : ℤ
  active : Bool
  deriving DecidableEq, Repr

/-- The state of an entry. -/
inductive TokenState where
  | pending
  | active
  deriving DecidableEq, Repr

/-- A token that was handed out. -/
structure TokenEntry where
  token : JsString
  /-- The client that requested this token. -/
  conn : RpcConnection
  state : TokenState
  /-- The matched window; `none` until the first caption match. -/
  window : Option Window
  /-- Armed at request time. -/
  deadlineTimer : QTimer
  deriving DecidableEq, Repr

/-- The entries and the two maps. -/
structure TokenTable where
  /-- The entry objects. -/
  entries : ℕ → TokenEntry
  /-- The next object. -/
  nextEntry : ℕ
  byToken : AList fun _ : JsString => ℕ
  /-- Active tokens by `windowKey`. -/
  byWindow : AList fun _ : JsString => ℕ

/-! ### Drawing tokens -/

/-- A result of `Math.random()`: a fraction in `[0, 1)`. -/
structure Random where
  num : ℕ
  den : ℕ
  lt : num < den

theorem length_tokenAlphabet : tokenAlphabet.length = 64 := by decide

/-- `Math.floor(Math.random() * TOKEN_ALPHABET.length)` is an index of the alphabet. -/
theorem Random.index_lt (r : Random) :
    r.num * tokenAlphabet.length / r.den < tokenAlphabet.length := by
  have hlen : 0 < tokenAlphabet.length := by
    rw [length_tokenAlphabet]
    decide
  rw [Nat.div_lt_iff_lt_mul (Nat.zero_lt_of_lt r.lt), Nat.mul_comm]
  exact Nat.mul_lt_mul_of_pos_left r.lt hlen

/-- The character drawn. -/
def Random.letter (r : Random) : UInt16 := tokenAlphabet.get ⟨_, r.index_lt⟩

/-- The results of `Math.random()` while one token is drawn. -/
abbrev Draw := Fin tokenLength → Random

/-- One sampled token. -/
def Draw.token (draw : Draw) : JsString := List.ofFn fun i => (draw i).letter

/-- A random token that is not in use, or nothing while every token drawn so far is in use. -/
def generateToken (byToken : AList fun _ : JsString => ℕ) : List Draw → Option JsString
  | [] => none
  | draw :: draws =>
    if (byToken.lookup draw.token).isSome then generateToken byToken draws else some draw.token

/-- The shape of a token. -/
def IsToken (t : JsString) : Prop := t.length = tokenLength ∧ ∀ c ∈ t, c ∈ tokenAlphabet

theorem isToken_draw (draw : Draw) : IsToken draw.token := by
  refine ⟨List.length_ofFn, fun c hc => ?_⟩
  obtain ⟨i, rfl⟩ := (List.mem_ofFn' _ _).mp hc
  exact List.get_mem ..

/-- A generated token has the right shape and is not in use. -/
theorem generateToken_spec {byToken : AList fun _ : JsString => ℕ} {draws : List Draw}
    {t : JsString} (h : generateToken byToken draws = some t) :
    IsToken t ∧ byToken.lookup t = none := by
  induction draws with
  | nil => simp [generateToken] at h
  | cons draw draws ih =>
    rw [generateToken] at h
    split_ifs at h with hused
    · exact ih h
    · cases h
      exact ⟨isToken_draw draw, Option.not_isSome_iff_eq_none.mp hused⟩

namespace TokenTable

/-! ### Updates -/

/-- The object an unused reference stands for. -/
def unused : TokenEntry := ⟨[], ⟨0, 0⟩, .pending, none, ⟨true, coarseTimer, 0, false⟩⟩

/-- No token was handed out. -/
def empty : TokenTable := ⟨fun _ => unused, 0, ∅, ∅⟩

/-- `byToken.set(token, entry)` of a new entry. -/
def register (T : TokenTable) (entry : TokenEntry) : TokenTable :=
  { entries := Function.update T.entries T.nextEntry entry
    nextEntry := T.nextEntry + 1
    byToken := T.byToken.insert entry.token T.nextEntry
    byWindow := T.byWindow }

/-- `entry.deadlineTimer.stop()`; the timer also stops by itself when it fires. -/
def stopDeadline (T : TokenTable) (r : ℕ) : TokenTable :=
  let entry := T.entries r
  { T with
    entries := Function.update T.entries r
      { entry with deadlineTimer := { entry.deadlineTimer with active := false } } }

/-- The entry becomes active on a window. -/
def bind (T : TokenTable) (r : ℕ) (window : Window) : TokenTable :=
  { T with
    entries := Function.update T.entries r
      { T.entries r with state := .active, window := some window }
    byWindow := T.byWindow.insert (windowKey window) r }

/-- What `invalidate` and `dropClientTokens` do to the registry: stop the deadline timer and
delete the entry from `byWindow`, if it is active, and from `byToken`. -/
def unregister (T : TokenTable) (r : ℕ) : TokenTable :=
  let entry := T.entries r
  { T.stopDeadline r with
    byWindow :=
      match entry.state, entry.window with
      | .active, some window => T.byWindow.erase (windowKey window)
      | _, _ => T.byWindow
    byToken := T.byToken.erase entry.token }

/-- Unregister several entries, one after the other. -/
def unregisterAll (T : TokenTable) (rs : List ℕ) : TokenTable := rs.foldl unregister T

/-- The registered entries of a client. -/
def owned (T : TokenTable) (clientId : ℕ) : List ℕ :=
  (T.byToken.entries.map Sigma.snd).filter fun r => (T.entries r).conn.id = clientId

/-- What the registry says, token by token. -/
def claims (T : TokenTable) : Registry JsString RpcConnection Window := fun t =>
  (T.byToken.lookup t).map fun r =>
    ⟨(T.entries r).conn, (T.entries r).window, (T.entries r).deadlineTimer.active⟩

/-! ### The invariant -/

/-- The entry is registered. -/
def Registered (T : TokenTable) (r : ℕ) : Prop := T.byToken.lookup (T.entries r).token = some r

instance (T : TokenTable) (r : ℕ) : Decidable (T.Registered r) :=
  inferInstanceAs (Decidable (_ = _))

/-- The registry invariant, for the windows that are managed. -/
structure WellFormed (windows : List Window) (T : TokenTable) : Prop where
  /-- A key of `byToken` is its entry's token. -/
  token_eq : ∀ t r, T.byToken.lookup t = some r → (T.entries r).token = t
  /-- It is the token of an object handed out. -/
  lt_next : ∀ t r, T.byToken.lookup t = some r → r < T.nextEntry
  /-- It has the shape of a token. -/
  shape : ∀ t r, T.byToken.lookup t = some r → IsToken t
  /-- An entry is active if and only if it has a window. -/
  active_iff : ∀ r, (T.entries r).state = .active ↔ (T.entries r).window ≠ none
  /-- `byWindow` holds the registered active entries, each under the key of its window. -/
  byWindow_iff : ∀ k r, T.byWindow.lookup k = some r ↔
    T.Registered r ∧ ∃ w, (T.entries r).window = some w ∧ windowKey w = k
  /-- The window of a registered entry is managed. -/
  managed : ∀ r w, T.Registered r → (T.entries r).window = some w → w ∈ windows
  /-- The deadline timer of a registered pending entry runs. -/
  deadline : ∀ r, T.Registered r → (T.entries r).state = .pending →
    (T.entries r).deadlineTimer.active = true
  /-- Only timers of registered entries run. -/
  running : ∀ r, (T.entries r).deadlineTimer.active = true → T.Registered r

/-! ### What the updates leave alone -/

variable {T : TokenTable} {windows : List Window} {r : ℕ} {w : Window}

@[simp] theorem token_stopDeadline (T : TokenTable) (r q : ℕ) :
    ((T.stopDeadline r).entries q).token = (T.entries q).token := by
  by_cases h : q = r
  · subst h
    simp [stopDeadline]
  · simp [stopDeadline, Function.update_of_ne h]

@[simp] theorem conn_stopDeadline (T : TokenTable) (r q : ℕ) :
    ((T.stopDeadline r).entries q).conn = (T.entries q).conn := by
  by_cases h : q = r
  · subst h
    simp [stopDeadline]
  · simp [stopDeadline, Function.update_of_ne h]

@[simp] theorem state_stopDeadline (T : TokenTable) (r q : ℕ) :
    ((T.stopDeadline r).entries q).state = (T.entries q).state := by
  by_cases h : q = r
  · subst h
    simp [stopDeadline]
  · simp [stopDeadline, Function.update_of_ne h]

@[simp] theorem window_stopDeadline (T : TokenTable) (r q : ℕ) :
    ((T.stopDeadline r).entries q).window = (T.entries q).window := by
  by_cases h : q = r
  · subst h
    simp [stopDeadline]
  · simp [stopDeadline, Function.update_of_ne h]

theorem running_stopDeadline (T : TokenTable) (r q : ℕ) :
    ((T.stopDeadline r).entries q).deadlineTimer.active = true ↔
      q ≠ r ∧ (T.entries q).deadlineTimer.active = true := by
  by_cases h : q = r
  · subst h
    simp [stopDeadline]
  · simp [stopDeadline, h]

@[simp] theorem entries_unregister (T : TokenTable) (r : ℕ) :
    (T.unregister r).entries = (T.stopDeadline r).entries := rfl

@[simp] theorem nextEntry_unregister (T : TokenTable) (r : ℕ) :
    (T.unregister r).nextEntry = T.nextEntry := rfl

@[simp] theorem token_bind (T : TokenTable) (r q : ℕ) (w : Window) :
    ((T.bind r w).entries q).token = (T.entries q).token := by
  by_cases h : q = r
  · subst h
    simp [bind]
  · simp [bind, Function.update_of_ne h]

@[simp] theorem conn_bind (T : TokenTable) (r q : ℕ) (w : Window) :
    ((T.bind r w).entries q).conn = (T.entries q).conn := by
  by_cases h : q = r
  · subst h
    simp [bind]
  · simp [bind, Function.update_of_ne h]

theorem entries_bind_self (T : TokenTable) (r : ℕ) (w : Window) :
    (T.bind r w).entries r = { T.entries r with state := .active, window := some w } :=
  Function.update_self ..

theorem entries_bind_of_ne {q : ℕ} (h : q ≠ r) (w : Window) :
    (T.bind r w).entries q = T.entries q :=
  Function.update_of_ne h ..

theorem entries_stopDeadline_of_ne {q : ℕ} (h : q ≠ r) :
    (T.stopDeadline r).entries q = T.entries q :=
  Function.update_of_ne h ..

theorem entries_register_self (T : TokenTable) (entry : TokenEntry) :
    (T.register entry).entries T.nextEntry = entry :=
  Function.update_self ..

theorem entries_register_of_ne {q : ℕ} (h : q ≠ T.nextEntry) (entry : TokenEntry) :
    (T.register entry).entries q = T.entries q :=
  Function.update_of_ne h ..

/-- A stopped timer can be stopped again. -/
theorem unregister_stopDeadline (T : TokenTable) (r : ℕ) :
    (T.stopDeadline r).unregister r = T.unregister r := by
  simp [unregister, stopDeadline]

theorem lookup_unregister (T : TokenTable) (r : ℕ) (t : JsString) :
    (T.unregister r).byToken.lookup t =
      if t = (T.entries r).token then none else T.byToken.lookup t := by
  split_ifs with h
  · subst h
    exact AList.lookup_erase ..
  · exact AList.lookup_erase_ne h

theorem lookup_register (T : TokenTable) (entry : TokenEntry) (t : JsString) :
    (T.register entry).byToken.lookup t =
      if t = entry.token then some T.nextEntry else T.byToken.lookup t := by
  split_ifs with h
  · subst h
    exact AList.lookup_insert ..
  · exact AList.lookup_insert_ne h

/-! ### Who is registered afterwards -/

@[simp] theorem registered_stopDeadline {q : ℕ} :
    (T.stopDeadline r).Registered q ↔ T.Registered q := by
  rw [Registered, token_stopDeadline]
  rfl

@[simp] theorem registered_bind {q : ℕ} : (T.bind r w).Registered q ↔ T.Registered q := by
  rw [Registered, token_bind]
  rfl

/-- Registering under a fresh token leaves the other entries alone. -/
theorem registered_register {entry : TokenEntry}
    (hfresh : T.byToken.lookup entry.token = none) {q : ℕ} (hq : q ≠ T.nextEntry) :
    (T.register entry).Registered q ↔ T.Registered q := by
  rw [Registered, entries_register_of_ne hq, lookup_register, Registered]
  split_ifs with h
  · rw [h, hfresh]
    simp [Ne.symm hq]
  · rfl

theorem registered_register_self (T : TokenTable) (entry : TokenEntry) :
    (T.register entry).Registered T.nextEntry := by
  rw [Registered, entries_register_self, lookup_register, if_pos rfl]

/-- Two registered entries have different tokens. -/
theorem Registered.eq_of_token_eq {q : ℕ} (hr : T.Registered r) (hq : T.Registered q)
    (h : (T.entries r).token = (T.entries q).token) : r = q := by
  rw [Registered, ← h, hr] at hq
  exact Option.some.inj hq

/-- Unregistering deletes exactly the entry. -/
theorem registered_unregister (hr : T.Registered r) {q : ℕ} :
    (T.unregister r).Registered q ↔ q ≠ r ∧ T.Registered q := by
  rw [Registered, lookup_unregister, entries_unregister, token_stopDeadline]
  split_ifs with h
  · refine ⟨nofun, fun ⟨hne, hq⟩ => ?_⟩
    exact absurd (hq.eq_of_token_eq hr h) hne
  · refine ⟨fun hq => ⟨?_, hq⟩, And.right⟩
    rintro rfl
    exact h rfl

/-! ### The invariant is kept -/

theorem wellFormed_empty (windows : List Window) : empty.WellFormed windows := by
  refine ⟨?_, ?_, ?_, ?_, ?_, ?_, ?_, ?_⟩ <;> simp [empty, unused, Registered]

theorem WellFormed.registered (hT : T.WellFormed windows) {t : JsString}
    (h : T.byToken.lookup t = some r) : T.Registered r := by
  rw [Registered, hT.token_eq t r h, h]

theorem WellFormed.state_of_window (hT : T.WellFormed windows) {w : Window}
    (h : (T.entries r).window = some w) : (T.entries r).state = .active := by
  rw [hT.active_iff, h]
  simp

theorem WellFormed.pending_of_window (hT : T.WellFormed windows)
    (h : (T.entries r).window = none) : (T.entries r).state = .pending := by
  cases hs : (T.entries r).state with
  | pending => rfl
  | active => exact absurd h ((hT.active_iff r).mp hs)

/-- A window carries at most one registered token. -/
theorem WellFormed.eq_of_window (hT : T.WellFormed windows) {q : ℕ} {w : Window}
    (hr : T.Registered r) (hq : T.Registered q) (hrw : (T.entries r).window = some w)
    (hqw : (T.entries q).window = some w) : r = q := by
  have h₁ := (hT.byWindow_iff (windowKey w) r).mpr ⟨hr, w, hrw, rfl⟩
  have h₂ := (hT.byWindow_iff (windowKey w) q).mpr ⟨hq, w, hqw, rfl⟩
  rw [h₁] at h₂
  exact Option.some.inj h₂

/-- `byWindow` under the key of a window: the registered entry bound to it. -/
theorem WellFormed.byWindow_windowKey (hT : T.WellFormed windows) {w : Window} :
    T.byWindow.lookup (windowKey w) = some r ↔
      T.Registered r ∧ (T.entries r).window = some w := by
  rw [hT.byWindow_iff]
  refine and_congr_right fun _ => ⟨?_, fun h => ⟨w, h, rfl⟩⟩
  rintro ⟨v, hv, hkey⟩
  rwa [← windowKey_injective hkey]

/-- Unregistering deletes exactly the entry from `byWindow`. -/
theorem WellFormed.byWindow_unregister (hT : T.WellFormed windows) (hr : T.Registered r)
    {k : JsString} {q : ℕ} : (T.unregister r).byWindow.lookup k = some q ↔
      q ≠ r ∧ T.byWindow.lookup k = some q := by
  have hbyWindow : (T.unregister r).byWindow =
      match (T.entries r).window with
      | some w => T.byWindow.erase (windowKey w)
      | none => T.byWindow := by
    cases hw : (T.entries r).window with
    | none => simp [unregister, hw]
    | some w => simp [unregister, hw, hT.state_of_window hw]
  rw [hbyWindow]
  cases hw : (T.entries r).window with
  | none =>
    refine (and_iff_right_of_imp ?_).symm
    rintro hq rfl
    obtain ⟨-, w, hqw, -⟩ := (hT.byWindow_iff k q).mp hq
    rw [hw] at hqw
    contradiction
  | some w =>
    by_cases hk : k = windowKey w
    · subst hk
      have hlook := hT.byWindow_windowKey.mpr ⟨hr, hw⟩
      simp [AList.lookup_erase, hlook, eq_comm]
    · rw [AList.lookup_erase_ne hk]
      refine (and_iff_right_of_imp ?_).symm
      rintro hq rfl
      obtain ⟨-, v, hqv, hkey⟩ := (hT.byWindow_iff k q).mp hq
      rw [hw] at hqv
      cases hqv
      exact hk hkey.symm

theorem WellFormed.unregister (hT : T.WellFormed windows) (hr : T.Registered r) :
    (T.unregister r).WellFormed windows := by
  have hlookup : ∀ t q, (T.unregister r).byToken.lookup t = some q →
      T.byToken.lookup t = some q := by
    intro t q h
    rw [lookup_unregister] at h
    split_ifs at h
    exact h
  refine ⟨fun t q h => ?_, fun t q h => hT.lt_next t q (hlookup t q h),
    fun t q h => hT.shape t q (hlookup t q h), fun q => ?_, fun k q => ?_, fun q w hq hw => ?_,
    fun q hq hs => ?_, fun q hrun => ?_⟩
  · rw [entries_unregister, token_stopDeadline]
    exact hT.token_eq t q (hlookup t q h)
  · rw [entries_unregister, state_stopDeadline, window_stopDeadline]
    exact hT.active_iff q
  · rw [hT.byWindow_unregister hr, hT.byWindow_iff, registered_unregister hr, entries_unregister,
      window_stopDeadline, and_assoc]
  · rw [entries_unregister, window_stopDeadline] at hw
    exact hT.managed q w ((registered_unregister hr).mp hq).2 hw
  · rw [entries_unregister, state_stopDeadline] at hs
    obtain ⟨hne, hq⟩ := (registered_unregister hr).mp hq
    exact (running_stopDeadline T r q).mpr ⟨hne, hT.deadline q hq hs⟩
  · obtain ⟨hne, hrun⟩ := (running_stopDeadline T r q).mp hrun
    exact (registered_unregister hr).mpr ⟨hne, hT.running q hrun⟩

/-- Once an entry is active its deadline may pass. -/
theorem WellFormed.stopDeadline (hT : T.WellFormed windows)
    (hactive : (T.entries r).state = .active) : (T.stopDeadline r).WellFormed windows := by
  refine ⟨fun t q h => ?_, hT.lt_next, hT.shape, fun q => ?_, fun k q => ?_, fun q w hq hw => ?_,
    fun q hq hs => ?_, fun q hrun => ?_⟩
  · rw [token_stopDeadline]
    exact hT.token_eq t q h
  · rw [state_stopDeadline, window_stopDeadline]
    exact hT.active_iff q
  · rw [registered_stopDeadline, window_stopDeadline]
    exact hT.byWindow_iff k q
  · rw [window_stopDeadline] at hw
    exact hT.managed q w (registered_stopDeadline.mp hq) hw
  · rw [state_stopDeadline] at hs
    refine (running_stopDeadline T r q).mpr ⟨?_, hT.deadline q (registered_stopDeadline.mp hq) hs⟩
    rintro rfl
    rw [hactive] at hs
    contradiction
  · exact registered_stopDeadline.mpr (hT.running q ((running_stopDeadline T r q).mp hrun).2)

/-- A pending entry is bound to a managed window that carries no token. -/
theorem WellFormed.bind (hT : T.WellFormed windows) (hr : T.Registered r)
    (hnone : (T.entries r).window = none) {w : Window} (hw : w ∈ windows)
    (hfree : T.byWindow.lookup (windowKey w) = none) : (T.bind r w).WellFormed windows := by
  have hself := T.entries_bind_self r w
  have hother : ∀ q, q ≠ r → (T.bind r w).entries q = T.entries q :=
    fun q hq => entries_bind_of_ne hq w
  refine ⟨fun t q h => ?_, hT.lt_next, hT.shape, fun q => ?_, fun k q => ?_, fun q v hq hv => ?_,
    fun q hq hs => ?_, fun q hrun => ?_⟩
  all_goals by_cases hqr : q = r
  · subst hqr
    rw [hself]
    exact hT.token_eq t q h
  · rw [hother q hqr]
    exact hT.token_eq t q h
  · subst hqr
    simp [hself]
  · rw [hother q hqr]
    exact hT.active_iff q
  · subst hqr
    rw [registered_bind, hself]
    by_cases hk : k = windowKey w
    · subst hk
      simp [TokenTable.bind, hr]
    · have hk' : T.byWindow.lookup k ≠ some q := by
        intro h
        obtain ⟨-, v, hv, -⟩ := (hT.byWindow_iff k q).mp h
        rw [hnone] at hv
        contradiction
      simp [TokenTable.bind, AList.lookup_insert_ne hk, hk', Ne.symm hk]
  · rw [registered_bind, hother q hqr]
    by_cases hk : k = windowKey w
    · subst hk
      have hq : ¬ (T.Registered q ∧ ∃ v, (T.entries q).window = some v ∧
          windowKey v = windowKey w) := by
        rw [← hT.byWindow_iff, hfree]
        exact nofun
      simpa [TokenTable.bind, Ne.symm hqr] using hq
    · simp only [TokenTable.bind, AList.lookup_insert_ne hk]
      exact hT.byWindow_iff k q
  · subst hqr
    rw [hself] at hv
    cases hv
    exact hw
  · rw [hother q hqr] at hv
    exact hT.managed q v (registered_bind.mp hq) hv
  · subst hqr
    rw [hself] at hs
    contradiction
  · rw [hother q hqr] at hs ⊢
    exact hT.deadline q (registered_bind.mp hq) hs
  · subst hqr
    exact registered_bind.mpr hr
  · rw [hother q hqr] at hrun
    exact registered_bind.mpr (hT.running q hrun)

/-- A new pending entry is registered under a fresh token. -/
theorem WellFormed.register (hT : T.WellFormed windows) {entry : TokenEntry}
    (hshape : IsToken entry.token) (hfresh : T.byToken.lookup entry.token = none)
    (hstate : entry.state = .pending) (hnone : entry.window = none)
    (hrun : entry.deadlineTimer.active = true) : (T.register entry).WellFormed windows := by
  have hself := T.entries_register_self entry
  have hother : ∀ q, q ≠ T.nextEntry → (T.register entry).entries q = T.entries q :=
    fun q hq => entries_register_of_ne hq entry
  have hne : ∀ t q, T.byToken.lookup t = some q → q ≠ T.nextEntry :=
    fun t q h => Nat.ne_of_lt (hT.lt_next t q h)
  have hreg : ∀ q, q ≠ T.nextEntry → ((T.register entry).Registered q ↔ T.Registered q) :=
    fun q hq => registered_register hfresh hq
  refine ⟨fun t q h => ?_, fun t q h => ?_, fun t q h => ?_, fun q => ?_, fun k q => ?_,
    fun q v hq hv => ?_, fun q hq hs => ?_, fun q hrun => ?_⟩
  · rw [lookup_register] at h
    split_ifs at h with ht
    · cases h
      rw [hself, ht]
    · rw [hother q (hne t q h)]
      exact hT.token_eq t q h
  · rw [lookup_register] at h
    split_ifs at h with ht
    · cases h
      exact Nat.lt_succ_self _
    · exact Nat.lt_succ_of_lt (hT.lt_next t q h)
  · rw [lookup_register] at h
    split_ifs at h with ht
    · rw [ht]
      exact hshape
    · exact hT.shape t q h
  · by_cases hq : q = T.nextEntry
    · rw [hq, hself, hstate, hnone]
      simp
    · rw [hother q hq]
      exact hT.active_iff q
  · change T.byWindow.lookup k = some q ↔ _
    rw [hT.byWindow_iff]
    by_cases hq : q = T.nextEntry
    · subst hq
      rw [hself, hnone]
      simp only [reduceCtorEq, false_and, exists_false, and_false, iff_false, not_and]
      exact fun h _ => hne _ _ h rfl
    · rw [hreg q hq, hother q hq]
  · by_cases hqn : q = T.nextEntry
    · subst hqn
      rw [hself, hnone] at hv
      contradiction
    · rw [hother q hqn] at hv
      exact hT.managed q v ((hreg q hqn).mp hq) hv
  · by_cases hqn : q = T.nextEntry
    · subst hqn
      rw [hself]
      exact hrun
    · rw [hother q hqn] at hs ⊢
      exact hT.deadline q ((hreg q hqn).mp hq) hs
  · by_cases hqn : q = T.nextEntry
    · subst hqn
      exact T.registered_register_self entry
    · rw [hother q hqn] at hrun
      exact (hreg q hqn).mpr (hT.running q hrun)

/-- The managed windows may change as long as the bound ones stay. -/
theorem WellFormed.remanage (hT : T.WellFormed windows) {windows' : List Window}
    (h : ∀ r w, T.Registered r → (T.entries r).window = some w → w ∈ windows') :
    T.WellFormed windows' :=
  { hT with managed := h }

/-! ### The tokens of a client -/

/-- What is left of the registry after unregistering several entries. -/
structure Without (T : TokenTable) (rs : List ℕ) (T' : TokenTable) : Prop where
  registered : ∀ q, T'.Registered q ↔ q ∉ rs ∧ T.Registered q
  token : ∀ q, (T'.entries q).token = (T.entries q).token
  conn : ∀ q, (T'.entries q).conn = (T.entries q).conn
  window : ∀ q, (T'.entries q).window = (T.entries q).window
  running : ∀ q, (T'.entries q).deadlineTimer.active = true ↔
    q ∉ rs ∧ (T.entries q).deadlineTimer.active = true
  nextEntry : T'.nextEntry = T.nextEntry

theorem WellFormed.unregisterAll (hT : T.WellFormed windows) {rs : List ℕ} (hrs : rs.Nodup)
    (hreg : ∀ r ∈ rs, T.Registered r) :
    (T.unregisterAll rs).WellFormed windows ∧ T.Without rs (T.unregisterAll rs) := by
  induction rs generalizing T with
  | nil => exact ⟨hT, by simp [TokenTable.unregisterAll], fun _ => rfl, fun _ => rfl,
      fun _ => rfl, by simp [TokenTable.unregisterAll], rfl⟩
  | cons r rs ih =>
    obtain ⟨hr, hrs⟩ := List.nodup_cons.mp hrs
    have hr₀ := hreg r List.mem_cons_self
    obtain ⟨hT', hw⟩ := ih (hT.unregister hr₀) hrs fun q hq => by
      rw [registered_unregister hr₀]
      exact ⟨fun h => hr (h ▸ hq), hreg q (List.mem_cons_of_mem _ hq)⟩
    refine ⟨hT', fun q => ?_, fun q => ?_, fun q => ?_, fun q => ?_, fun q => ?_, hw.nextEntry⟩
    · rw [TokenTable.unregisterAll, List.foldl_cons, ← TokenTable.unregisterAll, hw.registered,
        registered_unregister hr₀, List.mem_cons, not_or]
      tauto
    · exact (hw.token q).trans (token_stopDeadline T r q)
    · exact (hw.conn q).trans (conn_stopDeadline T r q)
    · exact (hw.window q).trans (window_stopDeadline T r q)
    · rw [TokenTable.unregisterAll, List.foldl_cons, ← TokenTable.unregisterAll, hw.running,
        entries_unregister, running_stopDeadline, List.mem_cons, not_or]
      tauto

theorem WellFormed.mem_owned (hT : T.WellFormed windows) {clientId : ℕ} :
    r ∈ T.owned clientId ↔ T.Registered r ∧ (T.entries r).conn.id = clientId := by
  simp only [owned, List.mem_filter, List.mem_map, decide_eq_true_eq]
  refine and_congr_left fun _ => ?_
  constructor
  · rintro ⟨⟨t, q⟩, hmem, rfl⟩
    exact hT.registered (AList.mem_lookup_iff.mpr hmem)
  · intro h
    exact ⟨⟨_, r⟩, AList.mem_lookup_iff.mp h, rfl⟩

theorem WellFormed.nodup_owned (hT : T.WellFormed windows) (clientId : ℕ) :
    (T.owned clientId).Nodup := by
  have hkeys : (T.byToken.entries.map Sigma.snd).map (fun r => (T.entries r).token) =
      T.byToken.keys := by
    rw [List.map_map]
    refine List.map_congr_left fun e he => ?_
    exact hT.token_eq e.1 e.2 (AList.mem_lookup_iff.mpr he)
  have hnodup : ((T.byToken.entries.map Sigma.snd).map fun r => (T.entries r).token).Nodup := by
    rw [hkeys]
    exact T.byToken.keys_nodup
  exact hnodup.of_map.filter _

/-! ### What the updates do to the claims -/

/-- The claim of an entry. -/
def claim (T : TokenTable) (r : ℕ) : Claim RpcConnection Window :=
  ⟨(T.entries r).conn, (T.entries r).window, (T.entries r).deadlineTimer.active⟩

theorem claims_of_lookup {t : JsString} (h : T.byToken.lookup t = some r) :
    T.claims t = some (T.claim r) := by
  rw [claims, h]
  rfl

theorem claims_of_lookup_none {t : JsString} (h : T.byToken.lookup t = none) :
    T.claims t = none := by
  rw [claims, h]
  rfl

theorem WellFormed.claims_eq_some (hT : T.WellFormed windows) {t : JsString}
    {cl : Claim RpcConnection Window} :
    T.claims t = some cl ↔ ∃ r, T.Registered r ∧ (T.entries r).token = t ∧ T.claim r = cl := by
  rw [claims, Option.map_eq_some_iff]
  constructor
  · rintro ⟨r, hr, hcl⟩
    exact ⟨r, hT.registered hr, hT.token_eq t r hr, hcl⟩
  · rintro ⟨r, hr, rfl, hcl⟩
    exact ⟨r, hr, hcl⟩

/-- An update that concerns one token only. -/
theorem claims_eq_update {T' : TokenTable} {t₀ : JsString}
    (hlook : ∀ t, t ≠ t₀ → T'.byToken.lookup t = T.byToken.lookup t)
    (hentry : ∀ t q, t ≠ t₀ → T.byToken.lookup t = some q → T'.entries q = T.entries q) :
    T'.claims = Function.update T.claims t₀ (T'.claims t₀) := by
  funext t
  by_cases ht : t = t₀
  · subst ht
    rw [Function.update_self]
  · rw [Function.update_of_ne ht]
    cases h : T.byToken.lookup t with
    | none => rw [claims_of_lookup_none h, claims_of_lookup_none ((hlook t ht).trans h)]
    | some q =>
      rw [claims_of_lookup h, claims_of_lookup ((hlook t ht).trans h), claim, claim,
        hentry t q ht h]

/-- Under another token there is another entry. -/
theorem WellFormed.ne_of_token_ne (hT : T.WellFormed windows) {t : JsString} {q : ℕ}
    (ht : t ≠ (T.entries r).token) (h : T.byToken.lookup t = some q) : q ≠ r := by
  rintro rfl
  exact ht (hT.token_eq t q h).symm

theorem WellFormed.claims_unregister (hT : T.WellFormed windows) :
    (T.unregister r).claims = Function.update T.claims (T.entries r).token none := by
  have hlook : ∀ t, t ≠ (T.entries r).token →
      (T.unregister r).byToken.lookup t = T.byToken.lookup t := by
    intro t ht
    rw [lookup_unregister, if_neg ht]
  rw [claims_eq_update hlook fun t q ht h =>
    entries_stopDeadline_of_ne (hT.ne_of_token_ne ht h), claims_of_lookup_none]
  rw [lookup_unregister, if_pos rfl]

theorem WellFormed.claims_stopDeadline (hT : T.WellFormed windows) (hr : T.Registered r) :
    (T.stopDeadline r).claims = Function.update T.claims (T.entries r).token
      (some ⟨(T.entries r).conn, (T.entries r).window, false⟩) := by
  have hlook : (T.stopDeadline r).byToken.lookup (T.entries r).token = some r := hr
  rw [@claims_eq_update T (T.stopDeadline r) _ (fun _ _ => rfl) fun t q ht h =>
    entries_stopDeadline_of_ne (hT.ne_of_token_ne ht h), claims_of_lookup hlook, claim]
  simp [TokenTable.stopDeadline]

theorem WellFormed.claims_bind (hT : T.WellFormed windows) (hr : T.Registered r) (w : Window) :
    (T.bind r w).claims = Function.update T.claims (T.entries r).token
      (some ⟨(T.entries r).conn, some w, (T.entries r).deadlineTimer.active⟩) := by
  have hlook : (T.bind r w).byToken.lookup (T.entries r).token = some r := hr
  rw [@claims_eq_update T (T.bind r w) _ (fun _ _ => rfl) fun t q ht h =>
    Function.update_of_ne (hT.ne_of_token_ne ht h) .., claims_of_lookup hlook, claim]
  simp [TokenTable.bind]

theorem WellFormed.claims_register (hT : T.WellFormed windows) (entry : TokenEntry) :
    (T.register entry).claims = Function.update T.claims entry.token
      (some ⟨entry.conn, entry.window, entry.deadlineTimer.active⟩) := by
  have hlook : ∀ t, t ≠ entry.token →
      (T.register entry).byToken.lookup t = T.byToken.lookup t := by
    intro t ht
    rw [lookup_register, if_neg ht]
  have hnew : (T.register entry).byToken.lookup entry.token = some T.nextEntry := by
    rw [lookup_register, if_pos rfl]
  rw [claims_eq_update hlook fun t q _ h =>
    Function.update_of_ne (Nat.ne_of_lt (hT.lt_next t q h)) .., claims_of_lookup hnew, claim]
  simp [TokenTable.register]

/-- Unregistering several entries keeps the claims of the others. -/
theorem WellFormed.claims_unregisterAll (hT : T.WellFormed windows) {rs : List ℕ}
    (hrs : rs.Nodup) (hreg : ∀ r ∈ rs, T.Registered r) {t : JsString}
    {cl : Claim RpcConnection Window} :
    (T.unregisterAll rs).claims t = some cl ↔
      ∃ r, r ∉ rs ∧ T.Registered r ∧ (T.entries r).token = t ∧ T.claim r = cl := by
  obtain ⟨hT', hw⟩ := hT.unregisterAll hrs hreg
  rw [hT'.claims_eq_some]
  refine exists_congr fun r => ?_
  rw [hw.registered, hw.token, and_assoc]
  refine and_congr_right fun hr => and_congr_right fun _ => and_congr_right fun _ => ?_
  have hrun : ((T.unregisterAll rs).entries r).deadlineTimer.active =
      (T.entries r).deadlineTimer.active :=
    Bool.eq_iff_iff.mpr ((hw.running r).trans (and_iff_right hr))
  rw [claim, claim, hw.conn, hw.window, hrun]

/-- Dropping the tokens of a client drops its claims. -/
theorem WellFormed.claims_owned (hT : T.WellFormed windows) (clientId : ℕ) :
    (T.unregisterAll (T.owned clientId)).claims =
      T.claims.keep fun cl => cl.owner.id ≠ clientId := by
  have hreg : ∀ r ∈ T.owned clientId, T.Registered r := fun r hr => (hT.mem_owned.mp hr).1
  funext t
  refine Option.ext fun cl => ?_
  rw [hT.claims_unregisterAll (hT.nodup_owned clientId) hreg, Registry.keep_eq_some,
    hT.claims_eq_some]
  simp only [hT.mem_owned, not_and, decide_eq_true_eq]
  constructor
  · rintro ⟨r, hnot, hr, ht, rfl⟩
    exact ⟨⟨r, hr, ht, rfl⟩, hnot hr⟩
  · rintro ⟨⟨r, hr, ht, rfl⟩, hne⟩
    exact ⟨r, fun _ => hne, hr, ht, rfl⟩

end TokenTable

end KwinApi
