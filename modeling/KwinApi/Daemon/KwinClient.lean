import KwinApi.Daemon.Config

/-!
# The client of KWin's scripting interface

`kwin_client.cpp`, and the loop of `main` that asks KWin to load the script until it is reachable.
What KWin answers is a parameter. The bound of the loop is computed as an `int`, and wraps at the
largest one: then no attempt is made.

## Main definitions

* `KwinApi.loadScript`, `runScript`, `unloadScript` — the three calls
* `KwinApi.loadLoop` — the repeated attempts
* `KwinApi.LoadsWithin` — the answers with which an attempt succeeds

## Main results

* `KwinApi.loadWithRetries_iff` — the loop ends with a script exactly on those answers
-/

namespace KwinApi

/-- What becomes of a call of `loadScript`: an error with its name, a reply without a number, or
the id of the script. -/
inductive LoadReply where
  | failed (errorName : List UInt8)
  | unreadable
  | id (id : ℤ)

/-- `LoadResult` -/
structure LoadResult where
  id : ℤ := -1
  nameMissing : Bool := false

/-- `make_error` -/
def makeError (errorName : List UInt8) : LoadResult where
  nameMissing := errorName = ascii "org.freedesktop.DBus.Error.NameHasNoOwner" ∨
    errorName = ascii "org.freedesktop.DBus.Error.ServiceUnknown"

/-- `load_script` -/
def loadScript : LoadReply → LoadResult
  | .failed errorName => makeError errorName
  | .unreadable => {}
  | .id id => { id }

/-- `run_script`, with the answer for an object path. -/
def runScript (call : List UInt8 → ℤ) (scriptId : ℤ) : Bool :=
  0 ≤ call (ascii "/Scripting/Script" ++ decimal scriptId.toNat)

/-- The answers to the steps of `unload_script`. -/
structure UnloadIo where
  message : ℤ
  append : ℤ
  send : ℤ
  flush : ℤ

/-- `unload_script` -/
def unloadScript (io : UnloadIo) : Bool :=
  if io.message < 0 then false
  else if io.append < 0 then false
  else if io.send < 0 then false
  else if io.flush < 0 then false
  else true

/-! ### The attempts -/

/-- The loop of `main`, with the attempts that are left and the number of the next one. -/
def loadLoop (loadRetries : ℤ) (replies : ℕ → LoadReply) : ℕ → ℕ → LoadResult → LoadResult
  | 0, _, load => load
  | left + 1, attempt, _ =>
    let load := loadScript (replies attempt)
    if 0 ≤ load.id then load
    else if load.nameMissing = true ∧ (attempt : ℤ) ≤ loadRetries then
      loadLoop loadRetries replies left (attempt + 1) load
    else load

/-- The bound of the loop: `load_retries + 1` as an `int`. -/
def lastAttempt (loadRetries : ℤ) : ℤ := castInt (loadRetries + 1)

/-- All the attempts of `main`. -/
def loadWithRetries (loadRetries : ℤ) (replies : ℕ → LoadReply) : LoadResult :=
  loadLoop loadRetries replies (lastAttempt loadRetries).toNat 1 {}

/-- An attempt that failed as the name of KWin is missing on the bus, and that is not the last. -/
def Retried (loadRetries : ℤ) (replies : ℕ → LoadReply) (attempt : ℕ) : Prop :=
  (loadScript (replies attempt)).id < 0 ∧ (loadScript (replies attempt)).nameMissing = true ∧
    (attempt : ℤ) ≤ loadRetries

/-- Some attempt from `first` up to `last` is answered with the id of a script, and every attempt
before it is retried. -/
def LoadsWithin (loadRetries last : ℤ) (replies : ℕ → LoadReply) (first : ℕ) (id : ℤ) : Prop :=
  ∃ k : ℕ, first ≤ k ∧ (k : ℤ) ≤ last ∧ (∀ j, first ≤ j → j < k → Retried loadRetries replies j) ∧
    (loadScript (replies k)).id = id

variable {loadRetries last id : ℤ} {replies : ℕ → LoadReply}

/-- An attempt that succeeds is the last one. -/
theorem loadsWithin_of_loaded {first : ℕ} (hle : (first : ℤ) ≤ last)
    (h : 0 ≤ (loadScript (replies first)).id) :
    LoadsWithin loadRetries last replies first id ↔ (loadScript (replies first)).id = id := by
  constructor
  · rintro ⟨k, hfirst, -, hbefore, hk⟩
    rcases Nat.eq_or_lt_of_le hfirst with rfl | hlt
    · exact hk
    · have hfailed := (hbefore first (Nat.le_refl _) hlt).1
      omega
  · intro hid
    exact ⟨first, Nat.le_refl _, hle,
      fun _ hfirst hlt => absurd hlt (Nat.not_lt.mpr hfirst), hid⟩

theorem loadsWithin_succ_iff {first : ℕ} (hid : 0 ≤ id)
    (h : (loadScript (replies first)).id < 0) :
    LoadsWithin loadRetries last replies first id ↔
      Retried loadRetries replies first ∧
        LoadsWithin loadRetries last replies (first + 1) id := by
  constructor
  · rintro ⟨k, hfirst, hlast, hbefore, hk⟩
    have hne : k ≠ first := by
      rintro rfl
      omega
    refine ⟨hbefore first (Nat.le_refl _) (by omega), k, by omega, hlast, ?_, hk⟩
    exact fun j hj hlt => hbefore j (by omega) hlt
  · rintro ⟨hretried, k, hfirst, hlast, hbefore, hk⟩
    refine ⟨k, by omega, hlast, fun j hj hlt => ?_, hk⟩
    rcases Nat.eq_or_lt_of_le hj with rfl | hj
    · exact hretried
    · exact hbefore j hj hlt

/-- The loop from some attempt on, as long as none has succeeded. -/
theorem loadLoop_from (hid : 0 ≤ id) {left attempt : ℕ} {load : LoadResult}
    (hleft : (attempt : ℤ) + left = last + 1 ∨ left = 0 ∧ last + 1 ≤ attempt)
    (hload : load.id < 0) :
    (loadLoop loadRetries replies left attempt load).id = id ↔
      LoadsWithin loadRetries last replies attempt id := by
  induction left generalizing attempt load with
  | zero =>
    have hne : load.id ≠ id := by omega
    refine iff_of_false hne ?_
    rintro ⟨k, hfirst, hlast, -⟩
    omega
  | succ left ih =>
    have hle : (attempt : ℤ) ≤ last := by omega
    rw [loadLoop]
    by_cases hloaded : 0 ≤ (loadScript (replies attempt)).id
    · simp only [if_pos hloaded]
      exact (loadsWithin_of_loaded hle hloaded).symm
    · have hfailed := Int.not_le.mp hloaded
      simp only [if_neg hloaded]
      rw [loadsWithin_succ_iff hid hfailed]
      split_ifs with hretry
      · rw [ih (by omega) hfailed]
        exact (and_iff_right ⟨hfailed, hretry⟩).symm
      · refine iff_of_false (by omega) ?_
        rintro ⟨hretried, -⟩
        exact hretry hretried.2

/-- **The loop ends with a script exactly when some attempt within the bound is answered with it
and every attempt before it is retried.** -/
theorem loadWithRetries_iff (hid : 0 ≤ id) : (loadWithRetries loadRetries replies).id = id ↔
    LoadsWithin loadRetries (lastAttempt loadRetries) replies 1 id :=
  loadLoop_from hid (by omega) (by decide)

/-- With the largest `int` no attempt is made. -/
example (replies : ℕ → LoadReply) : loadWithRetries 2147483647 replies = {} := rfl

end KwinApi
