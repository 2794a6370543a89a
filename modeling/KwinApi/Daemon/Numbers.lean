import KwinApi.Daemon.Config
import KwinApi.Lib.Numeral

/-!
# Reading numbers

`std::stol` and the two readers of `config.cpp` above it, over the integers that texts stand for.

## Main definitions

* `KwinApi.decimalSystem`, `Denotes` — the integers in base 10 that texts stand for

## Main results

* `KwinApi.stol_eq_some_iff` — `std::stol` reads the whole text exactly when it is a `long`
* `KwinApi.parseInt_of_denotes`, `parseInt_of_not_denotes` — what `parse_int` makes of a text
* `KwinApi.parseBufferCap_of_denotes`, `parseBufferCap_of_not_denotes` — and `parse_buffer_cap`
-/

namespace KwinApi

/-! ### `std::stol` -/

/-- Base 10 in the C locale. -/
def decimalSystem : NumeralSystem UInt8 where
  base := 10
  value d := d.toNat - 48
  isDigit := isDigit
  isSpace := isSpace
  plus := 43
  minus := 45
  plus_ne_minus := by decide
  isSpace_of_isDigit c hc := by
    simp only [isDigit, isSpace, decide_eq_true_eq, decide_eq_false_iff_not, UInt8.le_iff_toNat_le,
      UInt8.toNat_ofNat, ← UInt8.toNat_inj] at hc ⊢
    omega
  isSpace_plus := by decide
  isSpace_minus := by decide
  isDigit_plus := by decide
  isDigit_minus := by decide

/-- A text stands for an integer in base 10. -/
abbrev Denotes : List UInt8 → ℤ → Prop := decimalSystem.Denotes

/-- The integer of digits behind a sign. -/
def signedValue (negative : Bool) (digits : List UInt8) : ℤ :=
  if negative then -(decimalSystem.ofDigits digits : ℤ) else decimalSystem.ofDigits digits

theorem signed_iff {s rest : List UInt8} {negative : Bool} (hsplit : splitSign s = (negative, rest))
    (n : ℤ) : decimalSystem.Signed s n ↔
      decimalSystem.IsDigits rest ∧ n = signedValue negative rest := by
  cases s with
  | nil =>
    obtain ⟨rfl, rfl⟩ := Prod.mk.inj hsplit
    exact NumeralSystem.signed_of_ne nofun nofun
  | cons c cs =>
    rw [splitSign] at hsplit
    split_ifs at hsplit with hminus hplus
    · obtain ⟨rfl, rfl⟩ := Prod.mk.inj hsplit
      subst hminus
      exact NumeralSystem.signed_minus
    · obtain ⟨rfl, rfl⟩ := Prod.mk.inj hsplit
      subst hplus
      exact NumeralSystem.signed_plus
    · obtain ⟨rfl, rfl⟩ := Prod.mk.inj hsplit
      exact NumeralSystem.signed_of_ne (by simpa [decimalSystem] using hplus)
        (by simpa [decimalSystem] using hminus)

theorem denotes_iff_digits {value rest : List UInt8} {negative : Bool}
    (hsplit : splitSign (value.dropWhile isSpace) = (negative, rest)) (n : ℤ) :
    Denotes value n ↔ decimalSystem.IsDigits rest ∧ n = signedValue negative rest :=
  (NumeralSystem.denotes_iff (S := decimalSystem)).trans (signed_iff hsplit n)

theorem isDigits_iff_cut {rest : List UInt8} : decimalSystem.IsDigits rest ↔
    rest.takeWhile isDigit ≠ [] ∧ rest.dropWhile isDigit = [] := by
  constructor
  · rintro ⟨hne, hall⟩
    exact ⟨(List.takeWhile_eq_self_iff.mpr hall).symm ▸ hne, List.dropWhile_eq_nil_iff.mpr hall⟩
  · rintro ⟨hne, hnil⟩
    refine ⟨?_, List.dropWhile_eq_nil_iff.mp hnil⟩
    rintro rfl
    exact hne rfl

theorem stol_eq {value rest : List UInt8} {negative : Bool}
    (hsplit : splitSign (value.dropWhile isSpace) = (negative, rest)) :
    stol value =
      if rest.takeWhile isDigit = [] then none
      else if signedValue negative (rest.takeWhile isDigit) < -2 ^ 63 ∨
        2 ^ 63 ≤ signedValue negative (rest.takeWhile isDigit) then none
      else some (signedValue negative (rest.takeWhile isDigit),
        value.length - (rest.dropWhile isDigit).length) := by
  rw [stol, hsplit, signedValue, NumeralSystem.ofDigits_eq_foldl]
  rfl

/-- The reader is done with the whole text exactly when the text is an integer of a `long`. -/
theorem stol_eq_some_iff (value : List UInt8) (n : ℤ) : stol value = some (n, value.length) ↔
    Denotes value n ∧ -2 ^ 63 ≤ n ∧ n < 2 ^ 63 := by
  obtain ⟨⟨negative, rest⟩, hsplit⟩ : ∃ p, splitSign (value.dropWhile isSpace) = p := ⟨_, rfl⟩
  rw [denotes_iff_digits hsplit, isDigits_iff_cut, stol_eq hsplit]
  constructor
  · intro h
    split_ifs at h with hne hrange
    obtain ⟨rfl, hpos⟩ := Prod.mk.inj (Option.some.inj h)
    have hnil : rest.dropWhile isDigit = [] := by
      cases value with
      | nil =>
        obtain ⟨-, rfl⟩ := Prod.mk.inj hsplit
        rfl
      | cons c cs =>
        rw [List.length_cons] at hpos
        exact List.length_eq_zero_iff.mp (by omega)
    have hall : rest.takeWhile isDigit = rest :=
      List.takeWhile_eq_self_iff.mpr (List.dropWhile_eq_nil_iff.mp hnil)
    rw [hall] at hrange ⊢
    exact ⟨⟨⟨hall ▸ hne, hnil⟩, rfl⟩, by omega, by omega⟩
  · rintro ⟨⟨⟨hne, hnil⟩, rfl⟩, hlow, hhigh⟩
    have hall : rest.takeWhile isDigit = rest :=
      List.takeWhile_eq_self_iff.mpr (List.dropWhile_eq_nil_iff.mp hnil)
    rw [if_neg hne, hall, if_neg (by omega), hnil]
    rfl

theorem Denotes.ne_nil {value : List UInt8} {n : ℤ} (h : Denotes value n) : value ≠ [] := by
  rintro rfl
  exact (NumeralSystem.denotes_iff.mp h).ne_nil rfl

theorem Denotes.unique_nat {value : List UInt8} {m n : ℕ} (hm : Denotes value m)
    (hn : Denotes value n) : m = n := Int.ofNat_inj.mp (hm.unique hn)

/-! ### `parse_int` and `parse_buffer_cap` -/

section Parse

variable {value : List UInt8} {n : ℕ} (fallback : ℤ) (name : List UInt8)
  (errors : List (List UInt8))

theorem stol_of_denotes (h : Denotes value n) (hn : n < 2 ^ 63) :
    stol value = some ((n : ℤ), value.length) :=
  (stol_eq_some_iff value n).mpr ⟨h, by omega, by omega⟩

/-- A text that is no such integer fails, stops short or is negative. -/
theorem unread_of_not_denotes (h : ¬ ∃ n : ℕ, Denotes value n ∧ n < 2 ^ 63) {parsed : ℤ} {pos : ℕ}
    (hstol : stol value = some (parsed, pos)) : pos ≠ value.length ∨ parsed < 0 := by
  by_contra hread
  obtain ⟨rfl, hnonneg⟩ : pos = value.length ∧ 0 ≤ parsed := by omega
  obtain ⟨hdenotes, -, hlt⟩ := (stol_eq_some_iff value parsed).mp hstol
  lift parsed to ℕ using hnonneg
  exact h ⟨parsed, hdenotes, by omega⟩

theorem parseInt_of_denotes (h : Denotes value n) (hn : n < 2 ^ 63) :
    parseInt value fallback name errors = (castInt n, errors) := by
  rw [parseInt, if_neg h.ne_nil, stol_of_denotes h hn]
  exact if_neg (by omega)

theorem parseInt_of_not_denotes (hne : value ≠ [])
    (h : ¬ ∃ n : ℕ, Denotes value n ∧ n < 2 ^ 63) :
    parseInt value fallback name errors =
      (fallback, errors ++ [errorNotInteger name value]) := by
  rw [parseInt, if_neg hne]
  split
  · rfl
  · exact if_pos (unread_of_not_denotes h ‹_›)

/-- The error of a capacity that is too small. -/
def errorTooSmall (name value : List UInt8) : List UInt8 :=
  name ++ ascii " must be 0 (default) or at least " ++ decimal kMinBufferCap ++ ascii ", got \"" ++
    value ++ ascii "\""

theorem parseBufferCap_of_denotes (h : Denotes value n) (hn : n < 2 ^ 63) :
    parseBufferCap value name errors =
      if n = 0 ∨ kMinBufferCap ≤ n then (n, errors)
      else (0, errors ++ [errorTooSmall name value]) := by
  rw [parseBufferCap, if_neg h.ne_nil, stol_of_denotes h hn]
  simp only [Int.toNat_natCast]
  rw [if_neg (by omega)]
  split_ifs <;> first | rfl | omega

theorem parseBufferCap_of_not_denotes (hne : value ≠ [])
    (h : ¬ ∃ n : ℕ, Denotes value n ∧ n < 2 ^ 63) :
    parseBufferCap value name errors = (0, errors ++ [errorNotInteger name value]) := by
  rw [parseBufferCap, if_neg hne]
  split
  · rfl
  · exact if_pos (unread_of_not_denotes h ‹_›)

/-- The entries that were there already have no influence. -/
theorem parseInt_fst :
    (parseInt value fallback name errors).1 = (parseInt value fallback name []).1 := by
  simp only [parseInt]
  split_ifs
  · rfl
  · split
    · rfl
    · split_ifs <;> rfl

theorem parseInt_snd :
    (parseInt value fallback name errors).2 = errors ++ (parseInt value fallback name []).2 := by
  simp only [parseInt]
  split_ifs
  · simp
  · split
    · simp
    · split_ifs <;> simp

theorem parseBufferCap_fst :
    (parseBufferCap value name errors).1 = (parseBufferCap value name []).1 := by
  simp only [parseBufferCap]
  split_ifs
  · rfl
  · split
    · rfl
    · split_ifs <;> rfl

theorem parseBufferCap_snd :
    (parseBufferCap value name errors).2 = errors ++ (parseBufferCap value name []).2 := by
  simp only [parseBufferCap]
  split_ifs
  · simp
  · split
    · simp
    · split_ifs <;> simp

end Parse

end KwinApi
