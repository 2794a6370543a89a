import Mathlib.Data.List.TakeWhile
import Mathlib.Data.Nat.Basic

/-!
# Texts of the daemon

`std::string` is a list of bytes. Texts the daemon composes itself are ASCII.

## Main definitions

* `KwinApi.ascii`, `decimal` — literals and numbers as bytes
* `KwinApi.cString` — what a C string keeps of a text
* `KwinApi.jsonString` — `json_string` of `dbus_util.cpp`
-/

namespace KwinApi

/-- The bytes of an ASCII text. -/
def ascii (s : String) : List UInt8 := s.toList.map fun c => UInt8.ofNat c.toNat

/-- `std::to_string` of an unsigned number. -/
def decimal (n : ℕ) : List UInt8 := (Nat.toDigits 10 n).map fun c => UInt8.ofNat c.toNat

/-- What a C string keeps of a text. -/
def cString (s : List UInt8) : List UInt8 := s.takeWhile (· ≠ 0)

/-- How `json_string` writes one character. -/
def jsonEscape (ch : UInt8) : List UInt8 :=
  if ch = 34 then ascii "\\\""
  else if ch = 92 then ascii "\\\\"
  else if ch = 10 then ascii "\\n"
  else if ch = 13 then ascii "\\r"
  else if ch = 9 then ascii "\\t"
  else [ch]

/-- JSON-encode `s` as a string literal. -/
def jsonString (s : List UInt8) : List UInt8 := 34 :: (s.flatMap jsonEscape ++ [34])

/-- A text without NUL bytes is a C string. -/
theorem cString_of_not_mem {s : List UInt8} (h : (0 : UInt8) ∉ s) : cString s = s := by
  rw [cString, List.takeWhile_eq_self_iff]
  intro x hx
  simp only [decide_eq_true_eq]
  rintro rfl
  exact h hx

theorem zero_not_mem_decimal (n : ℕ) : (0 : UInt8) ∉ decimal n := by
  intro h
  obtain ⟨c, hc, h0⟩ := List.mem_map.mp h
  have hdigit : c.isDigit = true := Nat.isDigit_of_mem_toDigits (by decide) (by decide) hc
  have hval : 48 ≤ c.toNat ∧ c.toNat ≤ 57 := by
    simp only [Char.isDigit, Bool.and_eq_true, decide_eq_true_eq] at hdigit
    exact hdigit
  have hnat := congrArg UInt8.toNat h0
  rw [UInt8.toNat_ofNat', Nat.mod_eq_of_lt (by omega)] at hnat
  have hzero : (0 : UInt8).toNat = 0 := rfl
  omega

end KwinApi
