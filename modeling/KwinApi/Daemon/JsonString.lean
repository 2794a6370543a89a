import KwinApi.Daemon.Text
import KwinApi.Lib.JsonParse

/-!
# Error texts as JSON strings

A refused `poll` is answered with the error text as a JSON string, which `json_string` writes:
quotes, backslashes and three of the control characters are escaped, every other byte stays as it
is.

## Main definitions

* `KwinApi.utf8` — a text as bytes
* `KwinApi.Survives` — the literal is a JSON string and is read as the text

## Main results

* `KwinApi.json_string_survives_iff` — a text survives iff it has no other control character
-/

namespace KwinApi

open Json (CharLit Chars Str)

/-- The bytes of a text. -/
def utf8 (cs : List Char) : List UInt8 := cs.flatMap String.utf8EncodeChar

/-- How `json_string` writes a character, byte by byte. -/
def escapeChar (c : Char) : List UInt8 := (String.utf8EncodeChar c).flatMap jsonEscape

/-- A character that is no control character, or one of those that are escaped. -/
def Writable (c : Char) : Prop := 32 ≤ c.toNat ∨ c = '\n' ∨ c = '\r' ∨ c = '\t'

instance : DecidablePred Writable := fun _ => inferInstanceAs (Decidable (_ ∨ _ ∨ _ ∨ _))

theorem jsonString_utf8 (cs : List Char) :
    jsonString (utf8 cs) = Json.quote :: (cs.flatMap escapeChar ++ [Json.quote]) := by
  rw [jsonString, utf8, List.flatMap_assoc]
  rfl

/-! ### One character -/

theorem utf8EncodeChar_of_lt {c : Char} (h : c.toNat < 128) :
    String.utf8EncodeChar c = [UInt8.ofNat c.toNat] := by
  have hval : c.val.toNat ≤ 0x7f := Nat.le_of_lt_succ h
  rw [String.utf8EncodeChar, if_pos hval]
  rfl

/-- The characters with an escape of their own. -/
def escaped : List Char := ['"', '\\', '\n', '\r', '\t']

/-- A byte that is none of them stays as it is. -/
theorem jsonEscape_of_not_mem {x : UInt8} (h : x ∉ escaped.map fun c => UInt8.ofNat c.toNat) :
    jsonEscape x = [x] := by
  have hne : x ∉ ([34, 92, 10, 13, 9] : List UInt8) := h
  simp only [List.mem_cons, List.not_mem_nil, or_false, not_or] at hne
  obtain ⟨hquote, hbackslash, hlf, hcr, htab⟩ := hne
  rw [jsonEscape, if_neg hquote, if_neg hbackslash, if_neg hlf, if_neg hcr, if_neg htab]

/-- No other character is touched: its bytes are the character itself, or lie above the ASCII
range. -/
theorem escapeChar_of_not_mem {c : Char} (h : c ∉ escaped) :
    escapeChar c = String.utf8EncodeChar c := by
  have hbyte : ∀ x ∈ String.utf8EncodeChar c, jsonEscape x = [x] := by
    refine fun x hx => jsonEscape_of_not_mem fun hmem => ?_
    obtain ⟨d, hd, rfl⟩ := List.mem_map.mp hmem
    have hsmall : ∀ d ∈ escaped, d.toNat < 128 := by simp [escaped]
    have hlt := hsmall d hd
    have htoNat : (UInt8.ofNat d.toNat).toNat = d.toNat := by
      rw [UInt8.toNat_ofNat', Nat.mod_eq_of_lt (by omega)]
    have hle := Json.le_of_mem_utf8EncodeChar hx
    have hascii : c.toNat < 128 := by omega
    rw [utf8EncodeChar_of_lt hascii, List.mem_singleton] at hx
    have heq := congrArg UInt8.toNat hx
    rw [htoNat, UInt8.toNat_ofNat', Nat.mod_eq_of_lt (by omega)] at heq
    exact h (Char.toNat_inj.mp heq ▸ hd)
  calc escapeChar c = (String.utf8EncodeChar c).flatMap fun x => [x] :=
        List.flatMap_congr hbyte
    _ = String.utf8EncodeChar c := List.flatMap_singleton' _

/-- The literal of a character. -/
theorem charLit_escapeChar {c : Char} (h : Writable c) : CharLit (escapeChar c) (Json.utf16 c) := by
  by_cases hmem : c ∈ escaped
  · simp only [escaped, List.mem_cons, List.not_mem_nil, or_false] at hmem
    rcases hmem with rfl | rfl | rfl | rfl | rfl
    · exact .escape rfl
    · exact .escape rfl
    · exact .escape rfl
    · exact .escape rfl
    · exact .escape rfl
  · rw [escapeChar_of_not_mem hmem]
    simp only [escaped, List.mem_cons, List.not_mem_nil, or_false, not_or] at hmem
    obtain ⟨hquote, hbackslash, hlf, hcr, htab⟩ := hmem
    refine .unescaped ⟨?_, ?_, ?_⟩
    · rcases h with h | rfl | rfl | rfl
      · exact h
      · exact absurd rfl hlf
      · exact absurd rfl hcr
      · exact absurd rfl htab
    · exact fun heq => hquote (Char.toNat_inj.mp heq)
    · exact fun heq => hbackslash (Char.toNat_inj.mp heq)

/-- Any other control character is written as it is. -/
theorem escapeChar_of_not_writable {c : Char} (h : ¬ Writable c) :
    UInt8.ofNat c.toNat ∈ escapeChar c ∧ c.toNat < 32 := by
  simp only [Writable, not_or, not_le] at h
  obtain ⟨hlt, hlf, hcr, htab⟩ := h
  have hmem : c ∉ escaped := by
    simp only [escaped, List.mem_cons, List.not_mem_nil, or_false, not_or]
    refine ⟨?_, ?_, hlf, hcr, htab⟩
    · rintro rfl
      exact absurd hlt (by decide)
    · rintro rfl
      exact absurd hlt (by decide)
  rw [escapeChar_of_not_mem hmem, utf8EncodeChar_of_lt (by omega)]
  exact ⟨List.mem_singleton_self _, hlt⟩

/-! ### A whole text -/

theorem chars_escape {cs : List Char} (h : ∀ c ∈ cs, Writable c) :
    Chars (cs.flatMap escapeChar) (cs.flatMap Json.utf16) := by
  induction cs with
  | nil => exact .nil
  | cons c cs ih =>
    obtain ⟨hc, hcs⟩ := List.forall_mem_cons.mp h
    exact .cons (charLit_escapeChar hc) (ih hcs)

/-- No literal of the grammar comes of a text with another control character. -/
theorem writable_of_str {cs : List Char} {us : List UInt16} (h : Str (jsonString (utf8 cs)) us) :
    ∀ c ∈ cs, Writable c := by
  intro c hc
  by_contra hnot
  obtain ⟨hmem, hlt⟩ := escapeChar_of_not_writable hnot
  have hin : UInt8.ofNat c.toNat ∈ jsonString (utf8 cs) := by
    rw [jsonString_utf8]
    exact List.mem_cons_of_mem _ (List.mem_append_left _ (List.mem_flatMap.mpr ⟨c, hc, hmem⟩))
  have hle := h.le _ hin
  rw [UInt8.toNat_ofNat', Nat.mod_eq_of_lt (by omega)] at hle
  omega

/-- The literal is a JSON string, and reading it gives back the text and no other. -/
structure Survives (cs : List Char) : Prop where
  literal : ∃ us, Str (jsonString (utf8 cs)) us
  decoded : Json.parse (jsonString (utf8 cs)) = some (.string (cs.flatMap Json.utf16))
  unique : ∀ ds : List Char,
    Json.parse (jsonString (utf8 cs)) = some (.string (ds.flatMap Json.utf16)) → ds = cs

theorem survives_of_writable {cs : List Char} (h : ∀ c ∈ cs, Writable c) : Survives cs := by
  have hstr : Str (jsonString (utf8 cs)) (cs.flatMap Json.utf16) := by
    rw [jsonString_utf8]
    exact .mk (chars_escape h)
  have hdecoded : Json.parse (jsonString (utf8 cs)) = some (.string (cs.flatMap Json.utf16)) :=
    Json.parse_eq_some_iff.mpr (Json.Value.string hstr).text
  refine ⟨⟨_, hstr⟩, hdecoded, fun ds hds => ?_⟩
  injection Option.some.inj (hds.symm.trans hdecoded) with hunits
  exact Json.utf16_flatMap_injective hunits

/-- **An error text survives its encoding if and only if every control character in it is one of
the three that are escaped.** -/
theorem json_string_survives_iff (cs : List Char) : Survives cs ↔ ∀ c ∈ cs, Writable c := by
  constructor
  · rintro ⟨⟨us, h⟩, -, -⟩
    exact writable_of_str h
  · exact survives_of_writable

/-- U+0001 is left as it is. -/
theorem control_character_lost : ¬ ∀ cs : List Char, Survives cs := by
  intro hall
  obtain ⟨us, h⟩ := (hall ['\x01']).literal
  exact absurd (writable_of_str h '\x01' List.mem_cons_self) (by decide)

end KwinApi
