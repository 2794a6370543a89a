import Mathlib.Data.List.Basic
import Mathlib.Tactic.Common
import Mathlib.Tactic.SplitIfs

/-!
# JSON texts

The grammar of RFC 8259 over UTF-8 bytes, with the value every text stands for. Strings are
UTF-16, so that an escaped surrogate on its own has a value; numbers stay the literals they are
written as; the members of an object stand in the order of the text, repeated names included.

## Main definitions

* `KwinApi.Json` — values
* `Json.Number`, `Json.Chars`, `Json.Value`, `Json.Text` — the grammar
* `Json.Items` — items with commas between them

## Main results

* `Json.utf16_flatMap_injective` — a text is known from its code units
* `Json.Items.intercalate` — texts with commas between them are the items of an array
-/

namespace KwinApi

/-- A JSON value. -/
inductive Json where
  | null
  | bool (b : Bool)
  | number (literal : List UInt8)
  | string (units : List UInt16)
  | array (elems : List Json)
  | object (members : List (List UInt16 × Json))

namespace Json

/-! ### Bytes -/

/-- The six structural characters and the quotation mark, as bytes. -/
def openArray : UInt8 := 91
def closeArray : UInt8 := 93
def openObject : UInt8 := 123
def closeObject : UInt8 := 125
def comma : UInt8 := 44
def colon : UInt8 := 58
def quote : UInt8 := 34

/-- Space, tab, line feed and carriage return. -/
def isWs (c : UInt8) : Bool := c = 32 || c = 9 || c = 10 || c = 13

def isDigit (c : UInt8) : Bool := 48 ≤ c && c ≤ 57

/-- The bytes of number literals. -/
def isNumberByte (c : UInt8) : Bool :=
  isDigit c || c = 43 || c = 45 || c = 46 || c = 69 || c = 101

/-- Optional whitespace. -/
def Ws (bs : List UInt8) : Prop := ∀ c ∈ bs, isWs c = true

/-- One digit or more. -/
def Digits (bs : List UInt8) : Prop := bs ≠ [] ∧ ∀ c ∈ bs, isDigit c = true

/-! ### Numbers -/

/-- `int`: a zero, or digits that do not begin with one. -/
def IntPart (bs : List UInt8) : Prop := bs = [48] ∨ Digits bs ∧ bs.head? ≠ some 48

/-- `[ frac ]` -/
def FracPart (bs : List UInt8) : Prop := bs = [] ∨ ∃ ds, Digits ds ∧ bs = 46 :: ds

/-- `[ exp ]` -/
def ExpPart (bs : List UInt8) : Prop := bs = [] ∨ ∃ e sign ds, (e = 101 ∨ e = 69) ∧
  (sign = [] ∨ sign = [43] ∨ sign = [45]) ∧ Digits ds ∧ bs = e :: (sign ++ ds)

/-- `number = [ minus ] int [ frac ] [ exp ]` -/
inductive Number : List UInt8 → Prop where
  | mk {minus int frac exp : List UInt8} (hminus : minus = [] ∨ minus = [45]) (hint : IntPart int)
      (hfrac : FracPart frac) (hexp : ExpPart exp) : Number (minus ++ (int ++ (frac ++ exp)))

/-! ### Strings -/

/-- The UTF-16 code units of a character. -/
def utf16 (c : Char) : List UInt16 :=
  if c.toNat < 0x10000 then [UInt16.ofNat c.toNat]
  else [UInt16.ofNat (0xD800 + (c.toNat - 0x10000) / 0x400),
    UInt16.ofNat (0xDC00 + (c.toNat - 0x10000) % 0x400)]

theorem ofNat_inj {m n : ℕ} (h : UInt16.ofNat m = UInt16.ofNat n) (hm : m < 0x10000)
    (hn : n < 0x10000) : m = n := by
  have hnat := congrArg UInt16.toNat h
  rwa [UInt16.toNat_ofNat', UInt16.toNat_ofNat', Nat.mod_eq_of_lt hm, Nat.mod_eq_of_lt hn] at hnat

/-- The code units of a character tell it from every other one, whatever follows them. -/
theorem utf16_append_inj {c d : Char} {us vs : List UInt16} (h : utf16 c ++ us = utf16 d ++ vs) :
    c = d ∧ us = vs := by
  have hc : c.toNat < 0xD800 ∨ 0xDFFF < c.toNat ∧ c.toNat < 0x110000 := c.valid
  have hd : d.toNat < 0xD800 ∨ 0xDFFF < d.toNat ∧ d.toNat < 0x110000 := d.valid
  have hchar : c.toNat = d.toNat → c = d := Char.toNat_inj.mp
  rw [utf16, utf16] at h
  split_ifs at h with hcs hds hds
  · obtain ⟨hhead, hrest⟩ := List.cons.inj h
    exact ⟨hchar (ofNat_inj hhead hcs hds), hrest⟩
  · have hhead := ofNat_inj (List.cons.inj h).1 hcs (by omega)
    omega
  · have hhead := ofNat_inj (List.cons.inj h).1 (by omega) hds
    omega
  · obtain ⟨hhigh, hrest⟩ := List.cons.inj h
    obtain ⟨hlow, hrest⟩ := List.cons.inj hrest
    have hhigh := ofNat_inj hhigh (by omega) (by omega)
    have hlow := ofNat_inj hlow (by omega) (by omega)
    exact ⟨hchar (by omega), hrest⟩

theorem utf16_flatMap_injective : Function.Injective (List.flatMap utf16) := by
  have hne : ∀ {d : Char} {us : List UInt16}, utf16 d ++ us ≠ [] := by
    intro d us
    rw [utf16]
    split_ifs <;> exact List.cons_ne_nil _ _
  intro cs
  induction cs with
  | nil =>
    intro ds h
    cases ds with
    | nil => rfl
    | cons d ds => exact absurd h.symm hne
  | cons c cs ih =>
    intro ds h
    cases ds with
    | nil => exact absurd h hne
    | cons d ds =>
      obtain ⟨rfl, hrest⟩ := utf16_append_inj h
      rw [ih hrest]

/-- What a two-character escape stands for, by its second character. -/
def escape (e : UInt8) : Option UInt16 :=
  if e = 34 ∨ e = 92 ∨ e = 47 then some e.toUInt16
  else if e = 98 then some 8
  else if e = 102 then some 12
  else if e = 110 then some 10
  else if e = 114 then some 13
  else if e = 116 then some 9
  else none

/-- The value of a hexadecimal digit. -/
def hexDigit (c : UInt8) : Option ℕ :=
  if 48 ≤ c ∧ c ≤ 57 then some (c.toNat - 48)
  else if 65 ≤ c ∧ c ≤ 70 then some (c.toNat - 55)
  else if 97 ≤ c ∧ c ≤ 102 then some (c.toNat - 87)
  else none

/-- The value of four hexadecimal digits. -/
def hex4 (a b c d : UInt8) : Option UInt16 := do
  let a ← hexDigit a
  let b ← hexDigit b
  let c ← hexDigit c
  let d ← hexDigit d
  return UInt16.ofNat (a * 4096 + b * 256 + c * 16 + d)

/-- A character that may stand in a string as it is. -/
def Unescaped (c : Char) : Prop := 0x20 ≤ c.toNat ∧ c.toNat ≠ 34 ∧ c.toNat ≠ 92

instance (c : Char) : Decidable (Unescaped c) := inferInstanceAs (Decidable (_ ∧ _ ∧ _))

/-- `char`, with its code units. -/
inductive CharLit : List UInt8 → List UInt16 → Prop where
  | unescaped {c : Char} (hc : Unescaped c) : CharLit (String.utf8EncodeChar c) (utf16 c)
  | escape {e : UInt8} {u : UInt16} (he : escape e = some u) : CharLit [92, e] [u]
  | unicode {a b c d : UInt8} {u : UInt16} (hu : hex4 a b c d = some u) :
      CharLit [92, 117, a, b, c, d] [u]

/-- `*char` -/
inductive Chars : List UInt8 → List UInt16 → Prop where
  | nil : Chars [] []
  | cons {b bs : List UInt8} {us vs : List UInt16} (h : CharLit b us) (hs : Chars bs vs) :
      Chars (b ++ bs) (us ++ vs)

/-- `string` -/
inductive Str : List UInt8 → List UInt16 → Prop where
  | mk {bs : List UInt8} {us : List UInt16} (h : Chars bs us) : Str (quote :: (bs ++ [quote])) us

/-! ### Values -/

section Items

variable {α : Type*} (R : List UInt8 → α → Prop)

/-- An item with whitespace around it. -/
inductive Padded : List UInt8 → α → Prop where
  | mk {w b w' : List UInt8} {x : α} (hw : Ws w) (h : R b x) (hw' : Ws w') :
      Padded (w ++ (b ++ w')) x

/-- One item or more with commas between them. -/
inductive Items : List UInt8 → List α → Prop where
  | one {b : List UInt8} {x : α} (h : Padded R b x) : Items b [x]
  | cons {b bs : List UInt8} {x : α} {xs : List α} (h : Padded R b x) (hs : Items bs xs) :
      Items (b ++ comma :: bs) (x :: xs)

end Items

/-- `member`, for the values of a relation. -/
inductive Member (R : List UInt8 → Json → Prop) : List UInt8 → List UInt16 × Json → Prop where
  | mk {name w w' b : List UInt8} {us : List UInt16} {v : Json} (hname : Str name us) (hw : Ws w)
      (hw' : Ws w') (h : R b v) : Member R (name ++ (w ++ colon :: (w' ++ b))) (us, v)

/-- `value` -/
inductive Value : List UInt8 → Json → Prop where
  | null : Value [110, 117, 108, 108] .null
  | true : Value [116, 114, 117, 101] (.bool true)
  | false : Value [102, 97, 108, 115, 101] (.bool false)
  | number {bs : List UInt8} (h : Number bs) : Value bs (.number bs)
  | string {bs : List UInt8} {us : List UInt16} (h : Str bs us) : Value bs (.string us)
  | emptyArray {w : List UInt8} (hw : Ws w) : Value (openArray :: (w ++ [closeArray])) (.array [])
  | array {bs : List UInt8} {vs : List Json} (h : Items Value bs vs) :
      Value (openArray :: (bs ++ [closeArray])) (.array vs)
  | emptyObject {w : List UInt8} (hw : Ws w) :
      Value (openObject :: (w ++ [closeObject])) (.object [])
  | object {bs : List UInt8} {ms : List (List UInt16 × Json)} (h : Items (Member Value) bs ms) :
      Value (openObject :: (bs ++ [closeObject])) (.object ms)

/-- `JSON-text = ws value ws` -/
abbrev Text : List UInt8 → Json → Prop := Padded Value

/-- Padded items with commas between them. -/
theorem Items.intercalate {α : Type*} {R : List UInt8 → α → Prop} {ps : List (List UInt8)}
    {xs : List α} (h : List.Forall₂ (Padded R) ps xs) (hne : ps ≠ []) :
    Items R ([comma].intercalate ps) xs := by
  induction h with
  | nil => exact absurd rfl hne
  | @cons p x ps xs hp hps ih =>
    cases hps with
    | nil =>
      rw [List.intercalate_singleton]
      exact .one hp
    | cons hq hqs =>
      rw [List.intercalate_cons_cons, List.append_assoc]
      exact .cons hp (ih (List.cons_ne_nil _ _))

/-- A value is a text without whitespace around it. -/
theorem Value.text {bs : List UInt8} {v : Json} (h : Value bs v) : Text bs v := by
  have htext : Text ([] ++ (bs ++ [])) v := .mk nofun h nofun
  rwa [List.append_nil] at htext

/-- Texts with commas between them, in brackets, are the text of the array of their values. -/
theorem Text.array {ps : List (List UInt8)} {vs : List Json} (h : List.Forall₂ Text ps vs)
    (hne : ps ≠ []) :
    Text (openArray :: ([comma].intercalate ps ++ [closeArray])) (.array vs) :=
  (Value.array (Items.intercalate h hne)).text

end Json

end KwinApi
