import KwinApi.Lib.Json
import Mathlib.Data.List.TakeWhile

/-!
# A parser for JSON texts

`Json.parse` decides the grammar and computes the value of a text. Every production is read by a
function that returns what is left of the input.

## Main definitions

* `KwinApi.Json.isNumber`, `parseChars`, `parseItems`, `parseValue`, `parse` — the parser

## Main results

* `Json.parse_eq_some_iff` — it accepts the texts of the grammar, with their values
* `Json.Text.unique` — a text has one value
* `Json.Text.zero_not_mem` — a text is a C string
-/

namespace KwinApi

namespace Json

/-! ### The parser -/

/-- Skip whitespace. -/
def skipWs (bs : List UInt8) : List UInt8 := bs.dropWhile isWs

/-- Skip a sign. -/
def skipSign : List UInt8 → List UInt8
  | [] => []
  | c :: bs => if c = 43 ∨ c = 45 then bs else c :: bs

/-- Recognize `[ exp ]`. -/
def isExp : List UInt8 → Bool
  | [] => true
  | e :: bs => (e = 101 || e = 69) && (skipSign bs ≠ [] && (skipSign bs).all isDigit)

/-- Recognize `[ frac ] [ exp ]`. -/
def isFrac : List UInt8 → Bool
  | [] => true
  | c :: bs =>
    if c = 46 then bs.takeWhile isDigit ≠ [] && isExp (bs.dropWhile isDigit) else isExp (c :: bs)

/-- Recognize `int [ frac ] [ exp ]`. -/
def isUnsigned (bs : List UInt8) : Bool :=
  (bs.takeWhile isDigit = [48] || bs.takeWhile isDigit ≠ [] && bs.head? ≠ some 48) &&
    isFrac (bs.dropWhile isDigit)

/-- Recognize `number`. -/
def isNumber : List UInt8 → Bool
  | [] => false
  | c :: bs => if c = 45 then isUnsigned bs else isUnsigned (c :: bs)

/-- Read one UTF-8 character. -/
def parseUtf8 (bs : List UInt8) : Option (Char × List UInt8) :=
  (bs.toByteArray.utf8DecodeChar? 0).map fun c => (c, bs.drop c.utf8Size)

/-- Read what follows a backslash. -/
def parseEscape : List UInt8 → Option (List UInt16 × List UInt8)
  | [] => none
  | e :: bs =>
    if e = 117 then
      match bs with
      | a :: b :: c :: d :: rest => (hex4 a b c d).map fun u => ([u], rest)
      | _ => none
    else (escape e).map fun u => ([u], bs)

/-- Read one `char`. -/
def parseChar : List UInt8 → Option (List UInt16 × List UInt8)
  | [] => none
  | x :: bs =>
    if x = 92 then parseEscape bs
    else
      (parseUtf8 (x :: bs)).bind fun (c, rest) =>
        if Unescaped c then some (utf16 c, rest) else none

/-- Read `*char` and the closing quotation mark. -/
def parseChars : ℕ → List UInt8 → Option (List UInt16 × List UInt8)
  | 0, _ => none
  | _ + 1, [] => none
  | n + 1, x :: bs =>
    if x = quote then some ([], bs)
    else
      (parseChar (x :: bs)).bind fun (us, rest) =>
        (parseChars n rest).map fun (vs, rest) => (us ++ vs, rest)

/-- Read `string`. -/
def parseStr : List UInt8 → Option (List UInt16 × List UInt8)
  | [] => none
  | x :: bs => if x = quote then parseChars (bs.length + 1) bs else none

/-- Read items with commas between them, up to a closing bracket. -/
def parseItems {α : Type*} (item : List UInt8 → Option (α × List UInt8)) (close : UInt8) :
    ℕ → List UInt8 → Option (List α × List UInt8)
  | 0, _ => none
  | n + 1, bs =>
    (item (skipWs bs)).bind fun (x, rest) =>
      match skipWs rest with
      | [] => none
      | c :: rest =>
        if c = comma then (parseItems item close n rest).map fun (xs, rest) => (x :: xs, rest)
        else if c = close then some ([x], rest)
        else none

/-- Read what stands between brackets, and the closing bracket. -/
def parseBody {α : Type*} (item : List UInt8 → Option (α × List UInt8)) (close : UInt8)
    (bs : List UInt8) : Option (List α × List UInt8) :=
  match skipWs bs with
  | [] => none
  | c :: rest => if c = close then some ([], rest) else parseItems item close (bs.length + 1) bs

/-- Read `member`. -/
def parseMember (value : List UInt8 → Option (Json × List UInt8)) (bs : List UInt8) :
    Option ((List UInt16 × Json) × List UInt8) :=
  (parseStr bs).bind fun (us, rest) =>
    match skipWs rest with
    | [] => none
    | c :: rest =>
      if c = colon then (value (skipWs rest)).map fun (v, rest) => ((us, v), rest) else none

/-- Read one of the three names. -/
def parseName : List UInt8 → Option (Json × List UInt8)
  | 110 :: 117 :: 108 :: 108 :: rest => some (.null, rest)
  | 116 :: 114 :: 117 :: 101 :: rest => some (.bool true, rest)
  | 102 :: 97 :: 108 :: 115 :: 101 :: rest => some (.bool false, rest)
  | _ => none

/-- Read `value`, with at most so many levels of brackets. -/
def parseValue : ℕ → List UInt8 → Option (Json × List UInt8)
  | 0, _ => none
  | _ + 1, [] => none
  | n + 1, c :: bs =>
    if c = quote then (parseStr (c :: bs)).map fun (us, rest) => (.string us, rest)
    else if c = openArray then
      (parseBody (parseValue n) closeArray bs).map fun (vs, rest) => (.array vs, rest)
    else if c = openObject then
      (parseBody (parseMember (parseValue n)) closeObject bs).map fun (ms, rest) =>
        (.object ms, rest)
    else if isNumberByte c then
      let literal := (c :: bs).takeWhile isNumberByte
      if isNumber literal then some (.number literal, (c :: bs).dropWhile isNumberByte) else none
    else parseName (c :: bs)

/-- The value of a JSON text. -/
def parse (bs : List UInt8) : Option Json :=
  (parseValue (bs.length + 1) (skipWs bs)).bind fun (v, rest) =>
    if skipWs rest = [] then some v else none

/-! ### Whitespace -/

variable {bs rest : List UInt8}

theorem skipWs_append (h : Ws bs) (rest : List UInt8) : skipWs (bs ++ rest) = skipWs rest := by
  induction bs with
  | nil => rfl
  | cons c bs ih =>
    rw [List.cons_append, skipWs, List.dropWhile_cons_of_pos (h c List.mem_cons_self)]
    exact ih fun d hd => h d (List.mem_cons_of_mem c hd)

theorem skipWs_of_not_ws {c : UInt8} (hc : isWs c = false) (bs : List UInt8) :
    skipWs (c :: bs) = c :: bs :=
  List.dropWhile_cons_of_neg (by simp [hc])

/-- What is skipped is whitespace. -/
theorem exists_skipWs (bs : List UInt8) : ∃ w, Ws w ∧ bs = w ++ skipWs bs := by
  refine ⟨bs.takeWhile isWs, fun c hc => ?_, (List.takeWhile_append_dropWhile).symm⟩
  exact List.mem_takeWhile_imp hc

/-- The bytes up to the first that is not of a kind. -/
theorem takeWhile_of_stops {p : UInt8 → Bool} (hbs : ∀ c ∈ bs, p c = true)
    (hrest : ∀ c ∈ rest.head?, p c = false) :
    (bs ++ rest).takeWhile p = bs ∧ (bs ++ rest).dropWhile p = rest := by
  rw [List.takeWhile_append_of_pos hbs, List.dropWhile_append_of_pos hbs]
  cases rest with
  | nil => exact ⟨List.append_nil bs, rfl⟩
  | cons c rest =>
    have hc : ¬ p c = true := by simpa using hrest c rfl
    rw [List.takeWhile_cons_of_neg hc, List.dropWhile_cons_of_neg hc, List.append_nil]
    exact ⟨rfl, rfl⟩

/-! ### Numbers -/

theorem isExp_iff : isExp bs = true ↔ ExpPart bs := by
  have hdigits : ∀ ds : List UInt8, (decide (ds ≠ []) && ds.all isDigit) = true ↔ Digits ds := by
    intro ds
    simp [Digits]
  cases bs with
  | nil => exact iff_of_true rfl (Or.inl rfl)
  | cons e bs =>
    rw [isExp, Bool.and_eq_true, hdigits, Bool.or_eq_true, decide_eq_true_eq, decide_eq_true_eq]
    constructor
    · rintro ⟨he, hds⟩
      right
      cases bs with
      | nil => exact ⟨e, [], [], he, Or.inl rfl, hds, rfl⟩
      | cons c bs =>
        rw [skipSign] at hds
        split_ifs at hds with hc
        · refine ⟨e, [c], bs, he, Or.inr ?_, hds, rfl⟩
          rcases hc with rfl | rfl
          · exact Or.inl rfl
          · exact Or.inr rfl
        · exact ⟨e, [], c :: bs, he, Or.inl rfl, hds, rfl⟩
    · rintro (hnil | ⟨e', sign, ds, he, hsign, hds, heq⟩)
      · contradiction
      · obtain ⟨rfl, rfl⟩ := List.cons.inj heq
        refine ⟨he, ?_⟩
        rcases hsign with rfl | rfl | rfl
        · obtain ⟨hne, hall⟩ := hds
          cases ds with
          | nil => exact absurd rfl hne
          | cons d ds =>
            have hd : ¬ (d = 43 ∨ d = 45) := by
              rintro (rfl | rfl)
              · exact absurd (hall 43 List.mem_cons_self) (by decide)
              · exact absurd (hall 45 List.mem_cons_self) (by decide)
            rw [List.nil_append, skipSign, if_neg hd]
            exact ⟨hne, hall⟩
        · exact hds
        · exact hds

/-- An exponent does not begin with a digit. -/
theorem ExpPart.head (h : ExpPart bs) : ∀ c ∈ bs.head?, isDigit c = false ∧ c ≠ 46 := by
  rcases h with rfl | ⟨e, sign, ds, rfl | rfl, -, -, rfl⟩
  · exact nofun
  · simp [isDigit]
  · simp [isDigit]

theorem isFrac_iff : isFrac bs = true ↔
    ∃ frac exp, FracPart frac ∧ ExpPart exp ∧ bs = frac ++ exp := by
  cases bs with
  | nil => exact iff_of_true rfl ⟨[], [], Or.inl rfl, Or.inl rfl, rfl⟩
  | cons c bs =>
    rw [isFrac]
    split_ifs with hc
    · subst hc
      rw [Bool.and_eq_true, decide_eq_true_eq, isExp_iff]
      constructor
      · rintro ⟨hne, hexp⟩
        refine ⟨46 :: bs.takeWhile isDigit, _, Or.inr ⟨_, ⟨hne, ?_⟩, rfl⟩, hexp, ?_⟩
        · exact fun d hd => List.mem_takeWhile_imp hd
        · rw [List.cons_append, List.takeWhile_append_dropWhile]
      · rintro ⟨frac, exp, rfl | ⟨ds, hds, rfl⟩, hexp, heq⟩
        · exact absurd rfl (hexp.head 46 (by rw [← List.nil_append exp, ← heq]; rfl)).2
        · obtain ⟨htake, hdrop⟩ := takeWhile_of_stops hds.2 fun d hd => (hexp.head d hd).1
          have hbs : bs = ds ++ exp := (List.cons.inj heq).2
          rw [hbs, htake, hdrop]
          exact ⟨hds.1, hexp⟩
    · rw [isExp_iff]
      constructor
      · exact fun hexp => ⟨[], _, Or.inl rfl, hexp, rfl⟩
      · rintro ⟨frac, exp, rfl | ⟨ds, hds, rfl⟩, hexp, heq⟩
        · rwa [heq]
        · exact absurd (List.cons.inj heq).1 hc

theorem isUnsigned_iff : isUnsigned bs = true ↔
    ∃ int frac exp, IntPart int ∧ FracPart frac ∧ ExpPart exp ∧ bs = int ++ (frac ++ exp) := by
  rw [isUnsigned, Bool.and_eq_true, isFrac_iff, Bool.or_eq_true, decide_eq_true_eq,
    Bool.and_eq_true, decide_eq_true_eq, decide_eq_true_eq]
  constructor
  · rintro ⟨hint, frac, exp, hfrac, hexp, heq⟩
    refine ⟨bs.takeWhile isDigit, frac, exp, ?_, hfrac, hexp, ?_⟩
    · refine hint.imp_right fun ⟨hne, hhead⟩ =>
        ⟨⟨hne, fun d hd => List.mem_takeWhile_imp hd⟩, ?_⟩
      rw [List.head?_takeWhile]
      intro hzero
      obtain ⟨h48, -⟩ := Option.filter_eq_some_iff.mp hzero
      exact hhead h48
    · rw [← heq, List.takeWhile_append_dropWhile]
  · rintro ⟨int, frac, exp, hint, hfrac, hexp, rfl⟩
    have hstop : ∀ c ∈ (frac ++ exp).head?, isDigit c = false := by
      rcases hfrac with rfl | ⟨ds, -, rfl⟩
      · exact fun c hc => (hexp.head c hc).1
      · simp [isDigit]
    have hall : ∀ c ∈ int, isDigit c = true := by
      rcases hint with rfl | ⟨hds, -⟩
      · simp [isDigit]
      · exact hds.2
    obtain ⟨htake, hdrop⟩ := takeWhile_of_stops hall hstop
    rw [htake, hdrop]
    refine ⟨?_, frac, exp, hfrac, hexp, rfl⟩
    refine hint.imp_right fun ⟨hds, hhead⟩ => ⟨hds.1, ?_⟩
    cases int with
    | nil => exact absurd rfl hds.1
    | cons d ds => exact hhead

/-- An integer part begins with a digit. -/
theorem IntPart.head (h : IntPart bs) : ∃ c ds, bs = c :: ds ∧ isDigit c = true := by
  rcases h with rfl | ⟨⟨hne, hall⟩, -⟩
  · exact ⟨48, [], rfl, rfl⟩
  · cases bs with
    | nil => exact absurd rfl hne
    | cons c ds => exact ⟨c, ds, rfl, hall c List.mem_cons_self⟩

theorem isNumber_iff : isNumber bs = true ↔ Number bs := by
  cases bs with
  | nil =>
    refine iff_of_false Bool.false_ne_true ?_
    generalize hnil : ([] : List UInt8) = bs
    rintro ⟨-, hint, -, -⟩
    obtain ⟨c, ds, rfl, -⟩ := hint.head
    simp at hnil
  | cons c bs =>
    rw [isNumber]
    split_ifs with hc
    · subst hc
      rw [isUnsigned_iff]
      constructor
      · rintro ⟨int, frac, exp, hint, hfrac, hexp, rfl⟩
        exact .mk (Or.inr rfl) hint hfrac hexp
      · generalize heq : 45 :: bs = cs
        rintro ⟨hminus, hint, hfrac, hexp⟩
        rcases hminus with rfl | rfl
        · obtain ⟨c, ds, rfl, hc⟩ := hint.head
          rw [← (List.cons.inj heq).1] at hc
          contradiction
        · exact ⟨_, _, _, hint, hfrac, hexp, (List.cons.inj heq).2⟩
    · rw [isUnsigned_iff]
      constructor
      · rintro ⟨int, frac, exp, hint, hfrac, hexp, heq⟩
        rw [heq]
        exact .mk (Or.inl rfl) hint hfrac hexp
      · generalize heq : c :: bs = cs
        rintro ⟨hminus, hint, hfrac, hexp⟩
        rcases hminus with rfl | rfl
        · exact ⟨_, _, _, hint, hfrac, hexp, rfl⟩
        · exact absurd (List.cons.inj heq).1 hc

/-- A number is made of number bytes and begins with a digit or a minus sign. -/
theorem Number.bytes (h : Number bs) : (∀ c ∈ bs, isNumberByte c = true) ∧
    ∃ c ds, bs = c :: ds ∧ (isDigit c = true ∨ c = 45) := by
  obtain ⟨hminus, hint, hfrac, hexp⟩ := h
  have hdigit : ∀ c, isDigit c = true → isNumberByte c = true := by
    intro c hc
    simp [isNumberByte, hc]
  constructor
  · intro c hc
    simp only [List.mem_append] at hc
    rcases hc with hc | hc | hc | hc
    · rcases hminus with rfl | rfl
      · cases hc
      · rw [List.mem_singleton.mp hc]
        decide
    · rcases hint with rfl | ⟨hds, -⟩
      · rw [List.mem_singleton.mp hc]
        decide
      · exact hdigit c (hds.2 c hc)
    · rcases hfrac with rfl | ⟨ds, hds, rfl⟩
      · cases hc
      · rcases List.mem_cons.mp hc with rfl | hc
        · decide
        · exact hdigit c (hds.2 c hc)
    · rcases hexp with rfl | ⟨e, sign, ds, he, hsign, hds, rfl⟩
      · cases hc
      · rcases List.mem_cons.mp hc with rfl | hc
        · rcases he with rfl | rfl <;> decide
        · rcases List.mem_append.mp hc with hc | hc
          · rcases hsign with rfl | rfl | rfl
            · cases hc
            · rw [List.mem_singleton.mp hc]
              decide
            · rw [List.mem_singleton.mp hc]
              decide
          · exact hdigit c (hds.2 c hc)
  · rcases hminus with rfl | rfl
    · obtain ⟨c, ds, rfl, hc⟩ := hint.head
      exact ⟨c, _, rfl, Or.inl hc⟩
    · exact ⟨45, _, rfl, Or.inr rfl⟩

/-! ### Strings -/

theorem parseUtf8_append (c : Char) (rest : List UInt8) :
    parseUtf8 (String.utf8EncodeChar c ++ rest) = some (c, rest) := by
  rw [parseUtf8, List.toByteArray_append, ByteArray.utf8DecodeChar?_utf8EncodeChar_append]
  simp [← String.length_utf8EncodeChar]

theorem eq_of_parseUtf8 {c : Char} (h : parseUtf8 bs = some (c, rest)) :
    bs = String.utf8EncodeChar c ++ rest := by
  rw [parseUtf8, Option.map_eq_some_iff] at h
  obtain ⟨d, hd, heq⟩ := h
  obtain ⟨rfl, rfl⟩ := Prod.mk.inj heq
  obtain ⟨l, hl⟩ := ByteArray.exists_of_utf8DecodeChar?_eq_some hd
  have hlist : l = l.data.toList.toByteArray := by
    ext1
    simp
  rw [hlist, ← List.toByteArray_append, List.toByteArray_inj] at hl
  rw [← String.length_utf8EncodeChar, hl, List.drop_left' rfl]

/-- A character of one byte is told by it. -/
theorem eq_of_utf8EncodeChar {c d : Char} {x : UInt8} {t : List UInt8}
    (hd : String.utf8EncodeChar d = [x]) (hc : String.utf8EncodeChar c = x :: t) : c = d := by
  have hparse := parseUtf8_append c []
  rw [hc, List.append_nil, ← List.singleton_append, ← hd, parseUtf8_append,
    Option.some.injEq, Prod.mk.injEq] at hparse
  exact hparse.1.symm

/-- A `char` is read back, and does not begin with a quotation mark. -/
theorem CharLit.parse {b : List UInt8} {us : List UInt16} (h : CharLit b us) :
    (∃ x t, b = x :: t ∧ x ≠ quote) ∧ ∀ rest, parseChar (b ++ rest) = some (us, rest) := by
  cases h with
  | @unescaped c hc =>
    obtain ⟨x, t, hxt⟩ := List.exists_cons_of_ne_nil (String.utf8EncodeChar_ne_nil (c := c))
    have hquote : x ≠ quote := by
      rintro rfl
      have heq : c = Char.ofNat 34 := eq_of_utf8EncodeChar rfl hxt
      exact hc.2.1 (heq ▸ rfl)
    have hback : x ≠ 92 := by
      rintro rfl
      have heq : c = Char.ofNat 92 := eq_of_utf8EncodeChar rfl hxt
      exact hc.2.2 (heq ▸ rfl)
    refine ⟨⟨x, t, hxt, hquote⟩, fun rest => ?_⟩
    have hparse := parseUtf8_append c rest
    rw [hxt] at hparse ⊢
    rw [List.cons_append] at hparse ⊢
    rw [parseChar, if_neg hback, hparse]
    simp [hc]
  | @escape e u he =>
    refine ⟨⟨92, [e], rfl, by decide⟩, fun rest => ?_⟩
    have hne : e ≠ 117 := by
      rintro rfl
      contradiction
    simp [parseChar, parseEscape, hne, he]
  | unicode hu =>
    refine ⟨⟨92, _, rfl, by decide⟩, fun rest => ?_⟩
    simp [parseChar, parseEscape, hu]

theorem charLit_of_parseChar {us : List UInt16} (h : parseChar bs = some (us, rest)) :
    ∃ b, bs = b ++ rest ∧ CharLit b us := by
  cases bs with
  | nil => contradiction
  | cons x bs =>
    rw [parseChar] at h
    split_ifs at h with hx
    · subst hx
      cases bs with
      | nil => contradiction
      | cons e bs =>
        rw [parseEscape.eq_def] at h
        simp only at h
        split_ifs at h with he
        · subst he
          split at h
          · rename_i a b c d bs
            obtain ⟨u, hu, heq⟩ := Option.map_eq_some_iff.mp h
            obtain ⟨rfl, rfl⟩ := Prod.mk.inj heq
            exact ⟨[92, 117, a, b, c, d], rfl, .unicode hu⟩
          · contradiction
        · obtain ⟨u, hu, heq⟩ := Option.map_eq_some_iff.mp h
          obtain ⟨rfl, rfl⟩ := Prod.mk.inj heq
          exact ⟨[92, e], rfl, .escape hu⟩
    · obtain ⟨⟨c, rest'⟩, hc, heq⟩ := Option.bind_eq_some_iff.mp h
      simp only at heq
      split_ifs at heq with hun
      simp only [Option.some.injEq, Prod.mk.injEq] at heq
      obtain ⟨rfl, rfl⟩ := heq
      exact ⟨_, eq_of_parseUtf8 hc, .unescaped hun⟩

theorem Chars.parse {b : List UInt8} {us : List UInt16} (h : Chars b us) :
    ∀ n, b.length < n → ∀ rest, parseChars n (b ++ quote :: rest) = some (us, rest) := by
  induction h with
  | nil =>
    intro n hn rest
    obtain ⟨m, rfl⟩ := Nat.exists_eq_succ_of_ne_zero (Nat.ne_of_gt hn)
    rfl
  | @cons b bs us vs hb hs ih =>
    intro n hn rest
    obtain ⟨⟨x, t, rfl, hx⟩, hparse⟩ := hb.parse
    obtain ⟨m, rfl⟩ := Nat.exists_eq_succ_of_ne_zero (Nat.ne_of_gt (Nat.zero_lt_of_lt hn))
    have hchar := hparse (bs ++ quote :: rest)
    rw [List.append_assoc, List.cons_append] at *
    rw [parseChars, if_neg hx, hchar]
    have hlen : bs.length < m := by
      simp only [List.length_cons, List.length_append] at hn
      omega
    simp [ih m hlen rest]

theorem chars_of_parseChars {n : ℕ} {us : List UInt16} (h : parseChars n bs = some (us, rest)) :
    ∃ b, bs = b ++ quote :: rest ∧ Chars b us := by
  induction n generalizing bs us rest with
  | zero => contradiction
  | succ n ih =>
    cases bs with
    | nil => contradiction
    | cons x bs =>
      rw [parseChars] at h
      split_ifs at h with hx
      · subst hx
        cases h
        exact ⟨[], rfl, .nil⟩
      · obtain ⟨⟨us₁, rest₁⟩, hchar, h⟩ := Option.bind_eq_some_iff.mp h
        obtain ⟨⟨us₂, rest₂⟩, hchars, heq⟩ := Option.map_eq_some_iff.mp h
        obtain ⟨rfl, rfl⟩ := Prod.mk.inj heq
        obtain ⟨b, hb, hlit⟩ := charLit_of_parseChar hchar
        obtain ⟨b', rfl, htail⟩ := ih hchars
        exact ⟨b ++ b', by rw [hb, List.append_assoc], .cons hlit htail⟩

theorem Str.parse {b : List UInt8} {us : List UInt16} (h : Str b us) (rest : List UInt8) :
    parseStr (b ++ rest) = some (us, rest) := by
  obtain ⟨hchars⟩ := h
  rename_i bs
  have hfuel : bs.length < (bs ++ [quote] ++ rest).length + 1 := by
    simp only [List.length_append]
    omega
  have hparse := hchars.parse _ hfuel rest
  rw [List.cons_append, parseStr, if_pos rfl]
  rw [List.append_assoc, List.singleton_append] at hparse ⊢
  exact hparse

theorem str_of_parseStr {us : List UInt16} (h : parseStr bs = some (us, rest)) :
    ∃ b, bs = b ++ rest ∧ Str b us := by
  cases bs with
  | nil => contradiction
  | cons x bs =>
    rw [parseStr] at h
    split_ifs at h with hx
    subst hx
    obtain ⟨b, rfl, hchars⟩ := chars_of_parseChars h
    exact ⟨quote :: (b ++ [quote]), by simp, .mk hchars⟩

/-! ### Items -/

/-- The input goes on with something that is not part of a number. -/
def Stops (rest : List UInt8) : Prop := ∀ c ∈ rest.head?, isNumberByte c = false

/-- What a relation derives is read back, however the input goes on. -/
def Reads {α : Type*} (R : List UInt8 → α → Prop) (item : List UInt8 → Option (α × List UInt8))
    (m : ℕ) : Prop :=
  ∀ b x, R b x → b.length ≤ m → ∀ rest, Stops rest → item (b ++ rest) = some (x, rest)

/-- What a relation derives begins neither with whitespace nor with the closing bracket. -/
def Begins {α : Type*} (R : List UInt8 → α → Prop) (close : UInt8) : Prop :=
  ∀ b x, R b x → ∃ c t, b = c :: t ∧ isWs c = false ∧ c ≠ close

/-- A byte that ends an item: it is neither whitespace nor part of a number. -/
structure Ends (c : UInt8) : Prop where
  ws : isWs c = false
  number : isNumberByte c = false

theorem isNumberByte_of_isWs {c : UInt8} (hc : isWs c = true) : isNumberByte c = false := by
  revert hc
  simp only [isWs, isNumberByte, isDigit, Bool.or_eq_true, decide_eq_true_eq]
  rintro (((rfl | rfl) | rfl) | rfl) <;> decide

theorem Ws.stops {w : List UInt8} (hw : Ws w) : Stops w := fun _ hc =>
  isNumberByte_of_isWs (hw _ (List.mem_of_mem_head? hc))

theorem stops_append {w : List UInt8} (hw : Ws w) {c : UInt8} (hc : Ends c) :
    Stops (w ++ c :: rest) := by
  cases w with
  | nil =>
    intro d hd
    obtain rfl : c = d := by simpa using hd
    exact hc.number
  | cons e w => exact fun d hd => hw.stops d hd

section Items

variable {α : Type*} {R : List UInt8 → α → Prop} {item : List UInt8 → Option (α × List UInt8)}
  {close : UInt8} {m : ℕ}

/-- An item with whitespace around it, up to a byte that ends it. -/
theorem Padded.parse (hread : Reads R item m) (hbegin : Begins R close) {b : List UInt8} {x : α}
    (h : Padded R b x) (hlen : b.length ≤ m) {c : UInt8} (hc : Ends c) (rest : List UInt8) :
    ∃ rest', item (skipWs (b ++ c :: rest)) = some (x, rest') ∧ skipWs rest' = c :: rest := by
  obtain ⟨hw, h, hw'⟩ := h
  rename_i w b w'
  obtain ⟨d, t, rfl, hd, -⟩ := hbegin b x h
  refine ⟨w' ++ c :: rest, ?_, ?_⟩
  · rw [List.append_assoc, skipWs_append hw, List.append_assoc, List.cons_append,
      skipWs_of_not_ws hd, ← List.cons_append]
    refine hread _ x h ?_ _ (stops_append hw' hc)
    simp only [List.length_append] at hlen ⊢
    omega
  · rw [skipWs_append hw', skipWs_of_not_ws hc.ws]

theorem Items.parse (hread : Reads R item m) (hbegin : Begins R close) (hclose : Ends close)
    (hne : close ≠ comma) {b : List UInt8} {xs : List α} (h : Items R b xs) (hlen : b.length ≤ m) :
    ∀ n, b.length < n → ∀ rest, parseItems item close n (b ++ close :: rest) = some (xs, rest) := by
  induction h with
  | one h =>
    intro n hn rest
    obtain ⟨n, rfl⟩ := Nat.exists_eq_succ_of_ne_zero (Nat.ne_of_gt (Nat.zero_lt_of_lt hn))
    obtain ⟨rest', hitem, hskip⟩ := h.parse hread hbegin hlen hclose rest
    simp [parseItems, hitem, hskip, hne]
  | @cons b bs x xs h hs ih =>
    intro n hn rest
    obtain ⟨n, rfl⟩ := Nat.exists_eq_succ_of_ne_zero (Nat.ne_of_gt (Nat.zero_lt_of_lt hn))
    simp only [List.length_append, List.length_cons] at hlen hn
    have hcomma : Ends comma := ⟨by decide, by decide⟩
    obtain ⟨rest', hitem, hskip⟩ :=
      h.parse hread hbegin (by omega) hcomma (bs ++ close :: rest)
    rw [List.append_assoc, List.cons_append, parseItems, hitem]
    simp [hskip, ih (by omega) n (by omega) rest]

theorem items_of_parseItems (hitem : ∀ bs x rest, item bs = some (x, rest) →
    ∃ b, bs = b ++ rest ∧ R b x) {n : ℕ} {xs : List α}
    (h : parseItems item close n bs = some (xs, rest)) :
    ∃ b, bs = b ++ close :: rest ∧ Items R b xs := by
  induction n generalizing bs xs rest with
  | zero => contradiction
  | succ n ih =>
    rw [parseItems] at h
    obtain ⟨⟨x, rest₁⟩, hx, h⟩ := Option.bind_eq_some_iff.mp h
    obtain ⟨w, hw, hbs⟩ := exists_skipWs bs
    obtain ⟨b, hb, hR⟩ := hitem _ _ _ hx
    obtain ⟨w', hw', hrest⟩ := exists_skipWs rest₁
    have hpad : Padded R (w ++ (b ++ w')) x := .mk hw hR hw'
    have heq : bs = (w ++ (b ++ w')) ++ skipWs rest₁ := by
      rw [List.append_assoc, List.append_assoc, ← hrest, ← hb, ← hbs]
    simp only at h
    split at h
    · contradiction
    · rename_i c rest₂ hc
      rw [hc] at heq
      split_ifs at h with hcomma hclose
      · obtain ⟨⟨ys, rest₃⟩, hys, hpair⟩ := Option.map_eq_some_iff.mp h
        obtain ⟨rfl, rfl⟩ := Prod.mk.inj hpair
        obtain ⟨b', rfl, hitems⟩ := ih hys
        refine ⟨_, ?_, .cons hpad hitems⟩
        rw [heq, hcomma]
        simp
      · cases h
        exact ⟨_, hclose ▸ heq, .one hpad⟩

theorem Items.begin (hbegin : Begins R close) {b : List UInt8} {xs : List α} (h : Items R b xs)
    (rest : List UInt8) : ∃ c t, skipWs (b ++ rest) = c :: t ∧ c ≠ close := by
  have hpad : ∀ {b : List UInt8} {x : α}, Padded R b x → ∀ rest,
      ∃ c t, skipWs (b ++ rest) = c :: t ∧ c ≠ close := by
    rintro _ x ⟨hw, h, -⟩ rest
    rename_i w b w'
    obtain ⟨c, t, rfl, hc, hne⟩ := hbegin b x h
    refine ⟨c, t ++ (w' ++ rest), ?_, hne⟩
    rw [List.append_assoc, skipWs_append hw, List.append_assoc, List.cons_append,
      skipWs_of_not_ws hc]
  cases h with
  | one h => exact hpad h rest
  | cons h hs =>
    rw [List.append_assoc]
    exact hpad h _

/-- What stands between brackets is read back. -/
theorem Items.parseBody (hread : Reads R item m) (hbegin : Begins R close) (hclose : Ends close)
    (hne : close ≠ comma) {b : List UInt8} {xs : List α} (h : Items R b xs) (hlen : b.length ≤ m)
    (rest : List UInt8) : parseBody item close (b ++ close :: rest) = some (xs, rest) := by
  obtain ⟨c, t, hskip, hc⟩ := h.begin hbegin (close :: rest)
  rw [Json.parseBody, hskip]
  simp only [if_neg hc]
  refine h.parse hread hbegin hclose hne hlen _ ?_ rest
  rw [List.length_append]
  omega

theorem parseBody_empty (hclose : Ends close) {w : List UInt8} (hw : Ws w) (rest : List UInt8) :
    parseBody item close (w ++ close :: rest) = some ([], rest) := by
  rw [parseBody, skipWs_append hw, skipWs_of_not_ws hclose.ws]
  simp

theorem items_of_parseBody (hitem : ∀ bs x rest, item bs = some (x, rest) →
    ∃ b, bs = b ++ rest ∧ R b x) {xs : List α} (h : parseBody item close bs = some (xs, rest)) :
    ∃ b, bs = b ++ close :: rest ∧ (Ws b ∧ xs = [] ∨ Items R b xs) := by
  rw [parseBody] at h
  split at h
  · contradiction
  · rename_i c rest' hskip
    split_ifs at h with hc
    · cases h
      obtain ⟨w, hw, hbs⟩ := exists_skipWs bs
      rw [hskip, hc] at hbs
      exact ⟨w, hbs, Or.inl ⟨hw, rfl⟩⟩
    · obtain ⟨b, hb, hitems⟩ := items_of_parseItems hitem h
      exact ⟨b, hb, Or.inr hitems⟩

end Items

/-! ### Values -/

theorem Member.parse {value : List UInt8 → Option (Json × List UInt8)}
    {R : List UInt8 → Json → Prop} {m : ℕ} (hread : Reads R value m)
    (hbegin : Begins R closeObject) : Reads (Member R) (parseMember value) m := by
  rintro _ _ ⟨hname, hw, hw', hvalue⟩ hlen rest hstop
  rename_i name w w' b us v
  obtain ⟨c, t, rfl, hc, -⟩ := hbegin b v hvalue
  have hstr := hname.parse (w ++ colon :: (w' ++ (c :: t ++ rest)))
  have hcolon : skipWs (w ++ colon :: (w' ++ (c :: t ++ rest))) =
      colon :: (w' ++ (c :: t ++ rest)) := by
    rw [skipWs_append hw, skipWs_of_not_ws (by decide)]
  have hskip : skipWs (w' ++ (c :: t ++ rest)) = c :: t ++ rest := by
    rw [skipWs_append hw', List.cons_append, skipWs_of_not_ws hc]
  have hv := hread _ v hvalue (by simp only [List.length_append, List.length_cons] at hlen ⊢; omega)
    rest hstop
  rw [parseMember, List.append_assoc, List.append_assoc, List.cons_append, List.append_assoc, hstr]
  simp only [Option.bind_some, hcolon, if_true, hskip, hv, Option.map_some]

theorem Member.begins {R : List UInt8 → Json → Prop} : Begins (Member R) closeObject := by
  rintro _ _ ⟨⟨-⟩, -, -, -⟩
  exact ⟨quote, _, rfl, by decide, by decide⟩

theorem member_of_parseMember {value : List UInt8 → Option (Json × List UInt8)}
    {R : List UInt8 → Json → Prop} (hvalue : ∀ bs v rest, value bs = some (v, rest) →
    ∃ b, bs = b ++ rest ∧ R b v) (bs : List UInt8) (x : List UInt16 × Json) (rest : List UInt8)
    (h : parseMember value bs = some (x, rest)) : ∃ b, bs = b ++ rest ∧ Member R b x := by
  rw [parseMember] at h
  obtain ⟨⟨us, rest₁⟩, hstr, h⟩ := Option.bind_eq_some_iff.mp h
  simp only at h
  split at h
  · contradiction
  · rename_i c rest₂ hskip
    split_ifs at h with hc
    obtain ⟨⟨v, rest₃⟩, hv, hpair⟩ := Option.map_eq_some_iff.mp h
    obtain ⟨rfl, rfl⟩ := Prod.mk.inj hpair
    obtain ⟨name, rfl, hname⟩ := str_of_parseStr hstr
    obtain ⟨w, hw, hrest₁⟩ := exists_skipWs rest₁
    obtain ⟨w', hw', hrest₂⟩ := exists_skipWs rest₂
    obtain ⟨b, hb, hR⟩ := hvalue _ _ _ hv
    refine ⟨name ++ (w ++ colon :: (w' ++ b)), ?_, .mk hname hw hw' hR⟩
    rw [hrest₁, hskip, hc, hrest₂, hb]
    simp

/-- A value begins neither with whitespace nor with a closing bracket. -/
theorem begins_value {close : UInt8} (hclose : close = closeArray ∨ close = closeObject) :
    Begins Value close := by
  intro b v h
  have hnot : ∀ {c : UInt8} {t : List UInt8},
      isWs c = false ∧ c ≠ closeArray ∧ c ≠ closeObject →
      ∃ c' t', c :: t = c' :: t' ∧ isWs c' = false ∧ c' ≠ close := by
    rintro c t ⟨hws, harr, hobj⟩
    refine ⟨c, t, rfl, hws, ?_⟩
    rcases hclose with rfl | rfl
    · exact harr
    · exact hobj
  cases h with
  | number h =>
    obtain ⟨-, c, ds, rfl, hc⟩ := h.bytes
    refine hnot ⟨?_, ?_, ?_⟩
    · rw [Bool.eq_false_iff]
      intro hws
      simp only [isWs, isDigit, Bool.or_eq_true, Bool.and_eq_true, decide_eq_true_eq] at hws hc
      rcases hws with ((rfl | rfl) | rfl) | rfl <;> revert hc <;> decide
    · rintro rfl
      revert hc
      decide
    · rintro rfl
      revert hc
      decide
  | string h =>
    obtain ⟨-⟩ := h
    exact hnot (by decide)
  | _ => exact hnot (by decide)

/-- Brackets hold items, or nothing but whitespace. -/
theorem parseBody_brackets {α : Type*} {R : List UInt8 → α → Prop}
    {item : List UInt8 → Option (α × List UInt8)} {close : UInt8} {m : ℕ} (hread : Reads R item m)
    (hbegin : Begins R close) (hclose : Ends close) (hne : close ≠ comma) {b : List UInt8}
    {xs : List α} (h : Ws b ∧ xs = [] ∨ Items R b xs) (hlen : b.length ≤ m) (rest : List UInt8) :
    parseBody item close (b ++ close :: rest) = some (xs, rest) := by
  rcases h with ⟨hw, rfl⟩ | h
  · exact parseBody_empty hclose hw rest
  · exact h.parseBody hread hbegin hclose hne hlen rest

theorem reads_value (n : ℕ) : Reads Value (parseValue (n + 1)) n := by
  induction n with
  | zero =>
    intro b v h hlen
    obtain ⟨c, t, rfl, -⟩ := begins_value (Or.inl rfl) b v h
    simp at hlen
  | succ n ih =>
    have harr : Begins Value closeArray := begins_value (Or.inl rfl)
    have hobj : Begins (Member Value) closeObject := Member.begins
    have harrEnds : Ends closeArray := ⟨by decide, by decide⟩
    have hobjEnds : Ends closeObject := ⟨by decide, by decide⟩
    have harray : ∀ b vs, (Ws b ∧ vs = [] ∨ Items Value b vs) → b.length ≤ n → ∀ rest,
        parseValue (n + 2) (openArray :: (b ++ closeArray :: rest)) = some (.array vs, rest) := by
      intro b vs h hlen rest
      have hbody := parseBody_brackets ih harr harrEnds (by decide) h hlen rest
      rw [parseValue, if_neg (by decide), if_pos rfl, hbody]
      rfl
    have hobject : ∀ b ms, (Ws b ∧ ms = [] ∨ Items (Member Value) b ms) → b.length ≤ n → ∀ rest,
        parseValue (n + 2) (openObject :: (b ++ closeObject :: rest)) =
          some (.object ms, rest) := by
      intro b ms h hlen rest
      have hbody := parseBody_brackets (Member.parse ih (begins_value (Or.inr rfl))) hobj hobjEnds
        (by decide) h hlen rest
      rw [parseValue, if_neg (by decide), if_neg (by decide), if_pos rfl, hbody]
      rfl
    intro b v h hlen rest hstop
    cases h with
    | null | true | false => rfl
    | number h =>
      obtain ⟨hall, c, ds, rfl, hc⟩ := h.bytes
      obtain ⟨htake, hdrop⟩ := takeWhile_of_stops hall hstop
      have hcn : isNumberByte c = true := hall c List.mem_cons_self
      have hquote : c ≠ quote := by
        rintro rfl
        contradiction
      have hbracket : c ≠ openArray := by
        rintro rfl
        contradiction
      have hbrace : c ≠ openObject := by
        rintro rfl
        contradiction
      rw [List.cons_append] at htake hdrop ⊢
      rw [parseValue, if_neg hquote, if_neg hbracket, if_neg hbrace, if_pos hcn]
      simp only [htake, hdrop, if_pos (isNumber_iff.mpr h)]
    | string h =>
      have hstr := h.parse rest
      obtain ⟨-⟩ := h
      rw [List.cons_append] at hstr ⊢
      rw [parseValue, if_pos rfl, hstr]
      rfl
    | emptyArray hw =>
      simp only [List.length_cons, List.length_append] at hlen
      rw [List.cons_append, List.append_assoc]
      exact harray _ _ (Or.inl ⟨hw, rfl⟩) (by omega) rest
    | array h =>
      simp only [List.length_cons, List.length_append] at hlen
      rw [List.cons_append, List.append_assoc]
      exact harray _ _ (Or.inr h) (by omega) rest
    | emptyObject hw =>
      simp only [List.length_cons, List.length_append] at hlen
      rw [List.cons_append, List.append_assoc]
      exact hobject _ _ (Or.inl ⟨hw, rfl⟩) (by omega) rest
    | object h =>
      simp only [List.length_cons, List.length_append] at hlen
      rw [List.cons_append, List.append_assoc]
      exact hobject _ _ (Or.inr h) (by omega) rest

theorem value_of_parseName {v : Json} (h : parseName bs = some (v, rest)) :
    ∃ b, bs = b ++ rest ∧ Value b v := by
  rw [parseName.eq_def] at h
  split at h
  · cases h
    exact ⟨_, rfl, .null⟩
  · cases h
    exact ⟨_, rfl, .true⟩
  · cases h
    exact ⟨_, rfl, .false⟩
  · contradiction

theorem value_of_parseValue (n : ℕ) (bs : List UInt8) (v : Json) (rest : List UInt8)
    (h : parseValue n bs = some (v, rest)) : ∃ b, bs = b ++ rest ∧ Value b v := by
  induction n generalizing bs v rest with
  | zero => contradiction
  | succ n ih =>
    cases bs with
    | nil => contradiction
    | cons c bs =>
      rw [parseValue] at h
      split_ifs at h with hquote harr hobj hnum
      · obtain ⟨⟨us, rest'⟩, hstr, hpair⟩ := Option.map_eq_some_iff.mp h
        obtain ⟨rfl, rfl⟩ := Prod.mk.inj hpair
        obtain ⟨b, hb, hstr⟩ := str_of_parseStr hstr
        exact ⟨b, hb, .string hstr⟩
      · obtain ⟨⟨vs, rest'⟩, hbody, hpair⟩ := Option.map_eq_some_iff.mp h
        obtain ⟨rfl, rfl⟩ := Prod.mk.inj hpair
        obtain ⟨b, rfl, hb⟩ := items_of_parseBody ih hbody
        refine ⟨openArray :: (b ++ [closeArray]), by simp [harr], ?_⟩
        rcases hb with ⟨hw, rfl⟩ | hitems
        · exact .emptyArray hw
        · exact .array hitems
      · obtain ⟨⟨ms, rest'⟩, hbody, hpair⟩ := Option.map_eq_some_iff.mp h
        obtain ⟨rfl, rfl⟩ := Prod.mk.inj hpair
        obtain ⟨b, rfl, hb⟩ := items_of_parseBody (member_of_parseMember ih) hbody
        refine ⟨openObject :: (b ++ [closeObject]), by simp [hobj], ?_⟩
        rcases hb with ⟨hw, rfl⟩ | hitems
        · exact .emptyObject hw
        · exact .object hitems
      · simp only at h
        split_ifs at h with hlit
        cases h
        exact ⟨_, List.takeWhile_append_dropWhile.symm, .number (isNumber_iff.mp hlit)⟩
      · exact value_of_parseName h

/-- The parser accepts the texts of the grammar, with their values. -/
theorem parse_eq_some_iff {v : Json} : parse bs = some v ↔ Text bs v := by
  rw [parse]
  constructor
  · intro h
    obtain ⟨⟨v', rest⟩, hv, h⟩ := Option.bind_eq_some_iff.mp h
    simp only at h
    split_ifs at h with hend
    cases h
    obtain ⟨w, hw, hbs⟩ := exists_skipWs bs
    obtain ⟨b, hb, hvalue⟩ := value_of_parseValue _ _ _ _ hv
    obtain ⟨w', hw', hrest⟩ := exists_skipWs rest
    rw [hend, List.append_nil] at hrest
    rw [hbs, hb, hrest]
    exact .mk hw hvalue hw'
  · rintro ⟨hw, hvalue, hw'⟩
    rename_i w b w'
    obtain ⟨c, t, rfl, hc, -⟩ := begins_value (Or.inl rfl) b v hvalue
    have hread := reads_value (w ++ (c :: t ++ w')).length _ v hvalue (by simp; omega) w' hw'.stops
    have hskip : skipWs (w ++ (c :: t ++ w')) = c :: t ++ w' := by
      rw [skipWs_append hw, List.cons_append, skipWs_of_not_ws hc]
    have hend : skipWs w' = [] := by
      have hskip := skipWs_append hw' []
      rwa [List.append_nil] at hskip
    rw [hskip, hread, Option.bind_some]
    exact if_pos hend

example : parse [91, 49, 44, 32, 34, 92, 110, 34, 93] =
    some (.array [.number [49], .string [10]]) := by rfl

/-- A text has one value. -/
theorem Text.unique {v v' : Json} (h : Text bs v) (h' : Text bs v') : v = v' := by
  rw [← parse_eq_some_iff] at h h'
  exact Option.some.inj (h.symm.trans h')

/-! ### Control characters -/

/-- Whitespace, or not a control character. -/
def Plain (c : UInt8) : Prop := isWs c = true ∨ 32 ≤ c.toNat

instance (c : UInt8) : Decidable (Plain c) := inferInstanceAs (Decidable (_ ∨ _))

theorem Ws.plain (h : Ws bs) : ∀ c ∈ bs, Plain c := fun c hc => Or.inl (h c hc)

theorem plain_of_isNumberByte {c : UInt8} (hc : isNumberByte c = true) : Plain c := by
  revert hc
  simp only [isNumberByte, isDigit, Bool.or_eq_true, Bool.and_eq_true, decide_eq_true_eq]
  rintro (((((⟨hc, -⟩ | rfl) | rfl) | rfl) | rfl) | rfl)
  · have hnat : 48 ≤ c.toNat := hc
    exact Or.inr (by omega)
  all_goals exact Or.inr (by decide)

/-- A hexadecimal digit is not a control character. -/
theorem le_of_hexDigit {c : UInt8} {n : ℕ} (h : hexDigit c = some n) : 32 ≤ c.toNat := by
  have hle : 48 ≤ c.toNat ∨ 65 ≤ c.toNat ∨ 97 ≤ c.toNat := by
    rw [hexDigit] at h
    split_ifs at h with h₁ h₂ h₃
    · exact Or.inl h₁.1
    · exact Or.inr (Or.inl h₂.1)
    · exact Or.inr (Or.inr h₃.1)
  omega

/-- A byte of a character is the character itself or at least 128. -/
theorem le_of_mem_utf8EncodeChar {c : Char} {x : UInt8} (hx : x ∈ String.utf8EncodeChar c) :
    min c.toNat 128 ≤ x.toNat := by
  have hbyte : ∀ n, min c.toNat 128 ≤ n → n < 256 → min c.toNat 128 ≤ (UInt8.ofNat n).toNat := by
    intro n hn hlt
    rwa [UInt8.toNat_ofNat', Nat.mod_eq_of_lt hlt]
  have hval : c.val.toNat = c.toNat := rfl
  rw [String.utf8EncodeChar] at hx
  split_ifs at hx
  all_goals
    simp only [List.mem_cons, List.not_mem_nil, or_false] at hx
  · subst hx
    exact hbyte _ (by omega) (by omega)
  · rcases hx with rfl | rfl <;> exact hbyte _ (by omega) (by omega)
  · rcases hx with rfl | rfl | rfl <;> exact hbyte _ (by omega) (by omega)
  · rcases hx with rfl | rfl | rfl | rfl <;> exact hbyte _ (by omega) (by omega)

/-- No control character stands in a string, not even a whitespace one. -/
theorem CharLit.le {us : List UInt16} (h : CharLit bs us) : ∀ c ∈ bs, 32 ≤ c.toNat := by
  cases h with
  | unescaped hc =>
    intro x hx
    have hle := le_of_mem_utf8EncodeChar hx
    have hchar := hc.1
    omega
  | @escape e u he =>
    have hne : 32 ≤ e.toNat := by
      rw [Json.escape] at he
      split_ifs at he with h₁ h₂ h₃ h₄ h₅ h₆
      · rcases h₁ with rfl | rfl | rfl <;> decide
      all_goals
        subst e
        decide
    simp only [List.mem_cons, List.not_mem_nil, or_false, forall_eq_or_imp, forall_eq]
    exact ⟨by decide, hne⟩
  | @unicode a b c d u hu =>
    simp only [hex4, Option.bind_eq_bind, Option.bind_eq_some_iff] at hu
    obtain ⟨a', ha, b', hb, c', hc, d', hd, -⟩ := hu
    simp only [List.mem_cons, List.not_mem_nil, or_false, forall_eq_or_imp, forall_eq]
    exact ⟨by decide, by decide, le_of_hexDigit ha, le_of_hexDigit hb, le_of_hexDigit hc,
      le_of_hexDigit hd⟩

theorem Chars.le {us : List UInt16} (h : Chars bs us) : ∀ c ∈ bs, 32 ≤ c.toNat := by
  induction h with
  | nil => exact nofun
  | cons h hs ih => exact List.forall_mem_append.mpr ⟨h.le, ih⟩

theorem Str.le {us : List UInt16} (h : Str bs us) : ∀ c ∈ bs, 32 ≤ c.toNat := by
  obtain ⟨h⟩ := h
  refine List.forall_mem_cons.mpr ⟨by decide, List.forall_mem_append.mpr ⟨h.le, ?_⟩⟩
  exact List.forall_mem_singleton.mpr (by decide)

theorem Str.plain {us : List UInt16} (h : Str bs us) : ∀ c ∈ bs, Plain c :=
  fun c hc => Or.inr (h.le c hc)

section Items

variable {α : Type*} {R : List UInt8 → α → Prop} {m : ℕ}

/-- What a relation derives, up to a length, contains no control characters. -/
def Legible (R : List UInt8 → α → Prop) (m : ℕ) : Prop :=
  ∀ b x, R b x → b.length ≤ m → ∀ c ∈ b, Plain c

theorem Legible.padded (hR : Legible R m) : Legible (Padded R) m := by
  rintro _ _ ⟨hw, h, hw'⟩ hlen
  simp only [List.length_append] at hlen
  refine List.forall_mem_append.mpr ⟨hw.plain, List.forall_mem_append.mpr ⟨?_, hw'.plain⟩⟩
  exact hR _ _ h (by omega)

theorem Legible.items (hR : Legible R m) : Legible (Items R) m := by
  intro b xs h
  induction h with
  | one h => exact hR.padded _ _ h
  | cons h hs ih =>
    intro hlen
    simp only [List.length_append, List.length_cons] at hlen
    refine List.forall_mem_append.mpr ⟨hR.padded _ _ h (by omega), ?_⟩
    exact List.forall_mem_cons.mpr ⟨Or.inr (by decide), ih (by omega)⟩

end Items

theorem Legible.member {R : List UInt8 → Json → Prop} {m : ℕ} (hR : Legible R m) :
    Legible (Member R) m := by
  rintro _ _ ⟨hname, hw, hw', h⟩ hlen
  simp only [List.length_append, List.length_cons] at hlen
  refine List.forall_mem_append.mpr ⟨hname.plain, List.forall_mem_append.mpr ⟨hw.plain, ?_⟩⟩
  refine List.forall_mem_cons.mpr ⟨Or.inr (by decide), ?_⟩
  exact List.forall_mem_append.mpr ⟨hw'.plain, hR _ _ h (by omega)⟩

/-- Brackets around what is legible. -/
theorem plain_brackets {o c : UInt8} (ho : Plain o) (hc : Plain c) (h : ∀ x ∈ bs, Plain x) :
    ∀ x ∈ o :: (bs ++ [c]), Plain x :=
  List.forall_mem_cons.mpr ⟨ho, List.forall_mem_append.mpr ⟨h, List.forall_mem_singleton.mpr hc⟩⟩

theorem legible_value (n : ℕ) : Legible Value n := by
  induction n with
  | zero =>
    intro b v h hlen
    rw [List.eq_nil_of_length_eq_zero (Nat.le_zero.mp hlen)]
    exact nofun
  | succ n ih =>
    have hopen : Plain openArray ∧ Plain closeArray := ⟨Or.inr (by decide), Or.inr (by decide)⟩
    have hbrace : Plain openObject ∧ Plain closeObject := ⟨Or.inr (by decide), Or.inr (by decide)⟩
    intro b v h hlen
    cases h with
    | null | true | false => simp [Plain]
    | number h => exact fun c hc => plain_of_isNumberByte (h.bytes.1 c hc)
    | string h => exact h.plain
    | emptyArray hw => exact plain_brackets hopen.1 hopen.2 hw.plain
    | array h =>
      simp only [List.length_cons, List.length_append] at hlen
      exact plain_brackets hopen.1 hopen.2 (ih.items _ _ h (by omega))
    | emptyObject hw => exact plain_brackets hbrace.1 hbrace.2 hw.plain
    | object h =>
      simp only [List.length_cons, List.length_append] at hlen
      exact plain_brackets hbrace.1 hbrace.2 (ih.member.items _ _ h (by omega))

/-- No NUL byte stands in a JSON text. -/
theorem Text.zero_not_mem {v : Json} (h : Text bs v) : (0 : UInt8) ∉ bs := by
  intro hmem
  rcases (legible_value bs.length).padded _ _ h (Nat.le_refl _) 0 hmem with h0 | h0
  · revert h0
    decide
  · revert h0
    decide

end Json

end KwinApi
