import Mathlib.Data.List.Basic
import Mathlib.Tactic.Common

/-!
# Elements joined by a separator

Dotted names and paths are elements with single separators between them, and an element is one
character that may start it, then any number of characters that may follow. The two classes are
parameters, so that grammars that differ in their characters only can be compared.

## Main definitions

* `KwinApi.IsElement` — an element over two classes of characters
* `KwinApi.Elements` — the texts of elements with separators between them
* `KwinApi.ElementTail` — what is left of such a text inside an element

## Main results

* `exists_elements_cons`, `elementTail_cons`, `elementTail_sep` — the texts one character at a time
* `Elements.sep_mem_iff` — a separator is in the text iff there are two elements or more
* `Elements.map` — the elements with other characters and another separator
* `elements_iff` — the text is the elements joined with the separator
-/

namespace KwinApi

variable {α β : Type*} {start rest : α → Prop} {sep : α} {es : List (List α)} {s : List α}

/-- A character that may start an element, and any number of further ones. -/
def IsElement (start rest : α → Prop) : List α → Prop
  | [] => False
  | c :: cs => start c ∧ ∀ d ∈ cs, rest d

/-- A text of one element or more with single separators between them. -/
inductive Elements (start rest : α → Prop) (sep : α) : List (List α) → List α → Prop where
  | one {e : List α} (he : IsElement start rest e) : Elements start rest sep [e] e
  | cons {e : List α} {es : List (List α)} {s : List α} (he : IsElement start rest e)
      (h : Elements start rest sep es s) : Elements start rest sep (e :: es) (e ++ sep :: s)

/-- The rest of a text behind a character of an element. -/
inductive ElementTail (start rest : α → Prop) (sep : α) : List α → Prop where
  | last {cs : List α} (hcs : ∀ d ∈ cs, rest d) : ElementTail start rest sep cs
  | more {cs : List α} {es : List (List α)} {s : List α} (hcs : ∀ d ∈ cs, rest d)
      (h : Elements start rest sep es s) : ElementTail start rest sep (cs ++ sep :: s)

/-! ### One character at a time -/

theorem not_elements_nil : ¬ Elements start rest sep es [] := by
  intro h
  generalize ht : [] = t at h
  cases h with
  | one he =>
    subst ht
    exact he
  | cons he h => exact absurd ht.symm (List.append_ne_nil_of_right_ne_nil _ (List.cons_ne_nil _ _))

theorem exists_elements_cons {c : α} :
    (∃ es, Elements start rest sep es (c :: s)) ↔ start c ∧ ElementTail start rest sep s := by
  constructor
  · rintro ⟨es, h⟩
    generalize ht : c :: s = t at h
    cases h with
    | one he =>
      subst ht
      exact ⟨he.1, .last he.2⟩
    | @cons e es s' he h =>
      cases e with
      | nil => exact he.elim
      | cons d e =>
        obtain ⟨rfl, rfl⟩ := List.cons.inj ht
        exact ⟨he.1, .more he.2 h⟩
  · rintro ⟨hc, h⟩
    cases h with
    | last hcs =>
      have he : IsElement start rest (c :: s) := ⟨hc, hcs⟩
      exact ⟨_, .one he⟩
    | @more cs es s' hcs h =>
      have he : IsElement start rest (c :: cs) := ⟨hc, hcs⟩
      exact ⟨_, .cons he h⟩

theorem elementTail_nil : ElementTail start rest sep [] := .last (by simp)

theorem elementTail_cons {c : α} (hne : c ≠ sep) :
    ElementTail start rest sep (c :: s) ↔ rest c ∧ ElementTail start rest sep s := by
  constructor
  · intro h
    generalize ht : c :: s = t at h
    cases h with
    | last hcs =>
      subst ht
      obtain ⟨hc, hcs⟩ := List.forall_mem_cons.mp hcs
      exact ⟨hc, .last hcs⟩
    | @more cs es s' hcs h =>
      cases cs with
      | nil => exact absurd (List.cons.inj ht).1 hne
      | cons d cs =>
        obtain ⟨rfl, rfl⟩ := List.cons.inj ht
        obtain ⟨hc, hcs⟩ := List.forall_mem_cons.mp hcs
        exact ⟨hc, .more hcs h⟩
  · rintro ⟨hc, h⟩
    cases h with
    | last hcs => exact .last (List.forall_mem_cons.mpr ⟨hc, hcs⟩)
    | @more cs es s' hcs h =>
      have hcons : ∀ d ∈ c :: cs, rest d := List.forall_mem_cons.mpr ⟨hc, hcs⟩
      exact .more hcons h

/-- At a separator the next element begins. -/
theorem elementTail_sep (hsep : ¬ rest sep) :
    ElementTail start rest sep (sep :: s) ↔ ∃ es, Elements start rest sep es s := by
  constructor
  · intro h
    generalize ht : sep :: s = t at h
    cases h with
    | last hcs =>
      subst ht
      exact absurd (List.forall_mem_cons.mp hcs).1 hsep
    | @more cs es s' hcs h =>
      cases cs with
      | nil => exact ⟨es, (List.cons.inj ht).2 ▸ h⟩
      | cons d cs =>
        obtain ⟨rfl, -⟩ := List.cons.inj ht
        exact absurd (List.forall_mem_cons.mp hcs).1 hsep
  · rintro ⟨es, h⟩
    have hnil : ∀ d ∈ ([] : List α), rest d := by simp
    exact .more hnil h

/-! ### The characters of a text -/

theorem IsElement.forall_mem {P : α → Prop} {e : List α} (he : IsElement start rest e)
    (hstart : ∀ c, start c → P c) (hrest : ∀ c, rest c → P c) : ∀ c ∈ e, P c := by
  cases e with
  | nil => exact he.elim
  | cons c cs => exact List.forall_mem_cons.mpr ⟨hstart c he.1, fun d hd => hrest d (he.2 d hd)⟩

theorem IsElement.map {start' rest' : β → Prop} {f : α → β} {e : List α}
    (he : IsElement start rest e) (hstart : ∀ c ∈ e, start c → start' (f c))
    (hrest : ∀ c ∈ e, rest c → rest' (f c)) : IsElement start' rest' (e.map f) := by
  cases e with
  | nil => exact he.elim
  | cons c cs =>
    refine ⟨hstart c List.mem_cons_self he.1, ?_⟩
    rw [List.forall_mem_map]
    exact fun d hd => hrest d (List.mem_cons_of_mem c hd) (he.2 d hd)

theorem Elements.forall_mem {P : α → Prop} (h : Elements start rest sep es s) (hsep : P sep)
    (hstart : ∀ c, start c → P c) (hrest : ∀ c, rest c → P c) : ∀ c ∈ s, P c := by
  induction h with
  | one he => exact he.forall_mem hstart hrest
  | cons he _ ih =>
    exact List.forall_mem_append.mpr
      ⟨he.forall_mem hstart hrest, List.forall_mem_cons.mpr ⟨hsep, ih⟩⟩

/-- The text with its characters mapped; only those it has need to keep their classes. -/
theorem Elements.map {start' rest' : β → Prop} {f : α → β} (h : Elements start rest sep es s)
    (hstart : ∀ c ∈ s, start c → start' (f c)) (hrest : ∀ c ∈ s, rest c → rest' (f c)) :
    Elements start' rest' (f sep) (es.map (List.map f)) (s.map f) := by
  induction h with
  | one he => exact .one (he.map hstart hrest)
  | @cons e es s he _ ih =>
    obtain ⟨hstart, hstart'⟩ := List.forall_mem_append.mp hstart
    obtain ⟨hrest, hrest'⟩ := List.forall_mem_append.mp hrest
    rw [List.map_append]
    exact .cons (he.map hstart hrest)
      (ih (List.forall_mem_cons.mp hstart').2 (List.forall_mem_cons.mp hrest').2)

theorem Elements.mono {start' rest' : α → Prop} (h : Elements start rest sep es s)
    (hstart : ∀ c ∈ s, start c → start' c) (hrest : ∀ c ∈ s, rest c → rest' c) :
    Elements start' rest' sep es s := by
  have hmap := h.map (f := id) hstart hrest
  simpa using hmap

/-! ### The elements of a text -/

theorem Elements.one_le_length (h : Elements start rest sep es s) : 1 ≤ es.length := by
  cases h <;> simp

/-- A separator is in the text if and only if there is more than one element. -/
theorem Elements.sep_mem_iff (h : Elements start rest sep es s) (hstart : ¬ start sep)
    (hrest : ¬ rest sep) : sep ∈ s ↔ 2 ≤ es.length := by
  cases h with
  | one he =>
    have hne : ∀ c ∈ s, c ≠ sep := he.forall_mem (by rintro c hc rfl; exact hstart hc)
      (by rintro c hc rfl; exact hrest hc)
    constructor
    · exact fun hmem => absurd rfl (hne sep hmem)
    · exact fun hlen => absurd hlen (by simp)
  | cons he h =>
    have hlen := h.one_le_length
    constructor
    · intro _
      rw [List.length_cons]
      omega
    · exact fun _ => List.mem_append_right _ List.mem_cons_self

/-- The text is its elements joined with the separator. -/
theorem elements_iff : Elements start rest sep es s ↔
    es ≠ [] ∧ (∀ e ∈ es, IsElement start rest e) ∧ s = [sep].intercalate es := by
  constructor
  · intro h
    induction h with
    | one he => exact ⟨List.cons_ne_nil _ _, by simpa using he, List.intercalate_singleton.symm⟩
    | cons he h ih =>
      obtain ⟨hne, hall, rfl⟩ := ih
      refine ⟨List.cons_ne_nil _ _, List.forall_mem_cons.mpr ⟨he, hall⟩, ?_⟩
      rw [List.intercalate_cons_of_ne_nil hne, List.append_assoc]
      rfl
  · rintro ⟨hne, hall, rfl⟩
    induction es with
    | nil => exact absurd rfl hne
    | cons e es ih =>
      obtain ⟨he, hall⟩ := List.forall_mem_cons.mp hall
      rcases eq_or_ne es [] with rfl | hes
      · rw [List.intercalate_singleton]
        exact .one he
      · rw [List.intercalate_cons_of_ne_nil hes, List.append_assoc]
        exact .cons he (ih hes hall)

end KwinApi
