import KwinApi.Daemon.Config
import KwinApi.Lib.Elements

/-!
# The names of the daemon

The service name is a well-known name of the bus. The daemon also uses it as the name of its
interfaces and derives its object path from it, and the bus has a grammar for each of the three.

## Main definitions

* `KwinApi.IsBusName`, `IsInterfaceName`, `IsObjectPath` — the three grammars
* `KwinApi.objectPathForName` — `object_path_for_name`
* `KwinApi.AcceptedName` — the service names `load_config` lets through without an error
* `KwinApi.WorksEverywhere` — a service name that is good for all three uses

## Main results

* `KwinApi.isValidDbusName_iff` — the test for names accepts exactly the bus names
* `KwinApi.accepted_name_works_iff` — an accepted name works everywhere iff it has no `-`
-/

namespace KwinApi

/-! ### Grammars -/

/-- A letter or an underscore, with which elements start. -/
def IsNameStart (c : UInt8) : Prop := isAlpha c = true ∨ c = 95

/-- What the elements of interface names and object paths consist of. -/
def IsNameChar (c : UInt8) : Prop := isAlpha c = true ∨ isDigit c = true ∨ c = 95

/-- What may follow in an element of a bus name. -/
def IsBusNameChar (c : UInt8) : Prop := IsNameChar c ∨ c = 45

instance : DecidablePred IsNameStart := fun _ => inferInstanceAs (Decidable (_ ∨ _))

instance : DecidablePred IsNameChar := fun _ => inferInstanceAs (Decidable (_ ∨ _ ∨ _))

instance : DecidablePred IsBusNameChar := fun _ => inferInstanceAs (Decidable (_ ∨ _))

/-- Two elements or more with dots between them, in at most 255 bytes. -/
def IsDottedName (start rest : UInt8 → Prop) (name : List UInt8) : Prop :=
  name.length ≤ 255 ∧ ∃ elems, 2 ≤ elems.length ∧ Elements start rest 46 elems name

/-- A well-known name on the bus. -/
def IsBusName : List UInt8 → Prop := IsDottedName IsNameStart IsBusNameChar

/-- The name of an interface. -/
def IsInterfaceName : List UInt8 → Prop := IsDottedName IsNameStart IsNameChar

/-- The path of an object, other than the root. -/
def IsObjectPath (path : List UInt8) : Prop :=
  ∃ elems s, path = 47 :: s ∧ Elements IsNameChar IsNameChar 47 elems s

theorem IsNameStart.isNameChar {c : UInt8} (h : IsNameStart c) : IsNameChar c :=
  h.imp_right Or.inr

/-- The separators and signs that no element may hold. -/
theorem IsNameChar.not_mem {c : UInt8} (h : IsNameChar c) : c ∉ [45, 46, 47, 64] := by
  intro hmem
  simp only [List.mem_cons, List.not_mem_nil, or_false] at hmem
  rcases hmem with rfl | rfl | rfl | rfl <;> exact absurd h (by decide)

theorem IsBusNameChar.not_mem {c : UInt8} (h : IsBusNameChar c) : c ∉ [46, 47, 64] := by
  rcases h with h | rfl
  · intro hmem
    exact h.not_mem (List.mem_cons_of_mem 45 hmem)
  · decide

/-! ### The test for names -/

/-- The loop: in front of an element a text of elements, inside of one the tail of such a text. -/
theorem validElements_iff (expectElementStart : Bool) (name : List UInt8) :
    validElements expectElementStart name = true ↔
      if expectElementStart then ∃ elems, Elements IsNameStart IsBusNameChar 46 elems name
      else ElementTail IsNameStart IsBusNameChar 46 name := by
  induction name generalizing expectElementStart with
  | nil =>
    cases expectElementStart with
    | false => simp [validElements, elementTail_nil]
    | true => simp [validElements, not_elements_nil]
  | cons c cs ih =>
    rw [validElements]
    by_cases hdot : c = 46
    · subst hdot
      cases expectElementStart with
      | false => simpa [elementTail_sep (show ¬ IsBusNameChar 46 by decide)] using ih true
      | true => simp [exists_elements_cons, show ¬ IsNameStart 46 by decide]
    · rw [if_neg hdot]
      cases expectElementStart with
      | false =>
        have hrest : IsBusNameChar c ↔ (isAlpha c || isDigit c || c = 95 || c = 45) = true := by
          simp [IsBusNameChar, IsNameChar, or_assoc]
        have htail := ih false
        simp only [Bool.false_eq_true, if_false] at htail ⊢
        rw [elementTail_cons hdot, ← htail, hrest]
        cases (isAlpha c || isDigit c || c = 95 || c = 45) <;> simp
      | true =>
        have hstart : IsNameStart c ↔ (isAlpha c || c = 95) = true := by simp [IsNameStart]
        have htail := ih false
        simp only [Bool.false_eq_true, if_false, if_true] at htail ⊢
        rw [exists_elements_cons, ← htail, hstart]
        cases (isAlpha c || c = 95) <;> simp

/-- A name holds a dot if and only if it has two elements or more. -/
theorem dot_mem_iff {elems : List (List UInt8)} {name : List UInt8}
    (h : Elements IsNameStart IsBusNameChar 46 elems name) : 46 ∈ name ↔ 2 ≤ elems.length :=
  h.sep_mem_iff (by decide) (by decide)

theorem isValidDbusName_eq_true_iff (name : List UInt8) :
    isValidDbusName name = true ↔ IsBusName name := by
  have hscan := validElements_iff true name
  rw [if_pos rfl] at hscan
  rw [isValidDbusName]
  by_cases hlen : name = [] ∨ 255 < name.length
  · rw [if_pos hlen]
    refine iff_of_false Bool.false_ne_true ?_
    rintro ⟨hle, elems, -, h⟩
    rcases hlen with rfl | hlt
    · exact not_elements_nil h
    · omega
  · rw [if_neg hlen]
    by_cases hdot : (46 : UInt8) ∈ name
    · rw [if_neg (not_not.mpr hdot), hscan]
      constructor
      · rintro ⟨elems, h⟩
        exact ⟨by omega, elems, (dot_mem_iff h).mp hdot, h⟩
      · rintro ⟨-, elems, -, h⟩
        exact ⟨elems, h⟩
    · rw [if_pos hdot]
      refine iff_of_false Bool.false_ne_true ?_
      rintro ⟨-, elems, htwo, h⟩
      exact hdot ((dot_mem_iff h).mpr htwo)

/-- **The test for names accepts exactly the bus names**: at most 255 bytes that are two or more
elements joined by single dots. -/
theorem isValidDbusName_iff (s : List UInt8) :
    isValidDbusName s = true ↔ s.length ≤ 255 ∧ ∃ elems : List (List UInt8), 2 ≤ elems.length ∧
      (∀ e ∈ elems, IsElement IsNameStart IsBusNameChar e) ∧ s = [46].intercalate elems := by
  rw [isValidDbusName_eq_true_iff]
  refine and_congr_right fun _ => exists_congr fun elems => and_congr_right fun htwo => ?_
  rw [elements_iff]
  refine and_iff_right ?_
  rintro rfl
  exact absurd htwo (by decide)

/-! ### The uses of the service name -/

/-- How `object_path_for_name` writes one character. -/
def pathChar (c : UInt8) : UInt8 := if c = 46 then 47 else c

/-- `object_path_for_name` -/
def objectPathForName (name : List UInt8) : List UInt8 := 47 :: name.map pathChar

/-- A service name with which the daemon starts: some environment and command line set it and
leave no error. -/
def AcceptedName (name : List UInt8) : Prop :=
  ∃ cwd env args, (loadConfig cwd env args).errors = [] ∧
    (loadConfig cwd env args).serviceName = name

theorem AcceptedName.isBusName {name : List UInt8} (h : AcceptedName name) : IsBusName name := by
  obtain ⟨cwd, env, args, herrors, rfl⟩ := h
  exact (isValidDbusName_eq_true_iff _).mp (isValidDbusName_of_errors_eq_nil herrors)

/-- A name that is good for every use the daemon makes of it. -/
structure WorksEverywhere (name : List UInt8) : Prop where
  interface : IsInterfaceName name
  path : IsObjectPath (objectPathForName name)
  /-- No other accepted name has the same path. -/
  unique : ∀ name', AcceptedName name' → name' ≠ name →
    objectPathForName name' ≠ objectPathForName name

/-- Interface names are the bus names without a `-`. -/
theorem isInterfaceName_iff {name : List UInt8} :
    IsInterfaceName name ↔ IsBusName name ∧ 45 ∉ name := by
  constructor
  · rintro ⟨hlen, elems, htwo, h⟩
    refine ⟨⟨hlen, elems, htwo, h.mono (fun _ _ => id) fun _ _ => Or.inl⟩, ?_⟩
    have hchars : ∀ c ∈ name, c ∈ [45] → False := h.forall_mem (by decide)
      (fun c hc hmem => hc.isNameChar.not_mem (List.mem_append_left [46, 47, 64] hmem))
      (fun c hc hmem => hc.not_mem (List.mem_append_left [46, 47, 64] hmem))
    exact fun hmem => hchars 45 hmem List.mem_cons_self
  · rintro ⟨⟨hlen, elems, htwo, h⟩, hdash⟩
    refine ⟨hlen, elems, htwo, h.mono (fun _ _ => id) fun c hc hrest => ?_⟩
    rcases hrest with hrest | rfl
    · exact hrest
    · exact absurd hc hdash

theorem pathChar_of_isNameChar {c : UInt8} (h : IsNameChar c) : pathChar c = c := by
  refine if_neg ?_
  rintro rfl
  exact h.not_mem (by decide)

/-- The path of an interface name is the path of its elements. -/
theorem IsInterfaceName.isObjectPath {name : List UInt8} (h : IsInterfaceName name) :
    IsObjectPath (objectPathForName name) := by
  obtain ⟨-, elems, -, h⟩ := h
  have hmap : Elements IsNameChar IsNameChar (pathChar 46) _ (name.map pathChar) :=
    h.map (fun c _ hc => (pathChar_of_isNameChar hc.isNameChar).symm ▸ hc.isNameChar)
      (fun c _ hc => (pathChar_of_isNameChar hc).symm ▸ hc)
  exact ⟨_, _, rfl, hmap⟩

theorem IsBusName.dot_mem {name : List UInt8} (h : IsBusName name) : 46 ∈ name := by
  obtain ⟨-, elems, htwo, h⟩ := h
  exact (dot_mem_iff h).mpr htwo

theorem IsBusName.not_mem {name : List UInt8} (h : IsBusName name) : ∀ c ∈ name, c ∉ [47, 64] := by
  obtain ⟨-, elems, -, h⟩ := h
  refine h.forall_mem (by decide) ?_ ?_
  · exact fun c hc hmem => hc.isNameChar.not_mem (List.mem_append_right [45, 46] hmem)
  · exact fun c hc hmem => hc.not_mem (List.mem_append_right [46] hmem)

/-- The character that `pathChar` was applied to, if it was no `/`. -/
def nameChar (c : UInt8) : UInt8 := if c = 47 then 46 else c

theorem nameChar_pathChar {c : UInt8} (h : c ≠ 47) : nameChar (pathChar c) = c := by
  rcases eq_or_ne c 46 with rfl | hdot
  · rfl
  · rw [pathChar, if_neg hdot, nameChar, if_neg h]

/-- The name is read back from its path, since it has no `/`. -/
theorem IsBusName.map_nameChar {name : List UInt8} (h : IsBusName name) :
    (name.map pathChar).map nameChar = name := by
  rw [List.map_map]
  calc name.map (nameChar ∘ pathChar) = name.map id := by
        refine List.map_congr_left fun c hc => nameChar_pathChar ?_
        rintro rfl
        exact h.not_mem 47 hc (by decide)
    _ = name := List.map_id name

theorem IsBusName.objectPathForName_inj {name name' : List UInt8} (h : IsBusName name)
    (h' : IsBusName name') (heq : objectPathForName name = objectPathForName name') :
    name = name' := by
  rw [← h.map_nameChar, ← h'.map_nameChar, (List.cons.inj heq).2]

theorem AcceptedName.worksEverywhere_iff {name : List UInt8} (h : AcceptedName name) :
    WorksEverywhere name ↔ 45 ∉ name := by
  constructor
  · intro hworks
    exact (isInterfaceName_iff.mp hworks.interface).2
  · intro hdash
    have hinterface := isInterfaceName_iff.mpr ⟨h.isBusName, hdash⟩
    refine ⟨hinterface, hinterface.isObjectPath, ?_⟩
    intro name' h' hne heq
    exact hne (h'.isBusName.objectPathForName_inj h.isBusName heq)

/-- **An accepted service name works everywhere the daemon uses it if and only if the variable it
is read from holds no `-`**: only bus names may have one. -/
theorem accepted_name_works_iff (cwd : List UInt8) (env : Env) (args : List (List UInt8))
    (h : (loadConfig cwd env args).errors = []) :
    WorksEverywhere (loadConfig cwd env args).serviceName ↔ 45 ∉ getEnv env kEnvServiceName := by
  have haccepted : AcceptedName (loadConfig cwd env args).serviceName := ⟨cwd, env, args, h, rfl⟩
  rw [haccepted.worksEverywhere_iff, serviceName_loadConfig]
  split_ifs with hempty
  · rw [hempty]
    exact iff_of_true (by decide) List.not_mem_nil
  · rfl

/-- The environment of the witnesses: a script, a plugin and a service name. -/
def envNamed (name : List UInt8) : Env := fun key =>
  if key = kEnvServiceName then some name
  else if key = kEnvScriptPath then some (ascii "/x.js")
  else if key = kEnvPluginName then some (ascii "p")
  else none

theorem accepted_name_works_example :
    WorksEverywhere (loadConfig [] (envNamed (ascii "com.example.Foo")) []).serviceName ↔
      45 ∉ getEnv (envNamed (ascii "com.example.Foo")) kEnvServiceName :=
  accepted_name_works_iff [] (envNamed (ascii "com.example.Foo")) [] (by decide)

/-- A service name with a `-` is accepted and is no interface name. -/
theorem dashed_name_accepted :
    ¬ ∀ (cwd : List UInt8) (env : Env) (args : List (List UInt8)),
      (loadConfig cwd env args).errors = [] →
        WorksEverywhere (loadConfig cwd env args).serviceName := by
  intro hall
  have hworks := hall [] (envNamed (ascii "org.example.my-app")) [] (by decide)
  exact (isInterfaceName_iff.mp hworks.interface).2 (by decide)

end KwinApi
