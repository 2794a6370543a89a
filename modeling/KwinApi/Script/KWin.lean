import Mathlib.Data.List.Basic
import Mathlib.Data.List.Nodup
import Mathlib.Data.Nat.Basic

/-!
# What the script sees of KWin

A KWin script runs inside the compositor: windows and the workspace are objects of KWin, with
properties to read and signals to connect to. Strings are JavaScript's, lists of UTF-16 code
units. A window is the same object in every event and is known by its `internalId`.

## Main definitions

* `KwinApi.JsString`, `js` — strings and ASCII literals
* `KwinApi.QUuid`, `Window`, `windowKey` — windows and the key the script files them under
* `KwinApi.WindowData`, `WorkspaceData`, `propValue`, `workspaceValue` — properties
* `watchProps`, `workspaceWatchProps` — the properties with a `<prop>Changed` signal

## Main results

* `windowKey_injective` — the key identifies the window
-/

namespace KwinApi

/-- A JavaScript string: UTF-16 code units. -/
abbrev JsString := List UInt16

instance (s : JsString) (props : List JsString) : Decidable (s ∈ props) := inferInstance

/-- The string of an ASCII literal. -/
def js (s : String) : JsString := s.toList.map fun c => UInt16.ofNat c.toNat

/-! ### Windows -/

/-- A `QUuid`: 32 hexadecimal digits. -/
structure QUuid where
  /-- The digits, most significant first. -/
  digits : List (Fin 16)
  /-- There are 32 of them. -/
  length_eq : digits.length = 32
  deriving DecidableEq, Repr

/-- A window of KWin, identified by its `internalId`. -/
structure Window where
  internalId : QUuid
  deriving DecidableEq, Repr

/-- A hexadecimal digit in lower case. -/
def hexDigit (d : Fin 16) : UInt16 :=
  if d.val < 10 then UInt16.ofNat (48 + d.val) else UInt16.ofNat (87 + d.val)

/-- `String(internalId)`: the digits in groups of 8, 4, 4, 4 and 12, in braces. -/
def QUuid.toJsString (id : QUuid) : JsString :=
  let hex := id.digits.map hexDigit
  [123] ++ hex.take 8 ++ [45] ++ (hex.drop 8).take 4 ++ [45] ++ (hex.drop 12).take 4 ++ [45] ++
    (hex.drop 16).take 4 ++ [45] ++ hex.drop 20 ++ [125]

/-- Stable per-window identifier: `String(internalId)` without the braces. -/
def windowKey (window : Window) : JsString :=
  window.internalId.toJsString.filter fun c => c ≠ 123 ∧ c ≠ 125

theorem hexDigit_injective : Function.Injective hexDigit := by
  have h : ∀ a b : Fin 16, hexDigit a = hexDigit b → a = b := by decide
  exact fun a b => h a b

/-- A digit is neither a dash nor a brace. -/
theorem hexDigit_ne (d : Fin 16) : hexDigit d ≠ 45 ∧ hexDigit d ≠ 123 ∧ hexDigit d ≠ 125 := by
  revert d
  decide

theorem filter_hex {p : UInt16 → Bool} (hp : ∀ d, p (hexDigit d) = true) (ds : List (Fin 16)) :
    (ds.map hexDigit).filter p = ds.map hexDigit := by
  rw [List.filter_eq_self]
  intro c hc
  obtain ⟨d, -, rfl⟩ := List.mem_map.mp hc
  exact hp d

/-- Without dashes and braces a written id is its digits. -/
theorem filter_toJsString (id : QUuid) :
    id.toJsString.filter (fun c => c ≠ 45 ∧ c ≠ 123 ∧ c ≠ 125) = id.digits.map hexDigit := by
  have hp : ∀ d, decide (hexDigit d ≠ 45 ∧ hexDigit d ≠ 123 ∧ hexDigit d ≠ 125) = true :=
    fun d => decide_eq_true (hexDigit_ne d)
  have hfilter := fun ds => @filter_hex (fun c => c ≠ 45 ∧ c ≠ 123 ∧ c ≠ 125) hp ds
  simp only [QUuid.toJsString, List.filter_append, ← List.map_drop, ← List.map_take, hfilter]
  have hdash : ([45] : JsString).filter (fun c => c ≠ 45 ∧ c ≠ 123 ∧ c ≠ 125) = [] := by decide
  have hopen : ([123] : JsString).filter (fun c => c ≠ 45 ∧ c ≠ 123 ∧ c ≠ 125) = [] := by decide
  have hclose : ([125] : JsString).filter (fun c => c ≠ 45 ∧ c ≠ 123 ∧ c ≠ 125) = [] := by decide
  rw [hdash, hopen, hclose]
  simp only [List.append_nil, List.nil_append, ← List.map_append]
  congr 1
  rw [List.append_assoc, List.append_assoc, List.append_assoc,
    show id.digits.drop 20 = (id.digits.drop 16).drop 4 by rw [List.drop_drop],
    List.take_append_drop,
    show id.digits.drop 16 = (id.digits.drop 12).drop 4 by rw [List.drop_drop],
    List.take_append_drop,
    show id.digits.drop 12 = (id.digits.drop 8).drop 4 by rw [List.drop_drop],
    List.take_append_drop, List.take_append_drop]

/-- Different windows are filed under different keys. -/
theorem windowKey_injective : Function.Injective windowKey := by
  intro v w hvw
  have hkey : ∀ u : Window, (windowKey u).filter (fun c => c ≠ 45) =
      u.internalId.digits.map hexDigit := by
    intro u
    rw [← filter_toJsString, windowKey, List.filter_filter]
    refine List.filter_congr fun c _ => ?_
    simp
  have hdigits := hkey v
  rw [hvw, hkey w] at hdigits
  obtain ⟨⟨vs, hvs⟩⟩ := v
  obtain ⟨⟨ws, hws⟩⟩ := w
  obtain rfl := hexDigit_injective.list_map hdigits
  rfl

/-! ### Properties -/

/-- A virtual desktop: the script uses its id only. -/
structure VirtualDesktop where
  id : JsString
  deriving DecidableEq, Repr

/-- A value of a property as it goes into a notification: primitive (a boolean, a number by its
bits, or missing), a single ID, or a set of IDs. -/
inductive PropValue where
  | undefined
  | boolean (b : Bool)
  | number (bits : UInt64)
  | id (value : JsString)
  | idSet (ids : List JsString)
  deriving DecidableEq, Repr

/-- The properties of one window. -/
structure WindowData where
  captionNormal : JsString
  desktops : List VirtualDesktop
  activities : List JsString
  /-- The properties of primitive type, by name. -/
  primitive : JsString → PropValue

/-- The properties of the `WorkspaceWrapper`. -/
structure WorkspaceData where
  currentDesktop : VirtualDesktop
  currentActivity : JsString
  desktops : List VirtualDesktop
  activities : List JsString

/-- Current value of `prop` of a window. -/
def propValue (window : WindowData) (prop : JsString) : PropValue :=
  if prop = js "desktops" then .idSet (window.desktops.map fun desktop => desktop.id)
  else if prop = js "activities" then .idSet window.activities
  else window.primitive prop

/-- Current wire value of a workspace property. -/
def workspaceValue (workspace : WorkspaceData) (prop : JsString) : PropValue :=
  if prop = js "currentDesktop" then .id workspace.currentDesktop.id
  else if prop = js "currentActivity" then .id workspace.currentActivity
  else if prop = js "desktops" then .idSet (workspace.desktops.map fun desktop => desktop.id)
  else .idSet workspace.activities

/-- Properties `window.watch` may subscribe to. -/
def watchProps : List JsString :=
  ["skipsCloseAnimation", "fullScreen", "skipTaskbar", "skipPager", "skipSwitcher", "keepAbove",
    "keepBelow", "minimized", "demandsAttention", "excludeFromCapture", "desktops",
    "activities"].map js

/-- Properties `workspace.watch` may subscribe to. -/
def workspaceWatchProps : List JsString :=
  ["currentDesktop", "currentActivity", "desktops", "activities"].map js

end KwinApi
