import KwinApi.Lib.Json
import KwinApi.Script.Script
import Mathlib.Data.Finset.Erase
import Mathlib.Data.Finset.Insert
import Mathlib.Data.List.Forall2

/-!
# Updating properties

`windows.update` and `workspace.update` check every entry of their object before they assign the
first one. IDs are checked against catalogs of the desktops and activities, which follow the signals
of the workspace: a full rescan for desktops, one insertion or deletion for activities.

## Main definitions

* `KwinApi.Catalogs`, `wireWorkspaceEvents` — the catalogs
* `KwinApi.Wired` — the catalogs after any history of signals
* `KwinApi.Script.windowsUpdate`, `workspaceUpdate` — the methods, with the assignments they make

## Main results

* `KwinApi.Wired.mirrors` — the catalogs are the ids of the workspace
* `KwinApi.updates_atomic` — an update assigns every entry once or nothing, and which of the two
-/

namespace KwinApi

/-! ### The catalogs -/

/-- A `KWin.VirtualDesktop` object. -/
structure DesktopObject where
  ref : ℕ
  id : JsString
  deriving DecidableEq, Repr

/-- The lists of the workspace. -/
structure WorkspaceLists where
  desktops : List DesktopObject
  activities : List JsString

/-- The catalogs of `windows.ts`. -/
structure Catalogs where
  desktopsById : AList fun _ : JsString => DesktopObject
  activitiesById : Finset JsString

/-- `rescanDesktops` -/
def rescanDesktops (workspace : WorkspaceLists) (c : Catalogs) : Catalogs :=
  { c with
    desktopsById := workspace.desktops.foldl (fun m desktop => m.insert desktop.id desktop) ∅ }

/-- `rescanActivities` -/
def rescanActivities (workspace : WorkspaceLists) (c : Catalogs) : Catalogs :=
  { c with activitiesById := workspace.activities.foldl (fun s id => insert id s) ∅ }

/-- The scans of `wireWorkspaceEvents`. -/
def wireWorkspaceEvents (workspace : WorkspaceLists) : Catalogs :=
  rescanActivities workspace (rescanDesktops workspace ⟨∅, ∅⟩)

/-- The slot of `workspace.activityAdded`. -/
def Catalogs.activityAdded (c : Catalogs) (id : JsString) : Catalogs :=
  { c with activitiesById := insert id c.activitiesById }

/-- The slot of `workspace.activityRemoved`. -/
def Catalogs.activityRemoved (c : Catalogs) (id : JsString) : Catalogs :=
  { c with activitiesById := c.activitiesById.erase id }

/-- `lookupDesktop` -/
def Catalogs.lookupDesktop (c : Catalogs) (id : JsString) : Option DesktopObject :=
  c.desktopsById.lookup id

/-- `hasActivity` -/
def Catalogs.hasActivity (c : Catalogs) (id : JsString) : Bool := id ∈ c.activitiesById

/-- The workspace and the catalogs after some signals, of which each reports the change the
workspace has just made. -/
inductive Wired : WorkspaceLists → Catalogs → Prop where
  | load (workspace : WorkspaceLists) : Wired workspace (wireWorkspaceEvents workspace)
  | desktopsChanged {workspace : WorkspaceLists} {c : Catalogs} (h : Wired workspace c)
      (desktops : List DesktopObject) :
      Wired { workspace with desktops } (rescanDesktops { workspace with desktops } c)
  | activityAdded {workspace : WorkspaceLists} {c : Catalogs} (h : Wired workspace c)
      {id : JsString} {activities : List JsString}
      (hnow : ∀ a, a ∈ activities ↔ a = id ∨ a ∈ workspace.activities) :
      Wired { workspace with activities } (c.activityAdded id)
  | activityRemoved {workspace : WorkspaceLists} {c : Catalogs} (h : Wired workspace c)
      {id : JsString} {activities : List JsString}
      (hnow : ∀ a, a ∈ activities ↔ a ≠ id ∧ a ∈ workspace.activities) :
      Wired { workspace with activities } (c.activityRemoved id)

/-! ### Assignments -/

/-- A value a property is set to: a desktop object or a list of them, `none` where the lookup was
undefined, or a value as it came. -/
inductive Assigned where
  | desktop (object : Option DesktopObject)
  | desktops (objects : List (Option DesktopObject))
  | json (value : Json)

/-- What a property belongs to. -/
inductive Target where
  | window (window : Window)
  | workspace
  deriving DecidableEq

/-- One assignment to a property. -/
structure Assignment where
  target : Target
  prop : JsString
  value : Assigned

/-- What a method throws: an error that is answered as it is, or an exception of the engine. -/
inductive Thrown where
  | rpc (error : RpcError)
  | typeError

/-- The assignments a method made, and how it ended. -/
abbrev UpdateOutcome := List Assignment × Except Thrown Unit

/-- A parsed `updateInfo`: property names and new values. -/
abbrev UpdateInfo := AList fun _ : JsString => Json

/-! ### windows.ts -/

/-- Properties `windows.update` accepts. -/
def updateProps : List JsString :=
  ["opacity", "skipsCloseAnimation", "fullScreen", "onAllDesktops", "skipTaskbar", "skipPager",
    "skipSwitcher", "keepAbove", "keepBelow", "minimized", "demandsAttention", "noBorder",
    "excludeFromCapture", "desktops", "activities"].map js

/-- The string a value is. -/
def Json.asString : Json → Option JsString
  | .string s => some s
  | _ => none

/-- The strings of an array of strings. -/
def Json.asStrings : Json → Option (List JsString)
  | .array elems => elems.mapM Json.asString
  | _ => none

/-- The check of one ID in `validateIdList`. -/
def unknownId (c : Catalogs) (prop id : JsString) : Option RpcError :=
  if prop = js "desktops" ∧ (c.lookupDesktop id).isNone then
    some (invalidParams (js "unknown desktop ID " ++ quoted id))
  else if prop = js "activities" ∧ c.hasActivity id = false then
    some (invalidParams (js "unknown activity ID " ++ quoted id))
  else none

/-- `validateIdList`: what it throws. -/
def validateIdList (c : Catalogs) (prop : JsString) (value : Json) : Option RpcError :=
  match value.asStrings with
  | none => some (invalidParams (js "property " ++ quoted prop ++
      js " expects an array of IDs (string[])"))
  | some ids => ids.findSome? (unknownId c prop)

/-- The check of one entry in `windows.update`. -/
def validateWindowEntry (c : Catalogs) (prop : JsString) (value : Json) : Option RpcError :=
  if prop ∉ updateProps then
    some (invalidParams (js "unsupported property " ++ quoted prop ++ js " in windows.update"))
  else if prop = js "desktops" ∨ prop = js "activities" then validateIdList c prop value
  else none

/-- `desktops` of `applyUpdate`. The casts are not checked: mapping over what is no array throws,
and what is no ID is looked up all the same. -/
def assignDesktops (c : Catalogs) : Json → Option Assigned
  | .array elems => some (.desktops (elems.map fun id => id.asString.bind c.lookupDesktop))
  | _ => none

/-- `activities` of `applyUpdate`: a copy with `slice`. -/
def assignActivities : Json → Option Assigned
  | .array elems => some (.json (.array elems))
  | .string s => some (.json (.string s))
  | _ => none

/-- `applyUpdate`: the property it assigns and the value. -/
def applyUpdate (c : Catalogs) (prop : JsString) (value : Json) : Option (JsString × Assigned) :=
  if prop = js "desktops" then (assignDesktops c value).map (prop, ·)
  else if prop = js "activities" then (assignActivities value).map (prop, ·)
  else some (prop, .json value)

/-- The loop that assigns the entries. It ends at the first exception. -/
def assignAll (target : Target) (assign : JsString → Json → Option (JsString × Assigned)) :
    List (Sigma fun _ : JsString => Json) → UpdateOutcome
  | [] => ([], .ok ())
  | e :: es =>
    match assign e.1 e.2 with
    | none => ([], .error .typeError)
    | some (prop, value) =>
      let rest := assignAll target assign es
      (⟨target, prop, value⟩ :: rest.1, rest.2)

/-- The two loops of an update: validate everything first, then assign. -/
def updateAll (target : Target) (validate : JsString → Json → Option RpcError)
    (assign : JsString → Json → Option (JsString × Assigned)) (updateInfo : UpdateInfo) :
    UpdateOutcome :=
  match updateInfo.entries.findSome? fun e => validate e.1 e.2 with
  | some e => ([], .error (.rpc e))
  | none => assignAll target assign updateInfo.entries

/-- `windows.update` -/
def Script.windowsUpdate (s : Script) (c : Catalogs) (token : JsString) (updateInfo : UpdateInfo)
    (conn : RpcConnection) : UpdateOutcome :=
  match s.resolveTokenWindow token conn with
  | .error e => ([], .error (.rpc e))
  | .ok window => updateAll (.window window) (validateWindowEntry c) (applyUpdate c) updateInfo

/-! ### workspace.ts -/

/-- Properties `workspace.update` accepts. -/
def workspaceUpdateProps : List JsString := ["currentDesktop", "currentActivity"].map js

/-- `validateId`: what it throws. -/
def validateId (c : Catalogs) (prop : JsString) (value : Json) : Option RpcError :=
  match value.asString with
  | none => some (invalidParams (js "property " ++ quoted prop ++ js " expects an ID (string)"))
  | some id =>
    if prop = js "currentDesktop" ∧ (c.lookupDesktop id).isNone then
      some (invalidParams (js "unknown desktop ID " ++ quoted id))
    else if prop = js "currentActivity" ∧ c.hasActivity id = false then
      some (invalidParams (js "unknown activity ID " ++ quoted id))
    else none

/-- The check of one entry in `workspace.update`. -/
def validateWorkspaceEntry (c : Catalogs) (prop : JsString) (value : Json) : Option RpcError :=
  if prop ∉ workspaceUpdateProps then
    some (invalidParams (js "unsupported property " ++ quoted prop ++ js " in workspace.update"))
  else validateId c prop value

/-- The assignment of one entry in `workspace.update`. Every name but one means the activity. -/
def assignWorkspace (c : Catalogs) (prop : JsString) (value : Json) :
    Option (JsString × Assigned) :=
  if prop = js "currentDesktop" then
    some (js "currentDesktop", .desktop (value.asString.bind c.lookupDesktop))
  else some (js "currentActivity", .json value)

/-- `workspace.update` -/
def workspaceUpdate (c : Catalogs) (updateInfo : UpdateInfo) : UpdateOutcome :=
  updateAll .workspace (validateWorkspaceEntry c) (assignWorkspace c) updateInfo

/-! ### The catalogs follow the workspace -/

/-- The catalogs hold the ids of the workspace, each desktop id with an object of the workspace that
has it. -/
structure Catalogs.Mirrors (c : Catalogs) (workspace : WorkspaceLists) : Prop where
  desktops : ∀ id, (∃ desktop, c.lookupDesktop id = some desktop) ↔
    ∃ desktop ∈ workspace.desktops, desktop.id = id
  current : ∀ id desktop, c.lookupDesktop id = some desktop →
    desktop ∈ workspace.desktops ∧ desktop.id = id
  activities : ∀ id, id ∈ c.activitiesById ↔ id ∈ workspace.activities

/-- The last desktop with an id is filed under it. -/
theorem lookup_foldl_insert (desktops : List DesktopObject)
    (m : AList fun _ : JsString => DesktopObject) (id : JsString) :
    (desktops.foldl (fun m desktop => m.insert desktop.id desktop) m).lookup id =
      ((desktops.reverse.find? fun desktop => desktop.id = id).or (m.lookup id)) := by
  induction desktops generalizing m with
  | nil => rfl
  | cons desktop desktops ih =>
    rw [List.foldl_cons, ih, List.reverse_cons, List.find?_append, Option.or_assoc]
    congr 1
    by_cases hid : desktop.id = id
    · subst hid
      simp
    · rw [AList.lookup_insert_ne (Ne.symm hid)]
      simp [hid]

theorem mem_foldl_insert (ids : List JsString) (s : Finset JsString) (id : JsString) :
    id ∈ ids.foldl (fun s id => insert id s) s ↔ id ∈ ids ∨ id ∈ s := by
  induction ids generalizing s with
  | nil => simp
  | cons a ids ih =>
    rw [List.foldl_cons, ih, Finset.mem_insert, List.mem_cons]
    tauto

/-- A rescan leaves the desktops of the workspace. -/
theorem lookupDesktop_rescan (workspace : WorkspaceLists) (c : Catalogs) (id : JsString) :
    (rescanDesktops workspace c).lookupDesktop id =
      workspace.desktops.reverse.find? fun desktop => desktop.id = id := by
  rw [Catalogs.lookupDesktop, rescanDesktops, lookup_foldl_insert]
  simp

theorem mirrors_of_rescan {workspace : WorkspaceLists} {c : Catalogs}
    (h : ∀ id, id ∈ c.activitiesById ↔ id ∈ workspace.activities) :
    (rescanDesktops workspace c).Mirrors workspace := by
  refine ⟨fun id => ?_, fun id desktop hlookup => ?_, h⟩
  · simp only [lookupDesktop_rescan, ← Option.isSome_iff_exists, List.find?_isSome,
      List.mem_reverse, decide_eq_true_eq]
  · rw [lookupDesktop_rescan] at hlookup
    exact ⟨List.mem_reverse.mp (List.mem_of_find?_eq_some hlookup),
      by simpa using List.find?_some hlookup⟩

/-- **The catalogs are the ids of the workspace** after every history of signals. -/
theorem Wired.mirrors {workspace : WorkspaceLists} {c : Catalogs} (h : Wired workspace c) :
    c.Mirrors workspace := by
  induction h with
  | load workspace =>
    have hscan : (rescanDesktops workspace ⟨∅, (rescanActivities workspace ⟨∅, ∅⟩).activitiesById⟩)
        = wireWorkspaceEvents workspace := rfl
    rw [← hscan]
    refine mirrors_of_rescan fun id => ?_
    rw [rescanActivities, mem_foldl_insert]
    simp
  | desktopsChanged h desktops ih => exact mirrors_of_rescan ih.activities
  | activityAdded h hnow ih =>
    refine ⟨ih.desktops, ih.current, fun a => ?_⟩
    rw [hnow, ← ih.activities]
    exact Finset.mem_insert
  | activityRemoved h hnow ih =>
    refine ⟨ih.desktops, ih.current, fun a => ?_⟩
    rw [hnow, ← ih.activities]
    exact Finset.mem_erase

/-! ### What an update does -/

/-- The workspace has a desktop with the id. -/
def WorkspaceLists.HasDesktop (workspace : WorkspaceLists) (id : JsString) : Prop :=
  ∃ desktop ∈ workspace.desktops, desktop.id = id

/-- The value is an array of IDs that are known. -/
def KnownIds (known : JsString → Prop) (value : Json) : Prop :=
  ∃ ids : List JsString, value = .array (ids.map .string) ∧ ∀ id ∈ ids, known id

/-- The value is an ID that is known. -/
def KnownId (known : JsString → Prop) (value : Json) : Prop :=
  ∃ id, value = .string id ∧ known id

/-- An entry that makes `windows.update` fail. -/
inductive RefusedForWindow (workspace : WorkspaceLists) : JsString → Json → Prop where
  | unsupported {prop : JsString} {value : Json} (h : prop ∉ updateProps) :
      RefusedForWindow workspace prop value
  | desktops {value : Json} (h : ¬ KnownIds workspace.HasDesktop value) :
      RefusedForWindow workspace (js "desktops") value
  | activities {value : Json} (h : ¬ KnownIds (· ∈ workspace.activities) value) :
      RefusedForWindow workspace (js "activities") value

/-- What `windows.update` assigns for an entry: for desktop ids the desktops of the workspace that
have them, in the order of the ids. -/
inductive AssignedToWindow (workspace : WorkspaceLists) : JsString → Json → Assigned → Prop where
  | desktops {ids : List JsString} {objects : List DesktopObject}
      (h : List.Forall₂ (fun id object => object ∈ workspace.desktops ∧ object.id = id)
        ids objects) :
      AssignedToWindow workspace (js "desktops") (.array (ids.map .string))
        (.desktops (objects.map some))
  | activities {ids : List JsString} (h : ∀ id ∈ ids, id ∈ workspace.activities) :
      AssignedToWindow workspace (js "activities") (.array (ids.map .string))
        (.json (.array (ids.map .string)))
  | primitive {prop : JsString} {value : Json} (h : prop ∈ updateProps)
      (hdesktops : prop ≠ js "desktops") (hactivities : prop ≠ js "activities") :
      AssignedToWindow workspace prop value (.json value)

/-- An entry that makes `workspace.update` fail. -/
inductive RefusedForWorkspace (workspace : WorkspaceLists) : JsString → Json → Prop where
  | unsupported {prop : JsString} {value : Json} (h : prop ∉ workspaceUpdateProps) :
      RefusedForWorkspace workspace prop value
  | currentDesktop {value : Json} (h : ¬ KnownId workspace.HasDesktop value) :
      RefusedForWorkspace workspace (js "currentDesktop") value
  | currentActivity {value : Json} (h : ¬ KnownId (· ∈ workspace.activities) value) :
      RefusedForWorkspace workspace (js "currentActivity") value

/-- What `workspace.update` assigns for an entry. -/
inductive AssignedToWorkspace (workspace : WorkspaceLists) :
    JsString → Json → Assigned → Prop where
  | currentDesktop {desktop : DesktopObject} (h : desktop ∈ workspace.desktops) :
      AssignedToWorkspace workspace (js "currentDesktop") (.string desktop.id)
        (.desktop (some desktop))
  | currentActivity {id : JsString} (h : id ∈ workspace.activities) :
      AssignedToWorkspace workspace (js "currentActivity") (.string id) (.json (.string id))

/-- The update succeeded, with one assignment for every entry, in order, and no other. -/
structure Applied (target : Target) (value : JsString → Json → Assigned → Prop)
    (updateInfo : UpdateInfo) (out : UpdateOutcome) : Prop where
  result : out.2 = .ok ()
  assigned : List.Forall₂
    (fun e a => a.target = target ∧ a.prop = e.1 ∧ value e.1 e.2 a.value) updateInfo.entries out.1

/-- The update failed with Invalid params and assigned nothing. -/
structure Rejected (out : UpdateOutcome) : Prop where
  result : ∃ error, out.2 = .error (.rpc error) ∧ error.code = -32602
  assigned : out.1 = []

theorem Applied.not_rejected {target : Target} {value : JsString → Json → Assigned → Prop}
    {updateInfo : UpdateInfo} {out : UpdateOutcome} (h : Applied target value updateInfo out) :
    ¬ Rejected out := by
  rintro ⟨⟨error, herror, -⟩, -⟩
  rw [h.result] at herror
  contradiction

section UpdateAll

variable {validate : JsString → Json → Option RpcError}
  {assign : JsString → Json → Option (JsString × Assigned)}
  {value : JsString → Json → Assigned → Prop} {refused : JsString → Json → Prop}

/-- The second loop does not throw when every entry was checked. -/
theorem assignAll_spec {entries : List (Sigma fun _ : JsString => Json)}
    (h : ∀ e ∈ entries, ∃ a, assign e.1 e.2 = some (e.1, a) ∧ value e.1 e.2 a) (target : Target) :
    (assignAll target assign entries).2 = .ok () ∧ List.Forall₂
      (fun e a => a.target = target ∧ a.prop = e.1 ∧ value e.1 e.2 a.value) entries
      (assignAll target assign entries).1 := by
  induction entries with
  | nil => exact ⟨rfl, .nil⟩
  | cons e entries ih =>
    obtain ⟨⟨a, ha, hvalue⟩, hrest⟩ := List.forall_mem_cons.mp h
    obtain ⟨hok, hall⟩ := ih hrest
    simp only [assignAll, ha]
    exact ⟨hok, .cons ⟨rfl, rfl, hvalue⟩ hall⟩

/-- **Validate everything, then assign**: where the assignment works for what passes the check, an
update is rejected exactly for an entry the check refuses, and applied otherwise. -/
theorem updateAll_spec
    (hcode : ∀ prop v e, validate prop v = some e → e.code = -32602)
    (hrefused : ∀ prop v, refused prop v ↔ validate prop v ≠ none)
    (hassign : ∀ prop v, validate prop v = none →
      ∃ a, assign prop v = some (prop, a) ∧ value prop v a)
    (target : Target) (updateInfo : UpdateInfo) :
    let out := updateAll target validate assign updateInfo
    (Rejected out ∨ Applied target value updateInfo out) ∧
      (Rejected out ↔ ∃ e ∈ updateInfo.entries, refused e.1 e.2) := by
  intro out
  rcases hfind : updateInfo.entries.findSome? (fun e => validate e.1 e.2) with _ | error
  · have hnone := List.findSome?_eq_none_iff.mp hfind
    have hout : out = assignAll target assign updateInfo.entries := by
      simp only [out, updateAll, hfind]
    obtain ⟨hok, hall⟩ := assignAll_spec (fun e he => hassign _ _ (hnone e he)) target
    have happlied : Applied target value updateInfo out := by
      rw [hout]
      exact ⟨hok, hall⟩
    refine ⟨Or.inr happlied, iff_of_false happlied.not_rejected ?_⟩
    rintro ⟨e, he, hbad⟩
    exact (hrefused _ _).mp hbad (hnone e he)
  · obtain ⟨e, he, hvalidate⟩ := List.exists_of_findSome?_eq_some hfind
    have hrejected : Rejected out := by
      simp only [out, updateAll, hfind]
      exact ⟨⟨error, rfl, hcode _ _ _ hvalidate⟩, rfl⟩
    refine ⟨Or.inl hrejected, iff_of_true hrejected ⟨e, he, (hrefused _ _).mpr ?_⟩⟩
    rw [hvalidate]
    exact Option.some_ne_none error

end UpdateAll

/-! ### The checks -/

theorem asString_eq_some {v : Json} {id : JsString} : v.asString = some id ↔ v = .string id := by
  cases v <;> simp [Json.asString]

theorem asStrings_eq_some {v : Json} {ids : List JsString} :
    v.asStrings = some ids ↔ v = .array (ids.map .string) := by
  have helems : ∀ (elems : List Json) (ids : List JsString),
      elems.mapM Json.asString = some ids ↔ elems = ids.map .string := by
    intro elems
    induction elems with
    | nil =>
      intro ids
      cases ids <;> simp
    | cons e elems ih =>
      intro ids
      rw [List.mapM_cons]
      constructor
      · intro h
        obtain ⟨id, hid, h⟩ := Option.bind_eq_some_iff.mp h
        obtain ⟨rest, hrest, h⟩ := Option.bind_eq_some_iff.mp h
        cases h
        rw [asString_eq_some.mp hid, (ih rest).mp hrest, List.map_cons]
      · intro h
        obtain ⟨id, rest, rfl, rfl, hrest⟩ := List.map_eq_cons_iff.mp h.symm
        rw [(ih rest).mpr hrest.symm]
        rfl
  cases v <;> simp [Json.asStrings, helems]

theorem knownIds_iff {known : JsString → Prop} {value : Json} :
    KnownIds known value ↔ ∃ ids, value.asStrings = some ids ∧ ∀ id ∈ ids, known id := by
  simp only [KnownIds, asStrings_eq_some]

theorem knownId_iff {known : JsString → Prop} {value : Json} :
    KnownId known value ↔ ∃ id, value.asString = some id ∧ known id := by
  simp only [KnownId, asString_eq_some]

section Checks

variable {workspace : WorkspaceLists} {c : Catalogs}

theorem Catalogs.Mirrors.lookupDesktop_isNone (h : c.Mirrors workspace) (id : JsString) :
    (c.lookupDesktop id).isNone ↔ ¬ workspace.HasDesktop id := by
  rw [WorkspaceLists.HasDesktop, ← h.desktops, ← Option.isSome_iff_exists,
    Option.isNone_iff_eq_none, Option.not_isSome_iff_eq_none]

theorem Catalogs.Mirrors.hasActivity_eq_false (h : c.Mirrors workspace) (id : JsString) :
    c.hasActivity id = false ↔ id ∉ workspace.activities := by
  rw [Catalogs.hasActivity, decide_eq_false_iff_not, h.activities]

/-- Desktop ids of the workspace are looked up to its desktops. -/
theorem Catalogs.Mirrors.lookup_all (h : c.Mirrors workspace) {ids : List JsString}
    (hids : ∀ id ∈ ids, workspace.HasDesktop id) :
    ∃ objects : List DesktopObject, ids.map c.lookupDesktop = objects.map some ∧
      List.Forall₂ (fun id object => object ∈ workspace.desktops ∧ object.id = id) ids objects := by
  induction ids with
  | nil => exact ⟨[], rfl, .nil⟩
  | cons id ids ih =>
    obtain ⟨hid, hrest⟩ := List.forall_mem_cons.mp hids
    obtain ⟨object, hobject⟩ := (h.desktops id).mpr hid
    obtain ⟨objects, hmap, hall⟩ := ih hrest
    refine ⟨object :: objects, ?_, .cons (h.current id object hobject) hall⟩
    rw [List.map_cons, List.map_cons, hobject, hmap]

/-- What the check of an ID list accepts. -/
theorem validateIdList_spec {prop : JsString} {known : JsString → Prop}
    (hknown : ∀ id, unknownId c prop id = none ↔ known id) (value : Json) :
    validateIdList c prop value = none ↔ KnownIds known value := by
  rw [knownIds_iff, validateIdList]
  rcases value.asStrings with _ | ids
  · simp
  · simp [List.findSome?_eq_none_iff, hknown]

/-- Every error of the check is an Invalid params error. -/
theorem validateIdList_code {prop : JsString} {value : Json} {e : RpcError}
    (h : validateIdList c prop value = some e) : e.code = -32602 := by
  unfold validateIdList at h
  split at h
  · cases h
    rfl
  · obtain ⟨id, -, hid⟩ := List.exists_of_findSome?_eq_some h
    rw [unknownId] at hid
    split_ifs at hid
    all_goals cases hid; rfl

/-- What passes the check of one ID of `desktops`. -/
theorem Catalogs.Mirrors.unknownId_desktops (h : c.Mirrors workspace) (id : JsString) :
    unknownId c (js "desktops") id = none ↔ workspace.HasDesktop id := by
  have hne : js "desktops" ≠ js "activities" := by decide
  have hnone := h.lookupDesktop_isNone id
  rw [unknownId, if_neg fun hact : js "desktops" = js "activities" ∧ _ => hne hact.1]
  by_cases hid : workspace.HasDesktop id
  · rw [if_neg fun hmiss => hnone.mp hmiss.2 hid]
    exact iff_of_true rfl hid
  · rw [if_pos ⟨rfl, hnone.mpr hid⟩]
    exact iff_of_false (Option.some_ne_none _) hid

/-- What passes the check of one ID of `activities`. -/
theorem Catalogs.Mirrors.unknownId_activities (h : c.Mirrors workspace) (id : JsString) :
    unknownId c (js "activities") id = none ↔ id ∈ workspace.activities := by
  have hne : js "activities" ≠ js "desktops" := by decide
  have hfalse := h.hasActivity_eq_false id
  rw [unknownId, if_neg fun hdesk : js "activities" = js "desktops" ∧ _ => hne hdesk.1]
  by_cases hid : id ∈ workspace.activities
  · rw [if_neg fun hmiss => hfalse.mp hmiss.2 hid]
    exact iff_of_true rfl hid
  · rw [if_pos ⟨rfl, hfalse.mpr hid⟩]
    exact iff_of_false (Option.some_ne_none _) hid

/-- What passes the check of `windows.update`, by the kind of property. -/
theorem Catalogs.Mirrors.validateWindowEntry_spec (h : c.Mirrors workspace) (prop : JsString)
    (value : Json) :
    validateWindowEntry c prop value = none ↔ prop ∈ updateProps ∧
      (prop = js "desktops" → KnownIds workspace.HasDesktop value) ∧
      (prop = js "activities" → KnownIds (· ∈ workspace.activities) value) := by
  have hne : js "activities" ≠ js "desktops" := by decide
  rw [validateWindowEntry]
  by_cases hprop : prop ∈ updateProps
  swap
  · simp [hprop]
  rw [if_neg (not_not.mpr hprop)]
  by_cases hdesktops : prop = js "desktops"
  · subst hdesktops
    rw [if_pos (Or.inl rfl), validateIdList_spec h.unknownId_desktops]
    simp [hprop, hne.symm]
  · by_cases hactivities : prop = js "activities"
    · subst hactivities
      rw [if_pos (Or.inr rfl), validateIdList_spec h.unknownId_activities]
      simp [hprop, hne]
    · simp [hprop, hdesktops, hactivities]

/-- What `applyUpdate` assigns for an entry that passes the check. -/
theorem Catalogs.Mirrors.applyUpdate_spec (h : c.Mirrors workspace) (prop : JsString)
    (value : Json) (hvalid : validateWindowEntry c prop value = none) :
    ∃ a, applyUpdate c prop value = some (prop, a) ∧ AssignedToWindow workspace prop value a := by
  obtain ⟨hprop, hdesktops, hactivities⟩ := (h.validateWindowEntry_spec prop value).mp hvalid
  rw [applyUpdate]
  split_ifs with hd ha
  · subst hd
    obtain ⟨ids, rfl, hids⟩ := hdesktops rfl
    obtain ⟨objects, hmap, hall⟩ := h.lookup_all hids
    refine ⟨.desktops (objects.map some), ?_, .desktops hall⟩
    rw [← hmap]
    simp [assignDesktops, Json.asString, Function.comp_def]
  · subst ha
    obtain ⟨ids, rfl, hids⟩ := hactivities rfl
    exact ⟨.json (.array (ids.map .string)), rfl, .activities hids⟩
  · exact ⟨.json value, rfl, .primitive hprop hd ha⟩

/-- The entries the check of `windows.update` refuses. -/
theorem Catalogs.Mirrors.refusedForWindow_iff (h : c.Mirrors workspace) (prop : JsString)
    (value : Json) :
    RefusedForWindow workspace prop value ↔ validateWindowEntry c prop value ≠ none := by
  rw [Ne, h.validateWindowEntry_spec]
  constructor
  · rintro (hprop | hids | hids) ⟨hmem, hdesktops, hactivities⟩
    · exact hprop hmem
    · exact hids (hdesktops rfl)
    · exact hids (hactivities rfl)
  · intro hnot
    by_cases hprop : prop ∈ updateProps
    · by_cases hdesktops : prop = js "desktops" → KnownIds workspace.HasDesktop value
      · have hactivities : ¬ (prop = js "activities" →
            KnownIds (· ∈ workspace.activities) value) := fun ha => hnot ⟨hprop, hdesktops, ha⟩
        obtain ⟨rfl, hids⟩ := Classical.not_imp.mp hactivities
        exact .activities hids
      · obtain ⟨rfl, hids⟩ := Classical.not_imp.mp hdesktops
        exact .desktops hids
    · exact .unsupported hprop

/-- Every error of the check is an Invalid params error. -/
theorem validateWindowEntry_code (prop : JsString) (value : Json) (e : RpcError)
    (h : validateWindowEntry c prop value = some e) : e.code = -32602 := by
  rw [validateWindowEntry] at h
  split_ifs at h
  · exact validateIdList_code h
  · cases h
    rfl

theorem validateWorkspaceEntry_code (prop : JsString) (value : Json) (e : RpcError)
    (h : validateWorkspaceEntry c prop value = some e) : e.code = -32602 := by
  unfold validateWorkspaceEntry validateId at h
  split_ifs at h
  · split at h
    · cases h
      rfl
    · split_ifs at h
      all_goals cases h; rfl
  · cases h
    rfl

/-- What passes the check of `workspace.update`, by the property. -/
theorem Catalogs.Mirrors.validateWorkspaceEntry_spec (h : c.Mirrors workspace) (prop : JsString)
    (value : Json) :
    validateWorkspaceEntry c prop value = none ↔ prop ∈ workspaceUpdateProps ∧
      (prop = js "currentDesktop" → KnownId workspace.HasDesktop value) ∧
      (prop = js "currentActivity" → KnownId (· ∈ workspace.activities) value) := by
  have hne : js "currentActivity" ≠ js "currentDesktop" := by decide
  rw [validateWorkspaceEntry]
  by_cases hprop : prop ∈ workspaceUpdateProps
  swap
  · simp [hprop]
  rw [if_neg (not_not.mpr hprop), validateId, knownId_iff, knownId_iff]
  have hcases : prop = js "currentDesktop" ∨ prop = js "currentActivity" := by
    simpa [workspaceUpdateProps] using hprop
  rcases value.asString with _ | id
  · rcases hcases with rfl | rfl <;> simp [hprop]
  have hnone := h.lookupDesktop_isNone id
  have hfalse := h.hasActivity_eq_false id
  rcases hcases with rfl | rfl
  · rw [Option.isNone_iff_eq_none] at hnone
    by_cases hid : workspace.HasDesktop id <;> simp [hprop, hid, hnone, hne.symm]
  · by_cases hid : id ∈ workspace.activities <;> simp [hprop, hid, hfalse, hne]

/-- What `workspace.update` assigns for an entry that passes the check. -/
theorem Catalogs.Mirrors.assignWorkspace_spec (h : c.Mirrors workspace) (prop : JsString)
    (value : Json) (hvalid : validateWorkspaceEntry c prop value = none) :
    ∃ a, assignWorkspace c prop value = some (prop, a) ∧
      AssignedToWorkspace workspace prop value a := by
  obtain ⟨hprop, hdesktop, hactivity⟩ := (h.validateWorkspaceEntry_spec prop value).mp hvalid
  have hcases : prop = js "currentDesktop" ∨ prop = js "currentActivity" := by
    simpa [workspaceUpdateProps] using hprop
  rcases hcases with rfl | rfl
  · obtain ⟨id, rfl, hid⟩ := hdesktop rfl
    obtain ⟨desktop, hlookup⟩ := (h.desktops id).mpr hid
    obtain ⟨hmem, rfl⟩ := h.current id desktop hlookup
    refine ⟨.desktop (some desktop), ?_, .currentDesktop hmem⟩
    rw [← hlookup]
    rfl
  · obtain ⟨id, rfl, hid⟩ := hactivity rfl
    exact ⟨.json (.string id), rfl, .currentActivity hid⟩

/-- The entries the check of `workspace.update` refuses. -/
theorem Catalogs.Mirrors.refusedForWorkspace_iff (h : c.Mirrors workspace) (prop : JsString)
    (value : Json) :
    RefusedForWorkspace workspace prop value ↔ validateWorkspaceEntry c prop value ≠ none := by
  rw [Ne, h.validateWorkspaceEntry_spec]
  constructor
  · rintro (hprop | hid | hid) ⟨hmem, hdesktop, hactivity⟩
    · exact hprop hmem
    · exact hid (hdesktop rfl)
    · exact hid (hactivity rfl)
  · intro hnot
    by_cases hprop : prop ∈ workspaceUpdateProps
    · by_cases hdesktop : prop = js "currentDesktop" → KnownId workspace.HasDesktop value
      · have hactivity : ¬ (prop = js "currentActivity" →
            KnownId (· ∈ workspace.activities) value) := fun ha => hnot ⟨hprop, hdesktop, ha⟩
        obtain ⟨rfl, hid⟩ := Classical.not_imp.mp hactivity
        exact .currentActivity hid
      · obtain ⟨rfl, hid⟩ := Classical.not_imp.mp hdesktop
        exact .currentDesktop hid
    · exact .unsupported hprop

end Checks

/-! ### The methods -/

theorem resolveTokenWindow_code {s : Script} {token : JsString} {conn : RpcConnection}
    {error : RpcError} (h : s.resolveTokenWindow token conn = .error error) :
    error.code = -32602 := by
  unfold Script.resolveTokenWindow at h
  simp only at h
  split at h
  · cases h
    rfl
  · split_ifs at h
    · cases h
      rfl
    · split at h
      all_goals cases h
      rfl

/-- **Updates are atomic.** After every history of signals the catalogs are the ids of the
workspace, and an update either fails with Invalid params and assigns nothing, or assigns every
entry of its object once, in order, and nothing else. It fails exactly when the token does not
resolve or some entry is refused. -/
theorem updates_atomic {workspace : WorkspaceLists} {c : Catalogs} (h : Wired workspace c) :
    c.Mirrors workspace ∧
    (∀ (s : Script) (token : JsString) (updateInfo : UpdateInfo) (conn : RpcConnection),
      let out := s.windowsUpdate c token updateInfo conn
      (Rejected out ∨ ∃ window, s.resolveTokenWindow token conn = .ok window ∧
        Applied (.window window) (AssignedToWindow workspace) updateInfo out) ∧
      (Rejected out ↔ (∃ error, s.resolveTokenWindow token conn = .error error) ∨
        ∃ e ∈ updateInfo.entries, RefusedForWindow workspace e.1 e.2)) ∧
    (∀ updateInfo : UpdateInfo,
      let out := workspaceUpdate c updateInfo
      (Rejected out ∨ Applied .workspace (AssignedToWorkspace workspace) updateInfo out) ∧
      (Rejected out ↔ ∃ e ∈ updateInfo.entries, RefusedForWorkspace workspace e.1 e.2)) := by
  have hmirrors := h.mirrors
  refine ⟨hmirrors, fun s token updateInfo conn => ?_, fun updateInfo => ?_⟩
  · rcases hresolve : s.resolveTokenWindow token conn with error | window
    · have hrejected : Rejected (s.windowsUpdate c token updateInfo conn) := by
        rw [Script.windowsUpdate, hresolve]
        exact ⟨⟨error, rfl, resolveTokenWindow_code hresolve⟩, rfl⟩
      exact ⟨Or.inl hrejected, iff_of_true hrejected (Or.inl ⟨error, rfl⟩)⟩
    · have hout : s.windowsUpdate c token updateInfo conn =
          updateAll (.window window) (validateWindowEntry c) (applyUpdate c) updateInfo := by
        rw [Script.windowsUpdate, hresolve]
      obtain ⟨hresult, hrejected⟩ := updateAll_spec validateWindowEntry_code
        hmirrors.refusedForWindow_iff hmirrors.applyUpdate_spec (.window window) updateInfo
      rw [hout]
      refine ⟨?_, hrejected.trans ?_⟩
      · exact hresult.imp id fun happlied => ⟨window, rfl, happlied⟩
      · constructor
        · exact Or.inr
        · rintro (⟨error, herror⟩ | hbad)
          · cases herror
          · exact hbad
  · exact updateAll_spec validateWorkspaceEntry_code hmirrors.refusedForWorkspace_iff
      hmirrors.assignWorkspace_spec .workspace updateInfo

/-- A workspace whose second activity `a2` was just added. An update to it is applied, and one to
the unknown activity `a3` is refused whole, with the entry in front of it. -/
theorem updates_atomic_added :
    let workspace : WorkspaceLists := ⟨[⟨0, js "d1"⟩], [js "a1", js "a2"]⟩
    let c := (wireWorkspaceEvents ⟨[⟨0, js "d1"⟩], [js "a1"]⟩).activityAdded (js "a2")
    let good : UpdateInfo := AList.singleton (js "currentActivity") (.string (js "a2"))
    let bad : UpdateInfo := (AList.singleton (js "currentActivity") (.string (js "a3"))).insert
      (js "currentDesktop") (.string (js "d1"))
    c.Mirrors workspace ∧
      Applied .workspace (AssignedToWorkspace workspace) good (workspaceUpdate c good) ∧
      Rejected (workspaceUpdate c bad) := by
  intro workspace c good bad
  have hwired : Wired workspace c :=
    .activityAdded (.load ⟨[⟨0, js "d1"⟩], [js "a1"]⟩) (fun a => by simp [or_comm])
  obtain ⟨hmirrors, -, hupdate⟩ := updates_atomic hwired
  refine ⟨hmirrors, ?_, (hupdate bad).2.mpr ?_⟩
  · refine (hupdate good).1.resolve_left fun hrejected => ?_
    obtain ⟨e, he, hrefused⟩ := (hupdate good).2.mp hrejected
    rw [List.mem_singleton.mp he] at hrefused
    rcases hrefused with hprop | hid | hid
    · exact hprop (by decide)
    · exact hid ⟨js "a2", rfl, by decide⟩
  · refine ⟨⟨js "currentActivity", .string (js "a3")⟩, ?_, .currentActivity ?_⟩
    · exact List.mem_cons_of_mem _ (List.mem_singleton_self _)
    · rintro ⟨id, hstring, hid⟩
      cases hstring
      revert hid
      decide

end KwinApi
