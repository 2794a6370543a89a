import KwinApi.Script.Update
import Mathlib.Data.Finset.Insert

/-!
# Reading properties

`windows.query` and `workspace.query` read the properties they are asked for, each once, and answer
with nothing but Invalid params when one of them is not supported.

## Main definitions

* `KwinApi.queryProps`, `workspaceQueryProps` — the properties that can be read
* `KwinApi.queryAll` — the loop the two methods share
* `KwinApi.Script.windowsQuery`, `workspaceQuery` — the methods

## Main results

* `KwinApi.queryAll_eq_ok`, `queryAll_eq_error` — what the loop answers
-/

namespace KwinApi

/-- Properties `windows.query` may read: a set of its own, with the same names for now. -/
def queryProps : List JsString := updateProps

/-- Properties `workspace.query` may read. -/
def workspaceQueryProps : List JsString :=
  ["currentDesktop", "currentActivity", "desktops", "activities"].map js

/-- What a query answers: the properties in the order they were set, with their values. -/
abbrev QueryResult := List (JsString × PropValue)

/-- The error for a property that is not in the catalog. -/
def unsupportedQuery (method prop : JsString) : RpcError :=
  invalidParams (js "unsupported property " ++ quoted prop ++ js " in " ++ method)

/-- The loop of a query: what was seen, what was read, and what is still asked for. -/
def queryLoop (supported : List JsString) (method : JsString) (value : JsString → PropValue) :
    Finset JsString → QueryResult → List JsString → Except RpcError QueryResult
  | _, result, [] => .ok result
  | seen, result, prop :: queryInfo =>
    if prop ∉ supported then .error (unsupportedQuery method prop)
    -- Deduplicate: each asked property appears once.
    else if prop ∈ seen then queryLoop supported method value seen result queryInfo
    else queryLoop supported method value (insert prop seen) (result ++ [(prop, value prop)])
      queryInfo

/-- A query. -/
def queryAll (supported : List JsString) (method : JsString) (value : JsString → PropValue)
    (queryInfo : List JsString) : Except RpcError QueryResult :=
  queryLoop supported method value ∅ [] queryInfo

namespace Script

/-- `windows.query` -/
def windowsQuery (s : Script) (token : JsString) (queryInfo : List JsString)
    (conn : RpcConnection) : Except RpcError QueryResult := do
  let window ← s.resolveTokenWindow token conn
  queryAll queryProps (js "windows.query") (propValue (s.data window)) queryInfo

/-- `workspace.query` -/
def workspaceQuery (s : Script) (queryInfo : List JsString) : Except RpcError QueryResult :=
  queryAll workspaceQueryProps (js "workspace.query") (workspaceValue s.workspace) queryInfo

end Script

/-! ### What the loop answers -/

section Loop

variable {supported : List JsString} {method : JsString} {value : JsString → PropValue}

/-- The properties of a query that were not seen before, each at its first place. -/
def firsts (seen : Finset JsString) (queryInfo : List JsString) : List JsString :=
  (queryInfo.filter fun prop => prop ∉ seen).eraseDups

theorem firsts_cons_of_mem {seen : Finset JsString} {prop : JsString} (h : prop ∈ seen)
    (queryInfo : List JsString) : firsts seen (prop :: queryInfo) = firsts seen queryInfo := by
  simp [firsts, h]

theorem firsts_cons_of_not_mem {seen : Finset JsString} {prop : JsString} (h : prop ∉ seen)
    (queryInfo : List JsString) :
    firsts seen (prop :: queryInfo) = prop :: firsts (insert prop seen) queryInfo := by
  rw [firsts, List.filter_cons_of_pos (by simpa using h), List.eraseDups_cons, List.filter_filter,
    firsts]
  refine congrArg (fun l => prop :: List.eraseDups l) (List.filter_congr fun p _ => ?_)
  by_cases hp : p = prop
  · simp [hp]
  · simp [hp]

/-- **The loop of a query.** It reads what is left, each property once, unless one of them is not
supported; then it fails for the first of these. -/
theorem queryLoop_eq (seen : Finset JsString) (result : QueryResult) (queryInfo : List JsString) :
    queryLoop supported method value seen result queryInfo =
      match queryInfo.find? fun prop => prop ∉ supported with
      | some prop => .error (unsupportedQuery method prop)
      | none => .ok (result ++ (firsts seen queryInfo).map fun prop => (prop, value prop)) := by
  induction queryInfo generalizing seen result with
  | nil => simp [queryLoop, firsts]
  | cons prop queryInfo ih =>
    rw [queryLoop]
    split_ifs with hsupported hseen
    · rw [ih, List.find?_cons_of_neg (by simpa using hsupported), firsts_cons_of_mem hseen]
    · rw [ih, List.find?_cons_of_neg (by simpa using hsupported), firsts_cons_of_not_mem hseen]
      simp
    · rw [List.find?_cons_of_pos (by simpa using hsupported)]

/-- A query succeeds when everything it asks for is supported. -/
theorem queryAll_eq_ok {queryInfo : List JsString} {result : QueryResult} :
    queryAll supported method value queryInfo = .ok result ↔
      (∀ prop ∈ queryInfo, prop ∈ supported) ∧
        result = queryInfo.eraseDups.map fun prop => (prop, value prop) := by
  rw [queryAll, queryLoop_eq]
  have hfirsts : firsts ∅ queryInfo = queryInfo.eraseDups := by simp [firsts]
  rw [hfirsts]
  cases hfind : queryInfo.find? fun prop => prop ∉ supported with
  | none =>
    have hall := List.find?_eq_none.mp hfind
    have hall : ∀ prop ∈ queryInfo, prop ∈ supported := fun prop hprop => by
      simpa using hall prop hprop
    simp only [List.nil_append, Except.ok.injEq]
    exact ⟨fun h => ⟨hall, h.symm⟩, fun h => h.2.symm⟩
  | some prop =>
    have hmem := List.mem_of_find?_eq_some hfind
    have hbad : prop ∉ supported := by simpa using List.find?_some hfind
    exact iff_of_false nofun fun h => hbad (h.1 prop hmem)

/-- Otherwise it fails for the first property that is not. -/
theorem queryAll_eq_error {queryInfo : List JsString} {error : RpcError} :
    queryAll supported method value queryInfo = .error error ↔
      ∃ prop, queryInfo.find? (fun prop => prop ∉ supported) = some prop ∧
        error = unsupportedQuery method prop := by
  rw [queryAll, queryLoop_eq]
  cases queryInfo.find? fun prop => prop ∉ supported with
  | none => simp
  | some prop => simp [eq_comm]

/-- What a query answers for a property is its value. -/
theorem value_of_queryAll {queryInfo : List JsString} {result : QueryResult}
    (h : queryAll supported method value queryInfo = .ok result) {prop : JsString} {v : PropValue}
    (hv : (prop, v) ∈ result) : prop ∈ supported ∧ v = value prop := by
  obtain ⟨hall, rfl⟩ := queryAll_eq_ok.mp h
  obtain ⟨p, hp, heq⟩ := List.mem_map.mp hv
  obtain ⟨rfl, rfl⟩ := Prod.mk.inj heq
  exact ⟨hall p (List.mem_eraseDups.mp hp), rfl⟩

end Loop

end KwinApi
