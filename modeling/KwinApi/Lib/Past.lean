import Mathlib.Tactic.Common

/-!
# Past time over histories

A history is the list of what has happened, the latest first. `Since hold start h` says that
`start` happened at some point of `h` and that everything after that point satisfied `hold`; both
predicates look at the event and at the history before it.

## Main definitions

* `KwinApi.Since`

## Main results

* `since_cons` — one more event
-/

namespace KwinApi

variable {α : Type*}

/-- `start` held at some event of the history, and `hold` at every event since then. -/
def Since (hold start : α → List α → Prop) : List α → Prop
  | [] => False
  | e :: past => start e past ∨ (hold e past ∧ Since hold start past)

@[simp] theorem not_since_nil (hold start : α → List α → Prop) : ¬ Since hold start [] := id

theorem since_cons {hold start : α → List α → Prop} {e : α} {past : List α} :
    Since hold start (e :: past) ↔ start e past ∨ (hold e past ∧ Since hold start past) :=
  Iff.rfl

end KwinApi
