import KwinApi.Daemon.Names

/-!
# The service on the session bus

`dbus_service.cpp`: the connection, the service name and the place of the connection on the event
loop. Return codes below 0 are errors. What the bus answers is a parameter, and so is what
libsystemd makes of a request to end an event loop.

## Main definitions

* `KwinApi.SdEvent` — `sd_event_exit`, with its documentation `SdEvent.Documented`
* `KwinApi.DbusService` — the service with its two handles

## Main results

* `DbusService.onNameLost_other` — the loss of another name changes nothing
* `DbusService.onNameLost_own` — with the own name the connection leaves the loop, and the loop
  stays as it is
* `DbusService.Up.onNameLost` — the connection stays open
-/

namespace KwinApi

/-! ### The event loop -/

/-- An event loop: the code it is asked to end with. -/
structure EventLoop where
  exitCode : Option ℤ := none

/-- `sd_event_exit`: whether the handle is one of a loop, the code, and the loop. -/
structure SdEvent where
  exit : Bool → ℤ → EventLoop → EventLoop

/-- The documentation of `sd_event_exit`: a loop is asked to end; without a valid handle the call
fails with `-EINVAL`. -/
structure SdEvent.Documented (lib : SdEvent) : Prop where
  exit_loop : ∀ code loop, lib.exit true code loop = { exitCode := some code }
  exit_null : ∀ code loop, lib.exit false code loop = loop

/-! ### The service -/

/-- A connection to the bus. -/
structure Bus where
  /-- Whether the connection is closed when the loop it is attached to ends. -/
  closeOnExit : Bool := true
  attached : Bool := false
  /-- Whether the rule for `NameLost` is installed. -/
  matched : Bool := false
  connected : Bool := true

/-- The end of the event loop, as the connection sees it. -/
def Bus.loopEnded (b : Bus) : Bus :=
  if b.attached && b.closeOnExit then { b with connected := false } else b

/-- `DbusService`, with the connection behind `bus_` and whether `event_` is set. -/
structure DbusService where
  serviceName : List UInt8
  objectPath : List UInt8
  bus : Option Bus := none
  event : Bool := false

namespace DbusService

variable (s : DbusService)

/-- The constructor. -/
def make (cfg : Config) : DbusService where
  serviceName := cfg.serviceName
  objectPath := objectPathForName cfg.serviceName

/-- `open`, with the answer of `sd_bus_open_user`. -/
def openBus (openUser : ℤ) : ℤ × DbusService :=
  if s.bus.isSome then (0, s)
  else if openUser < 0 then (openUser, s)
  else (0, { s with bus := some { closeOnExit := false } })

/-- `request_name`, with the answers for the name and for the rule. -/
def requestName (requestName : List UInt8 → ℤ) (addMatch : ℤ) : ℤ × DbusService :=
  if requestName s.serviceName < 0 then (requestName s.serviceName, s)
  else (0, { s with bus := s.bus.map fun b => { b with matched := 0 ≤ addMatch } })

/-- `attach`, with the answers for the loop and for the object at a path with an interface. -/
def attach (attachEvent : ℤ) (addVtable : List UInt8 → List UInt8 → ℤ) : ℤ × DbusService :=
  let s := { s with event := true }
  if attachEvent < 0 then (attachEvent, s)
  else
    let s := { s with bus := s.bus.map fun b => { b with attached := true } }
    if addVtable s.objectPath s.serviceName < 0 then (addVtable s.objectPath s.serviceName, s)
    else (0, s)

/-- `detach` -/
def detach : DbusService :=
  if s.bus.isSome && s.event then
    { s with bus := s.bus.map fun b => { b with attached := false }, event := false }
  else s

/-- `close` -/
def close : DbusService :=
  if s.bus.isSome then
    let s := if s.event then s.detach else s
    { s with bus := none }
  else s

/-- `on_name_lost`, for the name in the signal. -/
def onNameLost (lib : SdEvent) (name : Option (List UInt8)) (loop : EventLoop) :
    DbusService × EventLoop :=
  if name = some s.serviceName then
    if s.event then
      let s := s.detach
      (s, lib.exit s.event 1 loop)
    else (s, loop)
  else (s, loop)

/-- The end of the event loop. -/
def loopEnded : DbusService := { s with bus := s.bus.map Bus.loopEnded }

variable {s} {lib : SdEvent} {loop : EventLoop} {name : Option (List UInt8)}

/-! ### The codes -/

theorem openBus_lt_zero {openUser : ℤ} (hbus : s.bus = none) :
    (s.openBus openUser).1 < 0 ↔ openUser < 0 := by
  have hnone : ¬ s.bus.isSome = true := by simp [hbus]
  rw [openBus, if_neg hnone]
  split_ifs with hfail
  · exact Iff.rfl
  · exact iff_of_false (lt_irrefl 0) hfail

theorem requestName_lt_zero {requestName : List UInt8 → ℤ} {addMatch : ℤ} :
    (s.requestName requestName addMatch).1 < 0 ↔ requestName s.serviceName < 0 := by
  rw [DbusService.requestName]
  split_ifs with hfail
  · exact Iff.rfl
  · exact iff_of_false (lt_irrefl 0) hfail

theorem attach_lt_zero {attachEvent : ℤ} {addVtable : List UInt8 → List UInt8 → ℤ} :
    (s.attach attachEvent addVtable).1 < 0 ↔
      attachEvent < 0 ∨ addVtable s.objectPath s.serviceName < 0 := by
  simp only [attach]
  split_ifs with hattach hvtable
  · exact iff_of_true hattach (.inl hattach)
  · exact iff_of_true hvtable (.inr hvtable)
  · exact iff_of_false (lt_irrefl 0) (not_or.mpr ⟨hattach, hvtable⟩)

/-! ### The connection stays open -/

/-- The connection is open, and the end of a loop does not close it. -/
def Up (s : DbusService) : Prop :=
  ∃ b, s.bus = some b ∧ b.connected = true ∧ b.closeOnExit = false

theorem Up.map (h : s.Up) {f : Bus → Bus}
    (hf : ∀ b, (f b).connected = b.connected ∧ (f b).closeOnExit = b.closeOnExit) :
    ∃ b, s.bus.map f = some b ∧ b.connected = true ∧ b.closeOnExit = false := by
  obtain ⟨b, hb, hconnected, hclose⟩ := h
  refine ⟨f b, by rw [hb]; rfl, ?_, ?_⟩
  · rw [(hf b).1, hconnected]
  · rw [(hf b).2, hclose]

theorem up_openBus {openUser : ℤ} (hbus : s.bus = none) (h : ¬ openUser < 0) :
    (s.openBus openUser).2.Up := by
  have hnone : ¬ s.bus.isSome = true := by simp [hbus]
  rw [openBus, if_neg hnone, if_neg h]
  exact ⟨_, rfl, rfl, rfl⟩

theorem Up.requestName (h : s.Up) {requestName : List UInt8 → ℤ} {addMatch : ℤ} :
    (s.requestName requestName addMatch).2.Up := by
  rw [DbusService.requestName]
  split_ifs
  · exact h
  · exact h.map fun b => ⟨rfl, rfl⟩

theorem Up.attach (h : s.Up) {attachEvent : ℤ} {addVtable : List UInt8 → List UInt8 → ℤ} :
    (s.attach attachEvent addVtable).2.Up := by
  simp only [DbusService.attach]
  split_ifs
  · exact h
  · exact h.map fun b => ⟨rfl, rfl⟩
  · exact h.map fun b => ⟨rfl, rfl⟩

theorem Up.detach (h : s.Up) : s.detach.Up := by
  rw [DbusService.detach]
  split_ifs
  · exact h.map fun b => ⟨rfl, rfl⟩
  · exact h

theorem Up.onNameLost (h : s.Up) : (s.onNameLost lib name loop).1.Up := by
  rw [DbusService.onNameLost]
  split_ifs
  · exact h.detach
  · exact h
  · exact h

theorem Up.loopEnded (h : s.Up) : s.loopEnded.Up := by
  obtain ⟨b, hb, hconnected, hclose⟩ := h
  have hended : b.loopEnded = b := by simp [Bus.loopEnded, hclose]
  refine ⟨b, ?_, hconnected, hclose⟩
  rw [DbusService.loopEnded, hb, Option.map_some, hended]

theorem bus_close (s : DbusService) : s.close.bus = none := by
  by_cases hbus : s.bus.isSome = true
  · rw [close, if_pos hbus]
  · rw [close, if_neg hbus]
    exact Option.not_isSome_iff_eq_none.mp hbus

/-! ### The names stay the same -/

/-- The service name and the object path. -/
def names (s : DbusService) : List UInt8 × List UInt8 := (s.serviceName, s.objectPath)

theorem names_openBus (s : DbusService) (openUser : ℤ) :
    (s.openBus openUser).2.names = s.names := by
  rw [openBus]
  split_ifs <;> rfl

theorem names_requestName (s : DbusService) (requestName : List UInt8 → ℤ) (addMatch : ℤ) :
    (s.requestName requestName addMatch).2.names = s.names := by
  rw [DbusService.requestName]
  split_ifs <;> rfl

theorem names_attach (s : DbusService) (attachEvent : ℤ)
    (addVtable : List UInt8 → List UInt8 → ℤ) :
    (s.attach attachEvent addVtable).2.names = s.names := by
  simp only [attach]
  split_ifs <;> rfl

theorem names_detach (s : DbusService) : s.detach.names = s.names := by
  rw [detach]
  split_ifs <;> rfl

theorem names_onNameLost (s : DbusService) : (s.onNameLost lib name loop).1.names = s.names := by
  rw [onNameLost]
  split_ifs
  · exact names_detach s
  · rfl
  · rfl

/-! ### `NameLost` -/

/-- The loss of another name changes nothing. -/
theorem onNameLost_other (h : name ≠ some s.serviceName) :
    s.onNameLost lib name loop = (s, loop) := by
  rw [onNameLost, if_neg h]

/-- With the own name the connection is taken off the loop, and only then the loop is asked to end:
by then its handle is gone. -/
theorem onNameLost_own (hlib : lib.Documented) (hup : s.Up) :
    s.onNameLost lib (some s.serviceName) loop = (s.detach, loop) := by
  obtain ⟨b, hb, -⟩ := hup
  have hsome : s.bus.isSome = true := by rw [hb]; rfl
  rw [onNameLost, if_pos rfl]
  by_cases hevent : s.event = true
  · have hnull : s.detach.event = false := by simp [detach, hsome, hevent]
    rw [if_pos hevent]
    simp only [hnull, hlib.exit_null]
  · have hsame : s.detach = s := by simp [detach, hevent]
    rw [if_neg hevent, hsame]

end DbusService

end KwinApi
