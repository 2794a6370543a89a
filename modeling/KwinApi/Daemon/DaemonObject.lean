import KwinApi.Daemon.Poll

/-!
# The object `/daemon`

`DaemonDBusObject` of `daemon_dbus_object.cpp`: control events of the server are queued for the
script, and its `poll` works like that of a client object. The method `log` only writes log lines
and is left out.

## Main definitions

* `KwinApi.controlMessage` — `control_message` of `server.cpp`
* `KwinApi.DaemonObject` — the object, with `enqueueControl` and `handlePoll`
* `KwinApi.DaemonLink` — the object, and everything that can happen to it
-/

namespace KwinApi

/-- The capacity of the control queue. -/
def kControlQueueCap : ℕ := 128 * 1024

/-- The two control events of the server. -/
inductive ControlEvent where
  | clientConnected
  | clientDisconnected
  deriving DecidableEq, Repr

/-- The name of a control event. -/
def ControlEvent.name : ControlEvent → String
  | .clientConnected => "client_connected"
  | .clientDisconnected => "client_disconnected"

/-- `control_message`: the payload of a control event. -/
def controlMessage (event : ControlEvent) (id : ℕ) : List UInt8 :=
  ascii "\x7b\"event\":\"" ++ ascii event.name ++ ascii "\",\"id\":" ++ decimal id ++ ascii "\x7d"

theorem controlMessage_ne_nil (event : ControlEvent) (id : ℕ) : controlMessage event id ≠ [] := by
  intro h
  have hlen := congrArg List.length h
  simp only [controlMessage, List.length_append] at hlen
  have hone : (ascii "\x7d").length = 1 := rfl
  simp only [hone, List.length_nil] at hlen
  omega

theorem zero_not_mem_controlMessage (event : ControlEvent) (id : ℕ) :
    (0 : UInt8) ∉ controlMessage event id := by
  have hname : (0 : UInt8) ∉ ascii event.name := by cases event <;> decide
  have hdigits := zero_not_mem_decimal id
  simp only [controlMessage, List.mem_append, not_or]
  exact ⟨⟨⟨⟨by decide, hname⟩, by decide⟩, hdigits⟩, by decide⟩

/-- The object `/daemon`. -/
structure DaemonObject where
  controlQueue : RxBuffer
  port : PollPort

namespace DaemonObject

/-- The constructor. -/
def make : Except String DaemonObject := do
  let controlQueue ← RxBuffer.make kControlQueueCap
  return { controlQueue, port := .init }

/-- What the constructor makes. -/
theorem eq_of_make {d : DaemonObject} (h : make = .ok d) :
    ∃ q, RxBuffer.make kControlQueueCap = .ok q ∧ d = ⟨q, .init⟩ := by
  rw [make] at h
  cases hq : RxBuffer.make kControlQueueCap with
  | error e => rw [hq] at h; cases h
  | ok q =>
    rw [hq] at h
    cases h
    exact ⟨q, rfl, rfl⟩

/-- What the functions of `dbus_util.cpp` did to the queue and the port. There is no
`on_drained`. -/
def answered (_ : DaemonObject) (r : RxBuffer × PollPort × Bool) : DaemonObject := ⟨r.1, r.2.1⟩

/-- Queue one control message and answer a pending `poll`. A message that does not fit is
dropped. -/
def enqueueControl (d : DaemonObject) (payload : List UInt8) : DaemonObject :=
  match d.controlQueue.append payload with
  | (.error _, q) => { d with controlQueue := q }
  | (.ok (), q) => { d with controlQueue := q }.answered (maybeReplyPendingPoll d.port q)

/-- `handle_poll` -/
def handlePoll (d : DaemonObject) (call : PollCall) : DaemonObject :=
  d.answered (handlePollRequest d.port d.controlQueue call)

end DaemonObject

/-! ### The object in use -/

/-- The object while it exists, with the control messages that were queued. -/
structure DaemonLink where
  object : DaemonObject
  accepted : List (List UInt8)
  alive : Bool

/-- What can happen to the object: the server queues a control event, a `poll` call comes in, the
timer of a pending `poll` fires, or the server destroys it. -/
inductive DaemonOp where
  | control (event : ControlEvent) (id : ℕ)
  | poll (call : PollCall)
  | timeout
  | destroy

namespace DaemonLink

/-- A fresh object. -/
def init (d : DaemonObject) : DaemonLink := ⟨d, [], true⟩

/-- One thing that happens. -/
def step (l : DaemonLink) (op : DaemonOp) : DaemonLink :=
  if ¬ l.alive then l
  else
    match op with
    | .control event id =>
      let payload := controlMessage event id
      { l with
        object := l.object.enqueueControl payload
        accepted := if l.object.controlQueue.canFit payload.length then l.accepted ++ [payload]
          else l.accepted }
    | .poll call => { l with object := l.object.handlePoll call }
    | .timeout =>
      if l.object.port.waiter.timer.isSome then
        { l with object :=
          { l.object with port := l.object.port.onTimeout l.object.controlQueue } }
      else l
    | .destroy =>
      { l with object := { l.object with port := l.object.port.cancel }, alive := false }

end DaemonLink

end KwinApi
