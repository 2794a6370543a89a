import KwinApi.Lib.Watches
import KwinApi.Script.TokenTable
import Mathlib.Data.List.Induction

/-!
# The script

The whole KWin script as a machine: its state, its handlers and the events that run them. Every
handler runs to completion before the next event.

KWin's part is modelled by when an event can happen: a window is added once, only managed windows
change their caption or go away, a timer fires only while it is active and is inactive afterwards,
and requests arrive on connection objects that were created.

## Main definitions

* `KwinApi.Script`, `Script.load` — the state and what it is when the script is loaded
* `Script.invalidate`, `validate`, `checkCaption`, `resolveTokenWindow` and so on — `tokens.ts`
* `Script.windowWatch`, `Script.workspaceWatch` — `windows.ts` and `workspace.ts`
* `Script.onClientConnected`, `Script.onClientDisconnected` — `clients.ts`
* `Event`, `Script.step`, `Script.run` — the machine
* `Script.act`, `Script.history` — what happens to tokens in a run
-/

namespace KwinApi

/-- `watchesByToken` and the slots of the windows. -/
abbrev WindowWatches := WatchTable JsString RpcConnection Window JsString

/-- `watchesByClient` and the slots of the workspace. -/
abbrev WorkspaceWatches := WatchTable ℕ RpcConnection Unit JsString

/-- The state of the script, of the objects it shares with KWin and of its connections. -/
structure Script where
  /-- The `ClientConnection` objects ever created, the oldest first. -/
  created : List RpcConnection
  /-- `conn.alive`, by object. -/
  alive : ℕ → Bool
  /-- The connected clients by id. -/
  connections : AList fun _ : ℕ => RpcConnection
  /-- The managed windows, whose captions are tracked. -/
  windows : List Window
  /-- The properties of the windows. -/
  data : Window → WindowData
  workspace : WorkspaceData
  tokens : TokenTable
  watches : WindowWatches
  workspaceWatches : WorkspaceWatches
  /-- Every notification sent so far. -/
  sent : List Notified

/-- What a method answers. -/
inductive Answer where
  /-- The result of `token.request`. -/
  | token (token : JsString)
  /-- The result of a watch method, by property. -/
  | watching (result : List (JsString × Bool))
  /-- A method threw. -/
  | error (e : RpcError)
  /-- The params failed the schema at this path. -/
  | schemaError (path : JsString)
  /-- The answer of any other message. -/
  | other
  deriving DecidableEq, Repr

/-- One inbound message. -/
inductive Request where
  /-- `token.request` with the results of `Math.random()` while it runs. -/
  | tokenRequest (timeout : ℤ) (draws : List Draw)
  | windowWatch (token : JsString) (watchInfo : AList fun _ : JsString => Bool)
  | workspaceWatch (watchInfo : AList fun _ : JsString => Bool)
  /-- A message that changes neither tokens nor watches. -/
  | other

namespace Script

/-- The state at script load. -/
def load (windows : List Window) (data : Window → WindowData) (workspace : WorkspaceData) :
    Script where
  created := []
  alive := fun _ => false
  connections := ∅
  windows := windows
  data := data
  workspace := workspace
  tokens := TokenTable.empty
  watches := WatchTable.empty
  workspaceWatches := WatchTable.empty
  sent := []

/-- A script loaded on an empty desktop. -/
def loadEmpty : Script :=
  load [] (fun _ => ⟨[], [], [], fun _ => .undefined⟩) ⟨⟨[]⟩, [], [], []⟩

/-! ### jsonrpc.ts -/

/-- What reaches a connection: nothing once the client disconnected. -/
def delivered (s : Script) (conn : RpcConnection) (about : Option ℕ) (note : Notification) :
    List Notified :=
  if s.alive conn.ref then [⟨conn, about, note⟩] else []

/-- Send a server to client notification. Dropped silently once the client disconnected. -/
def notifyClient (s : Script) (conn : RpcConnection) (about : Option ℕ) (note : Notification) :
    Script :=
  { s with sent := s.sent ++ s.delivered conn about note }

/-! ### tokens.ts -/

/-- Serialize a window for notifications. -/
def windowInfo (s : Script) (window : Window) : JsString := (s.data window).captionNormal

/-- Tear down every watch of the given tokens. -/
def dropClientWatches (s : Script) (tokens : List JsString) : Script :=
  { s with watches := s.watches.dropAll tokens }

/-- Remove a token from the registry and notify its owner with the reason. -/
def invalidate (s : Script) (r : ℕ) (reason : TokenReason) : Script :=
  let entry := s.tokens.entries r
  let s := { s with tokens := s.tokens.unregister r }
  let s := s.dropClientWatches [entry.token]
  s.notifyClient entry.conn (some r)
    (.tokenInvalidated entry.token reason (entry.window.map s.windowInfo))

/-- Another token already owns this window: it is superseded. -/
def supersede (s : Script) (r : ℕ) (window : Window) : Script :=
  match s.tokens.byWindow.lookup (windowKey window) with
  | some existing => if existing ≠ r then s.invalidate existing .superseded else s
  | none => s

/-- Bind a token to its window and notify the owner. -/
def validate (s : Script) (r : ℕ) (window : Window) : Script :=
  let s := s.supersede r window
  let s := { s with tokens := s.tokens.bind r window }
  let entry := s.tokens.entries r
  s.notifyClient entry.conn (some r) (.tokenValidated entry.token (s.windowInfo window))

/-- Called on every caption change and on window creation. -/
def checkCaption (s : Script) (window : Window) : Script :=
  let caption := (s.data window).captionNormal
  if caption.length < tokenLength then s
  else
    match s.tokens.byToken.lookup (caption.take tokenLength) with
    | none => s
    | some r =>
      let entry := s.tokens.entries r
      if entry.deadlineTimer.active then
        match entry.window with
        | none => s.validate r window
        | some bound => if bound ≠ window then s.invalidate r .ambiguous else s
      else s

/-- The per-entry deadline fired. -/
def onTokenDeadline (s : Script) (r : ℕ) : Script :=
  match (s.tokens.entries r).state with
  | .pending => s.invalidate r .timeout
  | .active => s

/-- The caption of a new window is tracked, and may already carry a token. -/
def onWindowAdded (s : Script) (window : Window) : Script :=
  ({ s with windows := window :: s.windows }).checkCaption window

/-- The token of a removed window is withdrawn. -/
def onWindowRemoved (s : Script) (window : Window) : Script :=
  match s.tokens.byWindow.lookup (windowKey window) with
  | some r => s.invalidate r .windowClosed
  | none => s

/-- Drop every token owned by a disconnected client (no notification). -/
def dropClientTokens (s : Script) (clientId : ℕ) : Script :=
  let removed := s.tokens.owned clientId
  let s := { s with tokens := s.tokens.unregisterAll removed }
  s.dropClientWatches (removed.map fun r => (s.tokens.entries r).token)

/-- Resolve a client's token to the window it is bound to, or throw. -/
def resolveTokenWindow (s : Script) (token : JsString) (conn : RpcConnection) :
    Except RpcError Window :=
  match s.tokens.byToken.lookup token with
  | none => .error (invalidParams (js "unknown token " ++ quoted token))
  | some r =>
    let entry := s.tokens.entries r
    if entry.conn ≠ conn then
      .error (invalidParams (js "token " ++ quoted token ++ js " belongs to another client"))
    else
      match entry.state, entry.window with
      | .active, some window => .ok window
      | _, _ =>
        .error (invalidParams (js "token " ++ quoted token ++ js " is not bound to a window"))

/-- `token.request`; nothing while every token drawn so far is in use. -/
def tokenRequest (s : Script) (conn : RpcConnection) (timeout : ℤ) (draws : List Draw) :
    Option (Script × Answer) :=
  if 1 ≤ timeout ∧ timeout ≤ maxValidateTimeoutMs then
    (generateToken s.tokens.byToken draws).map fun token =>
      let deadlineTimer : QTimer := ⟨true, coarseTimer, timeout, true⟩
      let entry : TokenEntry := ⟨token, conn, .pending, none, deadlineTimer⟩
      ({ s with tokens := s.tokens.register entry }, .token token)
  else some (s, .schemaError (js "timeout"))

/-! ### windows.ts -/

/-- `window.watch`. -/
def windowWatch (s : Script) (token : JsString) (watchInfo : AList fun _ : JsString => Bool)
    (conn : RpcConnection) : Script × Answer :=
  match s.resolveTokenWindow token conn with
  | .error e => (s, .error e)
  | .ok window =>
    match watchInfo.entries.find? fun e => e.1 ∉ watchProps with
    | some e =>
      (s, .error (invalidParams (js "unsupported property " ++ quoted e.1 ++
        js " in window.watch (not a boolean property or no " ++ e.1 ++ js "Changed signal)")))
    | none =>
      let set := WatchTable.setAll token conn window s.watches watchInfo.entries
      ({ s with watches := set.1 }, .watching set.2)

/-- The handler of a window watch. -/
def onWindowChanged (s : Script) (handler : Handler JsString RpcConnection Window JsString) :
    Script :=
  s.notifyClient handler.conn none
    (.windowChanged handler.key handler.prop (propValue (s.data handler.source) handler.prop))

/-! ### workspace.ts -/

/-- `workspace.watch`. -/
def workspaceWatch (s : Script) (watchInfo : AList fun _ : JsString => Bool)
    (conn : RpcConnection) : Script × Answer :=
  match watchInfo.entries.find? fun e => e.1 ∉ workspaceWatchProps with
  | some e =>
    (s, .error (invalidParams (js "unsupported property " ++ quoted e.1 ++
      js " in workspace.watch (no " ++ e.1 ++ js "Changed signal)")))
  | none =>
    let set := WatchTable.setAll conn.id conn () s.workspaceWatches watchInfo.entries
    ({ s with workspaceWatches := set.1 }, .watching set.2)

/-- The handler of a workspace watch. -/
def onWorkspaceChanged (s : Script) (handler : Handler ℕ RpcConnection Unit JsString) : Script :=
  s.notifyClient handler.conn none
    (.workspaceChanged handler.prop (workspaceValue s.workspace handler.prop))

/-- Tear down every watch of a disconnected client. -/
def dropClientWorkspaceWatches (s : Script) (clientId : ℕ) : Script :=
  { s with workspaceWatches := s.workspaceWatches.drop clientId }

/-! ### clients.ts -/

/-- A client connected. -/
def onClientConnected (s : Script) (id : ℕ) : Script :=
  if (s.connections.lookup id).isSome then s
  else
    let conn : RpcConnection := ⟨s.created.length, id⟩
    { s with
      created := s.created ++ [conn]
      alive := Function.update s.alive conn.ref true
      connections := s.connections.insert id conn }

/-- A client disconnected. -/
def onClientDisconnected (s : Script) (id : ℕ) : Script :=
  match s.connections.lookup id with
  | none => s
  | some conn =>
    let s := { s with
      alive := Function.update s.alive conn.ref false
      connections := s.connections.erase id }
    (s.dropClientTokens id).dropClientWorkspaceWatches id

/-- Dispatch one message. -/
def dispatch (s : Script) (conn : RpcConnection) : Request → Option (Script × Answer)
  | .tokenRequest timeout draws => s.tokenRequest conn timeout draws
  | .windowWatch token watchInfo => some (s.windowWatch token watchInfo conn)
  | .workspaceWatch watchInfo => some (s.workspaceWatch watchInfo conn)
  | .other => some (s, .other)

end Script

/-! ### The machine -/

/-- What can happen to the script. -/
inductive Event where
  | clientConnected (id : ℕ)
  | clientDisconnected (id : ℕ)
  /-- A message is dispatched, on a connection that may be alive or not. -/
  | request (conn : RpcConnection) (req : Request)
  | windowAdded (window : Window) (data : WindowData)
  | captionChanged (window : Window) (caption : JsString)
  | windowRemoved (window : Window)
  /-- The deadline timer of an entry times out. -/
  | deadline (r : ℕ)
  /-- The signal of a window property is emitted; properties other than the caption changed. -/
  | windowPropChanged (window : Window) (prop : JsString) (data : WindowData)
  /-- The signal of a workspace property is emitted. -/
  | workspacePropChanged (prop : JsString) (data : WorkspaceData)

namespace Script

/-- Set the caption of a window. -/
def setCaption (s : Script) (window : Window) (caption : JsString) : Script :=
  let data : WindowData := { s.data window with captionNormal := caption }
  { s with data := Function.update s.data window data }

/-- One event. -/
def step (s : Script) : Event → Script
  | .clientConnected id => s.onClientConnected id
  | .clientDisconnected id => s.onClientDisconnected id
  | .request conn req =>
    if conn ∈ s.created then ((s.dispatch conn req).map Prod.fst).getD s else s
  | .windowAdded window data =>
    if window ∈ s.windows then s
    else ({ s with data := Function.update s.data window data }).onWindowAdded window
  | .captionChanged window caption =>
    if window ∈ s.windows then (s.setCaption window caption).checkCaption window else s
  | .windowRemoved window =>
    if window ∈ s.windows then
      let s := s.onWindowRemoved window
      { s with windows := s.windows.filter fun v => v ≠ window }
    else s
  | .deadline r =>
    -- A single-shot timer is inactive when its handler runs.
    if (s.tokens.entries r).deadlineTimer.active then
      ({ s with tokens := s.tokens.stopDeadline r }).onTokenDeadline r
    else s
  | .windowPropChanged window prop data =>
    let data : WindowData := { data with captionNormal := (s.data window).captionNormal }
    let s := { s with data := Function.update s.data window data }
    (s.watches.slots.filter fun slot => slot.source = window ∧ slot.prop = prop).foldl
      (fun s slot => s.onWindowChanged slot.handler) s
  | .workspacePropChanged prop data =>
    let s := { s with workspace := data }
    (s.workspaceWatches.slots.filter fun slot => slot.prop = prop).foldl
      (fun s slot => s.onWorkspaceChanged slot.handler) s

/-- A run of events. -/
def run (s : Script) (es : List Event) : Script := es.foldl step s

/-! ### What happens to tokens -/

/-- What can happen to the tokens handed out: they belong to connections and are shown by windows,
and a disconnect drops the tokens of a client id. -/
abbrev TokenAct := ClaimAct JsString RpcConnection Window ℕ

/-- A window shows a caption: the token it carries, if it is long enough for one. -/
def shown (window : Window) (caption : JsString) : Option TokenAct :=
  if caption.length < tokenLength then none
  else some (.shows window (caption.take tokenLength))

/-- What an event is for the tokens. -/
def act (s : Script) : Event → Option TokenAct
  | .clientConnected _ => none
  | .clientDisconnected id => if (s.connections.lookup id).isSome then some (.drop id) else none
  | .request conn req =>
    if conn ∈ s.created then
      match (s.dispatch conn req).map Prod.snd with
      | some (.token t) => some (.issue t conn)
      | _ => none
    else none
  | .windowAdded window data =>
    if window ∈ s.windows then none else shown window data.captionNormal
  | .captionChanged window caption =>
    if window ∈ s.windows then shown window caption else none
  | .windowRemoved window => if window ∈ s.windows then some (.remove window) else none
  | .deadline r =>
    if (s.tokens.entries r).deadlineTimer.active then some (.fire (s.tokens.entries r).token)
    else none
  | .windowPropChanged .. => none
  | .workspacePropChanged .. => none

/-- What happened to the tokens in a run, the latest first. -/
def history (s : Script) : List Event → List TokenAct
  | [] => []
  | e :: es => history (s.step e) es ++ (s.act e).toList

@[simp] theorem run_nil (s : Script) : s.run [] = s := rfl

theorem run_concat (s : Script) (es : List Event) (e : Event) :
    s.run (es ++ [e]) = (s.run es).step e :=
  List.foldl_concat ..

theorem history_concat (s : Script) (es : List Event) (e : Event) :
    s.history (es ++ [e]) = ((s.run es).act e).toList ++ s.history es := by
  induction es generalizing s with
  | nil => simp [history]
  | cons e' es ih =>
    rw [List.cons_append, history, ih, history, List.append_assoc]
    rfl

end Script

end KwinApi
