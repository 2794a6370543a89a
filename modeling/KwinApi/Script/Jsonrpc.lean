import KwinApi.Script.KWin

/-!
# The JSON-RPC layer of the script

Every registered method is called with the connection its request came in on. Notifications go
out through the connection they are meant for, and are dropped once it is not alive.

## Main definitions

* `KwinApi.RpcConnection` — a connection object
* `TokenReason`, `Notification`, `Notified` — what the server sends on its own
* `RpcError`, `invalidParams` — the error answers of the methods
-/

namespace KwinApi

/-- A `ClientConnection` object. Two objects can carry the same id, one after the other. -/
structure RpcConnection where
  /-- Which object it is. -/
  ref : ℕ
  /-- The daemon-assigned client id. -/
  id : ℕ
  deriving DecidableEq, Repr

/-- Why a token stopped being usable. -/
inductive TokenReason where
  | timeout
  | windowClosed
  | ambiguous
  | superseded
  deriving DecidableEq, Repr

/-- The reason as it is sent. -/
def TokenReason.text : TokenReason → JsString
  | .timeout => js "timeout"
  | .windowClosed => js "window_closed"
  | .ambiguous => js "ambiguous"
  | .superseded => js "superseded"

/-- The notifications of the server, with their params. Of a window only the caption is sent. -/
inductive Notification where
  | tokenValidated (token caption : JsString)
  | tokenInvalidated (token : JsString) (reason : TokenReason) (window : Option JsString)
  | windowChanged (token prop : JsString) (value : PropValue)
  | workspaceChanged (prop : JsString) (value : PropValue)
  deriving DecidableEq, Repr

/-- The method of a notification. -/
def Notification.method : Notification → JsString
  | .tokenValidated .. => js "token.validated"
  | .tokenInvalidated .. => js "token.invalidated"
  | .windowChanged .. => js "window.changed"
  | .workspaceChanged .. => js "workspace.changed"

/-- What happened to a token. -/
inductive TokenNews where
  | validated
  | invalidated (reason : TokenReason)
  deriving DecidableEq, Repr

/-- The token a token notification is about, and the news. -/
def Notification.tokenNews : Notification → Option (JsString × TokenNews)
  | .tokenValidated token _ => some (token, .validated)
  | .tokenInvalidated token reason _ => some (token, .invalidated reason)
  | .windowChanged .. => none
  | .workspaceChanged .. => none

/-- A notification handed to `conn.send`. -/
structure Notified where
  /-- The connection it was handed to. -/
  conn : RpcConnection
  /-- The token entry it is about. This is not on the wire. -/
  about : Option ℕ
  note : Notification
  deriving DecidableEq, Repr

/-- The error a method throws. -/
structure RpcError where
  code : ℤ
  message : JsString
  deriving DecidableEq, Repr

/-- A `-32602` Invalid params error with the consistent message prefix. -/
def invalidParams (message : JsString) : RpcError := ⟨-32602, js "invalid params: " ++ message⟩

/-- A text in double quotes, as the error messages quote tokens and names. -/
def quoted (s : JsString) : JsString := [34] ++ s ++ [34]

end KwinApi
