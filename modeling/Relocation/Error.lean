import Relocation.Files.IoError
import Relocation.Json.Decode

/-!
Errors of the controller by their cause, with their wording and what is to be done about them.
-/

set_option autoImplicit false

namespace Relocation

open Files (IoError)

/-- What the cluster's interface answers when it refuses a request. -/
structure Refusal where
  status : String
  message : String
  reason : String
  code : UInt16
  deriving DecidableEq, Repr, Inhabited

/-- Why a request to the cluster's interface has no usable answer. -/
inductive ApiError
  | refused (r : Refusal)
  | undecodable
  | transport (text : String)
  | unreachable (cause : IoError)
  | addressCharacter
  | addressTooLong
  deriving DecidableEq, Repr

def describe (title : String) (parts : List (String × String)) : String :=
  title ++ " \x7b " ++ ", ".intercalate (parts.map fun p => p.1 ++ ": " ++ p.2) ++ " \x7d"

def Refusal.text (r : Refusal) : String :=
  describe "ErrorResponse" [("status", Text.quoted r.status), ("message", Text.quoted r.message),
    ("reason", Text.quoted r.reason), ("code", r.code.toNat.repr)]

def ApiError.message : ApiError → String
  | .refused r => "ApiError: " ++ r.message ++ ": " ++ r.reason ++ " (" ++ r.text ++ ")"
  | .undecodable => "Error deserializing response"
  | .transport text => "ServiceError: " ++ text
  | .unreachable cause =>
    "HyperError: error trying to connect: tcp connect error: " ++ cause.message
  | .addressCharacter =>
    "Failed to build request: failed to build request: invalid uri character"
  | .addressTooLong => "Failed to build request: failed to build request: uri too long"

/-- An error of the controller, by its cause. -/
inductive Error
  | internal (text : String)
  | configuration (text : String)
  | api (cause : ApiError)
  | notFound (kind name : String)
  | conflict (kind name : String)
  | lock (path : String) (cause : IoError)
  | artifact (title : String) (cause : IoError)
  | serialization (cause : Json.DecodeError)
  | io (cause : IoError)
  deriving DecidableEq

/-- How soon to try again after an error. -/
inductive ErrorAction
  | backoff
  | after (milliseconds : Nat)
  | never
  deriving DecidableEq, Repr

/-- Milliseconds to wait after another writer was faster. -/
def conflictDelay : Nat := 1000

namespace Error

def message : Error → String
  | .internal text => "Internal error: " ++ text
  | .configuration text => "Configuration error: " ++ text
  | .api cause => "Kubernetes API error: " ++ cause.message
  | .notFound kind name => "Resource not found: " ++ kind ++ "/" ++ name
  | .conflict kind name => "Conflict updating " ++ kind ++ "/" ++ name ++
    ": resource version changed"
  | .lock path cause => "Failed to acquire file lock on " ++ path ++ ": " ++ cause.message
  | .artifact title cause => "Failed to write " ++ title ++ ": " ++ cause.message
  | .serialization cause => "Serialization error: " ++ cause.message
  | .io cause => "IO error: " ++ cause.message

def label : Error → String
  | .internal _ => "internal"
  | .configuration _ => "configuration"
  | .api _ => "kube"
  | .notFound _ _ => "not_found"
  | .conflict _ _ => "conflict"
  | .lock _ _ => "lock"
  | .artifact _ _ => "artifact_write"
  | .serialization _ => "serialization"
  | .io _ => "io"

/-- What is to be done: what may pass is tried again ever more slowly, a conflict soon, and what
only a change of the object can mend is not tried again. -/
def action : Error → ErrorAction
  | .api _ | .notFound _ _ | .lock _ _ | .artifact _ _ | .io _ => .backoff
  | .conflict _ _ => .after conflictDelay
  | .configuration _ | .internal _ | .serialization _ => .never

def isRetryable (e : Error) : Bool := e.action != .never

/-- Whether the error says that an object does not exist. -/
def isNotFound : Error → Bool
  | .notFound _ _ => true
  | .api (.refused r) => r.code == 404
  | _ => false

end Error

end Relocation
