import Relocation.Program

/-!
The cluster behind its HTTP interface: which request every store call becomes, and what the
response to it means. Writes are merge patches.
-/

set_option autoImplicit false

namespace Relocation.Store

open Json

/-- A request to the interface of the cluster. -/
structure ApiRequest where
  verb : String
  target : String
  contentType : Option String
  body : String
  deriving DecidableEq, Repr

/-- A response, or the text of a failure to get one. -/
inductive ApiResponse
  | answered (status : Nat) (body : String)
  | failed (text : String)
  deriving DecidableEq, Repr

/-- The content type of a merge patch. -/
def mergePatchType : String := "application/merge-patch+json"

def getRequest (target : String) : ApiRequest := ⟨"GET", target, none, ""⟩

def patchRequest (target : String) (patch : Value) : ApiRequest :=
  ⟨"PATCH", target ++ "?", some mergePatchType, patch.text⟩

def configTarget (key : ObjectKey) : String :=
  "/apis/" ++ ClusterConfig.apiVersion ++ "/namespaces/" ++ key.space ++ "/clusterconfigs/" ++
    key.name

def hostTarget (key : ObjectKey) : String :=
  "/apis/" ++ Host.apiVersion ++ "/namespaces/" ++ key.space ++ "/baremetalhosts/" ++ key.name

def secretTarget (key : ObjectKey) : String :=
  "/api/v1/namespaces/" ++ key.space ++ "/secrets/" ++ key.name

/-- The patch that replaces the finalizers of a config. -/
def finalizersPatch (version : Option String) (finalizers : List String) : Value :=
  .object (member "metadata" (.object (member "finalizers" (listValue .string finalizers) ++
    optionalMember "resourceVersion" .string version)))

/-- The request of a store call, before its target is looked at. -/
def requestOf : StoreCall → ApiRequest
  | .getConfig key => getRequest (configTarget key)
  | .listConfigs => getRequest ("/apis/" ++ ClusterConfig.apiVersion ++ "/clusterconfigs?")
  | .patchFinalizers key version finalizers =>
    patchRequest (configTarget key) (finalizersPatch version finalizers)
  | .getSecret key => getRequest (secretTarget key)
  | .getHost key => getRequest (hostTarget key)
  | .patchHost key version patch => patchRequest (hostTarget key) (patch.toMergePatch version)

/-- Whether a character may stand in the path of a target. -/
def isPathChar (c : Char) : Bool :=
  let n := c.toNat
  n == 0x21 || n == 0x22 || (0x24 ≤ n && n ≤ 0x3b) || n == 0x3d || (0x40 ≤ n && n ≤ 0x5f) ||
    (0x61 ≤ n && n ≤ 0x7e)

/-- Whether a character may stand in the query of a target. -/
def isQueryChar (c : Char) : Bool :=
  let n := c.toNat
  n == 0x21 || (0x24 ≤ n && n ≤ 0x3b) || n == 0x3d || (0x3f ≤ n && n ≤ 0x7e)

/-- The query as far as it counts: up to a `#`. -/
def checkQuery : List Char → Except ApiError (List Char)
  | [] => .ok []
  | c :: rest =>
    if c = '#' then .ok []
    else if isQueryChar c then (checkQuery rest).map (c :: ·)
    else .error .addressCharacter

/-- The path and the query as far as they count: up to a `#`. -/
def checkPath : List Char → Except ApiError (List Char)
  | [] => .ok []
  | c :: rest =>
    if c = '#' then .ok []
    else if c = '?' then (checkQuery rest).map (c :: ·)
    else if isPathChar c then (checkPath rest).map (c :: ·)
    else .error .addressCharacter

def maxTarget : Nat := 65534

/-- A target as it is sent. -/
def checkTarget (target : String) : Except ApiError String :=
  if maxTarget < Text.byteCount target.toList then .error .addressTooLong
  else (checkPath target.toList).map String.ofList

/-- The request of a store call, if its target can be sent. -/
def sendable (call : StoreCall) : Except ApiError ApiRequest :=
  let request := requestOf call
  (checkTarget request.target).map fun target => { request with target }

/-- The usual names of the status codes that report an error. -/
def statusNames : List (Nat × String) := [
  (400, "Bad Request"), (401, "Unauthorized"), (402, "Payment Required"), (403, "Forbidden"),
  (404, "Not Found"), (405, "Method Not Allowed"), (406, "Not Acceptable"),
  (407, "Proxy Authentication Required"), (408, "Request Timeout"), (409, "Conflict"),
  (410, "Gone"), (411, "Length Required"), (412, "Precondition Failed"),
  (413, "Payload Too Large"), (414, "URI Too Long"), (415, "Unsupported Media Type"),
  (416, "Range Not Satisfiable"), (417, "Expectation Failed"), (418, "I'm a teapot"),
  (421, "Misdirected Request"), (422, "Unprocessable Entity"), (423, "Locked"),
  (424, "Failed Dependency"), (426, "Upgrade Required"), (428, "Precondition Required"),
  (429, "Too Many Requests"), (431, "Request Header Fields Too Large"),
  (451, "Unavailable For Legal Reasons"), (500, "Internal Server Error"),
  (501, "Not Implemented"), (502, "Bad Gateway"), (503, "Service Unavailable"),
  (504, "Gateway Timeout"), (505, "HTTP Version Not Supported"),
  (506, "Variant Also Negotiates"), (507, "Insufficient Storage"), (508, "Loop Detected"),
  (510, "Not Extended"), (511, "Network Authentication Required")]

def statusText (status : Nat) : String :=
  status.repr ++ " " ++ (statusNames.lookup status).getD "<unknown status code>"

def codeDecoder : Decoder UInt16
  | .number (.int n h) =>
    if 0 ≤ n ∧ n < 0x10000 then .ok (UInt16.ofNat n.toNat)
    else .error (.value (.number (.int n h)) "u16")
  | s => mismatch s "u16"

def refusalForm : RecordForm Refusal :=
  let status := Field.required "status" Decoder.string
  let message := Field.defaulted "message" Decoder.string ""
  let reason := Field.defaulted "reason" Decoder.string ""
  let code := Field.required "code" codeDecoder
  { title := "struct ErrorResponse"
    known := [status.known, message.known, reason.known, code.known]
    build := fun ms => return {
      status := ← status.take ms
      message := ← message.take ms
      reason := ← reason.take ms
      code := ← code.take ms } }

/-- What is known of a list besides its items; only its shape is looked at. -/
def listMetaForm : RecordForm Unit :=
  let next := Field.optional "continue" Decoder.string
  let remaining := Field.optional "remainingItemCount" Decoder.int64
  let version := Field.optional "resourceVersion" Decoder.string
  let link := Field.optional "selfLink" Decoder.string
  { title := "ListMeta"
    style := .loose
    known := [next.known, remaining.known, version.known, link.known]
    build := fun _ => return () }

def configListForm : RecordForm (List ClusterConfig) :=
  let metadata := Field.required "metadata" listMetaForm.decode
  let items := Field.required "items" (Decoder.list ClusterConfig.form.decode)
  { title := "struct ObjectList"
    style := .embracing
    known := [metadata.known, items.known]
    build := fun ms => do
      let () ← metadata.take ms
      items.take ms }

/-- The refusal that an error response stands for: its own words if they can be read. -/
def refusalOf (status : Nat) (body : String) : Refusal :=
  match refusalForm.decode.ofText body with
  | .ok r => r
  | .error _ =>
    { status := statusText status
      message := Text.quoted body
      reason := "Failed to parse error data"
      code := UInt16.ofNat status }

def objectOf {α : Type} (form : RecordForm α) : ApiResponse → Except ApiError α
  | .failed text => .error (.transport text)
  | .answered status body =>
    if 400 ≤ status ∧ status < 600 then .error (.refused (refusalOf status body))
    else
      match form.decode.ofText body with
      | .ok x => .ok x
      | .error _ => .error .undecodable

/-- The reason of a refusal by which an object is known to be absent. -/
def absentReason : String := "NotFound"

/-- The object of a response, or none when the response says that there is none. -/
def optionalOf {α : Type} (form : RecordForm α) (response : ApiResponse) :
    Except Error (Option α) :=
  match objectOf form response with
  | .ok x => .ok (some x)
  | .error (.refused r) =>
    if r.reason = absentReason then .ok none else .error (.api (.refused r))
  | .error e => .error (.api e)

/-- The end of a patch: a refusal with code 409 is a conflict. -/
def patchedOf {α : Type} (form : RecordForm α) (kind : String) (key : ObjectKey)
    (response : ApiResponse) : Except Error Unit :=
  match objectOf form response with
  | .ok _ => .ok ()
  | .error (.refused r) =>
    .error (if r.code = 409 then .conflict kind key.text else .api (.refused r))
  | .error e => .error (.api e)

/-- What a response means for the call that it answers. -/
def resultOf : (call : StoreCall) → ApiResponse → Except Error call.Result
  | .getConfig _, r => optionalOf ClusterConfig.form r
  | .listConfigs, r => (objectOf configListForm r).mapError .api
  | .patchFinalizers key _ _, r => patchedOf ClusterConfig.form "ClusterConfig" key r
  | .getSecret _, r => optionalOf Secret.form r
  | .getHost _, r => optionalOf Host.form r
  | .patchHost key _ _, r => patchedOf Host.form "BareMetalHost" key r

end Relocation.Store
