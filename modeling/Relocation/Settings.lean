import Relocation.Error
import Relocation.Text.Blank
import Relocation.Text.Percent
import Relocation.Objects.Key

/-!
Settings of the controller, fixed when it starts: where the image server is reached and where data
is exported to.
-/

set_option autoImplicit false

namespace Relocation

/-- The settings of the controller. -/
structure Settings where
  serviceName : String := ""
  serviceNamespace : String := ""
  servicePort : Option String := none
  serviceScheme : String := ""
  dataDir : String := "/data"
  deriving DecidableEq, Repr, Inhabited

namespace Settings

/-- The mandatory settings that are missing, by their names in order. -/
def missing (s : Settings) : List String :=
  ([("SERVICE_NAME", s.serviceName), ("SERVICE_NAMESPACE", s.serviceNamespace),
    ("SERVICE_SCHEME", s.serviceScheme)].filter fun p => Text.isBlankText p.2).map (·.1)

/-- What is said of mandatory settings that are missing. -/
def missingText (names : List String) : String := ", ".intercalate names ++ " must be set"

/-- Refuses settings in which a mandatory one is blank. -/
def validate (s : Settings) : Except Error Unit :=
  match s.missing with
  | [] => .ok ()
  | names => .error (.configuration (missingText names))

/-- The base address of the image server; an empty port counts as none. -/
def serviceUrl (s : Settings) : String :=
  let port := match s.servicePort with
    | none => ""
    | some p => if p.isEmpty then "" else ":" ++ p
  s.serviceScheme ++ "://" ++ s.serviceName ++ "." ++ s.serviceNamespace ++ port

end Settings

/-- A text without the slashes at its end. -/
def trimSlashes (s : String) : String :=
  String.ofList (s.toList.reverse.dropWhile (· = '/')).reverse

/-- The address at which the image server offers the image of a config. -/
def imageUrl (base : String) (key : ObjectKey) : String :=
  trimSlashes base ++ "/images/" ++ Text.Percent.encode key.space ++ "/" ++
    Text.Percent.encode key.name ++ ".iso"

end Relocation
