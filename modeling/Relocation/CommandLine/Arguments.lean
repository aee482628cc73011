import Relocation.CommandLine.UsageError
import Relocation.Settings
import Relocation.Text.Similarity

/-!
Reading a command line: flags with their values in any order, then what the environment says of the
flags that were not given, then what holds otherwise.
-/

set_option autoImplicit false

namespace Relocation.CommandLine

/-- Why a command line asks for no run of the controller: it asks for help or for the version, or it
has a fault. -/
inductive Stop
  | help
  | version
  | fault (e : UsageError)
  deriving DecidableEq, Repr

/-- What was read so far: the flags given with their values, and the flag that stands last, which is
taken in only when it is known what follows it. -/
structure Reading where
  given : List (Flag × String) := []
  last : Option (Flag × Option String) := none
  deriving DecidableEq, Repr

namespace Reading

def flags (r : Reading) : List Flag := r.given.map (·.1)

/-- Takes a flag in with its value; the fault that this shows, if any. -/
def take (r : Reading) (f : Flag) (value : Option String) : Reading × Option UsageError :=
  match value with
  | none => (r, some (.valueMissing f))
  | some v =>
    if r.flags.contains f then (r, some (.repeated f))
    else
      let taken := { r with given := r.given ++ [(f, v)] }
      if f.operand = .path && v.isEmpty then (taken, some (.valueMissing f)) else (taken, none)

def settle (r : Reading) : Reading × Option UsageError :=
  match r.last with
  | none => (r, none)
  | some (f, value) => take { r with last := none } f value

def checked : Reading × Option UsageError → Except Stop Reading
  | (r, none) => .ok r
  | (_, some e) => .error (.fault e)

/-- Whether the flag that stands last waits for a value. -/
def waiting (r : Reading) : Option Flag :=
  match r.last with
  | some (f, none) => some f
  | _ => none

/-- Takes in a flag that nothing follows. Help and version end the reading. -/
def switch (r : Reading) (f : Flag) : Except Stop Reading := do
  let r ← checked r.settle
  match f with
  | .help => .error .help
  | .version => .error .version
  | f => checked (r.take f (some "true"))

/-- Takes in a name after two dashes, with the value that an equals sign ties to it. -/
def long (r : Reading) (name : String) (tied : Option String) : Except Stop Reading :=
  match Flag.ofName? name with
  | none =>
    let known := r.settle.1.flags
    .error (.fault (.unknown ("--" ++ name) (Text.mostAlike Flag.name name Flag.all) known))
  | some f =>
    match f.operand, tied with
    | .nothing, some v => .error (.fault (.valueUnwanted f v r.flags))
    | .nothing, none => r.switch f
    | _, some v => do checked ((← checked r.settle).take f (some v))
    | _, none => do return { (← checked r.settle) with last := some (f, none) }

def short (r : Reading) : List Char → Except Stop Reading
  | [] => .ok r
  | c :: rest =>
    match Flag.ofLetter? c with
    | none => .error (.fault (.unknown (String.ofList ['-', c]) none []))
    | some f => do short (← r.switch f) rest

end Reading

/-- What an argument looks like: the end of the flags, a flag by name with a tied value, flags by
letters, or anything else. -/
inductive Shape
  | endOfFlags
  | long (name : String) (tied : Option String)
  | short (letters : List Char)
  | other
  deriving DecidableEq, Repr

/-- The shape of an argument. One dash alone is no flag. -/
def Shape.of (argument : String) : Shape :=
  match argument.toList with
  | ['-', '-'] => .endOfFlags
  | '-' :: '-' :: cs =>
    let name := String.ofList (cs.takeWhile (· ≠ '='))
    match cs.dropWhile (· ≠ '=') with
    | [] => .long name none
    | _ :: value => .long name (some (String.ofList value))
  | '-' :: c :: cs => .short (c :: cs)
  | _ => .other

/-- Reads arguments to their end. After the end of the flags nothing is expected. -/
def Reading.arguments (r : Reading) : List String → Except Stop Reading
  | [] => checked r.settle
  | a :: rest =>
    match Shape.of a with
    | .endOfFlags =>
      match rest with
      | [] => checked r.settle
      | b :: _ => .error (.fault (.unknown b none []))
    | .long name tied => do arguments (← r.long name tied) rest
    | .short letters => do arguments (← r.short letters) rest
    | .other =>
      match r.waiting with
      | some f => arguments { r with last := some (f, some a) } rest
      | none => .error (.fault (.unknown a none []))

/-- Takes in what the environment says of flags that were not given. -/
def Reading.environment (env : Environment) (r : Reading) : List Flag → Except Stop Reading
  | [] => .ok r
  | f :: rest =>
    match f.variableName?.bind env with
    | none => environment env r rest
    | some v =>
      if r.flags.contains f then environment env r rest
      else if f.operand = .nothing && !switchValues.contains v then
        .error (.fault (if v.isEmpty then .valueMissing f
          else .valueInvalid f v (Text.mostAlike id v switchValues)))
      else do environment env (← checked (r.take f (some v))) rest

/-- What the controller is told when it is started. -/
structure Arguments where
  settings : Settings
  healthAddr : String
  metricsAddr : String
  logLevel : String
  logJson : Bool
  deriving DecidableEq, Repr

/-- The value of a flag: the one given, or the one that holds otherwise. -/
def Reading.value? (r : Reading) (f : Flag) : Option String :=
  match r.given.find? (·.1 == f) with
  | some (_, v) => some v
  | none => f.preset

def Reading.value (r : Reading) (f : Flag) : String := (r.value? f).getD ""

/-- What the controller is told by a command line and its environment. -/
def Arguments.read (arguments : List String) (env : Environment) : Except Stop Arguments := do
  let r ← ({} : Reading).arguments arguments
  let r ← r.environment env Flag.all
  return {
    settings := {
      serviceName := r.value .serviceName
      serviceNamespace := r.value .serviceNamespace
      servicePort := r.value? .servicePort
      serviceScheme := r.value .serviceScheme
      dataDir := r.value .dataDir }
    healthAddr := r.value .healthAddr
    metricsAddr := r.value .metricsAddr
    logLevel := r.value .logLevel
    logJson := r.value .logJson == "true" }

/-- How a run of a program ended: its code and what it printed. -/
structure Exit where
  code : UInt8
  printed : String := ""
  complained : String := ""
  deriving DecidableEq, Repr

/-- The end of a run that a command line does not ask for. -/
def Stop.exit (env : Environment) : Stop → Exit
  | .help => { code := 0, printed := helpPage env }
  | .version => { code := 0, printed := programName ++ " " ++ CommandLine.version ++ "\n" }
  | .fault e => { code := 2, complained := e.message }

end Relocation.CommandLine
