/-!
The flags that the controller understands: their names, the variables of the environment that stand
in for them, what they take, and the page that explains them.
-/

set_option autoImplicit false

namespace Relocation.CommandLine

def programName : String := "cluster-relocation-controller"

def version : String := "0.2.0"

/-- A flag. -/
inductive Flag
  | serviceName
  | serviceNamespace
  | servicePort
  | serviceScheme
  | dataDir
  | healthAddr
  | metricsAddr
  | logLevel
  | logJson
  | help
  | version
  deriving DecidableEq, Repr

/-- What follows a flag: a text, a path that is not empty, or nothing. -/
inductive Operand
  | text
  | path
  | nothing
  deriving DecidableEq, Repr

abbrev Environment := String → Option String

namespace Flag

def all : List Flag := [.serviceName, .serviceNamespace, .servicePort, .serviceScheme, .dataDir,
  .healthAddr, .metricsAddr, .logLevel, .logJson, .help, .version]

/-- The name of a flag, which stands after two dashes. -/
def name : Flag → String
  | .serviceName => "service-name"
  | .serviceNamespace => "service-namespace"
  | .servicePort => "service-port"
  | .serviceScheme => "service-scheme"
  | .dataDir => "data-dir"
  | .healthAddr => "health-addr"
  | .metricsAddr => "metrics-addr"
  | .logLevel => "log-level"
  | .logJson => "log-json"
  | .help => "help"
  | .version => "version"

/-- The letter of a flag, which stands after one dash. -/
def letter : Flag → Option Char
  | .help => some 'h'
  | .version => some 'V'
  | _ => none

def operand : Flag → Operand
  | .logJson | .help | .version => .nothing
  | .dataDir => .path
  | _ => .text

def purpose : Flag → String
  | .serviceName => "Name of the Service fronting the image server"
  | .serviceNamespace => "Namespace of the image server Service"
  | .servicePort => "Port of the image server Service"
  | .serviceScheme => "URL scheme of the image server (http or https)"
  | .dataDir => "Root directory for exported data"
  | .healthAddr => "Health server bind address"
  | .metricsAddr => "Metrics server bind address"
  | .logLevel => "Log level (trace, debug, info, warn, error)"
  | .logJson => "Output logs as JSON"
  | .help => "Print help"
  | .version => "Print version"

def preset : Flag → Option String
  | .serviceName | .serviceNamespace | .serviceScheme => some ""
  | .dataDir => some "/data"
  | .healthAddr => some "0.0.0.0:8081"
  | .metricsAddr => some "0.0.0.0:8080"
  | .logLevel => some "info"
  | _ => none

/-- The name of a flag in capitals: the name of its variable and of its value. -/
def capitals (f : Flag) : String :=
  String.ofList (f.name.toList.map fun c => if c = '-' then '_' else c.toUpper)

/-- The variable of the environment that stands in for a flag. -/
def variableName? : Flag → Option String
  | .help | .version => none
  | f => some f.capitals

def text (f : Flag) : String :=
  match f.operand with
  | .nothing => "--" ++ f.name
  | _ => "--" ++ f.name ++ " <" ++ f.capitals ++ ">"

def ofName? (name : String) : Option Flag := all.find? (·.name == name)

def ofLetter? (c : Char) : Option Flag := all.find? (·.letter == some c)

def helpLines (env : Environment) (f : Flag) : String :=
  let lead := match f.letter with
    | some c => String.ofList ['-', c] ++ ", "
    | none => "    "
  let stand := match f.variableName? with
    | some v => " [env: " ++ v ++ "=" ++ (env v).getD "" ++ "]"
    | none => ""
  let otherwise := match f.preset with
    | some "" => " [default: \"\"]"
    | some v => " [default: " ++ v ++ "]"
    | none => ""
  "  " ++ lead ++ f.text ++ "\n          " ++ f.purpose ++ stand ++ otherwise ++ "\n"

end Flag

/-- The usage line that names some flags, or that any may be given. -/
def usage (flags : List Flag) : String :=
  "Usage: " ++ programName ++
    match flags with
    | [] => " [OPTIONS]"
    | fs => String.join (fs.map fun f => " " ++ f.text)

/-- The page that explains the controller and its flags. -/
def helpPage (env : Environment) : String :=
  "Controller that exports ClusterConfig relocation data and boots BareMetalHosts from the " ++
    "generated image\n\n" ++ usage [] ++ "\n\nOptions:\n" ++
    String.join (Flag.all.map (Flag.helpLines env))

end Relocation.CommandLine
