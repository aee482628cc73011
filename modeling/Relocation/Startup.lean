import Relocation.CommandLine.Arguments
import Relocation.Crd.Definitions
import Relocation.Json.Yaml
import Relocation.Log.Filter
import Relocation.Net.SocketAddress
import Relocation.Reconcile

/-!
How the controller starts: what keeps it from running, and what it says while it runs and stops
again.
-/

set_option autoImplicit false

namespace Relocation

open CommandLine (Arguments Environment Exit)
open Files (IoError)
open Net (SocketAddress)

/-- Why the controller does not run although its command line is right. -/
inductive StartError
  | settings (text : String)
  | noCluster (configFile : String) (cause : IoError)
  deriving DecidableEq, Repr

def Files.IoError.details : IoError → String
  | .system n => describe "Os" [("code", toString n), ("kind", IoError.systemKind n),
      ("message", Text.quoted (IoError.systemText n))]
  | e => describe "Custom" [("kind", "Other"), ("error", Text.quoted e.message)]

/-- The wording of what keeps the controller from running. Outside a cluster it needs a file that
says where the cluster is. -/
def StartError.message : StartError → String
  | .settings text => "Error: Configuration(" ++ Text.quoted text ++ ")\n"
  | .noCluster file cause => "Error: Kube(InferConfig(" ++
      describe "InferConfigError" [("in_cluster", "ReadEnvironmentVariable(NotPresent)"),
        ("kubeconfig",
          "ReadConfig(" ++ cause.details ++ ", " ++ Text.quoted file ++ ")")] ++ "))\n"

/-- The home directory of the administrator, as whom the controller runs. -/
def administratorHome : String := "/root"

/-- The file that says where the cluster is: the first that the environment lists, or the usual one
in the home directory. -/
def configFile (env : Environment) : String :=
  match (((env "KUBECONFIG").getD "").splitOn ":").filter fun p => !p.isEmpty with
  | file :: _ => file
  | [] => (env "HOME").getD administratorHome ++ "/.kube/config"

/-- How a start goes: it ends at once, or the controller runs. -/
inductive Start
  | ended (exit : Exit)
  | running (arguments : Arguments) (filter : Log.Filter)
  deriving DecidableEq, Repr

/-- How a start with arguments goes, in an environment and where files can or cannot be read. -/
def Start.of (arguments : List String) (env : Environment)
    (unreadable : String → Option IoError) : Start :=
  match Arguments.read arguments env with
  | .error stop => .ended (stop.exit env)
  | .ok a =>
    let directives := env "RUST_LOG"
    let failed (e : StartError) : Start := .ended
      { code := 1, complained := Log.Filter.complaints (directives.getD "") ++ e.message }
    match a.settings.missing with
    | [] =>
      match unreadable (configFile env) with
      | some cause => failed (.noCluster (configFile env) cause)
      | none => .running a (.forController directives a.logLevel)
    | names => failed (.settings (Settings.missingText names))

namespace Start

open Log (Line)

def banner (s : Settings) : List Line := [
  .info .program "Starting Cluster Relocation Controller",
  .info .program ("  Version: " ++ CommandLine.version),
  .info .program ("  Image server: " ++ s.serviceUrl),
  .info .program ("  Data directory: " ++ s.dataDir)]

/-- What is said when one of the servers does not run. -/
def serverFailed (title : String) (e : Error) : Line where
  part := .program
  level := .error
  message := title ++ " server error: " ++ e.message

/-- What is said about one of the servers, where addresses can or cannot be listened at. -/
def serverLines (title : String) (address : String) (refused : SocketAddress → Option IoError) :
    List Line :=
  match SocketAddress.ofText? address with
  | none => [serverFailed title (.configuration ("Invalid " ++ title.toLower ++
      " server address: invalid socket address syntax"))]
  | some a => .info .program (title ++ " server listening on " ++ a.text) ::
    match refused a with
    | none => []
    | some cause => [serverFailed title (.internal (title ++
        " server bind error: error creating server listener: " ++ cause.message))]

/-- A world in which every request to the store fails in the same way; it collects the notices. -/
def cutOff (e : Error) : Program.World (List Notice)
  | .store _, notices => (.error e, notices)
  | .file _, notices => (.error .notFound, notices)
  | .note n, notices => ((), notices ++ [n])

/-- What gets into the log of a run in which every request to the store fails, from its start until
it is stopped: there is nothing to reconcile. -/
def cutOffLog (a : Arguments) (f : Log.Filter) (e : Error)
    (refused : SocketAddress → Option IoError) : List Line :=
  let audit := (auditHostReferences.run (cutOff e) []).2
  let lines := banner a.settings ++ audit.map (Line.ofNotice .mapper) ++
    serverLines "Health" a.healthAddr refused ++ serverLines "Metrics" a.metricsAddr refused ++
    [.info .reconciler "Starting ClusterConfig controller",
      .info .reconciler "ClusterConfig controller stopped",
      .info .program "Controller shutdown complete"]
  lines.filter f.admits

end Start

/-- The run that prints the definition of configs for a cluster. -/
def printDefinition : Exit where
  code := 0
  printed := Json.Yaml.document Crd.clusterConfig.toValue

end Relocation
