import Relocation.Startup

/-!
The command line. Started under the name of the generator it prints the definition of configs,
otherwise it starts the controller. There is no connection to a cluster in it, so that a run of the
controller finds every request refused, and ends.
-/

set_option autoImplicit false

namespace Relocation.Main

open CommandLine (Environment Exit Flag)
open Files (IoError)

def variableNames : List String :=
  Flag.all.filterMap Flag.variableName? ++ ["KUBECONFIG", "HOME", "RUST_LOG"]

def environment : IO Environment := do
  let known ← variableNames.mapM fun v => return (v, ← IO.getEnv v)
  return fun v => (known.lookup v).join

def unreadable (path : String) : IO (Option IoError) := do
  match ← (IO.FS.readFile path).toBaseIO with
  | .ok _ => return none
  | .error (.noFileOrDirectory _ number _) | .error (.permissionDenied _ number _)
  | .error (.inappropriateType _ number _) => return some (.system number.toNat)
  | .error e => return some (.custom (toString e))

def finish (e : Exit) : IO UInt32 := do
  (← IO.getStdout).putStr e.printed
  (← IO.getStderr).putStr e.complained
  return e.code.toUInt32

/-- Starts the controller. -/
def start (arguments : List String) : IO UInt32 := do
  let env ← environment
  let fault ← unreadable (configFile env)
  match Start.of arguments env fun _ => fault with
  | .ended e => finish e
  | .running a filter =>
    let refusal := Error.api (.unreachable (.system 101))
    for l in Start.cutOffLog a filter refusal fun _ => none do
      IO.println l.text
    return 0

end Relocation.Main

/-- Prints the definition of configs, or starts the controller. -/
def main (arguments : List String) : IO UInt32 := do
  if (← IO.appPath).fileName = some "crdgen" then
    Relocation.Main.finish Relocation.printDefinition
  else
    Relocation.Main.start arguments
