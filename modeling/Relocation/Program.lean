import Relocation.Files.Tree
import Relocation.Notice
import Relocation.Objects.ClusterConfig
import Relocation.Objects.HostPatch
import Relocation.Objects.Secret

/-!
Programs of the controller: trees of single requests to the world, with one branch for every reply.
What the world is does not matter to a program; a world answers requests one at a time.
-/

set_option autoImplicit false

namespace Relocation

open Files (IoError Removal)

/-- A request to the store of the cluster. -/
inductive StoreCall
  | getConfig (key : ObjectKey)
  | listConfigs
  | patchFinalizers (key : ObjectKey) (version : Option String) (finalizers : List String)
  | getSecret (key : ObjectKey)
  | getHost (key : ObjectKey)
  | patchHost (key : ObjectKey) (version : Option String) (patch : HostPatch)

abbrev StoreCall.Result : StoreCall → Type
  | .getConfig _ => Option ClusterConfig
  | .listConfigs => List ClusterConfig
  | .patchFinalizers _ _ _ => Unit
  | .getSecret _ => Option Secret
  | .getHost _ => Option Host
  | .patchHost _ _ _ => Unit

/-- A single operation on files. -/
inductive FileCall
  | stat (path : Path)
  | makeDirs (path : Path)
  | openLock (path : Path)
  | tryLock (inode : Nat)
  | release (inode : Nat)
  | read (path : Path)
  | write (path : Path) (content : String)
  | planRemoval (path : Path)
  | remove (step : Removal)

abbrev FileCall.Result : FileCall → Type
  | .stat _ => Unit
  | .makeDirs _ => Unit
  | .openLock _ => Nat
  | .tryLock _ => Bool
  | .release _ => Unit
  | .read _ => String
  | .write _ _ => Unit
  | .planRemoval _ => List Removal
  | .remove _ => Unit

/-- A request to the world. -/
inductive Request
  | store (call : StoreCall)
  | file (call : FileCall)
  | note (notice : Notice)

abbrev Request.Reply : Request → Type
  | .store call => Except Error call.Result
  | .file call => Except IoError call.Result
  | .note _ => Unit

/-- A program: finished, or one request and what follows each reply. -/
inductive Program (α : Type) : Type
  | done (result : Except Error α)
  | ask (request : Request) (next : request.Reply → Program α)

namespace Program

variable {α β : Type}

/-- One program after another; the first error ends both. -/
def bind : Program α → (α → Program β) → Program β
  | .done (.ok a), f => f a
  | .done (.error e), _ => .done (.error e)
  | .ask q next, f => .ask q fun r => (next r).bind f

instance : Monad Program where
  pure a := .done (.ok a)
  bind := bind

def fail (e : Error) : Program α := .done (.error e)

/-- A program with its result as it comes, error or not. -/
def attempt : Program α → Program (Except Error α)
  | .done r => .done (.ok r)
  | .ask q next => .ask q fun r => (next r).attempt

def ofExcept (r : Except Error α) : Program α := .done r

def store (call : StoreCall) : Program call.Result := .ask (.store call) .done

def file (call : FileCall) (wrap : IoError → Error := .io) : Program call.Result :=
  .ask (.file call) fun r => .done (r.mapError wrap)

def tryFile (call : FileCall) : Program (Except IoError call.Result) :=
  .ask (.file call) fun r => .done (.ok r)

def note (notice : Notice) : Program Unit := .ask (.note notice) fun _ => .done (.ok ())

/-- A world: how it answers a request and what becomes of it. -/
abbrev World (σ : Type) := (request : Request) → σ → request.Reply × σ

def run {σ : Type} (world : World σ) : Program α → σ → Except Error α × σ
  | .done r, s => (r, s)
  | .ask q next, s =>
    let (reply, s') := world q s
    (next reply).run world s'

end Program

end Relocation
