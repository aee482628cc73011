/-!
Paths as they are written: parts between slashes, from the root or from the working directory.
-/

set_option autoImplicit false

namespace Relocation

/-- The pieces of a text between slashes, at least one. -/
def splitSlashes : List Char → List (List Char)
  | [] => [[]]
  | c :: rest =>
    if c = '/' then [] :: splitSlashes rest
    else
      match splitSlashes rest with
      | [] => [[c]]
      | piece :: pieces => (c :: piece) :: pieces

/-- A path: whether it starts at the root, and its parts, of which some may be empty. -/
structure Path where
  absolute : Bool
  parts : List String
  deriving DecidableEq, Repr, Inhabited

namespace Path

def ofText (s : String) : Path :=
  match s.toList with
  | '/' :: rest => ⟨true, (splitSlashes rest).map String.ofList⟩
  | cs => ⟨false, (splitSlashes cs).map String.ofList⟩

def text (p : Path) : String := (if p.absolute then "/" else "") ++ "/".intercalate p.parts

/-- The path with more below it: an absolute text replaces the path, and an empty one leaves a slash
at its end. -/
def join (p : Path) (s : String) : Path :=
  let q := ofText s
  if q.absolute then q
  else
    let parts := if p.parts.getLast? = some "" then p.parts.dropLast else p.parts
    ⟨p.absolute, parts ++ q.parts⟩

end Path

end Relocation
