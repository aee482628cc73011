import Relocation.Notice

/-!
Lines of the log: a notice with the part of the controller that it comes from.
-/

set_option autoImplicit false

namespace Relocation.Log

/-- The part of the controller that a line comes from. -/
inductive Part
  | program
  | mapper
  | reconciler
  deriving DecidableEq, Repr

def Part.target : Part → String
  | .program => "cluster_relocation_controller"
  | .mapper => "cluster_relocation_controller::controller::mapper"
  | .reconciler => "cluster_relocation_controller::controller::reconciler"

/-- A line of the log. -/
structure Line where
  part : Part
  level : Level
  message : String
  parts : List (String × NoticePart) := []
  deriving DecidableEq, Repr

def Line.ofNotice (part : Part) (n : Notice) : Line := ⟨part, n.level, n.message, n.parts⟩

def Line.info (part : Part) (message : String) : Line := ⟨part, .info, message, []⟩

def partText : NoticePart → String
  | .text s => s
  | .count n => n.repr

def Line.text (l : Line) : String :=
  l.level.text ++ " " ++ l.part.target ++ ": " ++ l.message ++
    String.join (l.parts.map fun p => " " ++ p.1 ++ "=" ++ partText p.2)

end Relocation.Log
