import Relocation.CommandLine.Flag

/-!
Faults of a command line by their cause, with their wording.
-/

set_option autoImplicit false

namespace Relocation.CommandLine

/-- What is wrong with a command line. The flags of some faults are those given so far. -/
inductive UsageError
  | unknown (argument : String) (similar : Option Flag) (given : List Flag)
  | valueMissing (flag : Flag)
  | valueInvalid (flag : Flag) (value : String) (similar : Option String)
  | valueUnwanted (flag : Flag) (value : String) (given : List Flag)
  | repeated (flag : Flag)
  deriving DecidableEq, Repr

def switchValues : List String := ["true", "false"]

/-- The list of values that a flag can have, where there are few. -/
def choices (f : Flag) : String :=
  match f.operand with
  | .nothing => "\n  [possible values: " ++ ", ".intercalate switchValues ++ "]"
  | _ => ""

def hint (kind name : String) : String :=
  "\n\n  tip: a similar " ++ kind ++ " exists: '" ++ name ++ "'"

/-- A list of flags with one more at its end, unless it is in it. -/
def withFlag (flags : List Flag) (f : Flag) : List Flag :=
  if flags.contains f then flags else flags ++ [f]

namespace UsageError

/-- What a fault is, with the hints and the usage line that go with it. -/
def description : UsageError → String
  | .unknown argument none given =>
    "unexpected argument '" ++ argument ++ "' found\n\n" ++ usage given
  | .unknown argument (some f) given =>
    "unexpected argument '" ++ argument ++ "' found" ++ hint "argument" ("--" ++ f.name) ++
      "\n\n" ++ usage (withFlag given f)
  | .valueMissing f =>
    "a value is required for '" ++ f.text ++ "' but none was supplied" ++ choices f
  | .valueInvalid f value similar =>
    "invalid value '" ++ value ++ "' for '" ++ f.text ++ "'" ++ choices f ++
      (similar.map (hint "value")).getD ""
  | .valueUnwanted f value given =>
    "unexpected value '" ++ value ++ "' for '" ++ f.text ++ "' found; no more were expected\n\n" ++
      usage (withFlag given f)
  | .repeated f =>
    "the argument '" ++ f.text ++ "' cannot be used multiple times\n\n" ++ usage []

def message (e : UsageError) : String :=
  "error: " ++ e.description ++ "\n\nFor more information, try '--help'.\n"

end UsageError

end Relocation.CommandLine
