import Relocation.Json.Writer

/-!
The YAML text of a JSON value in block style. A string stands without quotes where nothing in it
has a meaning to YAML.
-/

set_option autoImplicit false

namespace Relocation.Json.Yaml

/-- Whether a character can stand anywhere in a string without quotes. -/
def isSafe (c : Char) : Bool :=
  c.isAlphanum || c = ' ' || c = '_' || c = '-' || c = '.' || c = ',' || c = '/' || c = '(' ||
    c = ')' || c = '\'' || c = '`' || c = '+' || c = '~'

/-- Whether a character can stand at the start of a string without quotes. -/
def isSafeStart (c : Char) : Bool := c.isAlpha || c = '.' || c = '/' || c = '('

def words : List String := ["true", "false", "null", "yes", "no", "on", "off", "y", "n",
  ".nan", ".inf"]

/-- Whether a character can stand in the midst of a number. -/
def isNumeric (c : Char) : Bool := c.isDigit || c = '.' || c = 'e' || c = 'E' || c = '+' || c = '-'

def isPlain (s : String) : Bool :=
  match s.toList with
  | [] => false
  | c :: rest =>
    isSafeStart c && (c :: rest).all isSafe && (c :: rest).getLast? != some ' ' &&
      !words.contains s.toLower && !(c :: rest).all isNumeric

/-- A string as a scalar: plain, or between single quotes with each quote inside twice. -/
def scalar (s : String) : String :=
  if isPlain s then s
  else
    let inside := s.toList.flatMap fun c => if c = '\'' then ['\'', '\''] else [c]
    "'" ++ String.ofList inside ++ "'"

def indent (level : Nat) : String := String.ofList (List.replicate (2 * level) ' ')

mutual

/-- A value after a key or a dash: on the same line, or as lines below. The level is that of the
lines below for members; items stand one level less deep after a key. -/
def block (level : Nat) (inItem : Bool) : Value → String
  | .null => " null\n"
  | .bool b => (if b then " true" else " false") ++ "\n"
  | .number n => " " ++ String.ofList n.chars ++ "\n"
  | .string s => " " ++ scalar s ++ "\n"
  | .array [] => " []\n"
  | .array items =>
    if inItem then " " ++ itemLines level true items
    else "\n" ++ itemLines (level - 1) false items
  | .object [] => " \x7b\x7d\n"
  | .object members =>
    if inItem then " " ++ memberLines level true members
    else "\n" ++ memberLines level false members

/-- Items, each after a dash; the first may stand on a line that was begun. -/
def itemLines (level : Nat) (begun : Bool) : List Value → String
  | [] => ""
  | v :: rest =>
    (if begun then "" else indent level) ++ "-" ++ block (level + 1) true v ++
      itemLines level false rest

/-- Members, each after its key; the first may stand on a line that was begun. -/
def memberLines (level : Nat) (begun : Bool) : List (String × Value) → String
  | [] => ""
  | (k, v) :: rest =>
    (if begun then "" else indent level) ++ scalar k ++ ":" ++ block (level + 1) false v ++
      memberLines level false rest

end

def document (v : Value) : String :=
  match v with
  | .object (m :: ms) => memberLines 0 false (m :: ms)
  | .array (v :: vs) => itemLines 0 false (v :: vs)
  | v => String.ofList ((block 0 false v).toList.drop 1)

end Relocation.Json.Yaml
