import Relocation.Log.Line

/-!
Which lines get into the log. A filter is a list of directives, each a limit for the targets that
begin in a certain way; for a target the longest such beginning counts.
-/

set_option autoImplicit false

namespace Relocation.Log

/-- How much gets into the log, from nothing (0) over errors alone (1) to all (5). -/
abbrev Limit := Nat

/-- The least limit that lets a level into the log. -/
def rank : Level → Limit
  | .error => 1
  | .warn => 2
  | .info => 3
  | .debug => 4
  | .trace => 5

/-- A number in decimal digits, perhaps after a plus sign. -/
def count? (s : String) : Option Nat :=
  let digits := match s.toList with
    | '+' :: cs => cs
    | cs => cs
  if !digits.isEmpty && digits.all Char.isDigit then
    some (digits.foldl (fun n c => 10 * n + (c.toNat - 48)) 0)
  else none

/-- A limit by its name, in letters of either case, or by its number. -/
def limitOf? (s : String) : Option Limit :=
  match count? s with
  | some n => if n ≤ 5 then some n else none
  | none =>
    match s.toLower with
    | "off" => some 0
    | "error" => some 1
    | "warn" => some 2
    | "info" => some 3
    | "debug" => some 4
    | "trace" => some 5
    | _ => none

/-- A limit for the targets that begin with a text. One that names spans counts only inside them. -/
structure Directive where
  beginning : String
  spans : Bool := false
  limit : Limit
  deriving DecidableEq, Repr

/-- Why a text is no directive. -/
inductive DirectiveFault
  | form
  | limit
  deriving DecidableEq, Repr

def DirectiveFault.message : DirectiveFault → String
  | .form => "invalid filter directive"
  | .limit => "error parsing level filter: expected one of \"off\", \"error\", \"warn\", " ++
      "\"info\", \"debug\", \"trace\", or a number 0-5"

namespace Directive

def canStart (c : Char) : Bool :=
  c.isAlphanum || c = '_' || c = ':' || c = '-' || 128 ≤ c.toNat

/-- The limit after an equals sign; an empty one lets all in. -/
def limitAfter (cs : List Char) : Except DirectiveFault Limit :=
  if cs.isEmpty then .ok 5
  else match limitOf? (String.ofList cs) with
    | some limit => .ok limit
    | none => .error .limit

/-- What may stand after the brackets around spans: nothing, or a limit. -/
def afterSpans (beginning : String) : List Char → Except DirectiveFault Directive
  | [] => .ok ⟨beginning, true, 5⟩
  | '=' :: cs => do return ⟨beginning, true, ← limitAfter cs⟩
  | _ => .error .form

/-- A directive from the bracket on that names spans: a name, or a name and fields in braces. -/
def ofSpans (beginning : String) (cs : List Char) : Except DirectiveFault Directive :=
  match cs.dropWhile fun c => c ≠ ']' ∧ c ≠ '\x7b' with
  | ']' :: rest => afterSpans beginning rest
  | _ :: fields =>
    if (fields.takeWhile (· ≠ '\x7d')).isEmpty then .error .form
    else match fields.dropWhile (· ≠ '\x7d') with
      | '\x7d' :: ']' :: rest => afterSpans beginning rest
      | _ => .error .form
  | [] => .error .form

/-- A directive from its text: a limit, a beginning, or both with an equals sign between; names of
spans may stand after the beginning. Without a limit all is let in. -/
def ofText (s : String) : Except DirectiveFault Directive :=
  match s.toList with
  | [] => .error .form
  | '[' :: cs => ofSpans "" cs
  | c :: cs =>
    if !canStart c then .error .form
    else
      let name := String.ofList ((c :: cs).takeWhile fun c => c ≠ '=' ∧ c ≠ '[')
      match (c :: cs).dropWhile fun c => c ≠ '=' ∧ c ≠ '[' with
      | '=' :: rest => do return ⟨name, false, ← limitAfter rest⟩
      | _ :: rest => ofSpans name rest
      | [] =>
        match limitOf? name with
        | some limit => .ok ⟨"", false, limit⟩
        | none => .ok ⟨name, false, 5⟩

end Directive

/-- The directives in force, at most one for each beginning. -/
abbrev Filter := List Directive

namespace Filter

/-- Puts a directive in the place of one with the same beginning. -/
def put (f : Filter) (d : Directive) : Filter :=
  f.filter (fun e => e.beginning != d.beginning) ++ [d]

def pieces (s : String) : List String := (s.splitOn ",").filter fun p => !p.isEmpty

/-- The filter of a text; a piece that is no directive counts for nothing, and no line of the log
comes from inside a span. -/
def ofText (s : String) : Filter :=
  let directives := (pieces s).filterMap fun p => (Directive.ofText p).toOption
  (directives.filter (!·.spans)).foldl put []

/-- What is said of the pieces that are no directives. -/
def complaints (s : String) : String :=
  String.join <| (pieces s).map fun p =>
    match Directive.ofText p with
    | .ok _ => ""
    | .error fault => "ignoring `" ++ p ++ "`: " ++ fault.message ++ "\n"

/-- The directive with the longest beginning that fits a target. -/
def governing (f : Filter) (target : String) : Option Directive :=
  f.foldl (fun (best : Option Directive) d =>
    if d.beginning.toList.isPrefixOf target.toList then
      match best with
      | some b => if b.beginning.length ≤ d.beginning.length then some d else some b
      | none => some d
    else best) none

/-- Whether a line gets into the log. -/
def admits (f : Filter) (l : Line) : Bool :=
  match f.governing l.part.target with
  | some d => rank l.level ≤ d.limit
  | none => false

/-- The limit that the name of a level asks for, in letters of either case; any other text asks for
the usual one. -/
def levelLimit (s : String) : Limit :=
  match s.toLower with
  | "trace" => 5
  | "debug" => 4
  | "warn" => 2
  | "error" => 1
  | _ => 3

/-- The controller's filter: what the environment asks for, with the limit that the controller is
told, and little of the libraries it uses. -/
def forController (directives : Option String) (level : String) : Filter :=
  let own : List Directive := [⟨"", false, levelLimit level⟩, ⟨"hyper", false, 2⟩,
    ⟨"kube", false, 3⟩, ⟨"tower", false, 2⟩]
  own.foldl put (ofText (directives.getD ""))

end Filter

end Relocation.Log
