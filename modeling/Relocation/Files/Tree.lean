import Relocation.Files.IoError
import Relocation.Files.Path
import Relocation.Table
import Relocation.Text.Utf8

/-!
A tree of files as a program sees it: directories, files and symbolic links below one root, and the
exclusive locks that are held on files. A lock belongs to the file itself, which has a number of its
own, and outlives the name under which the file was opened.
-/

set_option autoImplicit false

namespace Relocation.Files

/-- Where something stands: the names from the root down. -/
abbrev Location := List String

/-- What stands at a location. -/
inductive Entry
  | file (inode mode : Nat) (content : String)
  | directory (mode : Nat)
  | link (target : String)
  deriving DecidableEq, Repr

/-- What is taken away to remove a directory: things inside it, by location, or what a path
names. -/
inductive Removal
  | unlink (location : Location)
  | removeDir (location : Location)
  | unlinkPath (path : Path)
  | removeDirPath (path : Path)
  deriving DecidableEq, Repr

/-- The entries below the root, the number of the next file, and the files that are locked. -/
structure FileSystem where
  entries : Table Location Entry := .empty
  nextInode : Nat := 0
  held : List Nat := []
  deriving Inhabited

/-- Where the way along a path leads to: something, the place where something is missing (a slash
may follow), or a link to be followed with the rest of the way behind it. -/
inductive Halt
  | directory (location : Location)
  | file (location : Location) (inode mode : Nat) (content : String)
  | link (location : Location)
  | absent (location : Location) (slash : Bool)
  | detour (here : Location) (rest : List String)

def maxName : Nat := 255

/-- The least number of bytes that is too many for a path. -/
def pathLimit : Nat := 4096

def maxLinks : Nat := 40

namespace FileSystem

/-- Goes along names from a directory until the way ends or a link has to be followed. -/
def advance (fs : FileSystem) (followLast : Bool) (here : Location) :
    List String → Except IoError Halt
  | [] => .ok (.directory here)
  | name :: rest =>
    if name = "" ∨ name = "." then advance fs followLast here rest
    else if name = ".." then advance fs followLast here.dropLast rest
    else if maxName < Text.byteCount name.toList then .error .nameTooLong
    else
      match fs.entries.get? (here ++ [name]) with
      | none =>
        if rest.all (· = "") then .ok (.absent (here ++ [name]) (!rest.isEmpty))
        else .error .notFound
      | some (.directory _) => advance fs followLast (here ++ [name]) rest
      | some (.file inode mode content) =>
        if rest.isEmpty then .ok (.file (here ++ [name]) inode mode content)
        else .error .notDirectory
      | some (.link target) =>
        if rest.isEmpty && !followLast then .ok (.link (here ++ [name]))
        else
          let goal := Path.ofText target
          .ok (.detour (if goal.absolute then [] else here) (goal.parts ++ rest))

/-- Goes along names from a directory, through at most as many links as given. -/
def walk (fs : FileSystem) (followLast : Bool) : (links : Nat) → Location → List String →
    Except IoError Halt
  | 0, here, rest =>
    match fs.advance followLast here rest with
    | .ok (.detour _ _) => .error .tooManyLinks
    | r => r
  | links + 1, here, rest =>
    match fs.advance followLast here rest with
    | .ok (.detour here rest) => walk fs followLast links here rest
    | r => r

def checkPath (p : Path) : Except IoError Unit :=
  let cs := p.text.toList
  if cs.contains '\x00' then .error .nulInPath
  else if pathLimit ≤ Text.byteCount cs then .error .nameTooLong
  else if cs.isEmpty then .error .notFound
  else .ok ()

/-- What a path leads to; a link at its end is followed or not. -/
def resolve (fs : FileSystem) (followLast : Bool) (p : Path) : Except IoError Halt := do
  checkPath p
  fs.walk followLast maxLinks [] p.parts

/-- The parts of a path without empty ones at its end. -/
def trimSlashes (parts : List String) : List String :=
  (parts.reverse.dropWhile (· = "")).reverse

/-- What stands where a path names it, a link at its end not followed even before a slash. -/
def resolveName (fs : FileSystem) (p : Path) : Except IoError Halt := do
  checkPath p
  fs.walk false maxLinks [] (trimSlashes p.parts)

def lastName (p : Path) : String := (trimSlashes p.parts).getLast?.getD ""

/-- Whether a path ends in a name that something can be made or removed under. -/
def endsInName (p : Path) : Bool := lastName p != "" && lastName p != "." && lastName p != ".."

def stat (fs : FileSystem) (p : Path) : Except IoError Unit := do
  match ← fs.resolve true p with
  | .directory _ | .file _ _ _ _ => .ok ()
  | _ => .error .notFound

def isDirectory (fs : FileSystem) (p : Path) : Bool :=
  match fs.resolve true p with
  | .ok (.directory _) => true
  | _ => false

def place (fs : FileSystem) (location : Location) (entry : Entry) : FileSystem :=
  { fs with entries := fs.entries.insert location entry }

/-- The tree with a new file at a location. -/
def placeFile (fs : FileSystem) (location : Location) (mode : Nat) (content : String) :
    FileSystem :=
  { fs.place location (.file fs.nextInode mode content) with nextInode := fs.nextInode + 1 }

def makeDir (fs : FileSystem) (mode : Nat) (p : Path) : Except IoError FileSystem := do
  if endsInName p then
    match ← fs.resolveName p with
    | .absent location _ => .ok (fs.place location (.directory mode))
    | _ => .error .alreadyExists
  else
    fs.stat p
    .error .alreadyExists

/-- The parts of a path without those at its end that name nothing. -/
def trimParts (parts : List String) : List String :=
  (parts.reverse.dropWhile fun s => s = "" ∨ s = ".").reverse

/-- The directories above some parts, the nearest first. -/
def ancestors (absolute : Bool) : (fuel : Nat) → List String → List Path
  | 0, _ => []
  | fuel + 1, parts =>
    match trimParts (trimParts parts).dropLast with
    | [] => []
    | up => ⟨absolute, up⟩ :: ancestors absolute fuel up

/-- Makes a directory, and those above it (given the nearest first) as far as they are missing. -/
def makeDirsAlong (mode : Nat) (p : Path) : List Path → FileSystem →
    Except IoError Unit × FileSystem
  | [], fs =>
    match fs.makeDir mode p with
    | .ok fs' => (.ok (), fs')
    | .error e => (if fs.isDirectory p then .ok () else .error e, fs)
  | up :: above, fs =>
    match fs.makeDir mode p with
    | .ok fs' => (.ok (), fs')
    | .error e =>
      if e.isNotFound then
        match makeDirsAlong mode up above fs with
        | (.error e, fs) => (.error e, fs)
        | (.ok (), fs) =>
          match fs.makeDir mode p with
          | .ok fs' => (.ok (), fs')
          | .error e => (if fs.isDirectory p then .ok () else .error e, fs)
      else (if fs.isDirectory p then .ok () else .error e, fs)

/-- Makes a directory and those above it as far as they are missing. -/
def makeDirs (fs : FileSystem) (mode : Nat) (p : Path) : Except IoError Unit × FileSystem :=
  makeDirsAlong mode p (ancestors p.absolute p.parts.length p.parts) fs

/-- Opens a file, making an empty one if there is none, and gives its number. -/
def openFile (fs : FileSystem) (mode : Nat) (p : Path) : Except IoError (Nat × FileSystem) := do
  match ← fs.resolve true p with
  | .file _ inode _ _ => .ok (inode, fs)
  | .absent location false => .ok (fs.nextInode, fs.placeFile location mode "")
  | .directory _ | .absent _ true => .error .isDirectory
  | _ => .error .notFound

/-- Tries to lock a file, given by its number; says whether it was free. -/
def tryLock (fs : FileSystem) (inode : Nat) : Bool × FileSystem :=
  if fs.held.contains inode then (false, fs) else (true, { fs with held := inode :: fs.held })

def release (fs : FileSystem) (inode : Nat) : FileSystem := { fs with held := fs.held.erase inode }

def readFile (fs : FileSystem) (p : Path) : Except IoError String := do
  match ← fs.resolve true p with
  | .file _ _ _ content => .ok content
  | .directory _ => .error .isDirectory
  | _ => .error .notFound

/-- Writes a file: an existing one keeps its number and its mode, a new one gets the given mode. -/
def writeFile (fs : FileSystem) (mode : Nat) (p : Path) (content : String) :
    Except IoError FileSystem := do
  match ← fs.resolve true p with
  | .file location inode m _ => .ok (fs.place location (.file inode m content))
  | .absent location false => .ok (fs.placeFile location mode content)
  | .directory _ | .absent _ true => .error .isDirectory
  | _ => .error .notFound

/-- What stands below a location, the deeper and the later first. -/
def below (fs : FileSystem) (location : Location) : List (Location × Entry) :=
  (fs.entries.toList.filter fun e =>
    location.isPrefixOf e.1 && location.length < e.1.length).reverse

def hasBelow (fs : FileSystem) (location : Location) : Bool := !(fs.below location).isEmpty

def removalOf : Location × Entry → Removal
  | (location, .directory _) => .removeDir location
  | (location, _) => .unlink location

/-- What has to be taken away, and in which order, to remove the directory of a path. -/
def planRemoval (fs : FileSystem) (p : Path) : Except IoError (List Removal) := do
  match ← fs.resolve false p with
  | .link _ => .ok [.unlinkPath p]
  | .directory location => .ok ((fs.below location).map removalOf ++ [.removeDirPath p])
  | .file _ _ _ _ => .error .notDirectory
  | _ => .error .notFound

def unlink (fs : FileSystem) (location : Location) : Except IoError FileSystem :=
  match fs.entries.get? location with
  | none => .error .notFound
  | some (.directory _) => .error .isDirectory
  | some _ => .ok { fs with entries := fs.entries.erase location }

def removeDir (fs : FileSystem) (location : Location) : Except IoError FileSystem :=
  match fs.entries.get? location with
  | none => .error .notFound
  | some (.directory _) =>
    if fs.hasBelow location then .error .notEmpty
    else .ok { fs with entries := fs.entries.erase location }
  | some _ => .error .notDirectory

def remove (fs : FileSystem) : Removal → Except IoError FileSystem
  | .unlink location => fs.unlink location
  | .removeDir location => fs.removeDir location
  | .unlinkPath p => do
    match ← fs.resolveName p with
    | .link location | .file location _ _ _ => fs.unlink location
    | .directory _ => .error .isDirectory
    | _ => .error .notFound
  | .removeDirPath p => do
    if endsInName p then
      match ← fs.resolveName p with
      | .directory location => fs.removeDir location
      | .link _ | .file _ _ _ _ => .error .notDirectory
      | _ => .error .notFound
    else
      fs.stat p
      .error (if lastName p = "." then .invalidArgument else .notEmpty)

end FileSystem

end Relocation.Files
