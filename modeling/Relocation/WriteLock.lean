import Relocation.Program

/-!
The write lock of a directory: an exclusive lock on a file inside it, taken without waiting.
-/

set_option autoImplicit false

namespace Relocation

/-- The name of the file that is locked. -/
def lockFileName : String := ".lock"

/-- Tries to lock a directory; gives the number of the locked file, or none when another holds
it. -/
def tryWriteLock (dir : Path) : Program (Option Nat) := do
  let inode ← Program.file (.openLock (dir.join lockFileName)) (.lock dir.text)
  let free ← Program.file (.tryLock inode) (.lock dir.text)
  return if free then some inode else none

/-- Runs an action while a directory is locked. Gives none, and does not start the action, when
another holds the lock; the lock is given back whatever the action comes to. -/
def withWriteLock {α : Type} (dir : Path) (action : Program α) : Program (Option α) := do
  match ← tryWriteLock dir with
  | none => return none
  | some inode =>
    let result ← action.attempt
    let _ ← Program.tryFile (.release inode)
    match result with
    | .ok a => return some a
    | .error e => Program.fail e

end Relocation
