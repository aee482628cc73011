import Relocation.Program

/-!
How a tree of files answers the operations of a program.
-/

set_option autoImplicit false

namespace Relocation.Files

/-- The mode of a directory of an export: nobody else may look into it. -/
def privateDirMode : Nat := 0o700

def lockFileMode : Nat := 0o600

def artifactMode : Nat := 0o644

namespace FileSystem

/-- A change that may fail, as a reply and the tree afterwards. -/
def commit (fs : FileSystem) : Except IoError FileSystem → Except IoError Unit × FileSystem
  | .ok after => (.ok (), after)
  | .error e => (.error e, fs)

/-- Answers a file operation. -/
def answer : (call : FileCall) → FileSystem → Except IoError call.Result × FileSystem
  | .stat p, fs => (fs.stat p, fs)
  | .makeDirs p, fs => fs.makeDirs privateDirMode p
  | .openLock p, fs =>
    match fs.openFile lockFileMode p with
    | .ok (inode, after) => (.ok inode, after)
    | .error e => (.error e, fs)
  | .tryLock inode, fs => ((.ok (fs.tryLock inode).1), (fs.tryLock inode).2)
  | .release inode, fs => (.ok (), fs.release inode)
  | .read p, fs => (fs.readFile p, fs)
  | .write p content, fs => fs.commit (fs.writeFile artifactMode p content)
  | .planRemoval p, fs => (fs.planRemoval p, fs)
  | .remove step, fs => fs.commit (fs.remove step)

end FileSystem

end Relocation.Files
