import JvmReach.Load.ClassPath

/-!
# Loading the inputs of an analysis

The target and each entry of the class path is a file or a directory. In a
directory all class files and archives are loaded, at any depth, in the order of
their paths; other files in it do not matter. A file given by itself has to be a
class file, an archive or a program model, told by its extension.

Only classes from the target are under analysis. The class path is ordered by
path and followed by the references of the target, if that is an archive; an
entry that is the target itself is not loaded again.
-/

namespace JvmReach.Load

open Files

/-- Loads a file that is no directory. Inside a directory, files of other kinds
are passed over. -/
def loadFile (fs : FileSystem) (isTarget isGiven : Bool) (p : Path) :
    Except LoadError Loaded :=
  match p.extension?, isGiven with
  | some "class", _ => loadClassFile fs p isTarget
  | some "jar", _ => loadArchive fs p isTarget
  | some "json", true => loadModel fs p isTarget
  | _, true => .error (.unsupportedFile p)
  | _, false => .ok {}

/-- Loads what a path leads to, in directories at most `depth` deep. -/
def loadWithin (fs : FileSystem) (isTarget : Bool) :
    Nat → Bool → Path → Except LoadError Loaded
  | 0, _, _ => .ok {}
  | depth + 1, isGiven, p =>
      if fs.isDirectory p then
        Loaded.collect (loadWithin fs isTarget depth false) (fs.children p)
      else loadFile fs isTarget isGiven p

/-- Loads a target or class path entry. Directories nest no deeper than there
are nodes. -/
def loadInput (fs : FileSystem) (isTarget : Bool) (p : Path) : Except LoadError Loaded :=
  loadWithin fs isTarget (fs.nodes.size + 2) true p

/-- The class path of a target, before expansion. -/
def givenClassPath (fs : FileSystem) (target : Path) (classPath : List Path) :
    Except LoadError (List Path) := do
  let referenced ← if target.isJar then manifestClassPath fs target else .ok []
  return sortPaths classPath ++ referenced

def loadInputs (fs : FileSystem) (target : Path) (classPath : List Path) :
    Except LoadError Loaded := do
  let own ← loadInput fs true target
  let entries ← expand fs (← givenClassPath fs target classPath)
  let libraries ← Loaded.collect (loadInput fs false) (entries.filter (!·.isSame target))
  return own ++ libraries

end JvmReach.Load
