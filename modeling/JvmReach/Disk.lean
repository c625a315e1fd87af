import JvmReach.Analysis
import JvmReach.Files.Zip

/-!
# Files on disk

An analysis works on a file system that is a value. Before it starts, the parts
of the disk that it can look at are read: the target, the class path, and what
the manifests of archives refer to. Locations are those of the disk, so relative
and absolute paths lead to the same places.
-/

namespace JvmReach.Disk

open Files

/-- What stands at a place of the disk; directories come with their names. -/
inductive Place where
  | nothing
  | directory (names : List String)
  | file (content : Array UInt8)

def pathOf (location : Location) : String := "/" ++ "/".intercalate location

/-- Looks at a place. The content of a file is only read if it `isWanted`. -/
def look (location : Location) (isWanted : Bool) : IO Place := do
  try
    let path ← IO.FS.realPath (pathOf location)
    if ← path.isDir then
      return .directory ((← path.readDir).toList.map (·.fileName))
    else if isWanted then return .file (← IO.FS.readBinFile path).data
    else return .file #[]
  catch _ => return .nothing

def isLoadable (location : Location) : Bool :=
  match Path.extension? ⟨pathOf location⟩ with
  | some extension => extension == "class" || extension == "jar"
  | none => false

/-- Adds what stands at a location; of a directory, what is in it, if `isDeep`. -/
partial def addPlace (fs : FileSystem) (location : Location) (isDeep isWanted : Bool) :
    IO FileSystem := do
  match ← look location isWanted with
  | .nothing => return fs
  | .file content => return fs.add location (Zip.node ⟨pathOf location⟩ content)
  | .directory names =>
      let mut fs := if location = [] then fs else fs.addDirectory location
      if isDeep then
        for name in names do
          let inner := location ++ [name]
          fs ← addPlace fs inner true (isLoadable inner)
      return fs

def addPath (fs : FileSystem) (p : Path) (isDeep : Bool) : IO FileSystem := do
  let mut fs := fs
  let mut location := if p.isAbsolute then [] else fs.workingDirectory
  for piece in p.pieces do
    if piece = ".." then location := location.dropLast
    else if !Path.isFiller piece then
      location := location ++ [piece]
      fs ← addPlace fs location false false
  addPlace fs location isDeep isDeep

/-- Adds the paths in a queue and what their manifests refer to. -/
partial def addQueue (fs : FileSystem) (met : Std.ExtTreeSet Path) : List Path → IO FileSystem
  | [] => return fs
  | p :: rest => do
      if met.contains p ∨ FileSystem.maxPathSize < p.text.utf8ByteSize then addQueue fs met rest
      else
        let fs ← addPath fs p true
        let found :=
          match if p.isJar then Load.manifestClassPath fs p else .ok [] with
          | .ok paths => paths
          | .error _ => []
        addQueue fs (met.insert p) (rest ++ found)

/-- The parts of the disk that an analysis looks at. -/
def snapshot (r : CommandLine.Request) : IO FileSystem := do
  let current := (← IO.FS.realPath ".").toString
  let fs := FileSystem.empty ((Path.pieces ⟨current⟩).filter (!Path.isFiller ·))
  let fs ← addQueue fs ∅ (r.target :: r.classPath)
  addPath fs r.output.parent false

/-- Writes a report to a file or to the standard output. -/
def writeReport (fs : FileSystem) (output : Path) (report : Report) :
    IO (Except IoError Unit) := do
  if Analysis.isStandardOutput output then
    (← IO.getStdout).putStr report.render
    return .ok ()
  else
    try
      IO.FS.writeFile output.text report.render
      return .ok ()
    catch e =>
      match fs.write output report.render.toUTF8.data with
      | .error cause => return .error cause
      | .ok _ => return .error (.other (toString e))

end JvmReach.Disk
