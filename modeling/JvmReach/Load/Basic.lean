import JvmReach.ClassFile.Load
import JvmReach.Document.Model
import JvmReach.Files.FileSystem
import JvmReach.Load.Manifest

/-!
# Loading single files

Classes come from class files, from archives, which hold one class file per
class, and from program models. What is loaded is a list of classes with the
files they came from. Overlays for other versions and module descriptions in an
archive are left out; its classes are ordered by the names of their entries. No
entry of an archive that is loaded may fail to open, nor may one that holds a class
fail while it is read.

A class of a model is under analysis if both the model and its place say so.
-/

namespace JvmReach.Load

open Files

inductive LoadError where
  | unsupportedFile (path : Path)
  | noClassPathEntry (path : Path)
  | unreadable (path : Path) (cause : IoError)
  | unopenable (path : Path) (cause : IoError)
  | notAnArchive (path : Path)
  | sealedEntry (path : Path)
  | unreadableEntry (path : Path) (entry : String) (cause : IoError)
  | badManifest (path : Path) (cause : IoError)
  | badClass (path : Path) (cause : ClassFile.ClassError)
  | badEntry (path : Path) (entry : String) (cause : ClassFile.ClassError)
  | badModel (path : Path) (cause : Json.DecodeError)

def LoadError.message : LoadError → String
  | unsupportedFile path => s!"unsupported input file: {path.text}"
  | noClassPathEntry path => s!"classpath entry not found: {path.text}"
  | unreadable path cause => s!"failed to read {path.text}: {cause.message}"
  | unopenable path cause => s!"failed to open {path.text}: {cause.message}"
  | notAnArchive path | sealedEntry path => s!"failed to read {path.text}"
  | unreadableEntry path entry cause => s!"failed to read {path.text}:{entry}: {cause.message}"
  | badManifest path cause => s!"failed to read manifest of {path.text}: {cause.message}"
  | badClass path cause => s!"failed to parse {path.text}: {cause.message}"
  | badEntry path entry cause => s!"failed to parse {path.text}:{entry}: {cause.message}"
  | badModel path cause =>
      s!"failed to parse program model {path.text}: {cause.path.text}: {cause.cause.message}"

/-- Classes in the order of loading, and the files they came from. -/
structure Loaded where
  artifacts : List Path := []
  classes : List ClassDef := []

namespace Loaded

instance : Append Loaded :=
  ⟨fun a b => ⟨a.artifacts ++ b.artifacts, a.classes ++ b.classes⟩⟩

/-- Everything that is loaded from each element in turn. -/
def collect {α : Type} (load : α → Except LoadError Loaded) : List α → Except LoadError Loaded
  | [] => .ok {}
  | a :: rest => do
      let first ← load a
      let others ← collect load rest
      return first ++ others

end Loaded

def loadClassFile (fs : FileSystem) (p : Path) (isTarget : Bool) : Except LoadError Loaded := do
  let content ← (fs.read p).mapError (.unreadable p)
  let c ← (ClassFile.load content isTarget).mapError (.badClass p)
  return ⟨[p], [c]⟩

/-- The archive at a path, which has to be there. -/
def openArchive (fs : FileSystem) (p : Path) : Except LoadError (List ArchiveEntry) := do
  match ← (fs.lookup p).mapError (.unopenable p) with
  | .archive archive => return archive.entries
  | _ => .error (.notAnArchive p)

def isClassEntry (entry : ArchiveEntry) : Bool :=
  entry.name.endsWith ".class" && !entry.name.endsWith "module-info.class" &&
    !entry.name.startsWith "META-INF/versions/"

/-- The class files in an archive, by increasing name. -/
def classEntries (entries : List ArchiveEntry) : List ArchiveEntry :=
  (entries.filter isClassEntry).mergeSort fun a b => decide (a.name ≤ b.name)

/-- The bytes of an entry of the archive at `p`, beside its name. -/
def readEntry (p : Path) (entry : ArchiveEntry) : Except LoadError (String × Array UInt8) :=
  match entry.content.read? with
  | none => .error (.sealedEntry p)
  | some read => (read.map (entry.name, ·)).mapError (.unreadableEntry p entry.name)

/-- Loads an archive whose entries all open, be they class files or not. The class
files are read before the first of them is decoded. -/
def loadArchive (fs : FileSystem) (p : Path) (isTarget : Bool) : Except LoadError Loaded := do
  let entries ← openArchive fs p
  if entries.any (·.content == .sealed) then .error (.sealedEntry p)
  else
    let files ← (classEntries entries).mapM (readEntry p)
    let classes ← files.mapM fun (name, content) =>
      (ClassFile.load content isTarget).mapError (.badEntry p name)
    return ⟨[p], classes⟩

/-- A class of a model as it is analysed: its line tables are put in order. -/
def prepare (isTarget : Bool) (c : ClassDef) : ClassDef :=
  { c with
    isTarget := c.isTarget && isTarget
    methods := c.methods.map fun m => { m with body? := m.body?.map Body.sortLines } }

theorem isTarget_prepare (isTarget : Bool) (c : ClassDef) :
    (prepare isTarget c).isTarget = (c.isTarget && isTarget) := rfl

def loadModel (fs : FileSystem) (p : Path) (isTarget : Bool) : Except LoadError Loaded := do
  let content ← (fs.read p).mapError (.unopenable p)
  let classes ← (Document.readModel content.toList).mapError (.badModel p)
  return ⟨[p], classes.map (prepare isTarget)⟩

end JvmReach.Load
