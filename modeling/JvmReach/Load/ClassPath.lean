import JvmReach.Load.Basic

/-!
# Expanding class paths

An archive on the class path may name further entries in its manifest, these may
name others, and so on. Expansion goes breadth first: the given entries in their
order, then the references of each archive, ordered by path. An entry that has
been met is not met again under the same path. Every entry has to exist, every
archive among them has to open, and its manifest, if that opens, has to be a text.

Paths that are too long lead nowhere, so there are only finitely many that can
be met. `pathCount` exceeds their number.
-/

namespace JvmReach.Load

open Files

def manifestName : String := "META-INF/MANIFEST.MF"

def textOf (content : Array UInt8) : Except IoError String :=
  match String.fromUTF8? ⟨content⟩ with
  | none => .error .notUtf8
  | some text => .ok text

/-- What comes of reading the manifest, if there is one that opens. -/
def manifestText? (entries : List ArchiveEntry) : Option (Except IoError String) :=
  let read? := (entries.find? (·.name == manifestName)).bind (·.content.read?)
  read?.map (·.bind textOf)

/-- The class path in the manifest of an archive. A manifest that does not open has
none, as if it were not there. -/
def manifestClassPath (fs : FileSystem) (p : Path) : Except LoadError (List Path) := do
  let entries ← openArchive fs p
  match manifestText? entries with
  | none => return []
  | some read => return Manifest.classPath p (← read.mapError (.badManifest p))

def sortPaths (paths : List Path) : List Path :=
  paths.mergeSort fun a b => decide (a.text ≤ b.text)

/-- The entries that a class path entry refers to. -/
def references (fs : FileSystem) (p : Path) : Except LoadError (List Path) :=
  if !fs.contains p then .error (.noClassPathEntry p)
  else if p.isJar then (manifestClassPath fs p).map sortPaths
  else .ok []

/-- A bound for the number of paths that can lead somewhere. -/
def pathCount : Nat := Nat.pow 256 (FileSystem.maxPathSize + 1)

/-- Expands the paths in a queue, beside those that have been met; at most
`bound` new ones are met. -/
def expandQueue (fs : FileSystem) : Nat → Std.ExtTreeSet Path → List Path →
    Except LoadError (List Path)
  | 0, _, _ => .ok []
  | bound + 1, met, queue =>
      match queue.dropWhile met.contains with
      | [] => .ok []
      | p :: rest => do
          let found ← references fs p
          let others ← expandQueue fs bound (met.insert p) (rest ++ found)
          return p :: others

def expand (fs : FileSystem) (entries : List Path) : Except LoadError (List Path) :=
  expandQueue fs pathCount ∅ entries

end JvmReach.Load
