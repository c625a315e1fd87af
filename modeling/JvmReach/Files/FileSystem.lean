import JvmReach.Files.Path
import Std.Data.ExtTreeMap

/-!
# File systems

A file system is a finite tree of directories, plain files and archives, with a
working directory from which relative paths start. A path is followed piece by
piece; every piece but the last has to lead to a directory, and so does the last
one if a slash follows it. A path that is too long, as a whole or in one piece,
leads nowhere.

Archives are kept as their entries, of which no two have one name. An entry can
fail to open, or open and fail while it is read. Whoever reads an archive as plain
bytes only gets its signature, which no other format shares.
-/

namespace JvmReach.Files

inductive IoError where
  | notFound
  | notADirectory
  | isADirectory
  | nameTooLong
  | nulInPath
  /-- The bytes of what should be a text are none. -/
  | notUtf8
  /-- Any other failure, in the words of the system. -/
  | other (text : String)
deriving DecidableEq, Inhabited

def IoError.message : IoError → String
  | notFound => "No such file or directory (os error 2)"
  | notADirectory => "Not a directory (os error 20)"
  | isADirectory => "Is a directory (os error 21)"
  | nameTooLong => "File name too long (os error 36)"
  | nulInPath => "file name contained an unexpected NUL byte"
  | notUtf8 => "stream did not contain valid UTF-8"
  | other text => text

/-- What an entry of an archive holds, as far as it can be had. -/
inductive EntryContent where
  | bytes (content : Array UInt8)
  /-- The entry opens, but cannot be read to its end. -/
  | damaged (cause : IoError)
  /-- The entry does not open: it is encrypted, or stored in a way that is not
  known, or there is nothing where it should be. -/
  | sealed
deriving DecidableEq, Inhabited

/-- What comes of reading an entry, if it opens. -/
def EntryContent.read? : EntryContent → Option (Except IoError (Array UInt8))
  | bytes content => some (.ok content)
  | damaged cause => some (.error cause)
  | sealed => none

structure ArchiveEntry where
  name : String
  content : EntryContent
deriving DecidableEq, Inhabited

structure Archive where
  entries : List ArchiveEntry
  nodup_names : (entries.map ArchiveEntry.name).Nodup
deriving DecidableEq

namespace Archive

/-- The records behind which no other one has their name. -/
def lastOfEachName : List ArchiveEntry → List ArchiveEntry
  | [] => []
  | record :: rest =>
      if rest.any (·.name == record.name) then lastOfEachName rest
      else record :: lastOfEachName rest

theorem lastOfEachName_sublist (records : List ArchiveEntry) :
    (lastOfEachName records).Sublist records := by
  induction records with
  | nil => exact .slnil
  | cons record rest ih =>
      rw [lastOfEachName]
      split
      · exact ih.cons record
      · exact ih.cons_cons record

theorem nodup_lastOfEachName (records : List ArchiveEntry) :
    ((lastOfEachName records).map ArchiveEntry.name).Nodup := by
  induction records with
  | nil => exact .nil
  | cons record rest ih =>
      rw [lastOfEachName]
      split
      · exact ih
      · next hlast =>
          rw [List.map_cons, List.nodup_cons]
          refine ⟨?_, ih⟩
          intro hmem
          obtain ⟨other, hother, hname⟩ := List.mem_map.1 hmem
          apply hlast
          exact List.any_eq_true.2
            ⟨other, (lastOfEachName_sublist rest).subset hother, beq_iff_eq.2 hname⟩

/-- A directory may list several records of one name; the last one counts. -/
def ofRecords (records : List ArchiveEntry) : Archive :=
  ⟨lastOfEachName records, nodup_lastOfEachName records⟩

end Archive

inductive Node where
  | directory
  | file (content : Array UInt8)
  | archive (archive : Archive)
deriving DecidableEq, Inhabited

/-- The names that lead from the root to a file. -/
abbrev Location := List String

/-- The directories on the way to a location, without the root. -/
def Location.above (location : Location) : List Location :=
  (List.range location.length).tail.map fun n => location.take n

structure FileSystem where
  /-- What stands at the locations below the root. -/
  nodes : Std.ExtTreeMap Location Node
  workingDirectory : Location

namespace FileSystem

def node? (fs : FileSystem) (location : Location) : Option Node :=
  match location with
  | [] => some .directory
  | location => fs.nodes[location]?

def addDirectory (fs : FileSystem) (location : Location) : FileSystem :=
  { fs with nodes := fs.nodes.insertIfNew location .directory }

/-- Puts a node at a location, and directories on the way to it. -/
def add (fs : FileSystem) (location : Location) (node : Node) : FileSystem :=
  let fs := location.above.foldl addDirectory fs
  { fs with nodes := fs.nodes.insert location node }

/-- A file system with an empty working directory. -/
def empty (workingDirectory : Location) : FileSystem :=
  let fs : FileSystem := ⟨∅, workingDirectory⟩
  if workingDirectory = [] then fs else fs.add workingDirectory .directory

/-- The greatest number of bytes of a path, and of a piece of it. -/
def maxPathSize : Nat := 4095

def maxPieceSize : Nat := 255

/-- Follows one piece of a path from a location, which has to be a directory. -/
def step (fs : FileSystem) (location : Location) (piece : String) : Except IoError Location :=
  match fs.node? location with
  | none => .error .notFound
  | some .directory =>
      if Path.isFiller piece then .ok location
      else if piece = ".." then .ok location.dropLast
      else if maxPieceSize < piece.utf8ByteSize then .error .nameTooLong
      else
        match fs.node? (location ++ [piece]) with
        | none => .error .notFound
        | some _ => .ok (location ++ [piece])
  | some _ => .error .notADirectory

/-- The location that a path starts from. -/
def start (fs : FileSystem) (p : Path) : Except IoError Location :=
  if p.text.toList.contains '\x00' then .error .nulInPath
  else if maxPathSize < p.text.utf8ByteSize then .error .nameTooLong
  else if p.text = "" then .error .notFound
  else .ok (if p.isAbsolute then [] else fs.workingDirectory)

def resolve (fs : FileSystem) (p : Path) : Except IoError Location := do
  p.pieces.foldlM fs.step (← fs.start p)

/-- What a path leads to. -/
def lookup (fs : FileSystem) (p : Path) : Except IoError Node := do
  match fs.node? (← fs.resolve p) with
  | some node => return node
  | none => .error .notFound

def contains (fs : FileSystem) (p : Path) : Bool := (fs.lookup p).isOk

def isDirectory (fs : FileSystem) (p : Path) : Bool :=
  match fs.lookup p with
  | .ok .directory => true
  | _ => false

/-- The names in a directory, in order. -/
def names (fs : FileSystem) (directory : Location) : List String :=
  fs.nodes.toList.filterMap fun (location, _) =>
    if location.dropLast = directory then location.getLast? else none

/-- The paths of the files in a directory, ordered by their names. -/
def children (fs : FileSystem) (p : Path) : List Path :=
  match fs.resolve p with
  | .ok location => (fs.names location).map fun name => p.join ⟨name⟩
  | .error _ => []

def signature (archive : Archive) : Array UInt8 :=
  if archive.entries.isEmpty then #[0x50, 0x4b, 0x05, 0x06] else #[0x50, 0x4b, 0x03, 0x04]

def read (fs : FileSystem) (p : Path) : Except IoError (Array UInt8) := do
  match ← fs.lookup p with
  | .directory => .error .isADirectory
  | .file content => return content
  | .archive archive => return signature archive

/-- Follows a path to where a file can be written: the location of the file,
which need not exist, in a directory that does. -/
def resolveNew (fs : FileSystem) (p : Path) : Except IoError Location := do
  let start ← fs.start p
  match (p.pieces.filter (· ≠ "")).getLast? with
  | none => .error .isADirectory
  | some last =>
      let before := ((p.pieces.reverse.dropWhile (· = "")).drop 1).reverse
      let directory ← before.foldlM fs.step start
      if last = "." ∨ last = ".." then
        let _ ← fs.step directory last
        .error .isADirectory
      else
        match fs.node? directory with
        | none => .error .notFound
        | some .directory =>
            if p.pieces.getLast? = some "" then .error .isADirectory
            else if maxPieceSize < last.utf8ByteSize then .error .nameTooLong
            else return directory ++ [last]
        | some _ => .error .notADirectory

/-- Creates a file, or replaces the content of one that is there. -/
def write (fs : FileSystem) (p : Path) (content : Array UInt8) : Except IoError FileSystem := do
  let location ← fs.resolveNew p
  match fs.node? location with
  | some .directory => .error .isADirectory
  | _ => return { fs with nodes := fs.nodes.insert location (.file content) }

/-- The text of a plain file. -/
def text? (fs : FileSystem) (p : Path) : Option String :=
  match fs.lookup p with
  | .ok (.file content) => String.fromUTF8? ⟨content⟩
  | _ => none

end FileSystem

end JvmReach.Files
