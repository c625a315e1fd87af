import JvmReach.Files.Deflate
import JvmReach.Files.FileSystem

/-!
# Archives on disk

An archive ends with a record that tells where its directory lies and how many
entries that has. A directory entry holds the name of a file, how it is stored
and where, and a checksum. The content follows a header of its own and is either
plain or compressed. Bytes that do not follow this form are no archive.

The directory is read at once, what it lists only when it is wanted. So an entry
that is encrypted, stored by another method or without header only fails to open,
and one that is cut off or has another checksum only fails while it is read.
-/

namespace JvmReach.Files.Zip

/-- A number of `width` bytes, the low ones first. -/
def number? (bytes : Array UInt8) (position width : Nat) : Option Nat :=
  if position + width ≤ bytes.size then
    some ((bytes.extract position (position + width)).foldr (fun b n => n * 256 + b.toNat) 0)
  else none

def slice? (bytes : Array UInt8) (position size : Nat) : Option (Array UInt8) :=
  if position + size ≤ bytes.size then some (bytes.extract position (position + size)) else none

def endSignature : Nat := 0x06054b50

def directorySignature : Nat := 0x02014b50

def entrySignature : Nat := 0x04034b50

def endSize : Nat := 22

/-- The position of the end record, at most `position`; comments may follow it. -/
def endRecord? (bytes : Array UInt8) : Nat → Option Nat
  | 0 => if number? bytes 0 4 = some endSignature then some 0 else none
  | position + 1 =>
      if number? bytes (position + 1) 4 = some endSignature then some (position + 1)
      else endRecord? bytes position

/-- Names are texts; one that is not is read byte by byte. -/
def name (bytes : Array UInt8) : String :=
  (String.fromUTF8? ⟨bytes⟩).getD
    (String.ofList (bytes.toList.map fun b => Char.ofNat b.toNat))

/-- One bit of a checksum: division by the polynomial of CRC-32, low bits first. -/
def shiftBit (crc : UInt32) : UInt32 :=
  if crc &&& 1 = 1 then (crc >>> 1) ^^^ 0xEDB88320 else crc >>> 1

def checksum (content : Array UInt8) : UInt32 :=
  ~~~content.foldl (fun crc b => Nat.repeat shiftBit 8 (crc ^^^ b.toUInt32)) 0xFFFFFFFF

/-- What the directory says of an entry. -/
structure Record where
  isEncrypted : Bool
  method : Nat
  checksum : Nat
  size : Nat
  /-- Where the header of the content begins. -/
  start : Nat

/-- The bytes behind the header of an entry, if there is one. -/
def stored? (bytes : Array UInt8) (r : Record) : Option (Array UInt8) := do
  if (← number? bytes r.start 4) ≠ entrySignature then none
  else
    let nameSize ← number? bytes (r.start + 26) 2
    let fieldSize ← number? bytes (r.start + 28) 2
    let start := r.start + 30 + nameSize + fieldSize
    return bytes.extract start (start + r.size)

def Record.check (r : Record) (content : Array UInt8) : EntryContent :=
  if (Zip.checksum content).toNat = r.checksum then .bytes content
  else .damaged (.other "Invalid checksum")

def content (bytes : Array UInt8) (r : Record) : EntryContent :=
  if r.isEncrypted then .sealed
  else
    match stored? bytes r, r.method with
    | some data, 0 => r.check data
    | some data, 8 =>
        match Deflate.inflate? data with
        | some inflated => r.check inflated
        | none => .damaged (.other "corrupt deflate stream")
    | _, _ => .sealed

/-- The entry at a position of the directory, and the position behind it. -/
def entry? (bytes : Array UInt8) (position : Nat) : Option (ArchiveEntry × Nat) := do
  if (← number? bytes position 4) ≠ directorySignature then none
  else
    let flags ← number? bytes (position + 8) 2
    let method ← number? bytes (position + 10) 2
    let checksum ← number? bytes (position + 16) 4
    let size ← number? bytes (position + 20) 4
    let nameSize ← number? bytes (position + 28) 2
    let fieldSize ← number? bytes (position + 30) 2
    let commentSize ← number? bytes (position + 32) 2
    let start ← number? bytes (position + 42) 4
    let nameBytes ← slice? bytes (position + 46) nameSize
    let r : Record := ⟨flags % 2 = 1, method, checksum, size, start⟩
    return (⟨name nameBytes, content bytes r⟩, position + 46 + nameSize + fieldSize + commentSize)

def entries? (bytes : Array UInt8) : Nat → Nat → Option (List ArchiveEntry)
  | 0, _ => some []
  | count + 1, position => do
      let (entry, next) ← entry? bytes position
      let rest ← entries? bytes count next
      return entry :: rest

/-- The archive that the bytes of a file are. -/
def read? (bytes : Array UInt8) : Option Archive := do
  if bytes.size < endSize then none
  else
    let position ← endRecord? bytes (bytes.size - endSize)
    let count ← number? bytes (position + 10) 2
    let start ← number? bytes (position + 16) 4
    return .ofRecords (← entries? bytes count start)

/-- What a file is to those who look at it under that name. -/
def node (name : Path) (bytes : Array UInt8) : Node :=
  match if name.isJar then read? bytes else none with
  | some archive => .archive archive
  | none => .file bytes

end JvmReach.Files.Zip
