import JvmReach.ClassFile.Constant

/-!
# Reading class files

A reader consumes the bytes of a class file from a position on. Integers are
unsigned unless said otherwise, with the most significant byte first. An integer
or a block that does not fit into the file is an error, as is everything that
the format does not know.
-/

namespace JvmReach.ClassFile

inductive FormatError where
  | noMagicNumber
  /-- An integer at `position` reaches past the end. -/
  | integerPastEnd (position length : Nat)
  /-- A block that would end at `stop` reaches past the end. -/
  | blockPastEnd (stop length : Nat)
  | unknownConstant (tag : Nat)
  /-- The name of an attribute lies outside the constant pool. -/
  | noAttributeName (index : Nat)
  | notAName (constant : Constant)
  | unknownAttribute (name : String)
  | unknownElement (tag : Nat)
  | unknownTarget (type : Nat)
  | unknownFrame (type : Nat)
  | unknownVerificationType (tag : Nat)
  /-- The class ends at `position`, before the end of the file. -/
  | bytesLeft (length position : Nat)
deriving DecidableEq

def FormatError.message : FormatError → String
  | noMagicNumber => "InvalidInput Error: Not a valid class-file"
  | integerPastEnd position length =>
      s!"I/O Error: overflow : attempt to read from {position} whereas len is {length}"
  | blockPastEnd stop length => s!"I/O Error: Index out of bounds: {stop} of {length}"
  | unknownConstant tag => s!"I/O Error: unmatched tag: {tag}"
  | noAttributeName index => s!"I/O Error: element not found at index {index}"
  | notAName constant => s!"I/O Error: element type is not Uint8 but {constant.text}"
  | unknownAttribute name => s!"I/O Error: unmatched attribute: {name}"
  | unknownElement tag => s!"I/O Error: Unsupported element tag: {tag}"
  | unknownTarget type => s!"I/O Error: Invalid target_type: {type}"
  | unknownFrame type => s!"I/O Error: Unsupported frame_type: {type}"
  | unknownVerificationType tag => s!"I/O Error: tag {tag} is not valid"
  | bytesLeft length position =>
      s!"I/O Error: Not all was read : data.len() is {length}, start_from is {position}"

/-- Reads from the bytes of a file; the state is the position. -/
abbrev Reader (α : Type) := ReaderT Bytes (StateT Nat (Except FormatError)) α

namespace Reader

def refuse {α : Type} (e : FormatError) : Reader α := fun _ _ => .error e

def bigEndian (bytes : Bytes) : Nat := bytes.foldl (fun n b => n * 256 + b.toNat) 0

/-- An integer of `width` bytes. -/
def integer (width : Nat) : Reader Nat := fun file position =>
  if position + width ≤ file.size then
    .ok (bigEndian (file.extract position (position + width)), position + width)
  else .error (.integerPastEnd position file.size)

def u1 : Reader Nat := integer 1

def u2 : Reader Nat := integer 2

def u4 : Reader Nat := integer 4

/-- An integer in two's complement. -/
def signed (width : Nat) : Reader Int := do
  let n ← integer width
  let modulus := Nat.pow 256 width
  return if 2 * n < modulus then n else (n : Int) - modulus

/-- Checks that a block of `size` bytes is there, and stays before it. -/
def expectBlock (size : Nat) : Reader Unit := fun file position =>
  if position + size ≤ file.size then .ok ((), position)
  else .error (.blockPastEnd (position + size) file.size)

def block (size : Nat) : Reader Bytes := do
  expectBlock size
  fun file position => .ok (file.extract position (position + size), position + size)

def repeated {α : Type} (item : Reader α) : Nat → Reader (List α)
  | 0 => return []
  | count + 1 => do
      let head ← item
      let tail ← repeated item count
      return head :: tail

/-- A table: the number of its rows, then the rows. -/
def table {α : Type} (row : Reader α) : Reader (List α) := do
  let count ← u2
  repeated row count

/-- A table whose number of rows takes a single byte. -/
def shortTable {α : Type} (row : Reader α) : Reader (List α) := do
  let count ← u1
  repeated row count

def skip {α : Type} (item : Reader α) : Reader Unit := do
  let _ ← item
  return ()

/-- So many two-byte integers that are of no interest. -/
def skipWords (count : Nat) : Reader Unit := skip (repeated u2 count)

/-- The error at the end of the file; a reader that descends once more than
there are bytes meets it. -/
def endOfFile {α : Type} : Reader α := fun file position =>
  .error (.integerPastEnd position file.size)

def run {α : Type} (r : Reader α) (file : Bytes) : Except FormatError (α × Nat) := r file 0

end Reader

end JvmReach.ClassFile
