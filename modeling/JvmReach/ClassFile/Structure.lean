import JvmReach.ClassFile.Attribute

/-!
# The structure of a class file

A class file holds a constant pool, the names of the class and of its
supertypes by index, its fields, methods and attributes, and nothing else.
Fields and the attributes of the class are read for their form only.
-/

namespace JvmReach.ClassFile

/-- A field or method; `flags` are the access flags as stored. -/
structure Member where
  flags : Nat
  name : Nat
  descriptor : Nat
  attributes : List Attribute

structure Structure where
  pool : ConstantPool
  flags : Nat
  name : Nat
  /-- Zero stands for no superclass. -/
  superclass : Nat
  interfaces : List Nat
  methods : List Member

namespace Reader

def constant : Reader Constant := do
  let tag ← u1
  match tag with
  | 1 => return .utf8 (ModifiedUtf8.decode (← block (← u2)))
  | 3 => return .integer (← signed 4)
  | 4 => return .float (bigEndian (← block 4))
  | 5 => return .long (← signed 8)
  | 6 => return .double (bigEndian (← block 8))
  | 7 => return .classInfo (← u2)
  | 8 => return .string (← u2)
  | 9 => return .fieldRef (← u2) (← u2)
  | 10 => return .methodRef (← u2) (← u2)
  | 11 => return .interfaceMethodRef (← u2) (← u2)
  | 12 => return .nameAndType (← u2) (← u2)
  | 15 => return .methodHandle (← u1) (← u2)
  | 16 => return .methodType (← u2)
  | 17 => return .dynamic (← u2) (← u2)
  | 18 => return .invokeDynamic (← u2) (← u2)
  | 19 => return .module (← u2)
  | 20 => return .package (← u2)
  | tag => refuse (.unknownConstant tag)

def isWide : Constant → Bool
  | .long _ | .double _ => true
  | _ => false

/-- The constants of so many indices, of which a wide one takes up two. -/
def constants : Nat → Reader (List Constant)
  | 0 => return []
  | 1 => return [← constant]
  | count + 2 => do
      let c ← constant
      if isWide c then return c :: .empty :: (← constants count)
      else return c :: (← constants (count + 1))

def pool : Reader ConstantPool := do
  let count ← u2
  if count = 0 then return #[]
  else return (.empty :: (← constants (count - 1))).toArray

def member (pool : ConstantPool) (depth : Nat) : Reader Member := do
  let flags ← u2
  let name ← u2
  let descriptor ← u2
  let attributes ← attributeTable pool depth
  return { flags, name, descriptor, attributes }

def magicNumber : Nat := 0xcafebabe

/-- A class whose attributes go at most `depth` levels deep. -/
def wholeClass (depth : Nat) : Reader Structure := do
  if (← u4) ≠ magicNumber then refuse .noMagicNumber
  skipWords 2
  let pool ← pool
  let flags ← u2
  let name ← u2
  let superclass ← u2
  let interfaces ← table u2
  skip (table (member pool depth))
  let methods ← table (member pool depth)
  skip (attributeTable pool depth)
  return { pool, flags, name, superclass, interfaces, methods }

end Reader

/-- The class of a whole file. -/
def Structure.ofBytes (file : Bytes) : Except FormatError Structure := do
  let (result, position) ← (Reader.wholeClass (2 * file.size + 2)).run file
  if position < file.size then .error (.bytesLeft file.size position) else return result

end JvmReach.ClassFile
