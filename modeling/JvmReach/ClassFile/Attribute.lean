import JvmReach.ClassFile.Reader
import JvmReach.Program.Basic

/-!
# Attributes

The name of an attribute decides its layout, wherever it stands; the length it
declares is not used to find its end. Two things are kept: the code of a method
with the attributes of that code, and line tables. All other known attributes
are read for their form only, and unknown ones are an error.

Annotations and code hold further annotations and attributes. Each level takes
up at least one byte, so the length of the file bounds how deep they go.
-/

namespace JvmReach.ClassFile

inductive Attribute where
  | code (bytes : Bytes) (attributes : List Attribute)
  | lines (entries : List LineEntry)
  | other

namespace Reader

/-- The letters of element values that are a single constant. -/
def constantElements : List Char := ['B', 'C', 'D', 'F', 'I', 'J', 'S', 'Z', 's']

mutual

/-- The value of an annotation element, at most `depth` levels deep. -/
def elementValue : Nat → Reader Unit
  | 0 => endOfFile
  | depth + 1 => do
      let tag ← u1
      match Char.ofNat tag with
      | 'e' => skipWords 2
      | 'c' => skipWords 1
      | '@' => annotationForm depth
      | '[' => skip (table (elementValue depth))
      | letter =>
          if letter ∈ constantElements then skipWords 1 else refuse (.unknownElement tag)

def annotationForm : Nat → Reader Unit
  | 0 => endOfFile
  | depth + 1 => do
      skipWords 1
      skip (table do
        skipWords 1
        elementValue depth)

end

def targetInfo : Reader Unit := do
  let type ← u1
  if type ∈ [0x00, 0x01, 0x16] then skip u1
  else if type = 0x10 ∨ type = 0x17 ∨ type = 0x42 ∨ (0x43 ≤ type ∧ type ≤ 0x46) then skipWords 1
  else if type ∈ [0x11, 0x12] then skip (repeated u1 2)
  else if type ∈ [0x13, 0x14, 0x15] then return ()
  else if type ∈ [0x40, 0x41] then skip (table (skipWords 3))
  else if 0x47 ≤ type ∧ type ≤ 0x4b then
    skipWords 1
    skip u1
  else refuse (.unknownTarget type)

def typePath : Reader Unit := skip (shortTable (repeated u1 2))

def typeAnnotationForm (depth : Nat) : Reader Unit := do
  targetInfo
  typePath
  annotationForm depth

def verificationType : Reader Unit := do
  let tag ← u1
  if 8 < tag then refuse (.unknownVerificationType tag)
  else if 7 ≤ tag then skipWords 1
  else return ()

def stackMapFrame : Reader Unit := do
  let type ← u1
  if type ≤ 63 then return ()
  else if type ≤ 127 then verificationType
  else if type = 247 then
    skipWords 1
    verificationType
  else if 248 ≤ type ∧ type ≤ 251 then skipWords 1
  else if 252 ≤ type ∧ type ≤ 254 then
    skipWords 1
    skip (repeated verificationType (type - 251))
  else if type = 255 then
    skipWords 1
    skip (table verificationType)
    skip (table verificationType)
  else refuse (.unknownFrame type)

def lineEntry : Reader LineEntry := do
  let startPc ← u2
  let line ← u2
  return { startPc, line }

def attributeName (pool : ConstantPool) (index : Nat) : Reader String :=
  match pool[index]? with
  | none => refuse (.noAttributeName index)
  | some (.utf8 name) => return name
  | some constant => refuse (.notAName constant)

/-- The content of an attribute that is read for its form only. -/
def form? (depth : Nat) (name : String) (length : Nat) : Option (Reader Unit) :=
  match name with
  | "ConstantValue" | "SourceFile" | "Signature" | "NestHost" => some (skipWords 1)
  | "EnclosingMethod" => some (skipWords 2)
  | "Synthetic" | "Deprecated" => some (return ())
  | "Exceptions" | "NestMembers" | "PermittedSubclasses" => some (skip (table u2))
  | "LocalVariableTable" | "LocalVariableTypeTable" => some (skip (table (skipWords 5)))
  | "InnerClasses" => some (skip (table (skipWords 4)))
  | "MethodParameters" => some (skip (shortTable (skipWords 2)))
  | "BootstrapMethods" =>
      some <| skip <| table do
        skipWords 1
        skip (table u2)
  | "SourceDebugExtension" => some (skip (block length))
  | "RuntimeVisibleAnnotations" =>
      some do
        expectBlock length
        skip (table (annotationForm depth))
  | "RuntimeInvisibleAnnotations" => some (skip (table (annotationForm depth)))
  | "AnnotationDefault" =>
      some do
        expectBlock length
        elementValue depth
  | "RuntimeVisibleParameterAnnotations" | "RuntimeInvisibleParameterAnnotations" =>
      some (skip (shortTable (table (annotationForm depth))))
  | "RuntimeVisibleTypeAnnotations" | "RuntimeInvisibleTypeAnnotations" =>
      some (skip (table (typeAnnotationForm depth)))
  | "StackMapTable" => some (skip (table stackMapFrame))
  | _ => none

mutual

/-- The attributes of one place, at most `depth` levels deep. -/
def attributeTable (pool : ConstantPool) : Nat → Reader (List Attribute)
  | 0 => endOfFile
  | depth + 1 => table (attributeEntry pool depth)

def attributeEntry (pool : ConstantPool) : Nat → Reader Attribute
  | 0 => endOfFile
  | depth + 1 => do
      let name ← attributeName pool (← u2)
      let length ← u4
      match name with
      | "Code" =>
          skipWords 2
          let bytes ← block (← u4)
          skip (table (skipWords 4))
          let nested ← attributeTable pool depth
          return .code bytes nested
      | "LineNumberTable" => return .lines (← table lineEntry)
      | "Record" =>
          skip <| table do
            skipWords 2
            skip (attributeTable pool depth)
          return .other
      | name =>
          match form? depth name length with
          | some form => do
              form
              return .other
          | none => refuse (.unknownAttribute name)

end

end Reader

end JvmReach.ClassFile
