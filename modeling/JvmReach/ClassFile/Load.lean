import JvmReach.ClassFile.Code
import JvmReach.ClassFile.Structure
import Std.Data.ExtTreeSet

/-!
# Classes from class files

A class file is loaded in the form the analysis works on. The classes it
mentions are those of its class constants: arrays count as their element class,
arrays of base types mention none, and the class itself is left out. A method
has a body if it has code; the line tables of the code are put together and
ordered by where their entries start.
-/

namespace JvmReach.ClassFile

inductive MethodError where
  | lookup (cause : LookupError)
  | code (name descriptor : String) (cause : DecodingError)
deriving DecidableEq

def MethodError.message : MethodError → String
  | lookup cause => cause.message
  | code name descriptor cause => s!"parse bytecode of {name}{descriptor}: {cause.message}"

inductive ClassError where
  | format (cause : FormatError)
  | lookup (cause : LookupError)
  | method (className : TypeName) (cause : MethodError)
deriving DecidableEq

def ClassError.message : ClassError → String
  | format cause => s!"failed to parse class file bytes: {cause.message}"
  | lookup cause => cause.message
  | method className cause => s!"parse methods of {className}: {cause.message}"

/-- Positions of the access flags. -/
def publicBit : Nat := 0

def privateBit : Nat := 1

def staticBit : Nat := 3

def interfaceBit : Nat := 9

def abstractBit : Nat := 10

/-- The class a class constant mentions, if any. -/
def mentionedClass? (name : String) : Option TypeName :=
  match name.toList with
  | '[' :: rest =>
      match rest.dropWhile (· = '[') with
      | 'L' :: element =>
          if element.getLast? = some ';' then some (String.ofList element.dropLast) else none
      | _ => none
  | _ => some name

/-- The names of all class constants, in the order of the pool. -/
def classConstants (pool : ConstantPool) : Lookup (List String) :=
  (pool.toList.filterMap fun
    | .classInfo name => some name
    | _ => none).mapM fun name => (pool.utf8 name).for .referencedName

def references (pool : ConstantPool) (self : TypeName) : Lookup (List TypeName) := do
  let names ← classConstants pool
  return ((Std.ExtTreeSet.ofList (names.filterMap mentionedClass?)).erase self).toList

def lineEntries (attributes : List Attribute) : List LineEntry :=
  attributes.flatMap fun
    | .lines entries => entries
    | _ => []

/-- The code of a member with its attributes; the first code attribute counts. -/
def Member.code? (m : Member) : Option (Bytes × List Attribute) :=
  m.attributes.findSome? fun
    | .code bytes attributes => some (bytes, attributes)
    | _ => none

def Member.body? (m : Member) (pool : ConstantPool) : Decoded (Option Body) :=
  match m.code? with
  | none => .ok none
  | some (code, attributes) => do
      let instructions ← Code.instructions pool code
      return some (Body.sortLines { instructions, lines := lineEntries attributes })

def Member.load (m : Member) (pool : ConstantPool) : Except MethodError Method := do
  let name ← ((pool.utf8 m.name).for .methodName).mapError .lookup
  let descriptor ← ((pool.utf8 m.descriptor).for .methodDescriptor).mapError .lookup
  let body? ← (m.body? pool).mapError (.code name descriptor)
  return {
    name, descriptor, body?
    access :=
      { isPublic := m.flags.testBit publicBit
        isPrivate := m.flags.testBit privateBit
        isStatic := m.flags.testBit staticBit
        isAbstract := m.flags.testBit abstractBit } }

namespace Structure

def superclassName? (f : Structure) : Lookup (Option TypeName) :=
  if f.superclass = 0 then .ok none
  else ((f.pool.className f.superclass).for .superclassName).map some

def load (f : Structure) (isTarget : Bool) : Except ClassError ClassDef := do
  let name ← ((f.pool.className f.name).for .className).mapError .lookup
  let superclass? ← f.superclassName?.mapError .lookup
  let interfaces ←
    (f.interfaces.mapM fun i => (f.pool.className i).for .interfaceName).mapError .lookup
  let references ← (references f.pool name).mapError .lookup
  let methods ← (f.methods.mapM fun (m : Member) => m.load f.pool).mapError (.method name)
  return {
    name, superclass?, interfaces, references, methods, isTarget
    access :=
      { isPublic := f.flags.testBit publicBit
        isInterface := f.flags.testBit interfaceBit
        isAbstract := f.flags.testBit abstractBit } }

end Structure

/-- The class that a file holds. -/
def load (file : Bytes) (isTarget : Bool) : Except ClassError ClassDef := do
  let f ← (Structure.ofBytes file).mapError .format
  f.load isTarget

end JvmReach.ClassFile
