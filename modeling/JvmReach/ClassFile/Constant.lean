import JvmReach.ClassFile.ModifiedUtf8
import JvmReach.Decimal.Shortest

/-!
# Constant pools

The pool of a class file is an array of constants that refer to each other by
index. Index zero and the index behind a constant of double width are empty. A
look-up names the kind of constant it wants and fails in one of two ways: the
index lies outside the pool, or a constant of another kind stands there.
-/

namespace JvmReach.ClassFile

inductive Constant where
  | empty
  | utf8 (value : String)
  | integer (value : Int)
  /-- A number of single width, by its word. -/
  | float (word : Nat)
  | long (value : Int)
  /-- A number of double width, by its word. -/
  | double (word : Nat)
  | classInfo (name : Nat)
  | string (text : Nat)
  | fieldRef (owner nameAndType : Nat)
  | methodRef (owner nameAndType : Nat)
  | interfaceMethodRef (owner nameAndType : Nat)
  | nameAndType (name descriptor : Nat)
  | methodHandle (kind target : Nat)
  | methodType (descriptor : Nat)
  | dynamic (bootstrap nameAndType : Nat)
  | invokeDynamic (bootstrap nameAndType : Nat)
  | module (name : Nat)
  | package (name : Nat)
deriving DecidableEq, Inhabited

namespace Constant

def describe (kind : String) (parts : List (String × String)) : String :=
  kind ++ " \x7b " ++ ", ".intercalate (parts.map fun (name, value) => s!"{name}: {value}") ++
    " \x7d"

/-- At most three zeros stand behind the point of a number and at most sixteen
digits before it. -/
def decimals : Decimal.Style := { maxZeros := 3, maxWhole := 16, signsExponent := false }

/-- The constant as messages show it. -/
def text : Constant → String
  | empty => "Empty"
  | utf8 value => describe "Utf8" [("value", value)]
  | integer value => describe "Integer" [("value", toString value)]
  | float word => describe "Float" [("value", Decimal.text decimals .single word)]
  | long value => describe "Long" [("value", toString value)]
  | double word => describe "Double" [("value", Decimal.text decimals .double word)]
  | classInfo name => describe "Class" [("name_index", toString name)]
  | string text => describe "String" [("string_index", toString text)]
  | fieldRef owner member =>
      describe "Fieldref"
        [("class_index", toString owner), ("name_and_type_index", toString member)]
  | methodRef owner member =>
      describe "Methodref"
        [("class_index", toString owner), ("name_and_type_index", toString member)]
  | interfaceMethodRef owner member =>
      describe "InterfaceMethodref"
        [("class_index", toString owner), ("name_and_type_index", toString member)]
  | nameAndType name descriptor =>
      describe "NameAndType"
        [("name_index", toString name), ("descriptor_index", toString descriptor)]
  | methodHandle kind target =>
      describe "MethodHandle"
        [("reference_kind", toString kind), ("reference_index", toString target)]
  | methodType descriptor =>
      describe "MethodType" [("descriptor_index", toString descriptor)]
  | dynamic bootstrap member =>
      describe "Dynamic"
        [("bootstrap_method_attr_index", toString bootstrap),
          ("name_and_type_index", toString member)]
  | invokeDynamic bootstrap member =>
      describe "InvokeDynamic"
        [("bootstrap_method_attr_index", toString bootstrap),
          ("name_and_type_index", toString member)]
  | module name => describe "Module" [("name_index", toString name)]
  | package name => describe "Package" [("name_index", toString name)]

end Constant

abbrev ConstantPool := Array Constant

/-- The kinds of constants that look-ups ask for. -/
inductive ConstantKind where
  | utf8
  | classInfo
  | nameAndType
  | methodRef
  | fieldRef
  | invokeDynamic
  | loadable
deriving DecidableEq

def ConstantKind.text : ConstantKind → String
  | utf8 => "utf8"
  | classInfo => "class"
  | nameAndType => "name and type"
  | methodRef => "method ref"
  | fieldRef => "field ref"
  | invokeDynamic => "invokedynamic"
  | loadable => "ldc constant"

/-- What a constant was looked up for. -/
inductive Purpose where
  | owner
  | memberName
  | memberDescriptor
  | methodCall (offset : Nat)
  | dynamicCall (offset : Nat)
  | instantiatedClass
  | fieldOwner
  | stringConstant
  | classConstant
  | className
  | superclassName
  | interfaceName
  | referencedName
  | methodName
  | methodDescriptor
deriving DecidableEq

def Purpose.text : Purpose → String
  | owner => "resolve owner"
  | memberName => "resolve member name"
  | memberDescriptor => "resolve member descriptor"
  | methodCall offset => s!"resolve method ref at offset {offset}"
  | dynamicCall offset => s!"resolve call site at offset {offset}"
  | instantiatedClass => "resolve instantiated class"
  | fieldOwner => "resolve static field owner"
  | stringConstant => "resolve string constant"
  | classConstant => "resolve class constant"
  | className => "resolve class name"
  | superclassName => "resolve super class name"
  | interfaceName => "resolve interface name"
  | referencedName => "resolve referenced class name"
  | methodName => "resolve method name"
  | methodDescriptor => "resolve method descriptor"

/-- A look-up that failed, with the purposes it served, the outermost first. -/
structure LookupError where
  purposes : List Purpose
  wanted : ConstantKind
  /-- Whether there is a constant, but of another kind. -/
  isPresent : Bool
deriving DecidableEq

namespace LookupError

def message (e : LookupError) : String :=
  let cause :=
    (if e.isPresent then "unexpected " else "missing ") ++ e.wanted.text ++ " entry"
  ": ".intercalate (e.purposes.map Purpose.text ++ [cause])

end LookupError

abbrev Lookup (α : Type) := Except LookupError α

def Lookup.for {α : Type} (purpose : Purpose) (r : Lookup α) : Lookup α :=
  r.mapError fun e => { e with purposes := purpose :: e.purposes }

namespace ConstantPool

/-- Looks up what `pick` takes from the constant at an index. -/
def find {α : Type} (pool : ConstantPool) (wanted : ConstantKind) (index : Nat)
    (pick : Constant → Option α) : Lookup α :=
  match pool[index]? with
  | none => .error ⟨[], wanted, false⟩
  | some constant =>
      match pick constant with
      | none => .error ⟨[], wanted, true⟩
      | some result => .ok result

def utf8 (pool : ConstantPool) (index : Nat) : Lookup String :=
  pool.find .utf8 index fun
    | .utf8 value => some value
    | _ => none

def className (pool : ConstantPool) (index : Nat) : Lookup String := do
  let name ← pool.find .classInfo index fun
    | .classInfo name => some name
    | _ => none
  pool.utf8 name

/-- The name and the descriptor of a member. -/
def member (pool : ConstantPool) (index : Nat) : Lookup (String × String) := do
  let (name, descriptor) ← pool.find .nameAndType index fun
    | .nameAndType name descriptor => some (name, descriptor)
    | _ => none
  let name ← (pool.utf8 name).for .memberName
  let descriptor ← (pool.utf8 descriptor).for .memberDescriptor
  return (name, descriptor)

end ConstantPool

end JvmReach.ClassFile
