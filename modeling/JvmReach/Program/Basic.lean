import Std.Data.ExtTreeSet

/-!
# Loaded classes and their methods

A class is kept as far as reachability needs it: its supertypes, the access
flags that dispatch looks at, the types it mentions, and its methods. A method
body is the list of its instructions, each at its byte offset, together with
the line table. Instructions that neither call, construct, touch a static field
nor load a constant are kept as `Operation.other`.

Methods are identified by `MethodRef`, the declaring type with name and
descriptor. References are ordered by declaring type, then name, then
descriptor, each compared by code points; this order is the one in which
reachable methods and call targets are listed.
-/

namespace JvmReach

/-- A type in internal form, such as `java/lang/Object`. -/
abbrev TypeName := String

structure MethodRef where
  owner : TypeName
  name : String
  descriptor : String
deriving DecidableEq, Inhabited

namespace MethodRef

def text (m : MethodRef) : String :=
  m.owner ++ "." ++ m.name ++ m.descriptor

def order : MethodRef → MethodRef → Ordering :=
  compareLex (compareOn MethodRef.owner)
    (compareLex (compareOn MethodRef.name) (compareOn MethodRef.descriptor))

instance : Ord MethodRef := ⟨order⟩

instance : Std.TransOrd MethodRef :=
  inferInstanceAs (Std.TransCmp (compareLex (compareOn MethodRef.owner)
    (compareLex (compareOn MethodRef.name) (compareOn MethodRef.descriptor))))

instance : Std.LawfulEqOrd MethodRef where
  eq_of_compare {a b} h := by
    have h : order a b = .eq := h
    cases a
    cases b
    simpa [order, compareLex, compareOn, Ordering.then_eq_eq] using h

end MethodRef

inductive CallKind where
  | virtual
  | interface
  | special
  | static
  | dynamic
deriving DecidableEq, Inhabited

/-- The method a call instruction names. A call on an array has `onArray` set;
its declared owner is then the class arrays inherit from. -/
structure Invocation where
  declared : MethodRef
  kind : CallKind
  onArray : Bool := false
deriving DecidableEq, Inhabited

inductive Operation where
  | invoke (call : Invocation)
  | new (type : TypeName)
  /-- A static field is read or written, which starts its class. -/
  | staticField (owner : TypeName)
  | constString (value : String)
  | constClass (type : TypeName)
  | other (opcode : UInt8)
deriving DecidableEq, Inhabited

structure Instruction where
  offset : Nat
  operation : Operation
deriving DecidableEq, Inhabited

/-- From byte offset `startPc` on, the code stems from source line `line`. -/
structure LineEntry where
  startPc : Nat
  line : Nat
deriving DecidableEq, Inhabited

structure Body where
  instructions : List Instruction := []
  lines : List LineEntry := []
deriving DecidableEq, Inhabited

structure MethodAccess where
  isPublic : Bool := false
  isPrivate : Bool := false
  isStatic : Bool := false
  isAbstract : Bool := false
deriving DecidableEq, Inhabited

/-- A declared method; abstract and native methods have no body. -/
structure Method where
  name : String
  descriptor : String
  access : MethodAccess := {}
  body? : Option Body := none
deriving DecidableEq, Inhabited

namespace Method

def isConstructor (m : Method) : Bool := m.name == "<init>"

def isStaticInitializer (m : Method) : Bool := m.name == "<clinit>"

def refIn (m : Method) (owner : TypeName) : MethodRef :=
  ⟨owner, m.name, m.descriptor⟩

/-- The line of the last entry before the first one that starts past `offset`. -/
def line? (m : Method) (offset : Nat) : Option Nat :=
  m.body?.bind fun body =>
    (body.lines.takeWhile (·.startPc ≤ offset)).getLast?.map LineEntry.line

end Method

/-- Entries ordered by where they start; those that start together keep their order. -/
def Body.sortLines (b : Body) : Body :=
  { b with lines := b.lines.mergeSort fun x y => decide (x.startPc ≤ y.startPc) }

structure ClassAccess where
  isPublic : Bool := false
  isInterface : Bool := false
  isAbstract : Bool := false
deriving DecidableEq, Inhabited

/-- A loaded type. `isTarget` tells the classes under analysis from those that
are only resolved against. -/
structure ClassDef where
  name : TypeName
  superclass? : Option TypeName := none
  interfaces : List TypeName := []
  access : ClassAccess := {}
  references : List TypeName := []
  methods : List Method := []
  isTarget : Bool := true
deriving DecidableEq, Inhabited

namespace ClassDef

/-- The superclass, then the interfaces in the order they are declared. -/
def supertypes (c : ClassDef) : List TypeName :=
  c.superclass?.toList ++ c.interfaces

def method? (c : ClassDef) (name descriptor : String) : Option Method :=
  c.methods.find? fun m => m.name == name && m.descriptor == descriptor

def declares (c : ClassDef) (name descriptor : String) : Bool :=
  (c.method? name descriptor).isSome

/-- Concrete classes are the only types an object can have at run time. -/
def isConcrete (c : ClassDef) : Bool :=
  !c.access.isInterface && !c.access.isAbstract

/-- The static initializer as the machine runs it, without arguments. -/
def staticInitializer? (c : ClassDef) : Option MethodRef :=
  (c.method? "<clinit>" "()V").map (·.refIn c.name)

end ClassDef

end JvmReach
