import JvmReach.Program.Basic

/-!
# Reflective calls with constant arguments

A tracker follows the constants of one method body. It knows three values: the
name constant, the class value, and the class whose constructor was looked up.
Each is empty, known, or ambiguous after a second constant; an ambiguous value
is never guessed. Every call clears all three, and four calls use them first:

* `Class.forName` on a known name starts that class and makes it the class value;
* `Class.newInstance` on a known class constructs it without arguments;
* `getConstructor` and `getDeclaredConstructor` remember a known class;
* `Constructor.newInstance` constructs the remembered class by any constructor.
-/

namespace JvmReach.Reflection

inductive ConstructorChoice where
  /-- Only the constructor without parameters can run. -/
  | noArgument
  | any
deriving DecidableEq

inductive Effect where
  | start (type : TypeName)
  | construct (type : TypeName) (choice : ConstructorChoice)
deriving DecidableEq

/-- A value that constants were loaded into. -/
inductive Slot where
  | empty
  | known (value : String)
  | ambiguous
deriving DecidableEq

namespace Slot

def put (value : String) : Slot → Slot
  | empty => known value
  | _ => ambiguous

def value? : Slot → Option String
  | known value => some value
  | _ => none

def ofOption : Option String → Slot
  | some value => known value
  | none => empty

end Slot

structure Tracker where
  name : Slot := .empty
  type : Slot := .empty
  constructorOf : Slot := .empty
deriving DecidableEq

/-- The internal form of a binary name such as `a.b.C`; array names have none. -/
def internalName? (binary : String) : Option TypeName :=
  match binary.toList with
  | [] => none
  | '[' :: _ => none
  | chars => some (String.ofList (chars.map fun c => if c = '.' then '/' else c))

def classType : TypeName := "java/lang/Class"

def constructorType : TypeName := "java/lang/reflect/Constructor"

def isForName (call : Invocation) : Bool :=
  call.declared.owner == classType && call.declared.name == "forName" &&
    call.kind == .static &&
    ["(Ljava/lang/String;)Ljava/lang/Class;",
      "(Ljava/lang/String;ZLjava/lang/ClassLoader;)Ljava/lang/Class;"].contains
        call.declared.descriptor

def isNewInstance (call : Invocation) : Bool :=
  call.declared == ⟨classType, "newInstance", "()Ljava/lang/Object;"⟩

def isConstructorLookup (call : Invocation) : Bool :=
  call.declared.owner == classType &&
    ["getConstructor", "getDeclaredConstructor"].contains call.declared.name &&
    call.declared.descriptor == "([Ljava/lang/Class;)Ljava/lang/reflect/Constructor;"

def isConstructorCall (call : Invocation) : Bool :=
  call.declared ==
    ⟨constructorType, "newInstance", "([Ljava/lang/Object;)Ljava/lang/Object;"⟩

namespace Tracker

def observeCall (t : Tracker) (call : Invocation) : Tracker × Option Effect :=
  if isForName call then
    let loaded? := t.name.value?.bind internalName?
    ({ type := .ofOption loaded? }, loaded?.map .start)
  else if isNewInstance call then
    ({}, t.type.value?.map (.construct · .noArgument))
  else if isConstructorLookup call then
    ({ constructorOf := .ofOption t.type.value? }, none)
  else if isConstructorCall call then
    ({}, t.constructorOf.value?.map (.construct · .any))
  else
    ({}, none)

def observe (t : Tracker) : Operation → Tracker × Option Effect
  | .constString value => ({ t with name := t.name.put value }, none)
  | .constClass type => ({ t with type := t.type.put type }, none)
  | .invoke call => t.observeCall call
  | _ => (t, none)

/-- The effect of each operation in turn. -/
def effects (t : Tracker) : List Operation → List (Option Effect)
  | [] => []
  | operation :: rest =>
      let (after, effect?) := t.observe operation
      effect? :: effects after rest

end Tracker

end Reflection

/-- The instructions of a body, each with the reflective effect observed at it. -/
def Body.observed (body : Body) : List (Instruction × Option Reflection.Effect) :=
  body.instructions.zip
    (Reflection.Tracker.effects {} (body.instructions.map Instruction.operation))

end JvmReach
