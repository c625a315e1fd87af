import JvmReach.ClassFile.Constant
import JvmReach.ClassFile.Opcode
import JvmReach.Program.Basic

/-!
# Instructions of a code array

A code array is a sequence of instructions without gaps: each starts where the
one before ends, and the last one ends with the array. The operations that
matter for reachability are decoded by looking their operands up in the constant
pool; all others are kept by their opcode.

A method that is called on an array is one that arrays inherit, so its declared
owner is replaced by the root class. Dynamic calls name no owner and get that of
call site objects.
-/

namespace JvmReach.ClassFile

/-- Why a code array could not be decoded. -/
inductive DecodingError where
  | code (cause : CodeError)
  | lookup (cause : LookupError)
deriving DecidableEq

def DecodingError.message : DecodingError → String
  | code cause => cause.message
  | lookup cause => cause.message

abbrev Decoded (α : Type) := Except DecodingError α

namespace Code

def arrayMethodOwner : TypeName := "java/lang/Object"

def dynamicCallOwner : TypeName := "java/lang/invoke/CallSite"

def ofCode {α : Type} (r : Except CodeError α) : Decoded α := r.mapError .code

def ofLookup {α : Type} (r : Lookup α) : Decoded α := r.mapError .lookup

def methodCall (pool : ConstantPool) (index : Nat) (kind : CallKind) : Lookup Invocation := do
  let (owner, member) ← pool.find .methodRef index fun
    | .methodRef owner member | .interfaceMethodRef owner member => some (owner, member)
    | _ => none
  let owner ← (pool.className owner).for .owner
  let (name, descriptor) ← pool.member member
  let onArray := owner.toList.head? = some '['
  let owner := if onArray then arrayMethodOwner else owner
  return { declared := ⟨owner, name, descriptor⟩, kind, onArray }

def dynamicCall (pool : ConstantPool) (index : Nat) : Lookup Invocation := do
  let member ← pool.find .invokeDynamic index fun
    | .invokeDynamic _ member => some member
    | _ => none
  let (name, descriptor) ← pool.member member
  return { declared := ⟨dynamicCallOwner, name, descriptor⟩, kind := .dynamic }

def fieldOwner (pool : ConstantPool) (index : Nat) : Lookup TypeName := do
  let owner ← pool.find .fieldRef index fun
    | .fieldRef owner _ => some owner
    | _ => none
  pool.className owner

/-- The constant a load instruction pushes, if it is a text or a class other
than an array. -/
def loadedConstant? (pool : ConstantPool) (index : Nat) : Lookup (Option Operation) := do
  match ← pool.find .loadable index some with
  | .string text => return some (.constString (← (pool.utf8 text).for .stringConstant))
  | .classInfo name =>
      let type ← (pool.utf8 name).for .classConstant
      return if type.toList.head? = some '[' then none else some (.constClass type)
  | _ => return none

def callKind? (opcode : UInt8) : Option CallKind :=
  [(Opcode.invokeVirtual, CallKind.virtual), (Opcode.invokeSpecial, .special),
    (Opcode.invokeStatic, .static), (Opcode.invokeInterface, .interface)].lookup opcode

/-- The operation of an instruction that lies inside the code. -/
def operationAt (pool : ConstantPool) (code : Bytes) (offset : Nat) (opcode : UInt8) :
    Decoded Operation :=
  match callKind? opcode with
  | some kind => do
      let index ← ofCode (shortAt code (offset + 1))
      return .invoke (← ofLookup ((methodCall pool index kind).for (.methodCall offset)))
  | none =>
      if opcode = Opcode.invokeDynamic then do
        let index ← ofCode (shortAt code (offset + 1))
        return .invoke (← ofLookup ((dynamicCall pool index).for (.dynamicCall offset)))
      else if opcode = Opcode.new then do
        let index ← ofCode (shortAt code (offset + 1))
        return .new (← ofLookup ((pool.className index).for .instantiatedClass))
      else if opcode = Opcode.ldc ∨ opcode = Opcode.ldcWide then do
        let index ←
          ofCode (if opcode = Opcode.ldc then byteAt code (offset + 1)
            else shortAt code (offset + 1))
        return (← ofLookup (loadedConstant? pool index)).getD (.other opcode)
      else if opcode = Opcode.getStatic ∨ opcode = Opcode.putStatic then do
        let index ← ofCode (shortAt code (offset + 1))
        return .staticField (← ofLookup ((fieldOwner pool index).for .fieldOwner))
      else return .other opcode

/-- The instruction at an offset, with its length. -/
def instructionAt (pool : ConstantPool) (code : Bytes) (offset : Nat) (opcode : UInt8) :
    Decoded (Instruction × Nat) := do
  let length ← ofCode (lengthAt code offset)
  if length = 0 ∨ code.size < offset + length then .error (.code (.badLength offset))
  else
    let operation ← operationAt pool code offset opcode
    return ({ offset, operation }, length)

/-- The instructions from an offset on, at most `bound` of them. -/
def instructionsFrom (pool : ConstantPool) (code : Bytes) :
    Nat → Nat → Decoded (List Instruction)
  | 0, _ => .ok []
  | bound + 1, offset =>
      match code[offset]? with
      | none => .ok []
      | some opcode => do
          let (instruction, length) ← instructionAt pool code offset opcode
          let rest ← instructionsFrom pool code bound (offset + length)
          return instruction :: rest

/-- Every instruction takes up a byte, so there are no more than bytes. -/
def instructions (pool : ConstantPool) (code : Bytes) : Decoded (List Instruction) :=
  instructionsFrom pool code code.size 0

end Code

end JvmReach.ClassFile
