import JvmReach.Document.Instruction
import JvmReach.Json.Reader

/-!
# Program models

A program model is a JSON document with the classes of a program, in the form
that the analysis works on. Values may nest at most 127 deep where they are
stored; an instruction of a model stands seven containers below the root, one of
its own does not.

A model ends with its first value, whatever follows. A text that holds a single
instruction may hold nothing else.
-/

namespace JvmReach.Document

open Json

/-- The greatest number of containers around a stored value, itself included. -/
def maxDepth : Nat := 127

def modelInstruction : Decoder Instruction := instruction (maxDepth - 8)

def loneInstruction : Decoder Instruction := instruction (maxDepth - 1)

def lineEntry : Schema LineEntry where
  title := "LineNumber"
  blank := ⟨0, 0⟩
  fields := [
    .required "startPc" Decode.u32 fun startPc e => { e with startPc },
    .required "line" Decode.u32 fun line e => { e with line }]

def body : Schema Body where
  title := "MethodBody"
  blank := {}
  fields := [
    .optional "instructions" (Decode.list modelInstruction)
      fun instructions b => { b with instructions },
    .optional "lineNumbers" (Decode.list lineEntry.decode) fun lines b => { b with lines }]

def methodAccess : Schema MethodAccess where
  title := "MethodAccess"
  blank := {}
  fields := [
    .optional "isPublic" Decode.bool fun isPublic a => { a with isPublic },
    .optional "isPrivate" Decode.bool fun isPrivate a => { a with isPrivate },
    .optional "isStatic" Decode.bool fun isStatic a => { a with isStatic },
    .optional "isAbstract" Decode.bool fun isAbstract a => { a with isAbstract }]

def method : Schema Method where
  title := "Method"
  blank := { name := "", descriptor := "" }
  fields := [
    .required "name" Decode.string fun name m => { m with name },
    .required "descriptor" Decode.string fun descriptor m => { m with descriptor },
    .optional "access" methodAccess.decode fun access m => { m with access },
    .optional "body" (Decode.nullable body.decode) fun body? m => { m with body? }]

def classAccess : Schema ClassAccess where
  title := "ClassAccess"
  blank := {}
  fields := [
    .optional "isPublic" Decode.bool fun isPublic a => { a with isPublic },
    .optional "isInterface" Decode.bool fun isInterface a => { a with isInterface },
    .optional "isAbstract" Decode.bool fun isAbstract a => { a with isAbstract }]

def classDef : Schema ClassDef where
  title := "Class"
  blank := { name := "" }
  fields := [
    .required "name" Decode.string fun name c => { c with name },
    .optional "superName" (Decode.nullable Decode.string)
      fun superclass? c => { c with superclass? },
    .optional "interfaces" (Decode.list Decode.string) fun interfaces c => { c with interfaces },
    .optional "access" classAccess.decode fun access c => { c with access },
    .optional "referencedClasses" (Decode.list Decode.string)
      fun references c => { c with references },
    .optional "methods" (Decode.list method.decode) fun methods c => { c with methods },
    .optional "isTarget" Decode.bool fun isTarget c => { c with isTarget }]

def model : Schema (List ClassDef) where
  title := "ModelDocument"
  blank := []
  fields := [.required "classes" (Decode.list classDef.decode) fun classes _ => classes]

/-- The classes of a model, from the bytes of its text. -/
def readModel (bytes : List UInt8) : Except DecodeError (List ClassDef) :=
  model.decode (Value.parse bytes).1

/-- A text that is exactly one value. -/
def readWhole {α : Type} (decode : Decoder α) (bytes : List UInt8) : Except DecodeError α := do
  let (value, rest?) := Value.parse bytes
  let result ← decode value
  match skipBlanks (rest?.getD []) with
  | [] => return result
  | _ => Decode.fault .malformed

def readInstruction (bytes : List UInt8) : Except DecodeError Instruction :=
  readWhole loneInstruction bytes

end JvmReach.Document
