import JvmReach.Json.Schema
import JvmReach.Program.Basic

/-!
# Instructions in a program model

An instruction is an object with its `offset`, the tag `op` and the fields of
the tagged operation, in any order. The offset is checked while the object is
read; the other members are stored, whatever they are, and checked in their
order once the object is complete. Storing is what bounds how deep they may
nest. What cannot even be stored is reported where it stands, and everything
else that is wrong with a stored member is reported of the instruction.
-/

namespace JvmReach.Document

open Json

def callKinds : List (String × CallKind) :=
  [("virtual", .virtual), ("interface", .interface), ("special", .special),
    ("static", .static), ("dynamic", .dynamic)]

/-- The value that a name stands for. -/
def variant {α : Type} (variants : List (String × α)) (name : String) : Except DecodeError α :=
  match variants.lookup name with
  | some value => .ok value
  | none => Decode.fail (.unknownVariant name (variants.map Prod.fst))

/-- The content of a variant that has none. -/
def unit : Decoder Unit
  | .null => .ok ()
  | .object .closed => .ok ()
  | v => Decode.refuse "unit" v

/-- A name, or an object with the name as its only key and nothing as its value. -/
def callKind : Decoder CallKind
  | .string (.ok name) => variant callKinds name
  | .object (.cons (.ok name) content .closed) => do
      let kind ← variant callKinds name
      unit content
      return kind
  | .object _ => Decode.fail (.wrongValue .map "map with a single key")
  | v => Decode.refuse "string or map" v

def invocation : Schema Invocation where
  title := "Invocation"
  blank := { declared := ⟨"", "", ""⟩, kind := .virtual }
  fields := [
    .required "owner" Decode.string fun owner c =>
      { c with declared := { c.declared with owner } },
    .required "name" Decode.string fun name c =>
      { c with declared := { c.declared with name } },
    .required "descriptor" Decode.string fun descriptor c =>
      { c with declared := { c.declared with descriptor } },
    .required "kind" callKind fun kind c => { c with kind },
    .optional "arrayReceiver" Decode.bool fun onArray c => { c with onArray }]

/-- An operation with a single field. -/
def single {β : Type} (key : String) (decode : Decoder β) (operation : β → Operation) :
    Schema Operation where
  title := "Operation"
  blank := .other 0
  fields := [.required key decode fun value _ => operation value]

abbrev Entries := List (String × Value)

/-- The operations by their tags, in the order of their numbers. -/
def operations : List (String × (Entries → Except DecodeError Operation)) :=
  [("invoke", fun entries => (invocation.decodeEntries entries).map .invoke),
    ("new", (single "className" Decode.string .new).decodeEntries),
    ("staticField", (single "owner" Decode.string .staticField).decodeEntries),
    ("constString", (single "value" Decode.string .constString).decodeEntries),
    ("constClass", (single "className" Decode.string .constClass).decodeEntries),
    ("other", (single "opcode" Decode.u8 fun n => .other n.toUInt8).decodeEntries)]

/-- A tag, by name or by number. -/
def tag : Decoder (Entries → Except DecodeError Operation)
  | .string (.ok name) => variant operations name
  | .number (.ok (.natural n)) =>
      match operations[n]? with
      | some (_, decode) => .ok decode
      | none =>
          Decode.fail (.wrongValue (.integer n) s!"variant index 0 <= i < {operations.length}")
  | v => Decode.refuse "variant identifier" v

/-- The tag among stored members, and the other ones. -/
def splitTag : Option (Entries → Except DecodeError Operation) → Entries →
    Except DecodeError ((Entries → Except DecodeError Operation) × Entries)
  | some decode, [] => .ok (decode, [])
  | none, [] => Decode.fail (.missingField "op")
  | found?, (key, value) :: rest =>
      if key = "op" then
        match found? with
        | some _ => Decode.fail (.duplicateField "op")
        | none => do splitTag (some (← tag value)) rest
      else do
        let (decode, others) ← splitTag found? rest
        return (decode, (key, value) :: others)

def operation (entries : Entries) : Except DecodeError Operation := do
  let (decode, fields) ← splitTag none entries
  decode fields

/-- The offset and the stored members, from a key or the end of the object on. -/
def takeApart (room : Nat) : Option Nat → Members → Except DecodeError (Option Nat × Entries)
  | offset?, .closed => .ok (offset?, [])
  | _, .broken read _ => Decode.under .unknown (Decode.fault read)
  | offset?, .colonless key fault => do
      let key ← Decode.key key
      if key = "offset" ∧ offset?.isSome then Decode.fail (.duplicateField "offset")
      else Decode.fault fault
  | offset?, .cons key value tail => do
      let key ← Decode.key key
      if key = "offset" then
        if offset?.isSome then Decode.fail (.duplicateField "offset")
        else
          let offset ← Decode.under (.key key) (Decode.u32 value)
          takeApart room (some offset) tail
      else
        Decode.under (.key key) (Decode.stored room value)
        let (offset?, entries) ← takeApart room offset? tail
        return (offset?, (key, value) :: entries)

/-- An instruction whose stored members nest at most `room` deep. -/
def instruction (room : Nat) : Decoder Instruction
  | .object members => do
      let (offset?, entries) ← takeApart room none members
      match offset? with
      | none => Decode.fail (.missingField "offset")
      | some offset =>
          let operation ← (operation entries).mapError fun e => { e with path := [] }
          return { offset, operation }
  | v => Decode.refuse "struct Instruction" v

end JvmReach.Document
