import JvmReach.Json.Decode

/-!
# Records in JSON

A record is an object of its fields in any order, or an array of its fields in
their declared order. In an object no field may come twice, members that are no
fields are skipped, and a required field may not be missing; the first missing
one, as declared, is reported at the end of the object. An array may stop before
fields that are not required, and holds nothing behind the last one.

A schema tells how to decode the fields of a record, each as a change to a blank
record.
-/

namespace JvmReach.Json

structure Field (α : Type) where
  key : String
  isRequired : Bool
  decode : Decoder (α → α)

namespace Field

variable {α β : Type}

def required (key : String) (decode : Decoder β) (set : β → α → α) : Field α :=
  ⟨key, true, fun v => (decode v).map set⟩

def optional (key : String) (decode : Decoder β) (set : β → α → α) : Field α :=
  ⟨key, false, fun v => (decode v).map set⟩

end Field

structure Schema (α : Type) where
  title : String
  blank : α
  fields : List (Field α)

namespace Schema

variable {α : Type}

def wanted (s : Schema α) : String := s!"struct {s.title}"

def wantedArray (s : Schema α) : String :=
  let count := s.fields.length
  s!"{s.wanted} with {count} " ++ if count = 1 then "element" else "elements"

def field? (s : Schema α) (key : String) : Option (Field α) :=
  s.fields.find? (·.key == key)

/-- A record under way: its fields so far, and the keys they were read from. -/
structure Draft (α : Type) where
  record : α
  seen : List String

def complete (s : Schema α) (d : Draft α) : Except DecodeError α :=
  match s.fields.find? fun f => f.isRequired && !d.seen.contains f.key with
  | some f => Decode.fail (.missingField f.key)
  | none => .ok d.record

/-- The field of a key, if it is one; the key of a known field has to be new. -/
def freshField? (s : Schema α) (d : Draft α) (key : String) :
    Except DecodeError (Option (Field α)) :=
  match s.field? key with
  | none => .ok none
  | some f =>
      if d.seen.contains key then Decode.fail (.duplicateField key) else .ok (some f)

def decodeMember (s : Schema α) (d : Draft α) (key : String) (value : Value) :
    Except DecodeError (Draft α) := do
  match ← s.freshField? d key with
  | none =>
      Decode.under (.key key) (Decode.intact value.skip)
      return d
  | some f =>
      let change ← Decode.under (.key key) (f.decode value)
      return ⟨change d.record, key :: d.seen⟩

def decodeMembers (s : Schema α) : Draft α → Members → Except DecodeError α
  | d, .closed => s.complete d
  | _, .broken read _ => Decode.under .unknown (Decode.fault read)
  | d, .colonless key fault => do
      let _ ← s.freshField? d (← Decode.key key)
      Decode.fault fault
  | d, .cons key value tail => do
      let d ← s.decodeMember d (← Decode.key key) value
      s.decodeMembers d tail

/-- Decodes the fields from the one at `index` on. -/
def decodeItems (s : Schema α) : Nat → List (Field α) → α → Items → Except DecodeError α
  | _, [], record, items => do
      Decode.finish items
      return record
  | index, f :: rest, record, .closed =>
      if f.isRequired then Decode.fail (.wrongLength index s.wantedArray)
      else s.decodeItems (index + 1) rest record .closed
  | _, _ :: _, _, .broken next _ => Decode.fault next
  | index, f :: rest, record, .cons head tail => do
      let change ← Decode.under (.position index) (f.decode head)
      s.decodeItems (index + 1) rest (change record) tail

/-- Decodes the members of an object that has already been taken apart. -/
def decodeEntries (s : Schema α) (entries : List (String × Value)) : Except DecodeError α := do
  let d ← entries.foldlM (fun d (key, value) => s.decodeMember d key value) ⟨s.blank, []⟩
  s.complete d

def decode (s : Schema α) : Decoder α
  | .object members => s.decodeMembers ⟨s.blank, []⟩ members
  | .array items => s.decodeItems 0 s.fields s.blank items
  | v => Decode.refuse s.wanted v

end Schema

end JvmReach.Json
