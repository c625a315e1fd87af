import JvmReach.Json.Error

/-!
# Decoding values

A decoder takes a value of the wanted shape apart and refuses every other one.
A value is checked in the order of the text, so the first thing wrong in the
text is what gets reported, whether it is a fault or a mismatch.
-/

namespace JvmReach.Json

abbrev Decoder (α : Type) := Value → Except DecodeError α

namespace Decode

def under {α : Type} (segment : Segment) (r : Except DecodeError α) : Except DecodeError α :=
  r.mapError (·.under segment)

def fail {α : Type} (mismatch : Mismatch) : Except DecodeError α := .error (.ofMismatch mismatch)

def fault {α : Type} (fault : Fault) : Except DecodeError α := .error (.ofFault fault)

def intact {α : Type} (r : Except Fault α) : Except DecodeError α := r.mapError .ofFault

/-- Refuses a value of the wrong type, or whatever is faulty about it. -/
def refuse {α : Type} (wanted : String) (v : Value) : Except DecodeError α :=
  match v.found with
  | .ok found => fail (.wrongType found wanted)
  | .error f => fault f

def string : Decoder String
  | .string content => intact content
  | v => refuse "a string" v

def bool : Decoder Bool
  | .bool b => .ok b
  | v => refuse "a boolean" v

/-- A natural number below `limit`. -/
def word (limit : Nat) (wanted : String) : Decoder Nat
  | .number (.ok (.natural n)) =>
      if n < limit then .ok n else fail (.wrongValue (.integer n) wanted)
  | .number (.ok (.negative n)) => fail (.wrongValue (.integer (-n)) wanted)
  | v => refuse wanted v

def u32 : Decoder Nat := word 0x100000000 "u32"

def u8 : Decoder Nat := word 0x100 "u8"

/-- A value that may be `null`. -/
def nullable {α : Type} (decode : Decoder α) : Decoder (Option α)
  | .null => .ok none
  | v => (decode v).map some

def items {α : Type} (decode : Decoder α) : Nat → Items → Except DecodeError (List α)
  | _, .closed => .ok []
  | _, .broken next _ => fault next
  | index, .cons head tail => do
      let head ← under (.position index) (decode head)
      let tail ← items decode (index + 1) tail
      return head :: tail

def list {α : Type} (decode : Decoder α) : Decoder (List α)
  | .array items => Decode.items decode 0 items
  | v => refuse "a sequence" v

/-- The end of an array is due. -/
def finish : Items → Except DecodeError Unit
  | .closed => .ok ()
  | .broken _ last => fault last
  | .cons .. => fault .malformed

/-- The next key of an object, as far as it can be told. -/
def key (r : Except Fault String) : Except DecodeError String := under .unknown (intact r)

mutual

/-- Reads a value without looking into it, in which containers nest at most
`room` deep. -/
def stored (room : Nat) : Decoder Unit
  | .null | .bool _ => .ok ()
  | .number content => intact (content.map fun _ => ())
  | .string content => intact (content.map fun _ => ())
  | .array items => if room = 0 then fault .malformed else storedItems (room - 1) 0 items
  | .object members => if room = 0 then fault .malformed else storedMembers (room - 1) members
  | .broken read _ => fault read

def storedItems (room : Nat) : Nat → Items → Except DecodeError Unit
  | _, .closed => .ok ()
  | _, .broken next _ => fault next
  | index, .cons head tail => do
      under (.position index) (stored room head)
      storedItems room (index + 1) tail

def storedMembers (room : Nat) : Members → Except DecodeError Unit
  | .closed => .ok ()
  | .broken read _ => under .unknown (fault read)
  | .colonless name after => do
      let _ ← key name
      fault after
  | .cons name value tail => do
      let name ← key name
      under (.key name) (stored room value)
      storedMembers room tail

end

end Decode

end JvmReach.Json
