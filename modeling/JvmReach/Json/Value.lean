import JvmReach.Json.Number

/-!
# JSON values as far as they can be read

A text that breaks off or turns malformed still has a beginning, and a reader
that expects something else may already object to that beginning. So a text is
turned into a value that holds everything up to the first fault, with the fault
at its place; the value of a faultless text has none.

A string or numeral can be well formed by the letter and still denote nothing: a
lone surrogate escape, bytes that are no text, a number out of range. Such
contents are kept as faults of the leaf, because a reader that skips the leaf
does not mind them. For the same reason the places at which a text breaks off
carry two faults, for one who reads it and for one who skips it.
-/

namespace JvmReach.Json

mutual

inductive Value where
  | null
  | bool (b : Bool)
  | number (content : Except Fault Number)
  | string (content : Except Fault String)
  | array (items : Items)
  | object (members : Members)
  | broken (read skipped : Fault)

/-- The rest of an array, from an element or the closing bracket on. -/
inductive Items where
  | closed
  /-- No element follows and the bracket is missing: `next` is the fault for one
  who expects another element, `last` for one who expects the end. -/
  | broken (next last : Fault)
  | cons (head : Value) (tail : Items)

/-- The rest of an object, from a key or the closing brace on. -/
inductive Members where
  | closed
  | broken (read skipped : Fault)
  /-- A key that no colon follows. -/
  | colonless (key : Except Fault String) (fault : Fault)
  | cons (key : Except Fault String) (value : Value) (tail : Members)

end

/-- What a reader finds in place of what it wanted. -/
inductive Found where
  | null
  | bool (b : Bool)
  | integer (value : Int)
  | float (x : Float)
  | string (s : String)
  | sequence
  | map

namespace Number

def found : Number → Found
  | natural n => .integer n
  | negative n => .integer (-n)
  | float x => .float x

end Number

/-- Scalars are read to their end before a reader can tell what they are. -/
def Value.found : Value → Except Fault Found
  | null => .ok .null
  | bool b => .ok (.bool b)
  | number content => content.map Number.found
  | string content => content.map .string
  | array _ => .ok .sequence
  | object _ => .ok .map
  | broken read _ => .error read

mutual

/-- Skips a value: only its form has to be right. -/
def Value.skip : Value → Except Fault Unit
  | .array items => items.skip
  | .object members => members.skip
  | .broken _ skipped => .error skipped
  | _ => .ok ()

def Items.skip : Items → Except Fault Unit
  | .closed => .ok ()
  | .broken next _ => .error next
  | .cons head tail => do
      head.skip
      tail.skip

def Members.skip : Members → Except Fault Unit
  | .closed => .ok ()
  | .broken _ skipped => .error skipped
  | .colonless _ fault => .error fault
  | .cons _ value tail => do
      value.skip
      tail.skip

end

end JvmReach.Json
