import JvmReach.Json.Value
import JvmReach.Decimal.Shortest
import JvmReach.Text.Quotation

/-!
# Where and why a document was refused

A document is refused at a path from its root, either because its text is faulty
or because a value there has the wrong shape. Keys and positions on the path are
those of the value that was being read. A text that is faulty between two
members of an object is refused at an unknown member of it.
-/

namespace JvmReach.Json

inductive Segment where
  | key (name : String)
  | position (index : Nat)
  | unknown
deriving DecidableEq

/-- Segments from the root of the document. -/
abbrev Path := List Segment

namespace Path

def dot (isFirst : Bool) : String := if isFirst then "" else "."

def textFrom (isFirst : Bool) : Path → String
  | [] => ""
  | .key name :: rest => dot isFirst ++ name ++ textFrom false rest
  | .position index :: rest => s!"[{index}]" ++ textFrom false rest
  | .unknown :: rest => dot isFirst ++ "?" ++ textFrom false rest

/-- The path as it is reported; a lone dot stands for the root. -/
def text : Path → String
  | [] => "."
  | path => textFrom true path

end Path

namespace Found

/-- At most four zeros stand behind the point of a number and at most sixteen
digits before it. -/
def decimals : Decimal.Style := { maxZeros := 4, maxWhole := 16, signsExponent := true }

def text : Found → String
  | null => "null"
  | bool b => s!"boolean `{b}`"
  | integer value => s!"integer `{value}`"
  | float x => s!"floating point `{Decimal.text decimals .double x.toBits.toNat}`"
  | string s => s!"string {Text.quotation s}"
  | sequence => "sequence"
  | map => "map"

end Found

/-- A value that is not of the shape wanted. -/
inductive Mismatch where
  | wrongType (found : Found) (wanted : String)
  | wrongValue (found : Found) (wanted : String)
  | wrongLength (length : Nat) (wanted : String)
  | missingField (name : String)
  | duplicateField (name : String)
  | unknownVariant (name : String) (variants : List String)

namespace Mismatch

def tick (name : String) : String := s!"`{name}`"

def message : Mismatch → String
  | wrongType found wanted => s!"invalid type: {found.text}, expected {wanted}"
  | wrongValue found wanted => s!"invalid value: {found.text}, expected {wanted}"
  | wrongLength length wanted => s!"invalid length {length}, expected {wanted}"
  | missingField name => s!"missing field {tick name}"
  | duplicateField name => s!"duplicate field {tick name}"
  | unknownVariant name variants =>
      s!"unknown variant {tick name}, expected one of " ++
        ", ".intercalate (variants.map tick)

end Mismatch

inductive Cause where
  | fault (fault : Fault)
  | mismatch (mismatch : Mismatch)

def Cause.message : Cause → String
  | fault .malformed => "malformed text"
  | fault .truncated => "unexpected end of text"
  | mismatch m => m.message

structure DecodeError where
  path : Path
  cause : Cause

namespace DecodeError

def ofFault (fault : Fault) : DecodeError := ⟨[], .fault fault⟩

def ofMismatch (mismatch : Mismatch) : DecodeError := ⟨[], .mismatch mismatch⟩

def under (segment : Segment) (e : DecodeError) : DecodeError :=
  { e with path := segment :: e.path }

end DecodeError

end JvmReach.Json
