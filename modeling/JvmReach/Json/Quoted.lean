import JvmReach.Json.Number

/-!
# Quoted strings

Both scans start behind the opening quote and read one byte at a time. `read`
collects the bytes of the content and the rest behind the closing quote: escapes
are resolved, a surrogate escape has to come with its other half, and the bytes
have to be UTF-8. `skip` only looks for the closing quote; it checks the form of
escapes but takes any four hexadecimal digits.

Four bytes are taken for the digits of an escape before they are looked at, so a
text that ends among them is truncated, whatever they are.
-/

namespace JvmReach.Json.Quoted

def quote : UInt8 := 0x22

def backslash : UInt8 := 0x5c

/-- The letter of escapes by number. -/
def letterU : UInt8 := 0x75

def shortEscape? (b : UInt8) : Option UInt8 :=
  [(0x22, 0x22), (0x5c, 0x5c), (0x2f, 0x2f), (0x62, 0x08), (0x66, 0x0c), (0x6e, 0x0a),
    (0x72, 0x0d), (0x74, 0x09)].lookup b

def hexDigit? (b : UInt8) : Option Nat :=
  if 0x30 ≤ b ∧ b ≤ 0x39 then some (b.toNat - 0x30)
  else if 0x41 ≤ b ∧ b ≤ 0x46 then some (b.toNat - 0x37)
  else if 0x61 ≤ b ∧ b ≤ 0x66 then some (b.toNat - 0x57)
  else none

def hexNumber? (digits : List UInt8) : Option Nat :=
  digits.foldlM (fun n b => (hexDigit? b).map (16 * n + ·)) 0

def isHighSurrogate (n : Nat) : Bool := 0xd800 ≤ n && n < 0xdc00

def isLowSurrogate (n : Nat) : Bool := 0xdc00 ≤ n && n < 0xe000

def pairValue (high low : Nat) : Nat := 0x10000 + (high - 0xd800) * 0x400 + (low - 0xdc00)

def encode (n : Nat) : List UInt8 := String.utf8EncodeChar (Char.ofNat n)

inductive State where
  | plain
  | escape
  /-- Among the digits of an escape by number, after a high surrogate or not. -/
  | hex (high? : Option Nat) (digits : List UInt8)
  /-- After a high surrogate, before the backslash of the low one. -/
  | paired (high : Nat)
  | pairedLetter (high : Nat)

def prepend (bytes : List UInt8) (r : Except Fault (List UInt8 × List UInt8)) :
    Except Fault (List UInt8 × List UInt8) :=
  r.map fun (content, rest) => (bytes ++ content, rest)

def readFrom : State → List UInt8 → Except Fault (List UInt8 × List UInt8)
  | _, [] => .error .truncated
  | .plain, b :: rest =>
      if b = quote then .ok ([], rest)
      else if b = backslash then readFrom .escape rest
      else if b < 0x20 then .error .malformed
      else prepend [b] (readFrom .plain rest)
  | .escape, b :: rest =>
      if b = letterU then readFrom (.hex none []) rest
      else
        match shortEscape? b with
        | some c => prepend [c] (readFrom .plain rest)
        | none => .error .malformed
  | .hex high? digits, b :: rest =>
      if digits.length < 3 then readFrom (.hex high? (digits ++ [b])) rest
      else
        match hexNumber? (digits ++ [b]), high? with
        | none, _ => .error .malformed
        | some n, none =>
            if isHighSurrogate n then readFrom (.paired n) rest
            else if isLowSurrogate n then .error .malformed
            else prepend (encode n) (readFrom .plain rest)
        | some n, some high =>
            if isLowSurrogate n then prepend (encode (pairValue high n)) (readFrom .plain rest)
            else .error .malformed
  | .paired high, b :: rest =>
      if b = backslash then readFrom (.pairedLetter high) rest else .error .malformed
  | .pairedLetter high, b :: rest =>
      if b = letterU then readFrom (.hex (some high) []) rest else .error .malformed

def read (bytes : List UInt8) : Except Fault String :=
  match readFrom .plain bytes with
  | .error fault => .error fault
  | .ok (content, _) =>
      match String.fromUTF8? content.toByteArray with
      | some s => .ok s
      | none => .error .malformed

/-- The bytes behind the closing quote. -/
def skipFrom : State → List UInt8 → Except Fault (List UInt8)
  | _, [] => .error .truncated
  | .escape, b :: rest =>
      if b = letterU then skipFrom (.hex none []) rest
      else if (shortEscape? b).isSome then skipFrom .plain rest
      else .error .malformed
  | .hex _ digits, b :: rest =>
      if digits.length < 3 then skipFrom (.hex none (digits ++ [b])) rest
      else if (hexNumber? (digits ++ [b])).isSome then skipFrom .plain rest
      else .error .malformed
  | _, b :: rest =>
      if b = quote then .ok rest
      else if b = backslash then skipFrom .escape rest
      else if b < 0x20 then .error .malformed
      else skipFrom .plain rest

def skip (bytes : List UInt8) : Except Fault (List UInt8) := skipFrom .plain bytes

/-- The fault that a reader meets in a string without proper end. -/
def readFault (bytes : List UInt8) (skipped : Fault) : Fault :=
  match read bytes with
  | .error fault => fault
  | .ok _ => skipped

end JvmReach.Json.Quoted
