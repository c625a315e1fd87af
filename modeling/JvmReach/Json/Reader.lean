import JvmReach.Json.Value
import JvmReach.Json.Quoted

/-!
# Reading JSON

`Value.parse` turns bytes into a value and the bytes behind it; there are none
behind a value that the text breaks off in. At most two calls hand on all the
bytes they were given before one takes up a byte, so three times the length of
the text bounds the depth of calls.
-/

namespace JvmReach.Json

namespace Byte

def comma : UInt8 := 0x2c
def colon : UInt8 := 0x3a
def minus : UInt8 := 0x2d
def plus : UInt8 := 0x2b
def point : UInt8 := 0x2e
def openBracket : UInt8 := 0x5b
def closeBracket : UInt8 := 0x5d
def openBrace : UInt8 := 0x7b
def closeBrace : UInt8 := 0x7d

def isBlank (b : UInt8) : Bool := b == 0x20 || b == 0x09 || b == 0x0a || b == 0x0d

def isDigit (b : UInt8) : Bool := 0x30 ≤ b && b ≤ 0x39

/-- The letter `e` in either case. -/
def isExponent (b : UInt8) : Bool := b == 0x65 || b == 0x45

end Byte

def skipBlanks (bytes : List UInt8) : List UInt8 := bytes.dropWhile Byte.isBlank

namespace Numeral

/-- Leading digits by their values, and what follows them. -/
def digits (bytes : List UInt8) : List Nat × List UInt8 :=
  ((bytes.takeWhile Byte.isDigit).map (·.toNat - 0x30), bytes.dropWhile Byte.isDigit)

/-- At least one digit. A text that ends instead is malformed for one who skips it. -/
def digits1 (bytes : List UInt8) : Except (Fault × Fault) (List Nat × List UInt8) :=
  match digits bytes with
  | ([], []) => .error (.truncated, .malformed)
  | ([], _) => .error (.malformed, .malformed)
  | found => .ok found

def parseWhole (bytes : List UInt8) : Except (Fault × Fault) (List Nat × List UInt8) :=
  match digits1 bytes with
  | .ok (0 :: _ :: _, _) => .error (.malformed, .malformed)
  | result => result

def parseFraction : List UInt8 → Except (Fault × Fault) (List Nat × List UInt8)
  | [] => .ok ([], [])
  | b :: rest => if b = Byte.point then digits1 rest else .ok ([], b :: rest)

def parseExponent :
    List UInt8 → Except (Fault × Fault) (Option (Bool × List Nat) × List UInt8)
  | [] => .ok (none, [])
  | b :: rest =>
      if Byte.isExponent b then
        let isNegative := rest.head? = some Byte.minus
        let isSigned := isNegative ∨ rest.head? = some Byte.plus
        (digits1 (if isSigned then rest.tail else rest)).map fun (ds, rest) =>
          (some (isNegative, ds), rest)
      else .ok (none, b :: rest)

/-- A numeral, or the faults for one who reads it and for one who skips it. -/
def parse (bytes : List UInt8) : Except (Fault × Fault) (Numeral × List UInt8) := do
  let isNegative := bytes.head? = some Byte.minus
  let (whole, rest) ← parseWhole (if isNegative then bytes.tail else bytes)
  let (fraction, rest) ← parseFraction rest
  let (exponent?, rest) ← parseExponent rest
  return ({ isNegative, whole, fraction, exponent? }, rest)

end Numeral

namespace Value

def parseWord (value : Value) : List UInt8 → List UInt8 → Value × Option (List UInt8)
  | [], rest => (value, some rest)
  | _ :: _, [] => (broken .truncated .truncated, none)
  | e :: expected, b :: rest =>
      if b = e then parseWord value expected rest
      else (broken .malformed .malformed, none)

def parseNumber (bytes : List UInt8) : Value × Option (List UInt8) :=
  match Numeral.parse bytes with
  | .ok (numeral, rest) => (number numeral.value, some rest)
  | .error (read, skipped) => (broken read skipped, none)

def parseString (bytes : List UInt8) : Value × Option (List UInt8) :=
  match Quoted.skip bytes with
  | .ok rest => (string (Quoted.read bytes), some rest)
  | .error skipped => (broken (Quoted.readFault bytes skipped) skipped, none)

/-- A value that is neither an array nor an object, from its first byte on. -/
def parseScalar (b : UInt8) (rest : List UInt8) : Value × Option (List UInt8) :=
  if b = Quoted.quote then parseString rest
  else if b = Byte.minus ∨ Byte.isDigit b then parseNumber (b :: rest)
  else if b = 0x6e then parseWord null [0x75, 0x6c, 0x6c] rest
  else if b = 0x74 then parseWord (bool true) [0x72, 0x75, 0x65] rest
  else if b = 0x66 then parseWord (bool false) [0x61, 0x6c, 0x73, 0x65] rest
  else (broken .malformed .malformed, none)

mutual

def parseWithin : Nat → List UInt8 → Value × Option (List UInt8)
  | 0, _ => (broken .malformed .malformed, none)
  | bound + 1, bytes =>
      match skipBlanks bytes with
      | [] => (broken .truncated .truncated, none)
      | b :: rest =>
          if b = Byte.openBracket then
            let (items, rest?) := parseItems bound true rest
            (array items, rest?)
          else if b = Byte.openBrace then
            let (members, rest?) := parseMembers bound true rest
            (object members, rest?)
          else parseScalar b rest

/-- Elements up to the closing bracket; all but the first stand behind a comma. -/
def parseItems : Nat → Bool → List UInt8 → Items × Option (List UInt8)
  | 0, _, _ => (.broken .malformed .malformed, none)
  | bound + 1, isFirst, bytes =>
      match skipBlanks bytes with
      | [] => (.broken .truncated .truncated, none)
      | b :: rest =>
          if b = Byte.closeBracket then (.closed, some rest)
          else if isFirst then parseItem bound (b :: rest)
          else if b = Byte.comma then
            match skipBlanks rest with
            | [] => (.broken .truncated .malformed, none)
            | c :: rest =>
                if c = Byte.closeBracket then (.broken .malformed .malformed, none)
                else parseItem bound (c :: rest)
          else (.broken .malformed .malformed, none)

def parseItem : Nat → List UInt8 → Items × Option (List UInt8)
  | 0, _ => (.broken .malformed .malformed, none)
  | bound + 1, bytes =>
      match parseWithin bound bytes with
      | (head, none) => (.cons head (.broken .truncated .truncated), none)
      | (head, some rest) =>
          let (tail, rest?) := parseItems bound false rest
          (.cons head tail, rest?)

/-- Members up to the closing brace; all but the first stand behind a comma. -/
def parseMembers : Nat → Bool → List UInt8 → Members × Option (List UInt8)
  | 0, _, _ => (.broken .malformed .malformed, none)
  | bound + 1, isFirst, bytes =>
      match skipBlanks bytes with
      | [] => (.broken .truncated .truncated, none)
      | b :: rest =>
          if b = Byte.closeBrace then (.closed, some rest)
          else if isFirst then parseMember bound (b :: rest)
          else if b = Byte.comma then
            match skipBlanks rest with
            | [] => (.broken .truncated .truncated, none)
            | rest => parseMember bound rest
          else (.broken .malformed .malformed, none)

def parseMember : Nat → List UInt8 → Members × Option (List UInt8)
  | bound + 1, b :: bytes =>
      if b = Quoted.quote then
        match Quoted.skip bytes with
        | .error skipped => (.broken (Quoted.readFault bytes skipped) skipped, none)
        | .ok rest =>
            let key := Quoted.read bytes
            match skipBlanks rest with
            | [] => (.colonless key .truncated, none)
            | c :: rest =>
                if c = Byte.colon then
                  match parseWithin bound rest with
                  | (value, none) =>
                      (.cons key value (.broken .truncated .truncated), none)
                  | (value, some rest) =>
                      let (tail, rest?) := parseMembers bound false rest
                      (.cons key value tail, rest?)
                else (.colonless key .malformed, none)
      else (.broken .malformed .malformed, none)
  | _, _ => (.broken .malformed .malformed, none)

end

/-- The first value of a text, and the bytes behind it. -/
def parse (bytes : List UInt8) : Value × Option (List UInt8) :=
  parseWithin (3 * bytes.length + 3) bytes

end Value

end JvmReach.Json
