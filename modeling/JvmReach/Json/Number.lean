/-!
# Numbers of a JSON text

A numeral without fraction and exponent is an integer if it fits a 64-bit word,
signed or unsigned; negative zero is not an integer. Every other numeral is read
as a double: the digits that fit an unsigned word form the significand, further
digits before the point count into the exponent and those after it are dropped,
and the significand is scaled by one correctly rounded power of ten. A numeral
whose double would be infinite is malformed.
-/

namespace JvmReach.Json

/-- Why the reading of a text stopped: at something that JSON does not allow, or
at the end of the text. -/
inductive Fault where
  | malformed
  | truncated
deriving DecidableEq, Inhabited

inductive Number where
  | natural (n : Nat)
  /-- The number `-n`. -/
  | negative (n : Nat)
  | float (x : Float)

/-- The parts of a numeral, each digit by its value. -/
structure Numeral where
  isNegative : Bool
  whole : List Nat
  fraction : List Nat
  exponent? : Option (Bool × List Nat)
deriving DecidableEq

namespace Numeral

def wordSize : Nat := 0x10000000000000000

/-- Takes digits into the significand as long as it stays a word; the digits
that are left come second. -/
def accumulate (significand : Nat) : List Nat → Nat × List Nat
  | [] => (significand, [])
  | d :: rest =>
      if significand * 10 + d < wordSize then accumulate (significand * 10 + d) rest
      else (significand, d :: rest)

def powerOfTen (e : Nat) : Float := Float.ofScientific 1 false e

/-- A power of ten below the range of doubles is divided out in several steps,
of which three leave nothing. -/
def scale : Nat → Float → Int → Option Float
  | 0, x, _ => some x
  | steps + 1, x, e =>
      if x == 0.0 then some x
      else if 308 < e then none
      else if 0 ≤ e then
        let y := x * powerOfTen e.toNat
        if y.isInf then none else some y
      else if -308 ≤ e then some (x / powerOfTen (-e).toNat)
      else scale steps (x / powerOfTen 308) (e + 308)

def toFloat? (n : Numeral) : Option Float :=
  let (significand, left) := accumulate 0 n.whole
  let (significand, dropped) := accumulate significand n.fraction
  let shift := Int.ofNat left.length - Int.ofNat (n.fraction.length - dropped.length)
  let power : Int :=
    match n.exponent? with
    | none => 0
    | some (isNegative, digits) =>
        let e := digits.foldl (fun e d => 10 * e + d) 0
        if isNegative then -Int.ofNat e else Int.ofNat e
  (scale 4 significand.toUInt64.toFloat (shift + power)).map fun x =>
    if n.isNegative then -x else x

def integer? (n : Numeral) : Option Number :=
  match n.fraction, n.exponent?, accumulate 0 n.whole with
  | [], none, (value, []) =>
      if !n.isNegative then some (.natural value)
      else if 0 < value ∧ value ≤ 0x8000000000000000 then some (.negative value)
      else none
  | _, _, _ => none

def value (n : Numeral) : Except Fault Number :=
  match n.integer? with
  | some value => .ok value
  | none =>
      match n.toFloat? with
      | some x => .ok (.float x)
      | none => .error .malformed

end Numeral

end JvmReach.Json
