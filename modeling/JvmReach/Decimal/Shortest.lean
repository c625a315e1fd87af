/-!
# The shortest decimal of a binary number

A binary format divides a word into a sign, an exponent and a fraction. A finite
number is `m * 2 ^ q`, and the reals that round to it form an interval around it,
whose ends belong to it exactly when `m` is even. Its shortest decimal is the
point of the coarsest decimal grid that meets the interval, the nearer one if
two points do, and the even one if these are equally near. A grid that meets the
interval does so at a neighbour of the number itself, so only the two neighbours
are looked at.

`text` lays that decimal out as a style says: positionally while the point is
not too far from the digits, and with an exponent otherwise. A whole number
keeps one zero after its point.
-/

namespace JvmReach.Decimal

/-- A binary format, by the widths of two parts of its words. The sign stands
before the exponent and the fraction behind it. -/
structure BinaryFormat where
  exponentWidth : Nat
  fractionWidth : Nat
deriving DecidableEq

namespace BinaryFormat

def single : BinaryFormat := ⟨8, 23⟩

def double : BinaryFormat := ⟨11, 52⟩

def isNegative (f : BinaryFormat) (word : Nat) : Bool :=
  word / Nat.pow 2 (f.exponentWidth + f.fractionWidth) % 2 = 1

def exponent (f : BinaryFormat) (word : Nat) : Nat :=
  word / Nat.pow 2 f.fractionWidth % Nat.pow 2 f.exponentWidth

def fraction (f : BinaryFormat) (word : Nat) : Nat := word % Nat.pow 2 f.fractionWidth

/-- The exponent of infinities and of what is not a number. -/
def maxExponent (f : BinaryFormat) : Nat := Nat.pow 2 f.exponentWidth - 1

/-- The power of two that the last place of the smallest numbers stands for. -/
def minScale (f : BinaryFormat) : Int :=
  2 - Nat.pow 2 (f.exponentWidth - 1) - f.fractionWidth

end BinaryFormat

/-- A positive number `value * 2 ^ exponent` with the ends of its interval, in the same unit. -/
structure Interval where
  low : Nat
  value : Nat
  high : Nat
  exponent : Int
  closed : Bool

/-- The interval of a finite number other than zero, whatever its sign. In units
of a quarter of its last place both ends are whole; the lower one is nearer
below a power of two. -/
def Interval.ofWord (f : BinaryFormat) (word : Nat) : Interval :=
  let exponent := f.exponent word
  let fraction := f.fraction word
  let m := if exponent = 0 then fraction else fraction + Nat.pow 2 f.fractionWidth
  let q := f.minScale + (exponent - 1 : Nat)
  { low := if fraction = 0 ∧ 1 < exponent then 4 * m - 1 else 4 * m - 2
    value := 4 * m
    high := 4 * m + 2
    exponent := q - 2
    closed := m % 2 = 0 }

/-- The grid point chosen among the multiples of `10 ^ e`, as a multiple. -/
def Interval.gridPoint? (i : Interval) (e : Int) : Option Nat :=
  let scale := Nat.pow 2 i.exponent.toNat * Nat.pow 10 (-e).toNat
  let unit := Nat.pow 2 (-i.exponent).toNat * Nat.pow 10 e.toNat
  let inside (d : Nat) : Bool :=
    if i.closed then i.low * scale ≤ d * unit ∧ d * unit ≤ i.high * scale
    else i.low * scale < d * unit ∧ d * unit < i.high * scale
  let below := i.value * scale / unit
  let rest := i.value * scale % unit
  let pickBelow := 2 * rest < unit ∨ (2 * rest = unit ∧ below % 2 = 0)
  match decide (0 < below) && inside below, inside (below + 1) with
  | true, true => some (if pickBelow then below else below + 1)
  | true, false => some below
  | false, true => some (below + 1)
  | false, false => none

/-- The first grid point on grids from `10 ^ e` down to finer ones. -/
def Interval.search (i : Interval) : Nat → Int → Nat × Int
  | 0, e => (0, e)
  | grids + 1, e =>
      match i.gridPoint? e with
      | some d => (d, e)
      | none => i.search grids (e - 1)

/-- The digits of the shortest decimal and the exponent of its last digit. -/
def shortest (f : BinaryFormat) (word : Nat) : List Char × Int :=
  let (d, e) := (Interval.ofWord f word).search 700 309
  (Nat.toDigits 10 d, e)

/-- How decimals are laid out. -/
structure Style where
  /-- The greatest number of zeros between the point and the first digit. -/
  maxZeros : Nat
  /-- The greatest number of digits before the point. -/
  maxWhole : Nat
  /-- Whether a positive exponent has a sign. -/
  signsExponent : Bool
deriving DecidableEq

namespace Style

def exponentChars (s : Style) (e : Int) : List Char :=
  (if s.signsExponent ∧ 0 < e then ['+'] else []) ++ (toString e).toList

def layout (s : Style) (digits : List Char) (exponent : Int) : List Char :=
  let point := digits.length + exponent
  if 0 ≤ exponent ∧ point ≤ s.maxWhole then
    digits ++ List.replicate exponent.toNat '0' ++ ['.', '0']
  else if 0 < point ∧ point ≤ s.maxWhole then
    digits.take point.toNat ++ '.' :: digits.drop point.toNat
  else if -(s.maxZeros : Int) ≤ point ∧ point ≤ 0 then
    '0' :: '.' :: List.replicate (-point).toNat '0' ++ digits
  else
    let mantissa :=
      match digits with
      | first :: second :: rest => first :: '.' :: second :: rest
      | short => short
    mantissa ++ 'e' :: s.exponentChars (point - 1)

end Style

/-- The text of a number without its sign. -/
def magnitude (s : Style) (f : BinaryFormat) (word : Nat) : List Char :=
  if f.exponent word = f.maxExponent then ['i', 'n', 'f']
  else if f.exponent word = 0 ∧ f.fraction word = 0 then ['0', '.', '0']
  else
    let (digits, exponent) := shortest f word
    s.layout digits exponent

/-- The text of the number that a word stands for, if it stands for one. -/
def text (s : Style) (f : BinaryFormat) (word : Nat) : String :=
  if f.exponent word = f.maxExponent ∧ f.fraction word ≠ 0 then "NaN"
  else String.ofList ((if f.isNegative word then ['-'] else []) ++ magnitude s f word)

end JvmReach.Decimal
