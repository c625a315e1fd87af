/-!
# Names in class files

Names are stored in a variant of UTF-8 that writes the null character in two
bytes and a character beyond the basic plane as a pair of surrogates in three
bytes each. Bytes that are proper UTF-8 are read as such. All others are read
leniently from left to right, and a question mark stands for each place that
denotes no character.
-/

namespace JvmReach.ClassFile

/-- The bytes of constant texts and code arrays, and of whole files. -/
abbrev Bytes := Array UInt8

namespace ModifiedUtf8

def isContinuation (b : UInt8) : Bool := 0x80 ≤ b && b ≤ 0xbf

def low6 (b : UInt8) : Nat := b.toNat % 0x40

/-- The character of a code point; surrogates are none. -/
def charOf (n : Nat) : Char :=
  if n.isValidChar then Char.ofNat n else '?'

def isLeadOfThree (b : UInt8) : Bool := 0xe0 ≤ b && b ≤ 0xef

def isLeadOfTwo (b : UInt8) : Bool := 0xc0 ≤ b && b ≤ 0xdf

/-- The character of a surrogate pair, from the bytes behind the first one. -/
def pair? : List UInt8 → Option Char
  | a :: b :: c :: d :: e :: _ =>
      if 0xa0 ≤ a ∧ a ≤ 0xaf ∧ isContinuation b ∧ c = 0xed ∧ 0xb0 ≤ d ∧ d ≤ 0xbf ∧
          isContinuation e then
        some (charOf (0x10000 + (a.toNat - 0xa0) * 0x10000 + low6 b * 0x400
          + (d.toNat - 0xb0) * 0x40 + low6 e))
      else none
  | _ => none

/-- The character that starts with byte `b`, and how many of the bytes behind
`b` belong to it. -/
def next (b : UInt8) (rest : List UInt8) : Char × Nat :=
  if b < 0x80 then (charOf b.toNat, 0)
  else
    match if b = 0xed then pair? rest else none with
    | some c => (c, 5)
    | none =>
        match (rest.take 2).takeWhile isContinuation with
        | [] => ('?', 0)
        | x :: more =>
            if isLeadOfTwo b then (charOf (b.toNat % 0x20 * 0x40 + low6 x), 1)
            else if isLeadOfThree b then
              match more with
              | [] => ('?', 1)
              | y :: _ => (charOf (b.toNat % 0x10 * 0x1000 + low6 x * 0x40 + low6 y), 2)
            else ('?', 0)

/-- Reads on after `skip` bytes that belong to the character before. -/
def lenient : Nat → List UInt8 → List Char
  | _, [] => []
  | skip + 1, _ :: rest => lenient skip rest
  | 0, b :: rest =>
      let (c, taken) := next b rest
      c :: lenient taken rest

def decode (bytes : Bytes) : String :=
  match String.fromUTF8? ⟨bytes⟩ with
  | some s => s
  | none => String.ofList (lenient 0 bytes.toList)

end ModifiedUtf8

end JvmReach.ClassFile
