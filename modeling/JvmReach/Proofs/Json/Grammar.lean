import JvmReach.Json.Value
import Mathlib.Data.List.Forall2

/-!
# The grammar of JSON

A value may be written in many ways: with white space around it and between its parts, with
characters escaped or not, with a plus sign in an exponent or without. `Writes` relates a
value to each text that it may be written as, and `WritesPadded` to the texts that may in
addition start and end with white space, such as a whole document. Numbers are kept as their
numerals.

The characters of a string are Unicode characters. Escapes by number can also write half of a
surrogate pair without the other half, which stands for no character. A string with such an
escape is written by the rules, but it is no text: as a value or as a key it is `none`.
-/

namespace JvmReach.Json

inductive Tree where
  | null
  | bool (b : Bool)
  | number (n : Numeral)
  | string (s? : Option String)
  | array (items : List Tree)
  | object (members : List (Option String × Tree))

namespace Tree

/-- The members of an object whose keys are texts. -/
def named (members : List (String × Tree)) : List (Option String × Tree) :=
  members.map fun m => (some m.1, m.2)

end Tree

/-- White space between the parts of a text. -/
def IsBlank (cs : List Char) : Prop := ∀ c ∈ cs, c ∈ [' ', '\t', '\n', '\r']

theorem isBlank_nil : IsBlank [] := by
  rintro c ⟨⟩

section Numerals

/-- The values of at least one decimal digit. -/
def IsDigits (ds : List Nat) : Prop := ds ≠ [] ∧ ∀ d ∈ ds, d < 10

def digitChars (ds : List Nat) : List Char := ds.map Nat.digitChar

inductive WritesFraction : List Nat → List Char → Prop
  | absent : WritesFraction [] []
  | present {ds : List Nat} (h : IsDigits ds) : WritesFraction ds ('.' :: digitChars ds)

inductive WritesExponent : Option (Bool × List Nat) → List Char → Prop
  | absent : WritesExponent none []
  | present {letter : Char} {isNegative : Bool} {sign : List Char} {ds : List Nat}
      (hletter : letter ∈ ['e', 'E'])
      (hsign : (isNegative, sign) ∈ [(false, []), (false, ['+']), (true, ['-'])])
      (h : IsDigits ds) :
      WritesExponent (some (isNegative, ds)) (letter :: (sign ++ digitChars ds))

inductive WritesNumeral : Numeral → List Char → Prop
  | mk {isNegative : Bool} {whole fraction : List Nat} {exponent? : Option (Bool × List Nat)}
      {fractionText exponentText : List Char} (hwhole : IsDigits whole)
      (hzero : whole.head? = some 0 → whole = [0])
      (hfraction : WritesFraction fraction fractionText)
      (hexponent : WritesExponent exponent? exponentText) :
      WritesNumeral ⟨isNegative, whole, fraction, exponent?⟩
        ((if isNegative then ['-'] else []) ++
          (digitChars whole ++ (fractionText ++ exponentText)))

end Numerals

section Strings

/-- The hexadecimal digits with their values. -/
def hexDigits : List (Char × Nat) :=
  "0123456789abcdef".toList.zipIdx ++ "ABCDEF".toList.zipIdx 10

/-- Four hexadecimal digits stand for the number. -/
def WritesUnit (n : Nat) (cs : List Char) : Prop :=
  ∃ digits : List (Char × Nat), (∀ d ∈ digits, d ∈ hexDigits) ∧ digits.length = 4 ∧
    digits.map Prod.fst = cs ∧ digits.foldl (fun n d => 16 * n + d.2) 0 = n

/-- The letters of the short escapes and what they stand for. -/
def shortEscapes : List (Char × Char) :=
  [('"', '"'), ('\\', '\\'), ('/', '/'), ('b', '\x08'), ('f', '\x0c'), ('n', '\n'), ('r', '\r'),
    ('t', '\t')]

inductive WritesChar : Char → List Char → Prop
  | plain {c : Char} (hcontrol : 0x20 ≤ c.toNat) (hquote : c ≠ '"') (hbackslash : c ≠ '\\') :
      WritesChar c [c]
  | short {letter c : Char} (h : (letter, c) ∈ shortEscapes) : WritesChar c ['\\', letter]
  | unit {c : Char} {digits : List Char} (h : WritesUnit c.toNat digits) :
      WritesChar c ('\\' :: 'u' :: digits)
  | pair {c : Char} {high low : Nat} {digits digits' : List Char}
      (hhigh : 0xd800 ≤ high ∧ high < 0xdc00) (hlow : 0xdc00 ≤ low ∧ low < 0xe000)
      (hc : c.toNat = 0x10000 + (high - 0xd800) * 0x400 + (low - 0xdc00))
      (h : WritesUnit high digits) (h' : WritesUnit low digits') :
      WritesChar c ('\\' :: 'u' :: (digits ++ '\\' :: 'u' :: digits'))

/-- A character, or half of a surrogate pair by itself. -/
inductive WritesPiece : List Char → Prop
  | char {c : Char} {cs : List Char} (h : WritesChar c cs) : WritesPiece cs
  | half {n : Nat} {digits : List Char} (hn : 0xd800 ≤ n ∧ n < 0xe000) (h : WritesUnit n digits) :
      WritesPiece ('\\' :: 'u' :: digits)

def quoted (parts : List (List Char)) : List Char := '"' :: (parts.flatten ++ ['"'])

def Spells (s : String) (cs : List Char) : Prop :=
  ∃ parts, List.Forall₂ WritesChar s.toList parts ∧ cs = quoted parts

def WritesString : Option String → List Char → Prop
  | some s, cs => Spells s cs
  | none, cs =>
      (∃ parts, (∀ part ∈ parts, WritesPiece part) ∧ cs = quoted parts) ∧ ∀ s, ¬ Spells s cs

end Strings

mutual

inductive Writes : Tree → List Char → Prop
  | null : Writes .null ['n', 'u', 'l', 'l']
  | true : Writes (.bool true) ['t', 'r', 'u', 'e']
  | false : Writes (.bool false) ['f', 'a', 'l', 's', 'e']
  | number {n : Numeral} {cs : List Char} (h : WritesNumeral n cs) : Writes (.number n) cs
  | string {s? : Option String} {cs : List Char} (h : WritesString s? cs) : Writes (.string s?) cs
  | array {items : List Tree} {cs : List Char} (h : WritesItems items cs) :
      Writes (.array items) ('[' :: (cs ++ [']']))
  | object {members : List (Option String × Tree)} {cs : List Char} (h : WritesMembers members cs) :
      Writes (.object members) ('\x7b' :: (cs ++ ['\x7d']))

inductive WritesPadded : Tree → List Char → Prop
  | mk {t : Tree} {before cs after : List Char} (hbefore : IsBlank before) (h : Writes t cs)
      (hafter : IsBlank after) : WritesPadded t (before ++ (cs ++ after))

/-- What stands between the brackets of an array. -/
inductive WritesItems : List Tree → List Char → Prop
  | none {cs : List Char} (h : IsBlank cs) : WritesItems [] cs
  | last {t : Tree} {cs : List Char} (h : WritesPadded t cs) : WritesItems [t] cs
  | cons {t t' : Tree} {rest : List Tree} {cs cs' : List Char} (h : WritesPadded t cs)
      (hrest : WritesItems (t' :: rest) cs') : WritesItems (t :: t' :: rest) (cs ++ ',' :: cs')

/-- What stands between the braces of an object. -/
inductive WritesMembers : List (Option String × Tree) → List Char → Prop
  | none {cs : List Char} (h : IsBlank cs) : WritesMembers [] cs
  | last {key? : Option String} {t : Tree} {cs : List Char} (h : WritesMember key? t cs) :
      WritesMembers [(key?, t)] cs
  | cons {key? : Option String} {t : Tree} {m : Option String × Tree}
      {rest : List (Option String × Tree)} {cs cs' : List Char} (h : WritesMember key? t cs)
      (hrest : WritesMembers (m :: rest) cs') :
      WritesMembers ((key?, t) :: m :: rest) (cs ++ ',' :: cs')

inductive WritesMember : Option String → Tree → List Char → Prop
  | mk {key? : Option String} {t : Tree} {before name after cs : List Char}
      (hbefore : IsBlank before) (hname : WritesString key? name) (hafter : IsBlank after)
      (h : WritesPadded t cs) : WritesMember key? t (before ++ (name ++ (after ++ ':' :: cs)))

end

end JvmReach.Json
