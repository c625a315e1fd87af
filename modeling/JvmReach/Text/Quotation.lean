import JvmReach.Text.Invisible

/-!
# Quotations in messages

A text that is quoted in a message stands between double quotes. Quotes,
backslashes and the common control characters in it are escaped by a letter, and
every other invisible character by its number.
-/

namespace JvmReach.Text

def numbered (c : Char) : List Char :=
  ['\\', 'u', '\x7b'] ++ Nat.toDigits 16 c.toNat ++ ['\x7d']

def quotationChars (c : Char) : List Char :=
  match c with
  | '"' => ['\\', '"']
  | '\\' => ['\\', '\\']
  | '\t' => ['\\', 't']
  | '\r' => ['\\', 'r']
  | '\n' => ['\\', 'n']
  | '\x00' => ['\\', '0']
  | c => if isInvisible c then numbered c else [c]

def quotation (s : String) : String :=
  String.ofList ('"' :: s.toList.flatMap quotationChars ++ ['"'])

end JvmReach.Text
