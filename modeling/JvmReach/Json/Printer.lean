/-!
# Writing JSON

Documents are written with two spaces of indentation, one member or element on
a line, and empty arrays and objects closed at once. Strings are written as they
are, except for the quote, the backslash and the control characters below
U+0020, which are escaped by their short form where there is one.
-/

namespace JvmReach.Json

inductive Document where
  | number (value : Int)
  | string (value : String)
  | array (items : List Document)
  | object (members : List (String × Document))

namespace Document

def hexDigit (n : Nat) : Char :=
  if n < 10 then Char.ofNat (48 + n) else Char.ofNat (87 + n)

def escape (c : Char) : List Char :=
  if c = '"' then ['\\', '"']
  else if c = '\\' then ['\\', '\\']
  else if c.toNat < 0x20 then
    match c.toNat with
    | 0x8 => ['\\', 'b']
    | 0x9 => ['\\', 't']
    | 0xa => ['\\', 'n']
    | 0xc => ['\\', 'f']
    | 0xd => ['\\', 'r']
    | n => ['\\', 'u', '0', '0', hexDigit (n / 16), hexDigit (n % 16)]
  else [c]

def quote (s : String) : List Char := '"' :: s.toList.flatMap escape ++ ['"']

def newline (depth : Nat) : List Char := '\n' :: List.replicate (2 * depth) ' '

def enclose (opening closing : Char) (depth : Nat) : List (List Char) → List Char
  | [] => [opening, closing]
  | first :: rest =>
      opening :: newline (depth + 1) ++ first ++
        rest.flatMap (fun item => ',' :: newline (depth + 1) ++ item) ++
        newline depth ++ [closing]

mutual

def render (depth : Nat) : Document → List Char
  | number value => (toString value).toList
  | string value => quote value
  | array items => enclose '[' ']' depth (renderItems (depth + 1) items)
  | object members => enclose '\x7b' '\x7d' depth (renderMembers (depth + 1) members)
termination_by structural d => d

def renderItems (depth : Nat) : List Document → List (List Char)
  | [] => []
  | item :: rest => render depth item :: renderItems depth rest
termination_by structural items => items

def renderMembers (depth : Nat) : List (String × Document) → List (List Char)
  | [] => []
  | (key, value) :: rest =>
      (quote key ++ ':' :: ' ' :: render depth value) :: renderMembers depth rest
termination_by structural members => members

end

def text (d : Document) : String := String.ofList (d.render 0)

end Document

end JvmReach.Json
