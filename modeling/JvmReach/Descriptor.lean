/-!
# Method descriptors

A method descriptor lists parameter types in parentheses, then a return type:
`(I[Ljava/lang/String;)V`. A type is a base type, an object type `L…;` whose
name is any text without a semicolon, or an array of up to 255 dimensions over
one of these. Base types include `V`, wherever it stands, and whatever follows
the return type is ignored.

`Signature.parse` reads a descriptor and `TypeDescriptor.text` writes a type.
Types are written as they were read, but for object types whose name is an array
type: `L[I;` is written `[I`.
-/

namespace JvmReach.Descriptor

inductive ParseError where
  | noOpeningParenthesis
  | missingSemicolon
  | tooManyDimensions
  | noElementType
  | missingReturnType
  | endOfText
  | unknownType
deriving DecidableEq

def ParseError.message : ParseError → String
  | noOpeningParenthesis => "Invalid descriptor: Method descriptor must start with '('."
  | missingSemicolon => "Invalid descriptor: Missing semicolon in class name descriptor."
  | tooManyDimensions => "Array has too many dimensions."
  | noElementType => "Invalid descriptor: Invalid descriptor."
  | missingReturnType => "Invalid descriptor: Missing return type."
  | endOfText => "Unexpected end of input."
  | unknownType => "Invalid descriptor: Unrecognized type descriptor."

/-- A type that is not an array. -/
inductive ScalarType where
  | base (letter : Char)
  | object (name : List Char)
deriving DecidableEq

structure TypeDescriptor where
  dimensions : Nat
  element : ScalarType
deriving DecidableEq

def baseLetters : List Char := ['Z', 'B', 'C', 'S', 'I', 'J', 'F', 'D', 'V']

/-- The descriptor of a class named in internal form; array types name themselves. -/
def ofTypeName (name : List Char) : List Char :=
  match name with
  | '[' :: _ => name
  | _ => 'L' :: name ++ [';']

namespace TypeDescriptor

def chars (t : TypeDescriptor) : List Char :=
  List.replicate t.dimensions '[' ++
    match t.element with
    | .base letter => [letter]
    | .object name => ofTypeName name

def text (t : TypeDescriptor) : String := String.ofList t.chars

end TypeDescriptor

def parseScalar : List Char → Except ParseError (ScalarType × List Char)
  | [] => .error .endOfText
  | c :: rest =>
      if c ∈ baseLetters then .ok (.base c, rest)
      else if c = 'L' then
        match rest.dropWhile (· ≠ ';') with
        | [] => .error .missingSemicolon
        | _ :: after => .ok (.object (rest.takeWhile (· ≠ ';')), after)
      else .error .unknownType

/-- A type after `dimensions` opening brackets; none of them may be left
without an element. -/
def parseElement : Nat → List Char → Except ParseError (TypeDescriptor × List Char)
  | dimensions, '[' :: rest =>
      if 255 ≤ dimensions then .error .tooManyDimensions
      else parseElement (dimensions + 1) rest
  | dimensions, cs =>
      if 0 < dimensions ∧ cs.head? = some ')' then .error .noElementType
      else (parseScalar cs).map fun (element, rest) => (⟨dimensions, element⟩, rest)

/-- The types up to the closing parenthesis, at most `bound` of them. -/
def parseParameters : Nat → List Char → Except ParseError (List TypeDescriptor × List Char)
  | _, ')' :: rest => .ok ([], rest)
  | 0, _ => .error .endOfText
  | bound + 1, cs => do
      let (type, rest) ← parseElement 0 cs
      let (types, rest) ← parseParameters bound rest
      return (type :: types, rest)

def parseReturn : List Char → Except ParseError (TypeDescriptor × List Char)
  | ')' :: _ => .error .missingReturnType
  | cs => parseElement 0 cs

structure Signature where
  parameters : List TypeDescriptor
  result : TypeDescriptor
deriving DecidableEq

/-- Each parameter takes up at least one character, so the length bounds their number. -/
def Signature.parse (descriptor : String) : Except ParseError Signature :=
  match descriptor.toList with
  | '(' :: rest => do
      let (parameters, rest) ← parseParameters rest.length rest
      let (result, _) ← parseReturn rest
      return ⟨parameters, result⟩
  | _ => .error .noOpeningParenthesis

/-- A descriptor that could not be read, with the cause. -/
structure Malformed where
  descriptor : String
  cause : ParseError
deriving DecidableEq

def Malformed.message (e : Malformed) : String :=
  s!"parse method descriptor {e.descriptor}: {e.cause.message}"

def signature (descriptor : String) : Except Malformed Signature :=
  (Signature.parse descriptor).mapError (⟨descriptor, ·⟩)

/-- The descriptor of the declaring type of a method. -/
def ofClass (name : String) : String := String.ofList (ofTypeName name.toList)

end JvmReach.Descriptor
