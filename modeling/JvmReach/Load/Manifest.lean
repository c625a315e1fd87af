import JvmReach.Files.Path
import JvmReach.Text.Blank

/-!
# Class paths in manifests

The manifest of an archive is a list of headers, each a name and a value with a
colon between them. A line that starts with a space continues the value of the
header before it; the space itself does not belong to the value. Lines end with
a line feed, and carriage returns before it do not count. A line without colon
is no header and ends the one before it.

The class path is the value of the last header of that name: paths between
blanks, as seen from the directory of the archive.
-/

namespace JvmReach.Manifest

open Files

structure Header where
  name : List Char
  value : List Char
deriving DecidableEq

def lines (content : String) : List (List Char) :=
  (content.toList.splitOnP (· == '\n')).map fun line =>
    (line.reverse.dropWhile (· == '\r')).reverse

/-- The header that a line starts. -/
def header? (line : List Char) : Option Header :=
  match line.dropWhile (· ≠ ':') with
  | [] => none
  | _ :: value =>
      let name := line.takeWhile (· ≠ ':')
      some ⟨Text.trimLeft (Text.trimRight name), Text.trimLeft value⟩

/-- The headers of the given lines, the first of which may continue `pending?`. -/
def headersFrom (pending? : Option Header) : List (List Char) → List Header
  | [] => pending?.toList
  | (' ' :: more) :: rest =>
      headersFrom (pending?.map fun h => { h with value := h.value ++ more }) rest
  | line :: rest => pending?.toList ++ headersFrom (header? line) rest

def headers (content : String) : List Header := headersFrom none (lines content)

def classPathName : List Char := "Class-Path".toList

def classPathValue? (content : String) : Option (List Char) :=
  ((headers content).reverse.find? (·.name == classPathName)).map Header.value

/-- The class path of the archive at `jar`, from the text of its manifest. -/
def classPath (jar : Path) (content : String) : List Path :=
  match classPathValue? content with
  | none => []
  | some value => (Text.words (String.ofList value)).map fun entry => jar.parent.join ⟨entry⟩

end JvmReach.Manifest
