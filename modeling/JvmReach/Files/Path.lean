import Std.Data.ExtTreeSet

/-!
# Paths

A path is the text by which a file is named, and is shown as it was given. Its
pieces are what stands between slashes; its components leave out the pieces that
lead nowhere: empty ones, and dots other than a leading one. Two paths with the
same components are the same path, though not every pair of paths to one file
is: `lib/../a` and `a` differ.
-/

namespace JvmReach.Files

structure Path where
  text : String
deriving DecidableEq, Inhabited

namespace Path

instance : Ord Path := ⟨compareOn Path.text⟩

instance : Std.TransOrd Path := inferInstanceAs (Std.TransCmp (compareOn Path.text))

instance : Std.LawfulEqOrd Path where
  eq_of_compare {a b} h := by
    have h : compare a.text b.text = .eq := h
    cases a
    cases b
    simpa using h

inductive Component where
  | root
  /-- A leading dot. -/
  | here
  | up
  | name (name : String)
deriving DecidableEq

def pieces (p : Path) : List String :=
  (p.text.toList.splitOnP (· == '/')).map String.ofList

/-- Pieces that stay where they are. -/
def isFiller (piece : String) : Bool := piece == "" || piece == "."

def isAbsolute (p : Path) : Bool := p.text.toList.head? == some '/'

def component? (piece : String) : Option Component :=
  if isFiller piece then none
  else if piece = ".." then some .up
  else some (.name piece)

def components (p : Path) : List Component :=
  (if p.isAbsolute then [.root] else if p.pieces.head? = some "." then [.here] else []) ++
    p.pieces.filterMap component?

/-- Whether two texts are the same path. -/
def isSame (p q : Path) : Bool := p.components == q.components

def name? (p : Path) : Option String :=
  match p.components.getLast? with
  | some (.name name) => some name
  | _ => none

/-- What follows the last point of a name, unless the point comes first. -/
def extensionOf? (name : List Char) : Option (List Char) :=
  let behind := name.reverse.takeWhile (· != '.')
  match name.reverse.dropWhile (· != '.') with
  | '.' :: _ :: _ => some behind.reverse
  | _ => none

/-- The extension of the last component, without its point. -/
def extension? (p : Path) : Option String :=
  (p.name?.bind fun name => extensionOf? name.toList).map String.ofList

/-- Whether the path names an archive; letter case does not matter. -/
def isJar (p : Path) : Bool :=
  p.extension?.any fun extension => extension.toList.map Char.toLower == ['j', 'a', 'r']

/-- Leaves out trailing pieces that stay where they are. -/
def trim : List String → List String
  | [] => []
  | first :: rest => first :: (rest.reverse.dropWhile isFiller).reverse

def ofPieces (pieces : List String) : Path :=
  if pieces = [""] then ⟨"/"⟩ else ⟨"/".intercalate pieces⟩

/-- The path without its last component; empty if it has no other. -/
def parent (p : Path) : Path :=
  match trim p.pieces with
  | first :: second :: rest => ofPieces (trim (first :: (second :: rest).dropLast))
  | _ => ⟨""⟩

/-- The path that `q` names, as seen from directory `p`. -/
def join (p q : Path) : Path :=
  if q.isAbsolute ∨ p.text = "" then q
  else if p.text.toList.getLast? = some '/' then ⟨p.text ++ q.text⟩
  else ⟨p.text ++ "/" ++ q.text⟩

theorem isSame_refl (p : Path) : p.isSame p = true := by simp [isSame]

theorem join_of_isAbsolute (p : Path) {q : Path} (h : q.isAbsolute = true) : p.join q = q :=
  if_pos (Or.inl h)

end Path

end JvmReach.Files
