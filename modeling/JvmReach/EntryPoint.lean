import JvmReach.Hierarchy.Basic
import JvmReach.Text.Blank

/-!
# Entry points

Analysis starts from the `main` method of one class, or from a library: every
public method and static initializer of the target classes. A started main class
is also initialized, so its static initializer is a root too.
-/

namespace JvmReach

inductive EntryMode where
  | mainClass (name : TypeName)
  | library
deriving DecidableEq, Inhabited

inductive EntryError where
  | mainClassMissing (name : TypeName)
  | noStaticMain (name : TypeName)
deriving DecidableEq

def EntryError.message : EntryError → String
  | mainClassMissing name => s!"main class not found: {name}"
  | noStaticMain name => s!"no static main method in {name}"

namespace EntryMode

/-- A blank argument or a lone dash asks for library mode; any other names the
main class, with dots or slashes between its parts. -/
def ofArgument (argument : String) : EntryMode :=
  let name := Text.trim argument
  if name = "" ∨ name = "-" then library
  else mainClass (String.ofList (name.toList.map fun c => if c = '.' then '/' else c))

end EntryMode

namespace Hierarchy

/-- The roots that a class contributes to a library. -/
def libraryRoots (c : ClassDef) : List MethodRef :=
  (c.methods.filter fun m => m.access.isPublic || m.isStaticInitializer).map (·.refIn c.name)

def entryPoints (h : Hierarchy) : EntryMode → Except EntryError (List MethodRef)
  | .mainClass name =>
      match h.program.class? name with
      | none => .error (.mainClassMissing name)
      | some c =>
          match (c.method? "main" "([Ljava/lang/String;)V").filter (·.access.isStatic) with
          | none => .error (.noStaticMain name)
          | some main => .ok (main.refIn name :: c.staticInitializer?.toList)
  | .library => .ok ((h.program.classes.filter ClassDef.isTarget).flatMap libraryRoots)

end Hierarchy

end JvmReach
