import JvmReach.Program.Basic
import JvmReach.Proofs.Json.Integers
import JvmReach.Proofs.Json.Records
import Mathlib.Algebra.Group.Nat.Defs

/-!
# The format of program models

How the parts of a class are written in JSON, field by field. Fields are found by their keys,
so all keys have to be texts. The members may stand in any order, and other members are ignored
whatever they hold. In an instruction these are stored before the tag is known, so there they
must hold what can be stored: `ignores` says what that is.
-/

namespace JvmReach.Document

open Json

section Values

variable {α : Type}

end Values

def kindName : CallKind → String
  | .virtual => "virtual"
  | .interface => "interface"
  | .special => "special"
  | .static => "static"
  | .dynamic => "dynamic"

section Ignored

variable (ignores : Tree → Prop)

end Ignored

end JvmReach.Document
