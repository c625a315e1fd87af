/-!
# Phase timings

A run is timed as a whole and phase by phase, in milliseconds. The phases are
listed in the order they were measured, behind the total.
-/

namespace JvmReach

inductive Phase where
  | load
  | hierarchy
  | callGraph
  | serialize
deriving DecidableEq, Inhabited

def Phase.label : Phase → String
  | load => "load_ms"
  | hierarchy => "hierarchy_ms"
  | callGraph => "callgraph_ms"
  | serialize => "serialize_ms"

structure Timings where
  total : Nat := 0
  measured : List (Phase × Nat) := []
deriving DecidableEq, Inhabited

namespace Timings

def add (t : Timings) (phase : Phase) (elapsed : Nat) : Timings :=
  { t with measured := t.measured ++ [(phase, elapsed)] }

def text (t : Timings) : String :=
  " ".intercalate <|
    s!"total_ms={t.total}" :: t.measured.map fun (phase, elapsed) => s!"{phase.label}={elapsed}"

end Timings

end JvmReach
