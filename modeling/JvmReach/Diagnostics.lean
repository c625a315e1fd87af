import JvmReach.CallGraph
import JvmReach.Log

/-!
# Reporting diagnostics

Diagnostics are collected while a graph is built and reported once at the end.
Missing platform types turn up at most call sites of a program loaded without
its run-time library, so they are summarized by type and their single
diagnostics are only logged for debugging.
-/

namespace JvmReach

/-- Distinct diagnostics in their order. -/
abbrev Diagnostics := Std.ExtTreeSet Diagnostic

namespace Diagnostics

def mentions (ds : Diagnostics) (site : CallSite) : Bool :=
  ds.toList.any fun d => d.site == site

/-- The missing types by name, each with the number of diagnostics about it. -/
def phantomTypes (ds : Diagnostics) : List (TypeName × Nat) :=
  let missing := ds.toList.filterMap Diagnostic.missing?
  (Std.ExtTreeSet.ofList missing).toList.map fun type => (type, missing.count type)

def levelOf (d : Diagnostic) : Log.Level :=
  if d.missing?.any TypeName.isPlatform then .debug else .warn

def report (ds : Diagnostics) : List Log.Record :=
  if ds.isEmpty then []
  else
    (ds.phantomTypes.filter fun (type, _) => TypeName.isPlatform type).map
        (fun (type, count) =>
          { level := .warn, message := "phantom platform type",
            fields := [("missing_type", .text type), ("call_sites", .count count)] })
      ++ ds.toList.map (fun d => { level := levelOf d, message := d.text })
      ++ [{ level := .warn, message := "call graph built with warnings",
            fields := [("warnings", .count ds.size)] }]

end Diagnostics

end JvmReach
