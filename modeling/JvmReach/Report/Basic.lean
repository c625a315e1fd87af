import JvmReach.CallGraph
import JvmReach.Descriptor
import JvmReach.Json.Printer

/-!
# Reports

A report describes a call graph independently of how the program was loaded:
one record for each call site in order, with the declared target, the line, the
enclosing method and the targets in order. Methods are described by canonical
descriptors of their declaring, return and parameter types. A site without line
has line `-1`. A report cannot be made when a descriptor that occurs at a call
site is malformed.
-/

namespace JvmReach.Report

structure MethodRecord where
  name : String
  declaringType : String
  returnType : String
  parameterTypes : List String
deriving DecidableEq

structure CallRecord where
  declaredTarget : MethodRecord
  line : Int
  method : MethodRecord
  targets : List MethodRecord
deriving DecidableEq

/-- A method whose descriptor is malformed. -/
structure Undescribable where
  method : MethodRef
  cause : Descriptor.Malformed
deriving DecidableEq

def Undescribable.message (e : Undescribable) : String :=
  s!"describe {e.method.text}: {e.cause.message}"

def describe (m : MethodRef) : Except Undescribable MethodRecord :=
  match Descriptor.signature m.descriptor with
  | .error cause => .error ⟨m, cause⟩
  | .ok signature =>
      .ok
        { name := m.name
          declaringType := Descriptor.ofClass m.owner
          returnType := signature.result.text
          parameterTypes := signature.parameters.map (·.text) }

def describeSite (site : CallSite) (r : SiteRecord) : Except Undescribable CallRecord := do
  let targets ← r.targets.toList.mapM describe
  let declaredTarget ← describe r.call.declared
  let method ← describe site.caller
  return { declaredTarget, line := (r.line?.map Int.ofNat).getD (-1), method, targets }

end Report

structure Report where
  algorithm : Algorithm
  calls : List Report.CallRecord
  reachable : List MethodRef
  edgeCount : Nat
  warningCount : Nat

namespace Report

def ofGraph (g : CallGraph) : Except Undescribable Report := do
  let calls ← g.sites.toList.mapM fun (site, r) => describeSite site r
  return {
    algorithm := g.algorithm
    calls
    reachable := g.reachable.toList
    edgeCount := g.edgeCount
    warningCount := g.diagnostics.size }

def MethodRecord.document (r : MethodRecord) : Json.Document :=
  .object [
    ("name", .string r.name),
    ("declaringType", .string r.declaringType),
    ("returnType", .string r.returnType),
    ("parameterTypes", .array (r.parameterTypes.map .string))]

def CallRecord.document (r : CallRecord) : Json.Document :=
  .object [
    ("declaredTarget", r.declaredTarget.document),
    ("line", .number r.line),
    ("method", r.method.document),
    ("targets", .array (r.targets.map MethodRecord.document))]

def document (r : Report) : Json.Document :=
  .object [("callSites", .array (r.calls.map CallRecord.document))]

/-- The report as it is written to a file. -/
def render (r : Report) : String := r.document.text ++ "\n"

end Report

end JvmReach
