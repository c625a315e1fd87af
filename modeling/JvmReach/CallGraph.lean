import JvmReach.Program.Index
import JvmReach.Strategy

/-!
# Call graphs

A call site is a method with the byte offset of a call in it. For every call
site that was scanned the graph keeps the call as declared, the source line and
the set of methods it may run. Beside the sites it holds the reachable methods,
as a set and in the order of their discovery, and the problems met.

Call sites are ordered by caller, then offset. Diagnostics are ordered by kind
of problem first: phantom types, unresolved targets, unsupported invocations,
calls without dispatch target.
-/

namespace JvmReach

structure CallSite where
  caller : MethodRef
  offset : Nat
deriving DecidableEq, Inhabited

namespace CallSite

def text (s : CallSite) : String := s!"{s.caller.text}@{s.offset}"

def order : CallSite → CallSite → Ordering :=
  compareLex (compareOn CallSite.caller) (compareOn CallSite.offset)

instance : Ord CallSite := ⟨order⟩

instance : Std.TransOrd CallSite :=
  inferInstanceAs (Std.TransCmp
    (compareLex (compareOn CallSite.caller) (compareOn CallSite.offset)))

instance : Std.LawfulEqOrd CallSite where
  eq_of_compare {a b} h := by
    have h : order a b = .eq := h
    cases a
    cases b
    simpa [order, compareLex, compareOn, Ordering.then_eq_eq] using h

end CallSite

inductive Problem where
  /-- The declared target names, or inherits through, a type the program lacks. -/
  | phantom (missing : TypeName)
  /-- The hierarchy is complete but declares no such method. -/
  | unresolved
  | unsupported
  /-- The call resolves, but no receiver type has a method to run. -/
  | noTarget
deriving DecidableEq, Inhabited

namespace Problem

def rank : Problem → Nat
  | phantom _ => 0
  | unresolved => 1
  | unsupported => 2
  | noTarget => 3

def missing? : Problem → Option TypeName
  | phantom missing => some missing
  | _ => none

theorem eq_of_rank_of_missing {a b : Problem} (hrank : a.rank = b.rank)
    (hmissing : a.missing? = b.missing?) : a = b := by
  cases a <;> cases b <;> simp_all [rank, missing?]

end Problem

/-- A problem at a call site, with the text of the declared target. -/
structure Diagnostic where
  problem : Problem
  site : CallSite
  declared : String
deriving DecidableEq, Inhabited

namespace Diagnostic

def text (d : Diagnostic) : String :=
  match d.problem with
  | .phantom missing => s!"{d.site.text}: phantom type {missing} while resolving {d.declared}"
  | .unresolved => s!"{d.site.text}: no method matches {d.declared}"
  | .unsupported => s!"{d.site.text}: unsupported invocation of {d.declared}"
  | .noTarget => s!"{d.site.text}: no dispatch target for {d.declared}"

def rank (d : Diagnostic) : Nat := d.problem.rank

def missing? (d : Diagnostic) : Option TypeName := d.problem.missing?

def order : Diagnostic → Diagnostic → Ordering :=
  compareLex (compareOn Diagnostic.rank)
    (compareLex (compareOn Diagnostic.site)
      (compareLex (compareOn Diagnostic.declared) (compareOn Diagnostic.missing?)))

instance : Ord Diagnostic := ⟨order⟩

instance : Std.TransOrd Diagnostic :=
  inferInstanceAs (Std.TransCmp (compareLex (compareOn Diagnostic.rank)
    (compareLex (compareOn Diagnostic.site)
      (compareLex (compareOn Diagnostic.declared) (compareOn Diagnostic.missing?)))))

instance : Std.LawfulEqOrd Diagnostic where
  eq_of_compare {a b} h := by
    have h : order a b = .eq := h
    simp only [order, compareLex, compareOn, Ordering.then_eq_eq,
      Std.LawfulEqCmp.compare_eq_iff_eq] at h
    obtain ⟨hrank, hsite, hdeclared, hmissing⟩ := h
    have hproblem := Problem.eq_of_rank_of_missing hrank hmissing
    cases a
    cases b
    simp_all

end Diagnostic

/-- A scanned call and the methods it may run. -/
structure SiteRecord where
  call : Invocation
  line? : Option Nat
  targets : Std.ExtTreeSet MethodRef

structure CallGraph where
  algorithm : Algorithm
  reachable : Std.ExtTreeSet MethodRef
  discovered : List MethodRef
  sites : Std.ExtTreeMap CallSite SiteRecord
  diagnostics : Std.ExtTreeSet Diagnostic

namespace CallGraph

/-- The call edges: each call site with each of its targets. -/
def edges (g : CallGraph) : List (CallSite × MethodRef) :=
  g.sites.toList.flatMap fun (site, record) => record.targets.toList.map fun target => (site, target)

theorem mem_edges_iff (g : CallGraph) (site : CallSite) (target : MethodRef) :
    (site, target) ∈ g.edges ↔ ∃ record, g.sites[site]? = some record ∧ target ∈ record.targets := by
  simp only [edges, List.mem_flatMap, List.mem_map, Prod.exists, Prod.mk.injEq,
    Std.ExtTreeMap.mem_toList_iff_getElem?_eq_some, Std.ExtTreeSet.mem_toList]
  constructor
  · rintro ⟨_, record, hrecord, _, htarget, rfl, rfl⟩
    exact ⟨record, hrecord, htarget⟩
  · rintro ⟨record, hrecord, htarget⟩
    exact ⟨site, record, hrecord, target, htarget, rfl, rfl⟩

def edgeCount (g : CallGraph) : Nat := g.edges.length

end CallGraph

end JvmReach
