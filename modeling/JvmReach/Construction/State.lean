import JvmReach.Hierarchy.Dispatch
import JvmReach.Reflection
import JvmReach.Diagnostics

/-!
# The state of a construction

A graph grows while methods are processed in the order of their discovery. The
discovered methods are split into the processed ones and the pending ones, both
oldest first. Beside them the state keeps what is known of the call sites, which
sites dispatch and have to be looked at again when the strategy admits more
types, and which types have been started.

The operations here each do one thing to the state and record it in the log,
newest event first.
-/

namespace JvmReach.Construction

inductive Event where
  | reachable (method : MethodRef)
  | reflectiveStart (site : CallSite) (type : TypeName)
  | unknownConstruction (site : CallSite) (type : TypeName)
  | reflectiveConstruction (site : CallSite) (type : TypeName)
  | construction (type : TypeName)
  | pass (generation sites : Nat)
  | complete (algorithm : Algorithm) (methods sites edges : Nat)
deriving DecidableEq

def Event.record : Event → Log.Record
  | reachable method =>
      { level := .trace, message := "reachable", fields := [("method", .text method.text)] }
  | reflectiveStart site type =>
      { level := .trace, message := "reflective class initialization",
        fields := [("site", .text site.text), ("class", .text type)] }
  | unknownConstruction site type =>
      { level := .debug, message := "reflective instantiation of unknown type",
        fields := [("site", .text site.text), ("class", .text type)] }
  | reflectiveConstruction site type =>
      { level := .trace, message := "reflective instantiation",
        fields := [("site", .text site.text), ("class", .text type)] }
  | construction type =>
      { level := .trace, message := "observed instantiation", fields := [("class", .text type)] }
  | pass generation sites =>
      { level := .debug, message := "re-resolving virtual call sites",
        fields := [("generation", .count generation), ("sites", .count sites)] }
  | complete algorithm methods sites edges =>
      { level := .debug, message := "call graph complete",
        fields := [("strategy", .text algorithm.name), ("reachable", .count methods),
          ("call_sites", .count sites), ("edges", .count edges)] }

structure State where
  strategy : Strategy
  reachable : Std.ExtTreeSet MethodRef := ∅
  processed : List MethodRef := []
  pending : List MethodRef := []
  sites : Std.ExtTreeMap CallSite SiteRecord := ∅
  diagnostics : Diagnostics := ∅
  /-- The sites that dispatch, in the order they were scanned. -/
  virtualSites : List CallSite := []
  /-- Types whose static initializers are reachable as far as they are declared. -/
  started : Std.ExtTreeSet TypeName := ∅
  /-- The generation of the strategy at the start of the latest pass. -/
  resolvedAt : Nat := 0
  /-- The sites that the current pass has yet to look at. -/
  sweep : List CallSite := []
  log : List Event := []

namespace State

def discovered (s : State) : List MethodRef := s.processed ++ s.pending

def record (s : State) (e : Event) : State := { s with log := e :: s.log }

def discover (s : State) (m : MethodRef) : State :=
  if s.reachable.contains m then s
  else
    { s with
      reachable := s.reachable.insert m
      pending := s.pending ++ [m]
      log := .reachable m :: s.log }

theorem mem_reachable_discover (s : State) (m n : MethodRef) :
    n ∈ (s.discover m).reachable ↔ m = n ∨ n ∈ s.reachable := by
  rw [discover]
  split
  · next h =>
      constructor
      · exact Or.inr
      · rintro (rfl | h')
        · exact h
        · exact h'
  · rw [Std.ExtTreeSet.mem_insert, Std.LawfulEqCmp.compare_eq_iff_eq]

theorem discovered_discover (s : State) (m : MethodRef) :
    (s.discover m).discovered =
      s.discovered ++ if s.reachable.contains m then [] else [m] := by
  rw [discover]
  split
  · simp
  · simp [discovered]

def addEdge (s : State) (site : CallSite) (target : MethodRef) : State :=
  let s := s.discover target
  { s with
    sites := s.sites.modify site fun r => { r with targets := r.targets.insert target } }

def diagnose (s : State) (problem : Problem) (site : CallSite) (call : Invocation) : State :=
  { s with diagnostics := s.diagnostics.insert ⟨problem, site, call.declared.text⟩ }

/-- The strategy learns of a construction. -/
def observeConstruction (s : State) (type : TypeName) : State :=
  if s.strategy.isNews type then
    { s with
      strategy := s.strategy.onInstantiation type
      log := .construction type :: s.log }
  else s

/-- Starting a type runs the static initializers of the type and of its
superclasses. Whatever was started before has its superclasses started too, so
the chain only matters up to the first such class. -/
def start (h : Hierarchy) (s : State) (type : TypeName) : State :=
  let fresh := (h.superclassChain type).classes.takeWhile (!s.started.contains ·.name)
  let s := { s with started := s.started.insertMany (fresh.map ClassDef.name) }
  (fresh.filterMap ClassDef.staticInitializer?).foldl discover s

def observeEntry (h : Hierarchy) (s : State) (entry : MethodRef) : State :=
  let s :=
    if Strategy.isConstructorRoot h.program entry then s.observeConstruction entry.owner else s
  s.discover entry

end State

/-- The state before the first method is processed. -/
def initial (h : Hierarchy) (strategy : Strategy) (entries : List MethodRef) : State :=
  let s := entries.foldl (State.observeEntry h) { strategy := strategy }
  { s with resolvedAt := s.strategy.generation }

end JvmReach.Construction
