import JvmReach.Construction.Step

/-!
# Building a call graph

`run` takes turns until the construction finishes or is interrupted. The clock
tells the milliseconds elapsed at each turn. `turnBound` bounds the number of
turns: every turn processes one of the methods that are entries or declared by
the program, or belongs to a pass, and a pass needs a type that was newly
constructed by some instruction.

When a construction stops, `graph` adds a diagnostic for each call site that has
neither a target nor a diagnostic. An interrupted construction has a graph too,
which holds what was built so far.
-/

namespace JvmReach.Construction

def turnBound (h : Hierarchy) (entries : List MethodRef) : Nat :=
  entries.length + h.program.methodCount +
    (h.program.instructionCount + 1) * (h.program.instructionCount + 2)

def run (h : Hierarchy) (o : Options) (clock : Nat → Nat) : Nat → Nat → State → Progress
  | 0, _, s => .ok s
  | turns + 1, k, s =>
      match s.advance h o (clock k) with
      | .continued s => run h o clock turns (k + 1) s
      | .finished s => .ok s
      | .halted halt => .error halt

/-- The sites that have no target and that no diagnostic is about. -/
def State.silentSites (s : State) : List (CallSite × SiteRecord) :=
  s.sites.toList.filter fun (site, r) => r.targets.isEmpty && !s.diagnostics.mentions site

def State.graph (s : State) : CallGraph where
  algorithm := s.strategy.algorithm
  reachable := s.reachable
  discovered := s.discovered
  sites := s.sites
  diagnostics := s.diagnostics.insertMany
    (s.silentSites.map fun (site, r) => ⟨.noTarget, site, r.call.declared.text⟩)

/-- A stopped construction: its graph, what interrupted it, and its log. -/
structure Outcome where
  graph : CallGraph
  interrupt? : Option Interrupt
  log : List Event

def outcome (interrupt? : Option Interrupt) (s : State) : Outcome :=
  let g := s.graph
  { graph := g, interrupt? := interrupt?,
    log := (.complete g.algorithm g.reachable.size g.sites.size g.edgeCount :: s.log).reverse }

def Outcome.ofProgress : Progress → Outcome
  | .ok s => outcome none s
  | .error halt => outcome (some halt.cause) halt.state

def build (h : Hierarchy) (o : Options) (clock : Nat → Nat) (strategy : Strategy)
    (entries : List MethodRef) : Outcome :=
  .ofProgress (run h o clock (turnBound h entries) 0 (initial h strategy entries))

end JvmReach.Construction
