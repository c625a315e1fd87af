import JvmReach.Construction.State

/-!
# Steps of a construction

Processing a method scans its instructions in order. A call opens a call site:
static and special calls, and calls on arrays, bind to the method they resolve
to; virtual and interface calls dispatch over the receivers that the strategy
admits; dynamic calls are not followed. Constructions, static fields, resolved
static calls and reflective effects start types.

`advance` takes one turn. While a pass is under way it resolves the next site of
the pass again; otherwise it processes the next pending method; when nothing is
pending it starts a pass over all dispatching sites if the strategy admits more
types than at the latest pass, and finishes if not. Turns that look at a method
or a site first check the time budget.
-/

namespace JvmReach

/-- What to do at a call whose target involves a type the program lacks. -/
inductive PhantomPolicy where
  | allow
  | fail
deriving DecidableEq, Inhabited

namespace Construction

structure Options where
  phantoms : PhantomPolicy := .allow
  /-- Milliseconds that the construction may take. -/
  budget? : Option Nat := none
deriving DecidableEq, Inhabited

inductive Interrupt where
  | phantom (site : CallSite) (missing : TypeName)
  /-- The time budget ran out after so many milliseconds. -/
  | outOfTime (elapsed : Nat)
deriving DecidableEq

def Interrupt.message : Interrupt → String
  | phantom site missing =>
      s!"phantom reference to {missing} at {site.text} while phantom references are disallowed"
  | outOfTime elapsed =>
      s!"call graph construction exceeded its time budget after {elapsed} ms"

/-- A construction that was interrupted, as far as it got. -/
structure Halt where
  cause : Interrupt
  state : State

abbrev Progress := Except Halt State

namespace State

def missingType (o : Options) (s : State) (site : CallSite) (call : Invocation)
    (missing : TypeName) : Progress :=
  let s := s.diagnose (.phantom missing) site call
  match o.phantoms with
  | .allow => .ok s
  | .fail => .error ⟨.phantom site missing, s⟩

def resolveDirect (h : Hierarchy) (o : Options) (s : State) (site : CallSite)
    (call : Invocation) : Progress :=
  match h.resolve call.declared with
  | .resolved target =>
      let s := if call.kind = .static then s.start h target.owner else s
      .ok (s.addEdge site target)
  | .phantom missing => s.missingType o site call missing
  | .notFound => .ok (s.diagnose .unresolved site call)

def dispatch (h : Hierarchy) (s : State) (site : CallSite) (call : Invocation) : State :=
  (h.dispatchTargets call.declared s.strategy.admits).toList.foldl
    (fun s target => s.addEdge site target) s

/-- Private methods are not overridden, so they are bound directly. Subtypes of
a missing type that are in the program still contribute their methods. -/
def resolveVirtual (h : Hierarchy) (o : Options) (s : State) (site : CallSite)
    (call : Invocation) : Progress :=
  match h.resolve call.declared with
  | .resolved target =>
      if (h.program.method? target).any (·.access.isPrivate) then .ok (s.addEdge site target)
      else .ok (s.dispatch h site call)
  | .phantom missing => (s.missingType o site call missing).map (·.dispatch h site call)
  | .notFound => .ok (s.diagnose .unresolved site call)

/-- A site without targets, in place of whatever was known of it. -/
def openSite (s : State) (site : CallSite) (call : Invocation) (line? : Option Nat) : State :=
  { s with sites := s.sites.insert site ⟨call, line?, ∅⟩ }

def scanCall (h : Hierarchy) (o : Options) (s : State) (site : CallSite) (call : Invocation)
    (line? : Option Nat) : Progress :=
  let s := s.openSite site call line?
  match call.kind with
  | .static | .special => s.resolveDirect h o site call
  | .virtual | .interface =>
      if call.onArray then s.resolveDirect h o site call
      else { s with virtualSites := s.virtualSites ++ [site] }.resolveVirtual h o site call
  | .dynamic => .ok (s.diagnose .unsupported site call)

def constructorsOf (c : ClassDef) (choice : Reflection.ConstructorChoice) : List MethodRef :=
  (c.methods.filter fun m =>
    m.isConstructor && (choice == .any || m.descriptor == "()V")).map (·.refIn c.name)

/-- A reflective call with a known class behaves like the code it stands for. -/
def reflect (h : Hierarchy) (s : State) (site : CallSite) : Reflection.Effect → State
  | .start type => (s.record (.reflectiveStart site type)).start h type
  | .construct type choice =>
      match (h.program.class? type).filter ClassDef.isConcrete with
      | none => s.record (.unknownConstruction site type)
      | some c =>
          let s := (s.record (.reflectiveConstruction site type)).observeConstruction type
          (constructorsOf c choice).foldl (fun s target => s.addEdge site target) (s.start h type)

def scan (h : Hierarchy) (o : Options) (caller : MethodRef) (method : Method) (s : State)
    (observed : Instruction × Option Reflection.Effect) : Progress := do
  let (instruction, effect?) := observed
  let site : CallSite := ⟨caller, instruction.offset⟩
  let s ←
    match instruction.operation with
    | .invoke call => s.scanCall h o site call (method.line? instruction.offset)
    | .new type => .ok ((s.observeConstruction type).start h type)
    | .staticField owner => .ok (s.start h owner)
    | .constString _ | .constClass _ | .other _ => .ok s
  match effect? with
  | none => .ok s
  | some effect => .ok (s.reflect h site effect)

def process (h : Hierarchy) (o : Options) (s : State) (m : MethodRef) : Progress :=
  match h.program.method? m with
  | none => .ok s
  | some method =>
      match method.body? with
      | none => .ok s
      | some body => body.observed.foldlM (scan h o m method) s

def isOutOfTime (o : Options) (elapsed : Nat) : Bool :=
  o.budget?.any (· ≤ elapsed)

/-- Resolves a site of a pass again. -/
def revisit (h : Hierarchy) (o : Options) (s : State) (site : CallSite) : Progress :=
  match s.sites[site]? with
  | none => .ok s
  | some r => s.resolveVirtual h o site r.call

end State

/-- How a construction goes on after a turn. -/
inductive Turn where
  | continued (state : State)
  | finished (state : State)
  | halted (halt : Halt)

def Turn.ofProgress : Progress → Turn
  | .ok s => continued s
  | .error halt => halted halt

/-- One turn, at a time of `elapsed` milliseconds after the start. -/
def State.advance (h : Hierarchy) (o : Options) (elapsed : Nat) (s : State) : Turn :=
  match s.sweep, s.pending with
  | site :: rest, _ =>
      if isOutOfTime o elapsed then .halted ⟨.outOfTime elapsed, s⟩
      else .ofProgress ({ s with sweep := rest }.revisit h o site)
  | [], m :: rest =>
      if isOutOfTime o elapsed then .halted ⟨.outOfTime elapsed, s⟩
      else .ofProgress
        ({ s with processed := s.processed ++ [m], pending := rest }.process h o m)
  | [], [] =>
      if s.strategy.generation = s.resolvedAt then .finished s
      else
        .continued
          { s with
            resolvedAt := s.strategy.generation
            sweep := s.virtualSites
            log := .pass s.strategy.generation s.virtualSites.length :: s.log }

end Construction

end JvmReach
