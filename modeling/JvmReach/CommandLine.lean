import JvmReach.Construction.Step
import JvmReach.EntryPoint
import JvmReach.Files.Path

/-!
# The command line

Four positional arguments name the strategy, the target, the main class and the
output; any further ones are the class path. Options start with two dashes and
may stand anywhere before a lone pair of dashes; their values follow as the next
argument or behind an equals sign. A single dash is a positional argument.

An argument that is no option is taken as the value of the option before it, if
that has none yet. Values are only looked at once the next known option or
positional argument comes, or the line ends, so an unknown option on the way
there is reported first.
-/

namespace JvmReach.CommandLine

open Files

inductive UsageError where
  | unknownArgument
  /-- An option without value, or a value that an argument does not take. -/
  | invalidValue
  /-- A value that is no number, or too large. -/
  | invalidNumber
  /-- A value for an option that takes none. -/
  | needlessValue
  | repeatedOption
  | missingArgument
deriving DecidableEq, Inhabited

/-- Why a line is not a request for an analysis. -/
inductive Refusal where
  | usage (error : UsageError)
  | help
  | version
deriving DecidableEq, Inhabited

structure Request where
  strategy : String
  target : Path
  mainClass : String
  output : Path
  classPath : List Path := []
  phantoms : PhantomPolicy := .allow
  budget? : Option Nat := none
  isQuiet : Bool := false
  showsTiming : Bool := false
  traceEndpoint? : Option String := none
deriving DecidableEq, Inhabited

def Request.entryMode (r : Request) : EntryMode := .ofArgument r.mainClass

def Request.options (r : Request) : Construction.Options :=
  { phantoms := r.phantoms, budget? := r.budget? }

/-- The arguments that have values. -/
inductive Slot where
  | strategy
  | target
  | mainClass
  | output
  | classPath
  | phantomRefs
  | timeBudget
  | traceEndpoint
deriving DecidableEq, Inhabited

inductive Flag where
  | quiet
  | timing
  | help
  | version
deriving DecidableEq, Inhabited

inductive LongOption where
  | flag (flag : Flag)
  | valued (slot : Slot)
deriving DecidableEq, Inhabited

def longOptions : List (String × LongOption) :=
  [("phantom-refs", .valued .phantomRefs), ("time-budget-ms", .valued .timeBudget),
    ("otel", .valued .traceEndpoint), ("quiet", .flag .quiet), ("timing", .flag .timing),
    ("help", .flag .help), ("version", .flag .version)]

def shortOptions : List (Char × Flag) := [('h', .help), ('V', .version)]

def phantomPolicies : List (String × PhantomPolicy) := [("allow", .allow), ("fail", .fail)]

/-- A decimal number of 64 bits, with or without a plus sign. -/
def number? (s : String) : Option Nat :=
  let digits :=
    match s.toList with
    | '+' :: rest => rest
    | cs => cs
  if digits.isEmpty ∨ !digits.all Char.isDigit then none
  else
    let n := digits.foldl (fun n d => 10 * n + (d.toNat - '0'.toNat)) 0
    if n < 0x10000000000000000 then some n else none

/-- The arguments understood so far; positional ones may still be missing. -/
structure Draft where
  strategy? : Option String := none
  target? : Option Path := none
  mainClass? : Option String := none
  output? : Option Path := none
  classPath : List Path := []
  phantoms? : Option PhantomPolicy := none
  budget? : Option Nat := none
  traceEndpoint? : Option String := none
  isQuiet : Bool := false
  showsTiming : Bool := false

/-- What is known after some of the line: `pending?` is the argument whose
values are still to be looked at. -/
structure State where
  draft : Draft := {}
  pending? : Option (Slot × List String) := none
  /-- The positional arguments before the class path that are still to come. -/
  expected : List Slot := [.strategy, .target, .mainClass, .output]
  isTrailing : Bool := false

abbrev Step (α : Type) := Except Refusal α

def misuse {α : Type} (e : UsageError) : Step α := .error (.usage e)

def path (s : String) : Step Path := if s = "" then misuse .invalidValue else .ok ⟨s⟩

/-- Accepts the first value of an option that is not to be repeated. -/
def once {α : Type} (old? : Option α) (value : Step α) : Step α :=
  if old?.isSome then misuse .repeatedOption else value

def ofOption {α : Type} (e : UsageError) : Option α → Step α
  | some a => .ok a
  | none => misuse e

namespace Draft

/-- Takes up the value of an argument other than the class path. -/
def takeUp (d : Draft) (slot : Slot) (value : String) : Step Draft :=
  match slot with
  | .strategy => .ok { d with strategy? := some value }
  | .target => do return { d with target? := some (← path value) }
  | .mainClass => .ok { d with mainClass? := some value }
  | .output => do return { d with output? := some (← path value) }
  | .classPath => do return { d with classPath := d.classPath ++ [← path value] }
  | .phantomRefs => do
      let policy ← once d.phantoms? (ofOption .invalidValue (phantomPolicies.lookup value))
      return { d with phantoms? := some policy }
  | .timeBudget => do
      let budget ← once d.budget? (ofOption .invalidNumber (number? value))
      return { d with budget? := some budget }
  | .traceEndpoint => do
      let endpoint ← once d.traceEndpoint? (.ok value)
      return { d with traceEndpoint? := some endpoint }

def settle (d : Draft) (slot : Slot) (values : List String) : Step Draft :=
  if values.isEmpty then misuse .invalidValue
  else values.foldlM (·.takeUp slot) d

def raise (d : Draft) : Flag → Step Draft
  | .quiet => if d.isQuiet then misuse .repeatedOption else .ok { d with isQuiet := true }
  | .timing =>
      if d.showsTiming then misuse .repeatedOption else .ok { d with showsTiming := true }
  | .help => .error .help
  | .version => .error .version

def request (d : Draft) : Step Request := do
  match d.strategy?, d.target?, d.mainClass?, d.output? with
  | some strategy, some target, some mainClass, some output =>
      return {
        strategy, target, mainClass, output
        classPath := d.classPath
        phantoms := d.phantoms?.getD .allow
        budget? := d.budget?
        isQuiet := d.isQuiet
        showsTiming := d.showsTiming
        traceEndpoint? := d.traceEndpoint? }
  | _, _, _, _ => misuse .missingArgument

end Draft

namespace State

/-- Looks at the values of the pending argument. -/
def settle (s : State) : Step State :=
  match s.pending? with
  | none => .ok s
  | some (slot, values) => do
      return { s with draft := ← s.draft.settle slot values, pending? := none }

def takeFlag (s : State) (flag : Flag) : Step State := do
  let s ← s.settle
  return { s with draft := ← s.draft.raise flag }

/-- An option by name, with the value behind its equals sign. -/
def takeLong (s : State) (name : String) (value? : Option String) : Step State :=
  match longOptions.lookup name, value? with
  | none, _ => misuse .unknownArgument
  | some (.flag flag), none => s.takeFlag flag
  | some (.flag _), some _ => misuse .needlessValue
  | some (.valued slot), none => do return { ← s.settle with pending? := some (slot, []) }
  | some (.valued slot), some value => do
      let s ← s.settle
      return { s with draft := ← s.draft.settle slot [value] }

def takeShort (s : State) (letter : Char) : Step State :=
  match shortOptions.lookup letter with
  | some flag => s.takeFlag flag
  | none => misuse .unknownArgument

def takePositional (s : State) (value : String) : Step State :=
  match s.expected, s.pending? with
  | [], some (.classPath, values) =>
      .ok { s with pending? := some (.classPath, values ++ [value]) }
  | [], _ => do return { ← s.settle with pending? := some (.classPath, [value]) }
  | slot :: rest, _ => do
      return { ← s.settle with pending? := some (slot, [value]), expected := rest }

/-- An argument that is no option. -/
def takeValue (s : State) (value : String) : Step State :=
  match s.pending? with
  | some (slot, []) =>
      if s.isTrailing then s.takePositional value
      else .ok { s with pending? := some (slot, [value]) }
  | _ => s.takePositional value

def takeArgument (s : State) (argument : String) : Step State :=
  if s.isTrailing then s.takeValue argument
  else
    match argument.toList with
    | ['-', '-'] => .ok { s with isTrailing := true }
    | '-' :: '-' :: long =>
        let value? :=
          match long.dropWhile (· ≠ '=') with
          | [] => none
          | _ :: value => some (String.ofList value)
        s.takeLong (String.ofList (long.takeWhile (· ≠ '='))) value?
    | '-' :: letter :: _ => s.takeShort letter
    | _ => s.takeValue argument

end State

/-- The request that the arguments make. -/
def parse (arguments : List String) : Except Refusal Request := do
  let s ← arguments.foldlM State.takeArgument {}
  (← s.settle).draft.request

end JvmReach.CommandLine
