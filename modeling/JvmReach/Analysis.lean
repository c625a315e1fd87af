import JvmReach.CommandLine
import JvmReach.Construction.Build
import JvmReach.Load.Scan
import JvmReach.Report.Basic

/-!
# Running an analysis

A run checks that its inputs exist, loads them, builds the call graph and writes
the report. It is split where time passes or a file is written: `load` and
`prepare` lead up to the construction of the graph, `conclude` follows it, and
`close` follows the attempt to write the report. Each part keeps a log, which
also holds what led to a failure. `run` puts them together for a clock and a
file system: it goes from one state of the files to the next, and a failure does
not undo what was written before it.

Nothing is written before the report is complete, and a report that cannot be
written is part of the error.
-/

namespace JvmReach

open Files

inductive AnalysisError where
  | noInput (path : Path)
  | noClassPathEntry (path : Path)
  | strategy (cause : UnknownAlgorithm)
  | load (cause : Load.LoadError)
  | duplicates (cause : DuplicateClasses)
  | hierarchy (cause : CyclicHierarchy)
  | entry (cause : EntryError)
  | interrupted (cause : Construction.Interrupt)
  | report (cause : Report.Undescribable)
  /-- The report is complete but was not written. -/
  | output (path : Path) (cause : IoError) (report : Report)

def AnalysisError.message : AnalysisError → String
  | noInput path => s!"input not found: {path.text}"
  | noClassPathEntry path => s!"classpath entry not found: {path.text}"
  | strategy cause => cause.message
  | load cause => cause.message
  | duplicates cause => cause.message
  | hierarchy cause => cause.message
  | entry cause => cause.message
  | interrupted cause => cause.message
  | report cause => s!"failed to build call graph report: {cause.message}"
  | output path cause _ => s!"failed to write call graph to {path.text}: {cause.message}"

namespace Analysis

open CommandLine

/-- A part of a run, with its log. -/
abbrev Logged (α : Type) := ExceptT AnalysisError (StateM (List Log.Record)) α

def write (records : List Log.Record) : Logged Unit := modify (· ++ records)

def ofExcept {α ε : Type} (wrap : ε → AnalysisError) (r : Except ε α) : Logged α :=
  match r with
  | .ok a => return a
  | .error e => throw (wrap e)

def info (message : String) (fields : List (String × Log.Value)) : Logged Unit :=
  write [{ level := .info, message, fields }]

def warn (message : String) (fields : List (String × Log.Value)) : Logged Unit :=
  write [{ level := .warn, message, fields }]

def checkInputs (fs : FileSystem) (r : Request) : Except AnalysisError Unit :=
  if !fs.contains r.target then .error (.noInput r.target)
  else
    match r.classPath.find? (!fs.contains ·) with
    | some entry => .error (.noClassPathEntry entry)
    | none => .ok ()

def loadProgram (fs : FileSystem) (r : Request) : Logged Program := do
  let loaded ← ofExcept .load (Load.loadInputs fs r.target r.classPath)
  info "loaded inputs"
    [("classes", .count loaded.classes.length), ("artifacts", .count loaded.artifacts.length)]
  ofExcept .duplicates (Program.ofClasses loaded.classes)

/-- Everything that the construction of a call graph needs. -/
structure Prepared where
  hierarchy : Hierarchy
  strategy : Strategy
  entries : List MethodRef

def announce (p : Prepared) : Logged Unit :=
  info "building call graph"
    [("strategy", .text p.strategy.algorithm.name), ("entry_points", .count p.entries.length),
      ("missing_types", .count p.hierarchy.program.missing.size)]

/-- The algorithm asked for, and the program loaded for it. -/
def load (fs : FileSystem) (r : Request) : Logged (Algorithm × Program) := do
  ofExcept id (checkInputs fs r)
  let algorithm ← ofExcept .strategy (Algorithm.ofName r.strategy)
  let program ← loadProgram fs r
  return (algorithm, program)

def prepare (r : Request) (algorithm : Algorithm) (program : Program) : Logged Prepared := do
  let hierarchy ← ofExcept .hierarchy (Hierarchy.ofProgram program)
  let entries ← ofExcept .entry (hierarchy.entryPoints r.entryMode)
  let prepared : Prepared := { hierarchy, strategy := .ofAlgorithm algorithm, entries }
  announce prepared
  return prepared

/-- The report of a construction that was not interrupted. -/
def conclude (o : Construction.Outcome) : Logged Report := do
  write (o.log.map Construction.Event.record)
  match o.interrupt? with
  | some cause =>
      write (Diagnostics.report o.graph.diagnostics)
      warn "partial call graph discarded"
        [("reachable", .count o.graph.reachable.size), ("call_sites", .count o.graph.sites.size)]
      throw (.interrupted cause)
  | none =>
      match Report.ofGraph o.graph with
      | .error cause =>
          write (Diagnostics.report o.graph.diagnostics)
          throw (.report cause)
      | .ok report => return report

/-- The end of a run, after the attempt to write its report. -/
def close {α : Type} (o : Construction.Outcome) (output : Path) (report : Report)
    (written : Except IoError α) : Logged α := do
  write (Diagnostics.report o.graph.diagnostics)
  match written with
  | .error cause =>
      warn "computed call graph was not written" [("call_sites", .count report.calls.length)]
      throw (.output output cause report)
  | .ok result =>
      info "call graph written"
        [("strategy", .text report.algorithm.name), ("reachable", .count report.reachable.length),
          ("call_sites", .count report.calls.length), ("edges", .count report.edgeCount),
          ("warnings", .count report.warningCount)]
      return result

/-- All that a run computes before it writes: the construction and its report. -/
def analyse (fs : FileSystem) (r : Request) (clock : Nat → Nat) :
    Logged (Construction.Outcome × Report) := do
  let (algorithm, program) ← load fs r
  let p ← prepare r algorithm program
  let o := Construction.build p.hierarchy r.options clock p.strategy p.entries
  let report ← conclude o
  return (o, report)

/-- Whether the report goes to the standard output. -/
def isStandardOutput (p : Path) : Bool := p.isSame ⟨"-"⟩

/-- The files and the standard output, as far as they have been written. -/
structure Written where
  files : FileSystem
  standardOutput : String := ""

/-- Writes a report, to a file or behind what the standard output has already. -/
def Written.put (w : Written) (output : Path) (report : Report) : Except IoError Written :=
  if isStandardOutput output then
    .ok { w with standardOutput := w.standardOutput ++ report.render }
  else do
    let files ← w.files.write output report.render.toUTF8.data
    return { w with files }

/-- Where a run stands: what it has written, and its log. -/
structure World where
  written : Written
  log : List Log.Record := []

/-- A run on its way. What it has written stays written if it fails later. -/
abbrev Running (α : Type) := ExceptT AnalysisError (StateM World) α

/-- A part of a run that writes nothing but its log. -/
def quietly {α : Type} (part : Logged α) : Running α := fun w =>
  let (result, log) := part.run w.log
  (result, { w with log })

/-- The attempt to write a report. -/
def output (path : Path) (report : Report) : Running (Except IoError Unit) := do
  match (← get).written.put path report with
  | .ok written =>
      modify fun w => { w with written }
      return .ok ()
  | .error cause => return .error cause

/-- Writes the report of a construction and brings the run to its end. -/
def deliver (path : Path) (o : Construction.Outcome) (report : Report) : Running Report := do
  let written ← output path report
  quietly (close o path report written)
  return report

def perform (r : Request) (clock : Nat → Nat) : Running Report := do
  let (o, report) ← quietly (analyse (← get).written.files r clock)
  deliver r.output o report

/-- What a run leaves behind. -/
structure Result where
  outcome : Except AnalysisError Report
  log : List Log.Record
  written : Written

def run (fs : FileSystem) (r : Request) (clock : Nat → Nat) : Result :=
  let (outcome, w) := (perform r clock).run { written := { files := fs } }
  { outcome, log := w.log, written := w.written }

end Analysis

end JvmReach
