import JvmReach.Disk
import JvmReach.Timing

/-!
# The program

Reads the command line and the disk, runs the analysis against the real clock
and writes the report. Notable log records go to the standard error.
-/

namespace JvmReach.Console

open CommandLine

def usageText : String :=
  "Usage: jvmreach [OPTIONS] <STRATEGY> <TARGET> <MAIN_CLASS> <OUTPUT> [CLASSPATH]..."

def helpText : String :=
  "Deterministic CHA/RTA call graphs for JVM class files, directories and JAR files.\n\n" ++
  usageText ++ "\n\n" ++
  "Arguments:\n" ++
  "  <STRATEGY>      Call graph algorithm, case-insensitive\n" ++
  "  <TARGET>        Class file, directory, JAR or JSON program model to analyze\n" ++
  "  <MAIN_CLASS>    Class whose main is the entry point; empty or - for library mode\n" ++
  "  <OUTPUT>        Output file, or - for stdout\n" ++
  "  [CLASSPATH]...  Library classes that are never used as entry points\n\n" ++
  "Options:\n" ++
  "      --phantom-refs <allow|fail>  What to do at references to missing types\n" ++
  "      --time-budget-ms <MILLIS>    Abort construction after this many milliseconds\n" ++
  "      --quiet                      Only report errors\n" ++
  "      --timing                     Report how long each phase took\n" ++
  "      --otel <URL>                 Endpoint for trace export\n" ++
  "  -h, --help                       Print help\n" ++
  "  -V, --version                    Print version\n\n" ++
  Algorithm.help

def usageMessage : UsageError → String
  | .unknownArgument => "unexpected argument"
  | .invalidValue => "invalid or missing value"
  | .invalidNumber => "invalid number"
  | .needlessValue => "unexpected value"
  | .repeatedOption => "an argument cannot be used multiple times"
  | .missingArgument => "required arguments were not provided"

def valueText : Log.Value → String
  | .text value => value
  | .count value => toString value

def recordText (r : Log.Record) : String :=
  " ".intercalate <|
    r.level.text :: r.message :: r.fields.map fun (name, value) => s!"{name}={valueText value}"

def showLog (r : Request) (log : List Log.Record) : IO Unit := do
  if !r.isQuiet then
    for record in log do
      if record.isNotable then IO.eprintln (recordText record)

/-- Takes turns until the construction ends. -/
partial def construct (h : Hierarchy) (o : Construction.Options) (start : Nat)
    (s : Construction.State) : IO Construction.Progress := do
  match s.advance h o ((← IO.monoMsNow) - start) with
  | .continued s => construct h o start s
  | .finished s => return .ok s
  | .halted halt => return .error halt

/-- Carries out a part of a run and shows its log. -/
def carryOut {α : Type} (r : Request) (part : Analysis.Logged α) :
    IO (Except AnalysisError α) := do
  let (result, log) := part.run []
  showLog r log
  return result

def measured {α : Type} (timings : Timings) (phase : Phase) (action : IO α) :
    IO (α × Timings) := do
  let start ← IO.monoMsNow
  let result ← action
  return (result, timings.add phase ((← IO.monoMsNow) - start))

def execute (r : Request) : ExceptT AnalysisError IO Unit := do
  let start ← IO.monoMsNow
  let fs ← Disk.snapshot r
  let (loaded, timings) ← measured {} .load (carryOut r (Analysis.load fs r))
  let (algorithm, program) ← ExceptT.mk (return loaded)
  let (prepared, timings) ←
    measured timings .hierarchy (carryOut r (Analysis.prepare r algorithm program))
  let p ← ExceptT.mk (return prepared)
  let (progress, timings) ← measured timings .callGraph do
    let begun ← IO.monoMsNow
    construct p.hierarchy r.options begun (Construction.initial p.hierarchy p.strategy p.entries)
  let o := Construction.Outcome.ofProgress progress
  let report ← ExceptT.mk (carryOut r (Analysis.conclude o))
  let (written, timings) ← measured timings .serialize (Disk.writeReport fs r.output report)
  ExceptT.mk (carryOut r (Analysis.close o r.output report written))
  if r.showsTiming ∧ !r.isQuiet then
    let timings := { timings with total := (← IO.monoMsNow) - start }
    IO.eprintln s!"timing: {timings.text} classes={program.classCount}"

end JvmReach.Console

open JvmReach in
def main (arguments : List String) : IO UInt32 := do
  match CommandLine.parse arguments with
  | .error .help =>
      IO.println Console.helpText
      return 0
  | .error .version =>
      IO.println "jvmreach 0.1.0"
      return 0
  | .error (.usage e) =>
      IO.eprintln ("error: " ++ Console.usageMessage e ++ "\n\n" ++ Console.usageText)
      return 2
  | .ok r =>
      match ← (Console.execute r).run with
      | .ok () => return 0
      | .error e =>
          IO.eprintln ("Error: " ++ e.message)
          return 1
