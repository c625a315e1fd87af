import JvmReach.Analysis
import JvmReach.Proofs.Files.Writing
import JvmReach.Proofs.Text.Utf8

/-!
# When a run writes

Up to its report a run writes nothing but its log, and none of its failures there is about
the output. Then it tries once to write the report. So a failure of any other kind leaves
no output. After a success the output is the text of the report and nothing else has
changed, and a failure to write hands over the report that would have been written.
-/

namespace JvmReach

open Files CommandLine

/-- The report is complete but was not written. -/
def AnalysisError.isOutput : AnalysisError → Bool
  | .output .. => true
  | _ => false

namespace Analysis

variable {α β : Type}

/-- The second of two parts starts where the first one ends, if that one does not fail. -/
theorem run_bind {σ : Type} (part : ExceptT AnalysisError (StateM σ) α)
    (next : α → ExceptT AnalysisError (StateM σ) β) (w : σ) :
    (part >>= next).run w = (ExceptT.bindCont next (part.run w).1).run (part.run w).2 := rfl

/-- No failure is about the output. -/
def SparesOutput (part : Logged α) : Prop :=
  ∀ log e, (part.run log).1 = .error e → e.isOutput = false

namespace SparesOutput

theorem pure (a : α) : SparesOutput (pure a : Logged α) := by
  intro log e h
  cases h

theorem bind {part : Logged α} {next : α → Logged β} (hpart : SparesOutput part)
    (hnext : ∀ a, SparesOutput (next a)) : SparesOutput (part >>= next) := by
  intro log e h
  rw [run_bind] at h
  cases hpart' : (part.run log).1 with
  | ok a =>
      rw [hpart'] at h
      exact hnext a _ e h
  | error e' =>
      rw [hpart'] at h
      cases h
      exact hpart log e hpart'

theorem write (records : List Log.Record) : SparesOutput (write records) := by
  intro log e h
  cases h

theorem throw {e : AnalysisError} (he : e.isOutput = false) :
    SparesOutput (throw e : Logged α) := by
  intro log e' h
  cases h
  exact he

theorem ofExcept {ε : Type} {wrap : ε → AnalysisError} {r : Except ε α}
    (hwrap : ∀ e, r = .error e → (wrap e).isOutput = false) : SparesOutput (ofExcept wrap r) := by
  cases r with
  | ok a => exact pure a
  | error e => exact throw (hwrap e rfl)

end SparesOutput

theorem isOutput_eq_false_of_checkInputs {fs : FileSystem} {r : Request} {e : AnalysisError}
    (h : checkInputs fs r = .error e) : e.isOutput = false := by
  unfold checkInputs at h
  split at h
  · cases h
    rfl
  · split at h
    · cases h
      rfl
    · cases h

theorem sparesOutput_load (fs : FileSystem) (r : Request) : SparesOutput (load fs r) := by
  refine .bind (.ofExcept fun e he => isOutput_eq_false_of_checkInputs he) fun _ => ?_
  refine .bind (.ofExcept fun _ _ => rfl) fun algorithm => ?_
  refine .bind ?_ fun program => .pure _
  refine .bind (.ofExcept fun _ _ => rfl) fun loaded => ?_
  exact .bind (.write _) fun _ => .ofExcept fun _ _ => rfl

theorem sparesOutput_prepare (r : Request) (algorithm : Algorithm) (program : Program) :
    SparesOutput (prepare r algorithm program) := by
  refine .bind (.ofExcept fun _ _ => rfl) fun hierarchy => ?_
  refine .bind (.ofExcept fun _ _ => rfl) fun entries => ?_
  exact .bind (.write _) fun _ => .pure _

theorem sparesOutput_conclude (o : Construction.Outcome) : SparesOutput (conclude o) := by
  refine .bind (.write _) fun _ => ?_
  cases o.interrupt? with
  | some cause =>
      refine .bind (.write _) fun _ => ?_
      exact .bind (.write _) fun _ => .throw rfl
  | none =>
      cases Report.ofGraph o.graph with
      | error cause => exact .bind (.write _) fun _ => .throw rfl
      | ok report => exact .pure report

theorem sparesOutput_analyse (fs : FileSystem) (r : Request) (clock : Nat → Nat) :
    SparesOutput (analyse fs r clock) := by
  refine .bind (sparesOutput_load fs r) fun loaded => ?_
  refine .bind (sparesOutput_prepare r loaded.1 loaded.2) fun p => ?_
  exact .bind (sparesOutput_conclude _) fun report => .pure _

/-- What a run computes before it writes. -/
def computed (fs : FileSystem) (r : Request) (clock : Nat → Nat) :
    Except AnalysisError (Construction.Outcome × Report) :=
  ((analyse fs r clock).run []).1

theorem output_run (path : Path) (report : Report) (w : World) :
    (output path report).run w =
      match w.written.put path report with
      | .ok written => (.ok (.ok ()), { w with written })
      | .error cause => (.ok (.error cause), w) := by
  rw [output, run_bind]
  change ExceptT.run (match w.written.put path report with
    | .ok written => do
        modify fun w => { w with written }
        return .ok ()
    | .error cause => return .error cause : Running (Except IoError Unit)) w = _
  cases w.written.put path report <;> rfl

theorem deliver_of_put_ok {path : Path} {report : Report} {w : World} {written : Written}
    (o : Construction.Outcome) (hput : w.written.put path report = .ok written) :
    ∃ log, (deliver path o report).run w = (.ok report, { written, log }) := by
  rw [deliver, run_bind, output_run, hput]
  exact ⟨_, rfl⟩

theorem deliver_of_put_error {path : Path} {report : Report} {w : World} {cause : IoError}
    (o : Construction.Outcome) (hput : w.written.put path report = .error cause) :
    ∃ log, (deliver path o report).run w =
      (.error (.output path cause report), { w with log }) := by
  rw [deliver, run_bind, output_run, hput]
  exact ⟨_, rfl⟩

variable (fs : FileSystem) (r : Request) (clock : Nat → Nat)

theorem perform_run : (perform r clock).run { written := { files := fs } } =
    (ExceptT.bindCont (fun x => deliver r.output x.1 x.2) (computed fs r clock)).run
      ⟨{ files := fs }, ((analyse fs r clock).run []).2⟩ := by
  rfl

/-- A failure on the way to the report ends the run with the files as they were. -/
theorem run_of_computed_error {e : AnalysisError} (h : computed fs r clock = .error e) :
    (run fs r clock).outcome = .error e ∧ (run fs r clock).written = { files := fs } := by
  rw [run, perform_run, h]
  exact ⟨rfl, rfl⟩

theorem run_of_put_ok {o : Construction.Outcome} {report : Report} {written : Written}
    (h : computed fs r clock = .ok (o, report))
    (hput : Written.put { files := fs } r.output report = .ok written) :
    (run fs r clock).outcome = .ok report ∧ (run fs r clock).written = written := by
  obtain ⟨log, hdeliver⟩ := deliver_of_put_ok
    (w := ⟨{ files := fs }, ((analyse fs r clock).run []).2⟩) o hput
  have hperform := perform_run fs r clock
  rw [h] at hperform
  rw [run, hperform.trans hdeliver]
  exact ⟨rfl, rfl⟩

theorem run_of_put_error {o : Construction.Outcome} {report : Report} {cause : IoError}
    (h : computed fs r clock = .ok (o, report))
    (hput : Written.put { files := fs } r.output report = .error cause) :
    (run fs r clock).outcome = .error (.output r.output cause report) := by
  obtain ⟨log, hdeliver⟩ := deliver_of_put_error
    (w := ⟨{ files := fs }, ((analyse fs r clock).run []).2⟩) o hput
  have hperform := perform_run fs r clock
  rw [h] at hperform
  rw [run, hperform.trans hdeliver]

/-- Where a report has been written: behind the empty standard output, with all files as they
were, or in the file that the path now leads to, the only one that has changed. -/
inductive Delivered (fs : FileSystem) (path : Path) (report : Report) : Written → Prop
  | standardOutput (hpath : isStandardOutput path = true) :
      Delivered fs path report { files := fs, standardOutput := report.render }
  | file {files : FileSystem} {location : Location} (hpath : isStandardOutput path = false)
      (hresolve : files.resolve path = .ok location)
      (htext : files.text? path = some report.render)
      (hfiles : fs.DiffersOnlyAt files location) : Delivered fs path report { files }

theorem delivered_of_put {fs : FileSystem} {path : Path} {report : Report} {written : Written}
    (h : Written.put { files := fs } path report = .ok written) :
    Delivered fs path report written := by
  rw [Written.put] at h
  split at h
  · next hpath =>
      cases h
      rw [String.empty_append]
      exact .standardOutput hpath
  · next hpath =>
      obtain ⟨files, hwrite, h⟩ := bind_eq_ok_iff.1 h
      cases h
      obtain ⟨location, hresolve, hlookup, hfiles⟩ := FileSystem.lookup_of_write hwrite
      refine .file (by simpa using hpath) hresolve ?_ hfiles
      rw [FileSystem.text?, hlookup]
      exact Text.fromUTF8?_toUTF8 report.render

theorem put_standardOutput (fs : FileSystem) (report : Report) :
    Written.put { files := fs } ⟨"-"⟩ report =
      .ok { files := fs, standardOutput := report.render } := by
  have hpath : isStandardOutput ⟨"-"⟩ = true := Path.isSame_refl _
  rw [Written.put, if_pos hpath, String.empty_append]

/-- A run that fails leaves no output, unless it is the output that fails. A run that succeeds
leaves its report and changes nothing else. A report that could not be written is the one
that the same run writes to the standard output. -/
theorem run_leaves_output_iff_written :
    (∀ e, (run fs r clock).outcome = .error e → e.isOutput = false →
      (run fs r clock).written = { files := fs }) ∧
    (∀ report, (run fs r clock).outcome = .ok report →
      Delivered fs r.output report (run fs r clock).written) ∧
    ∀ path cause report, (run fs r clock).outcome = .error (.output path cause report) →
      path = r.output ∧ (run fs { r with output := ⟨"-"⟩ } clock).outcome = .ok report ∧
        (run fs { r with output := ⟨"-"⟩ } clock).written =
          { files := fs, standardOutput := report.render } := by
  cases hcomputed : computed fs r clock with
  | error e =>
      obtain ⟨houtcome, hwritten⟩ := run_of_computed_error fs r clock hcomputed
      have hspared := sparesOutput_analyse fs r clock [] e hcomputed
      rw [houtcome]
      refine ⟨fun _ _ _ => hwritten, fun _ h => (nomatch h), ?_⟩
      intro path cause report h
      cases h
      cases hspared
  | ok x =>
      obtain ⟨o, report⟩ := x
      cases hput : Written.put { files := fs } r.output report with
      | ok written =>
          obtain ⟨houtcome, hwritten⟩ := run_of_put_ok fs r clock hcomputed hput
          rw [houtcome, hwritten]
          refine ⟨fun _ h => (nomatch h), ?_, fun _ _ _ h => (nomatch h)⟩
          intro report' h
          cases h
          exact delivered_of_put hput
      | error cause =>
          have houtcome := run_of_put_error fs r clock hcomputed hput
          rw [houtcome]
          refine ⟨?_, fun _ h => (nomatch h), ?_⟩
          · intro e h hspared
            cases h
            cases hspared
          · intro path cause' report' h
            cases h
            exact ⟨rfl, run_of_put_ok fs { r with output := ⟨"-"⟩ } clock hcomputed
              (put_standardOutput fs report)⟩

end Analysis

end JvmReach
