import JvmReach.Proofs.Report.Format

/-!
# Reports read back

The text of a report is read back as the document that was written, and the document gives
back the records. So nothing in a report is lost in its text.
-/

namespace JvmReach.Report

open Json

variable {g : CallGraph} {r : Report}

theorem fitsWords_method (r : MethodRecord) : r.document.FitsWords := by
  refine .object ?_
  simp only [List.forall_mem_cons, List.not_mem_nil, false_imp_iff, implies_true, and_true]
  refine ⟨.string, .string, .string, .array fun d hd => ?_⟩
  obtain ⟨_, -, rfl⟩ := List.mem_map.1 hd
  exact .string

theorem fitsWords_call {call : CallRecord} (h : FitsWord call.line) : call.document.FitsWords := by
  refine .object ?_
  simp only [List.forall_mem_cons, List.not_mem_nil, false_imp_iff, implies_true, and_true]
  refine ⟨fitsWords_method _, .number h, fitsWords_method _, .array fun d hd => ?_⟩
  obtain ⟨target, -, rfl⟩ := List.mem_map.1 hd
  exact fitsWords_method target

theorem fitsWord_line {site : CallSite} {record : SiteRecord} {call : CallRecord}
    (hline : ∀ line ∈ record.line?, line < 2 ^ 32) (h : describeSite site record = .ok call) :
    FitsWord call.line := by
  obtain ⟨_, _, _, -, -, -, rfl⟩ := exists_of_describeSite h
  cases hrecord : record.line? with
  | none => exact (⟨by decide, by decide⟩ : FitsWord (-1))
  | some line =>
      have := hline line hrecord
      change -0x8000000000000000 ≤ (line : Int) ∧ (line : Int) < 0x10000000000000000
      omega

theorem fitsWords_document (hlines : g.LinesFit) (h : ofGraph g = .ok r) :
    r.document.FitsWords := by
  refine .object ?_
  simp only [List.forall_mem_cons, List.not_mem_nil, false_imp_iff, implies_true, and_true]
  refine .array fun d hd => ?_
  obtain ⟨call, hcall, rfl⟩ := List.mem_map.1 hd
  obtain ⟨site, record, hsite, hdescribe⟩ := exists_site_of_mem_calls h call hcall
  exact fitsWords_call (fitsWord_line (hlines site record hsite) hdescribe)

def MethodRecord.ofDocument? : Document → Option MethodRecord
  | .object [("name", .string name), ("declaringType", .string declaringType),
      ("returnType", .string returnType), ("parameterTypes", .array types)] => do
      let parameterTypes ← types.mapM Document.string?
      return { name, declaringType, returnType, parameterTypes }
  | _ => none

def CallRecord.ofDocument? : Document → Option CallRecord
  | .object [("declaredTarget", declared), ("line", .number line), ("method", method),
      ("targets", .array targets)] => do
      let declaredTarget ← MethodRecord.ofDocument? declared
      let method ← MethodRecord.ofDocument? method
      let targets ← targets.mapM MethodRecord.ofDocument?
      return { declaredTarget, line, method, targets }
  | _ => none

/-- The records that a document holds. -/
def calls? : Document → Option (List CallRecord)
  | .object [("callSites", .array calls)] => calls.mapM CallRecord.ofDocument?
  | _ => none

/-- What every element was written as is read back all over the list. -/
theorem mapM_map_eq_some {α β : Type} (read : β → Option α) (write : α → β)
    (h : ∀ a, read (write a) = some a) (l : List α) : (l.map write).mapM read = some l := by
  have hread : read ∘ write = fun a => pure (id a) := funext h
  rw [List.mapM_map, hread, List.mapM_pure, List.map_id]
  rfl

theorem MethodRecord.ofDocument?_document (m : MethodRecord) :
    MethodRecord.ofDocument? m.document = some m := by
  have htypes : (m.parameterTypes.map Document.string).mapM Document.string? =
      some m.parameterTypes :=
    mapM_map_eq_some Document.string? .string (fun _ => rfl) m.parameterTypes
  rw [document, ofDocument?, htypes]
  rfl

theorem CallRecord.ofDocument?_document (call : CallRecord) :
    CallRecord.ofDocument? call.document = some call := by
  have htargets : (call.targets.map MethodRecord.document).mapM MethodRecord.ofDocument? =
      some call.targets :=
    mapM_map_eq_some _ _ MethodRecord.ofDocument?_document call.targets
  rw [document, ofDocument?, MethodRecord.ofDocument?_document, MethodRecord.ofDocument?_document,
    htargets]
  rfl

theorem calls?_document (r : Report) : calls? r.document = some r.calls :=
  mapM_map_eq_some _ _ CallRecord.ofDocument?_document r.calls

/-- The text of a report is read back as the document that was written, which gives back the
records. If the names in the call graph are names, the text has the format of reports. -/
theorem render_conforms (hlines : g.LinesFit) (h : ofGraph g = .ok r) :
    (Document.ofText? r.render = some r.document ∧ calls? r.document = some r.calls) ∧
      (g.WellNamed → Format.callGraph.AcceptsText r.render) :=
  have htext := Document.ofText?_text (fitsWords_document hlines h)
  ⟨⟨htext, calls?_document r⟩, fun hg => ⟨r.document, htext, callGraph_accepts hg h⟩⟩

def oddCaller : MethodRef := ⟨"app/\"Übung\"", "läuft\t\\", "([Lapp/Bäcker;I)V"⟩

def oddCallee : MethodRef := ⟨"app/Base", "f", "()[J"⟩

def oddRecord : SiteRecord where
  call := { declared := oddCallee, kind := .virtual }
  line? := some 12
  targets := {oddCallee}

/-- A graph with quotes, a backslash, a control character and umlauts in its names. -/
def oddNames : CallGraph where
  algorithm := .cha
  reachable := {oddCaller}
  discovered := [oddCaller]
  sites := Std.ExtTreeMap.empty.insert ⟨oddCaller, 4⟩ oddRecord
  diagnostics := {}

theorem of_mem_sites_oddNames {site : CallSite} {record : SiteRecord}
    (h : oddNames.sites[site]? = some record) : site.caller = oddCaller ∧ record = oddRecord := by
  rw [oddNames, Std.ExtTreeMap.getElem?_insert] at h
  split at h
  · next hsite =>
      cases Std.LawfulEqOrd.eq_of_compare hsite
      cases h
      exact ⟨rfl, rfl⟩
  · rw [Std.ExtTreeMap.empty_eq_emptyc, Std.ExtTreeMap.getElem?_empty] at h
    cases h

theorem render_conforms_oddNames : ∃ r, ofGraph oddNames = .ok r ∧
    Document.ofText? r.render = some r.document ∧ Format.callGraph.AcceptsText r.render := by
  have hlines : oddNames.LinesFit := by
    rintro site record hsite line hline
    obtain ⟨-, rfl⟩ := of_mem_sites_oddNames hsite
    cases hline
    decide
  have hnames : oddNames.WellNamed := by
    intro site record hsite
    obtain ⟨hcaller, rfl⟩ := of_mem_sites_oddNames hsite
    rw [hcaller]
    refine ⟨by decide +kernel, by decide +kernel, fun target htarget => ?_⟩
    have hcallee : oddCallee = target := by
      simpa [oddRecord] using htarget
    rw [← hcallee]
    decide +kernel
  have hreport : (ofGraph oddNames).toOption.isSome = true := by decide +kernel
  cases h : ofGraph oddNames with
  | error e =>
      rw [h] at hreport
      cases hreport
  | ok r =>
      obtain ⟨⟨htext, -⟩, hformat⟩ := render_conforms hlines h
      exact ⟨r, rfl, htext, hformat hnames⟩

end JvmReach.Report
