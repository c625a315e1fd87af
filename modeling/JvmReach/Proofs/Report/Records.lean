import JvmReach.Proofs.Report.Format
import Mathlib.Algebra.GroupWithZero.Nat

/-!
# The records of a report

A report has one record for each call site, in the order of the sites, and in it one record
for each target, in the order of the targets. There is a report unless a descriptor at one of
the sites is malformed. Of a call graph nothing but its sites counts for the records.
-/

namespace JvmReach

/-- Methods are ordered by declaring type, then name, then descriptor. -/
def MethodRef.Precedes (m m' : MethodRef) : Prop :=
  m.owner < m'.owner ∨ m.owner = m'.owner ∧
    (m.name < m'.name ∨ m.name = m'.name ∧ m.descriptor < m'.descriptor)

/-- Call sites are ordered by the caller, then by the offset in it. -/
def CallSite.Precedes (s s' : CallSite) : Prop :=
  s.caller.Precedes s'.caller ∨ s.caller = s'.caller ∧ s.offset < s'.offset

theorem compare_string_eq_lt {a b : String} : compare a b = .lt ↔ a < b := compareOfLessAndEq_eq_lt

theorem MethodRef.precedes_of_compare {m m' : MethodRef} (h : compare m m' = .lt) :
    m.Precedes m' := by
  have h : order m m' = .lt := h
  simp only [order, compareLex, compareOn, Ordering.then_eq_lt, compare_string_eq_lt,
    Std.LawfulEqCmp.compare_eq_iff_eq] at h
  exact h

theorem CallSite.precedes_of_compare {s s' : CallSite} (h : compare s s' = .lt) :
    s.Precedes s' := by
  have h : order s s' = .lt := h
  simp only [order, compareLex, compareOn, Ordering.then_eq_lt, Nat.compare_eq_lt,
    Std.LawfulEqCmp.compare_eq_iff_eq] at h
  exact h.imp_left MethodRef.precedes_of_compare

namespace Report

/-- The record tells name, declaring type and signature of the method. -/
structure Describes (m : MethodRef) (r : MethodRecord) : Prop where
  name : r.name = m.name
  declaringType : r.declaringType = Descriptor.ofClass m.owner
  types : ∃ s, Descriptor.signature m.descriptor = .ok s ∧ r.returnType = s.result.text ∧
    r.parameterTypes = s.parameters.map Descriptor.TypeDescriptor.text

/-- The record tells what was found at the site, with the targets in their order. -/
structure Records (site : CallSite) (record : SiteRecord) (call : CallRecord) : Prop where
  declared : Describes record.call.declared call.declaredTarget
  caller : Describes site.caller call.method
  line : call.line = match record.line? with
    | some line => (line : Int)
    | none => -1
  targets : ∃ targets : List MethodRef, targets.Pairwise MethodRef.Precedes ∧
    (∀ t, t ∈ targets ↔ t ∈ record.targets) ∧ List.Forall₂ Describes targets call.targets

theorem describes_iff {m : MethodRef} {r : MethodRecord} :
    Describes m r ↔ describe m = .ok r := by
  rw [describe_eq_ok_iff]
  constructor
  · rintro ⟨hname, hdeclaring, s, hs, hreturn, hparameters⟩
    refine ⟨s, hs, ?_⟩
    cases r
    cases hname
    cases hdeclaring
    cases hreturn
    cases hparameters
    rfl
  · rintro ⟨s, hs, rfl⟩
    exact ⟨rfl, rfl, s, hs, rfl, rfl⟩

theorem exists_describes_iff {m : MethodRef} :
    (∃ r, describe m = .ok r) ↔ ∃ s, Descriptor.signature m.descriptor = .ok s := by
  simp only [describe_eq_ok_iff]
  constructor
  · rintro ⟨r, s, hs, -⟩
    exact ⟨s, hs⟩
  · rintro ⟨s, hs⟩
    exact ⟨_, s, hs, rfl⟩

variable {site : CallSite} {record : SiteRecord}

/-- The methods that the record of a call site is about. -/
def Occurs (m : MethodRef) (site : CallSite) (record : SiteRecord) : Prop :=
  m = site.caller ∨ m = record.call.declared ∨ m ∈ record.targets

theorem exists_describeSite_iff : (∃ call, describeSite site record = .ok call) ↔
    ∀ m, Occurs m site record → ∃ s, Descriptor.signature m.descriptor = .ok s := by
  simp only [describeSite, bind_eq_ok_iff, pure_eq_ok_iff, ← exists_describes_iff]
  constructor
  · rintro ⟨call, targets, htargets, declared, hdeclared, caller, hcaller, -⟩ m
      (rfl | rfl | hm)
    · exact ⟨caller, hcaller⟩
    · exact ⟨declared, hdeclared⟩
    · exact exists_mapM_eq_ok_iff.1 ⟨targets, htargets⟩ m (Std.ExtTreeSet.mem_toList.2 hm)
  · intro h
    obtain ⟨caller, hcaller⟩ := h _ (.inl rfl)
    obtain ⟨declared, hdeclared⟩ := h _ (.inr (.inl rfl))
    obtain ⟨targets, htargets⟩ := exists_mapM_eq_ok_iff.2 fun m hm =>
      h m (.inr (.inr (Std.ExtTreeSet.mem_toList.1 hm)))
    exact ⟨_, targets, htargets, declared, hdeclared, caller, hcaller, rfl⟩

theorem records_of_describeSite {call : CallRecord} (h : describeSite site record = .ok call) :
    Records site record call := by
  obtain ⟨targets, declared, caller, htargets, hdeclared, hcaller, rfl⟩ :=
    exists_of_describeSite h
  refine ⟨describes_iff.2 hdeclared, describes_iff.2 hcaller, ?_, record.targets.toList, ?_, ?_, ?_⟩
  · cases record.line? with
    | none => rfl
    | some line => rfl
  · exact Std.ExtTreeSet.ordered_toList.imp MethodRef.precedes_of_compare
  · exact fun t => Std.ExtTreeSet.mem_toList
  · exact (mapM_eq_ok_iff.1 htargets).imp fun _ _ => describes_iff.2

variable {g : CallGraph} {r : Report}

theorem forall₂_of_ofGraph (h : ofGraph g = .ok r) :
    List.Forall₂ (fun entry call => describeSite entry.1 entry.2 = .ok call) g.sites.toList
      r.calls ∧ r.edgeCount = g.edgeCount := by
  obtain ⟨calls, hcalls, h⟩ := bind_eq_ok_iff.1 h
  cases h
  exact ⟨mapM_eq_ok_iff.1 hcalls, rfl⟩

/-- The calls of a report stem from the sites of the graph alone. -/
theorem map_calls_ofGraph (g : CallGraph) : (ofGraph g).map Report.calls =
    g.sites.toList.mapM fun (site, record) => describeSite site record := by
  rw [ofGraph]
  cases g.sites.toList.mapM fun (site, record) => describeSite site record with
  | error e => rfl
  | ok calls => rfl

theorem exists_ofGraph_iff : (∃ r, ofGraph g = .ok r) ↔
    ∀ site record m, g.sites[site]? = some record → Occurs m site record →
      ∃ s, Descriptor.signature m.descriptor = .ok s := by
  have hcalls : (∃ r, ofGraph g = .ok r) ↔ ∃ calls, (ofGraph g).map Report.calls = .ok calls := by
    constructor
    · rintro ⟨r, hr⟩
      exact ⟨r.calls, map_eq_ok_iff.2 ⟨r, hr, rfl⟩⟩
    · rintro ⟨calls, h⟩
      obtain ⟨r, hr, -⟩ := map_eq_ok_iff.1 h
      exact ⟨r, hr⟩
  simp only [hcalls, map_calls_ofGraph, exists_mapM_eq_ok_iff, Prod.forall, exists_describeSite_iff,
    Std.ExtTreeMap.mem_toList_iff_getElem?_eq_some]
  exact ⟨fun h site record m hsite => h site record hsite m,
    fun h site record hsite m => h site record m hsite⟩

/-- Each edge of the graph is a target in one record. -/
theorem sum_length_targets (h : ofGraph g = .ok r) :
    (r.calls.map fun call => call.targets.length).sum = g.edgeCount := by
  obtain ⟨hcalls, -⟩ := forall₂_of_ofGraph h
  have hlengths : (g.sites.toList.map fun entry => entry.2.targets.toList.length) =
      r.calls.map fun call => call.targets.length := by
    rw [← List.forall₂_eq_eq_eq, List.forall₂_map_left_iff, List.forall₂_map_right_iff]
    refine hcalls.imp fun entry call hcall => ?_
    obtain ⟨targets, -, -, htargets, -, -, rfl⟩ := exists_of_describeSite hcall
    exact (mapM_eq_ok_iff.1 htargets).length_eq
  rw [← hlengths, CallGraph.edgeCount, CallGraph.edges, List.length_flatMap]
  simp only [List.length_map]

/-- There is a report unless a descriptor at some call site is malformed, and it is the
ordered image of the sites: one record each, with one record for each target, as many in all
as the graph has edges. The other parts of the graph count for none of this. -/
theorem ofGraph_faithful (g : CallGraph) :
    ((∃ e, ofGraph g = .error e) ↔ ∃ site record m, g.sites[site]? = some record ∧
      Occurs m site record ∧ ∀ s, Descriptor.signature m.descriptor ≠ .ok s) ∧
    (∀ g', g'.sites = g.sites → (ofGraph g').map Report.calls = (ofGraph g).map Report.calls) ∧
    ∀ r, ofGraph g = .ok r →
      (∃ sites : List (CallSite × SiteRecord),
        (sites.map Prod.fst).Pairwise CallSite.Precedes ∧
        (∀ site record, (site, record) ∈ sites ↔ g.sites[site]? = some record) ∧
        List.Forall₂ (fun entry call => Records entry.1 entry.2 call) sites r.calls) ∧
      (r.calls.map fun call => call.targets.length).sum = r.edgeCount ∧
      r.edgeCount = g.edgeCount := by
  refine ⟨?_, ?_, fun r hr => ⟨⟨g.sites.toList, ?_, ?_, ?_⟩, ?_, (forall₂_of_ofGraph hr).2⟩⟩
  · rw [exists_eq_error_iff, exists_ofGraph_iff]
    simp only [not_forall, not_exists, exists_prop, ne_eq]
  · intro g' hsites
    rw [map_calls_ofGraph, map_calls_ofGraph, hsites]
  · rw [Std.ExtTreeMap.map_fst_toList_eq_keys]
    exact Std.ExtTreeMap.ordered_keys.imp CallSite.precedes_of_compare
  · exact fun site record => Std.ExtTreeMap.mem_toList_iff_getElem?_eq_some
  · exact (forall₂_of_ofGraph hr).1.imp fun _ _ => records_of_describeSite
  · rw [sum_length_targets hr, (forall₂_of_ofGraph hr).2]

end Report

end JvmReach
