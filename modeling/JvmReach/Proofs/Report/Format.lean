import JvmReach.Proofs.Json.Shape
import JvmReach.Proofs.Report.Signatures

/-!
# The format of reports

The format prescribes the keys at each level of a report, lines from `-1` on, names that are
not empty, and the form of type descriptors. A report is read back from its text, and the
text has the format if the names that occur in the call graph are names to the JVM.
-/

namespace JvmReach

open Computability Descriptor Json

/-- A name may hold anything but the characters that delimit it in a descriptor. -/
def IsName (cs : List Char) : Prop := cs ≠ [] ∧ ';' ∉ cs ∧ '[' ∉ cs

instance : DecidablePred IsName := fun _ => inferInstanceAs (Decidable (_ ∧ _))

namespace Descriptor

def ScalarType.name? : ScalarType → Option (List Char)
  | .base _ => none
  | .object name => some name

def Signature.objectNames (s : Signature) : List (List Char) :=
  (s.result :: s.parameters).filterMap (·.element.name?)

end Descriptor

/-- The names that a reference to a method consists of. -/
def MethodRef.names (m : MethodRef) : List (List Char) :=
  m.owner.toList :: m.name.toList ::
    match Signature.parse m.descriptor with
    | .ok s => s.objectNames
    | .error _ => []

def MethodRef.WellNamed (m : MethodRef) : Prop := ∀ name ∈ m.names, IsName name

instance : DecidablePred MethodRef.WellNamed := fun _ => List.decidableBAll _ _

theorem MethodRef.mem_names_of_object {m : MethodRef} {s : Signature} {t : TypeDescriptor}
    (hs : Signature.parse m.descriptor = .ok s) (ht : t ∈ s.result :: s.parameters)
    {name : List Char} (hname : t.element.name? = some name) : name ∈ m.names := by
  rw [names, hs]
  exact .tail _ (.tail _ (List.mem_filterMap.2 ⟨t, ht, hname⟩))

namespace CallGraph

/-- The names that occur at the call sites are names. -/
def WellNamed (g : CallGraph) : Prop :=
  ∀ (site : CallSite) (record : SiteRecord), g.sites[site]? = some record →
    site.caller.WellNamed ∧ record.call.declared.WellNamed ∧
      ∀ target ∈ record.targets, target.WellNamed

/-- Source lines are numbers of 32 bits. -/
def LinesFit (g : CallGraph) : Prop :=
  ∀ (site : CallSite) (record : SiteRecord), g.sites[site]? = some record →
    ∀ line ∈ record.line?, line < 2 ^ 32

end CallGraph

namespace Report

/-- What a record of a call site is made of. -/
theorem exists_of_describeSite {site : CallSite} {record : SiteRecord} {call : CallRecord}
    (h : describeSite site record = .ok call) :
    ∃ targets declaredTarget method, record.targets.toList.mapM describe = .ok targets ∧
      describe record.call.declared = .ok declaredTarget ∧ describe site.caller = .ok method ∧
      call = {
        declaredTarget, line := (record.line?.map Int.ofNat).getD (-1), method, targets } := by
  obtain ⟨targets, htargets, h⟩ := bind_eq_ok_iff.1 h
  obtain ⟨declaredTarget, hdeclared, h⟩ := bind_eq_ok_iff.1 h
  obtain ⟨method, hmethod, h⟩ := bind_eq_ok_iff.1 h
  cases h
  exact ⟨targets, declaredTarget, method, htargets, hdeclared, hmethod, rfl⟩

namespace Format

/-- A single character. -/
def oneOf (p : Char → Prop) : Language Char := {cs | ∃ c, p c ∧ cs = [c]}

def className : Language Char := oneOf (· ≠ ';') * (oneOf (· ≠ ';'))∗

def elementType : Language Char :=
  oneOf (· ∈ "BCDFIJSZV".toList) + oneOf (· = 'L') * className * oneOf (· = ';')

/-- The pattern `^\[*([BCDFIJSZV]|L[^;]+;)$`. -/
def typeDescriptor : Language Char := (oneOf (· = '['))∗ * elementType

def type : Shape := .string 0 (some typeDescriptor)

def method : Shape :=
  .object [
    ("name", .string 1 none),
    ("declaringType", type),
    ("returnType", type),
    ("parameterTypes", .array type)]

def callSite : Shape :=
  .object [
    ("declaredTarget", method),
    ("line", .integer (-1)),
    ("method", method),
    ("targets", .array method)]

def callGraph : Shape := .object [("callSites", .array callSite)]

theorem singleton_mem_oneOf (p : Char → Prop) {c : Char} (h : p c) : [c] ∈ oneOf p := ⟨c, h, rfl⟩

theorem mem_kstar_oneOf {p : Char → Prop} {cs : List Char} (h : ∀ c ∈ cs, p c) :
    cs ∈ (oneOf p)∗ := by
  refine Language.mem_kstar.2 ⟨cs.map fun c => [c], ?_, ?_⟩
  · rw [← List.flatMap_def, List.flatMap_singleton']
  · intro single hsingle
    obtain ⟨c, hc, rfl⟩ := List.mem_map.1 hsingle
    exact singleton_mem_oneOf p (h c hc)

theorem mem_className {name : List Char} (h : IsName name) : name ∈ className := by
  obtain ⟨c, cs, rfl⟩ := List.exists_cons_of_ne_nil h.1
  have hne : ∀ d ∈ c :: cs, d ≠ ';' := by
    rintro d hd rfl
    exact h.2.1 hd
  exact Language.append_mem_mul (singleton_mem_oneOf (· ≠ ';') (hne c List.mem_cons_self))
    (mem_kstar_oneOf fun d hd => hne d (List.mem_cons_of_mem _ hd))

theorem ofTypeName_eq {name : List Char} (h : IsName name) :
    ofTypeName name = 'L' :: name ++ [';'] := by
  unfold ofTypeName
  split
  · exact absurd List.mem_cons_self h.2.2
  · rfl

theorem ofTypeName_mem_elementType {name : List Char} (h : IsName name) :
    ofTypeName name ∈ elementType := by
  rw [ofTypeName_eq h]
  refine (Language.mem_add _ _ _).2 (.inr ?_)
  have hopening : 'L' :: name ∈ oneOf (· = 'L') * className :=
    Language.append_mem_mul (singleton_mem_oneOf (· = 'L') rfl) (mem_className h)
  exact Language.append_mem_mul hopening (singleton_mem_oneOf (· = ';') rfl)

theorem base_mem_elementType {letter : Char} (h : letter ∈ baseLetters) :
    [letter] ∈ elementType := by
  have hsubset : baseLetters ⊆ "BCDFIJSZV".toList := by decide
  exact (Language.mem_add _ _ _).2 (.inl (singleton_mem_oneOf _ (hsubset h)))

theorem chars_mem_typeDescriptor {t : TypeDescriptor} (hknown : t.element.IsKnown)
    (hname : ∀ name ∈ t.element.name?, IsName name) : t.chars ∈ typeDescriptor := by
  have hbrackets : List.replicate t.dimensions '[' ∈ (oneOf (· = '['))∗ :=
    mem_kstar_oneOf fun c hc => List.eq_of_mem_replicate hc
  refine Language.append_mem_mul hbrackets ?_
  cases helement : t.element with
  | base letter =>
      rw [helement] at hknown
      exact base_mem_elementType hknown
  | object name =>
      rw [helement] at hname
      exact ofTypeName_mem_elementType (hname name rfl)

theorem type_accepts_text {t : TypeDescriptor} (hknown : t.element.IsKnown)
    (hname : ∀ name ∈ t.element.name?, IsName name) :
    type.Accepts (.string t.text) := by
  refine .string (Nat.zero_le _) ?_
  rintro _ ⟨⟩
  rw [TypeDescriptor.text, String.toList_ofList]
  exact chars_mem_typeDescriptor hknown hname

theorem ofClass_eq_text (name : String) :
    Descriptor.ofClass name = TypeDescriptor.text ⟨0, .object name.toList⟩ := rfl

theorem method_accepts {m : MethodRef} {r : MethodRecord} (hm : m.WellNamed)
    (h : describe m = .ok r) : method.Accepts r.document := by
  obtain ⟨s, hs, rfl⟩ := describe_eq_ok_iff.1 h
  have hs := signature_eq_ok_iff.1 hs
  obtain ⟨hresult, hparameters⟩ := Signature.isKnown_of_parse hs
  have hname : Shape.Accepts (.string 1 none) (.string m.name) :=
    .string (List.length_pos_iff.2 (hm _ (.tail _ (.head _))).1) (by simp)
  have hdeclaring : type.Accepts (.string (Descriptor.ofClass m.owner)) := by
    rw [ofClass_eq_text]
    refine type_accepts_text trivial ?_
    rintro _ ⟨⟩
    exact hm _ (.head _)
  have hobject : ∀ t ∈ s.result :: s.parameters, ∀ name ∈ t.element.name?, IsName name :=
    fun t ht name hname => hm name (MethodRef.mem_names_of_object hs ht hname)
  have hreturn : type.Accepts (.string s.result.text) :=
    type_accepts_text hresult (hobject _ List.mem_cons_self)
  have hparameter : ∀ d ∈ (s.parameters.map (·.text)).map Document.string, type.Accepts d := by
    intro d hd
    obtain ⟨_, htext, rfl⟩ := List.mem_map.1 hd
    obtain ⟨t, ht, rfl⟩ := List.mem_map.1 htext
    exact type_accepts_text (hparameters t ht) (hobject t (List.mem_cons_of_mem _ ht))
  exact Shape.accepts_object_of_forall₂ (by decide)
    (.cons ⟨rfl, hname⟩ (.cons ⟨rfl, hdeclaring⟩ (.cons ⟨rfl, hreturn⟩
      (.cons ⟨rfl, .array hparameter⟩ .nil))))

theorem callSite_accepts {site : CallSite} {record : SiteRecord} {r : CallRecord}
    (hcaller : site.caller.WellNamed) (hdeclared : record.call.declared.WellNamed)
    (htargets : ∀ target ∈ record.targets, target.WellNamed)
    (h : describeSite site record = .ok r) : callSite.Accepts r.document := by
  obtain ⟨targets, _, _, htargets', hdeclared', hcaller', rfl⟩ := exists_of_describeSite h
  have hline : -1 ≤ (record.line?.map Int.ofNat).getD (-1) := by
    cases record.line? with
    | none => exact Int.le_refl _
    | some line => exact Int.le_trans (by decide) (Int.natCast_nonneg line)
  have htarget : ∀ d ∈ targets.map MethodRecord.document, method.Accepts d := by
    intro d hd
    obtain ⟨r, hr, rfl⟩ := List.mem_map.1 hd
    obtain ⟨target, htarget, hdescribe⟩ := exists_mem_of_mapM_eq_ok htargets' r hr
    exact method_accepts (htargets target (Std.ExtTreeSet.mem_toList.1 htarget)) hdescribe
  exact Shape.accepts_object_of_forall₂ (by decide)
    (.cons ⟨rfl, method_accepts hdeclared hdeclared'⟩ (.cons ⟨rfl, .integer hline⟩
      (.cons ⟨rfl, method_accepts hcaller hcaller'⟩ (.cons ⟨rfl, .array htarget⟩ .nil))))

end Format

variable {g : CallGraph} {r : Report}

/-- Every record describes a call site of the graph. -/
theorem exists_site_of_mem_calls (h : ofGraph g = .ok r) :
    ∀ call ∈ r.calls, ∃ site record, g.sites[site]? = some record ∧
      describeSite site record = .ok call := by
  obtain ⟨calls, hcalls, h⟩ := bind_eq_ok_iff.1 h
  cases h
  intro call hcall
  obtain ⟨⟨site, record⟩, hmem, hdescribe⟩ := exists_mem_of_mapM_eq_ok hcalls call hcall
  exact ⟨site, record, Std.ExtTreeMap.mem_toList_iff_getElem?_eq_some.1 hmem, hdescribe⟩

theorem callGraph_accepts (hg : g.WellNamed) (h : ofGraph g = .ok r) :
    Format.callGraph.Accepts r.document := by
  have hcall : ∀ d ∈ r.calls.map CallRecord.document, Format.callSite.Accepts d := by
    intro d hd
    obtain ⟨call, hcall, rfl⟩ := List.mem_map.1 hd
    obtain ⟨site, record, hsite, hdescribe⟩ := exists_site_of_mem_calls h call hcall
    obtain ⟨hcaller, hdeclared, htargets⟩ := hg site record hsite
    exact Format.callSite_accepts hcaller hdeclared htargets hdescribe
  exact Shape.accepts_object_of_forall₂ (by decide) (.cons ⟨rfl, .array hcall⟩ .nil)

end Report

end JvmReach
