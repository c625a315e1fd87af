import JvmReach.Proofs.Descriptor
import JvmReach.Report.Basic

/-!
# Signatures in a report

A descriptor splits into parameter types and a return type in at most one way, and it is
accepted if there is one. In a report the types are written as they were read, but for object
types that are named like an array. Where there is none of these and nothing follows the
return type, the record of a method tells which method it is of.
-/

namespace JvmReach.Descriptor

inductive IsElementType : List Char → Prop
  | base {letter : Char} (h : letter ∈ "BCDFIJSZV".toList) : IsElementType [letter]
  | object {name : List Char} (h : ';' ∉ name) : IsElementType ('L' :: (name ++ [';']))

inductive IsType : List Char → Prop
  | mk {dimensions : Nat} {element : List Char} (hdimensions : dimensions ≤ 255)
      (helement : IsElementType element) : IsType (List.replicate dimensions '[' ++ element)

/-- The descriptor starts with these types and goes on with `rest`. -/
structure Splits (descriptor : String) (types : List (List Char)) (returned rest : List Char) :
    Prop where
  parameters : ∀ type ∈ types, IsType type
  result : IsType returned
  eq : descriptor.toList = '(' :: (types.flatten ++ ')' :: (returned ++ rest))

/-- An object type, or an array of such, whose name is that of an array: `text` has the name
in place of the object type. -/
def NamesArray (type text : List Char) : Prop :=
  ∃ dimensions name, type = List.replicate dimensions '[' ++ 'L' :: '[' :: (name ++ [';']) ∧
    text = List.replicate dimensions '[' ++ '[' :: name

/-- How a report writes a type. -/
def Rendered (type text : List Char) : Prop :=
  NamesArray type text ∨ (¬ ∃ text, NamesArray type text) ∧ text = type

/-- A descriptor without array names and with nothing behind its return type. -/
def IsPlain (descriptor : String) : Prop :=
  ∃ parameters result, Splits descriptor parameters result [] ∧
    ∀ type ∈ result :: parameters, ¬ ∃ text, NamesArray type text

theorem isType_iff {type : List Char} :
    IsType type ↔ ∃ t : TypeDescriptor, t.WellFormed ∧ t.spelling = type := by
  have hletters : ∀ letter, letter ∈ "BCDFIJSZV".toList ↔ letter ∈ baseLetters := by
    intro letter
    simp [baseLetters]
    tauto
  constructor
  · rintro ⟨hdimensions, helement⟩
    cases helement with
    | @base letter h =>
        exact ⟨⟨_, .base letter⟩, ⟨hdimensions, (hletters letter).1 h⟩, rfl⟩
    | @object name h => exact ⟨⟨_, .object name⟩, ⟨hdimensions, h⟩, rfl⟩
  · rintro ⟨⟨dimensions, element⟩, h, rfl⟩
    cases element with
    | base letter => exact .mk h.dimensions (.base ((hletters letter).2 h.element))
    | object name => exact .mk h.dimensions (.object h.element)

theorem exists_map_spelling {types : List (List Char)} (h : ∀ type ∈ types, IsType type) :
    ∃ ts : List TypeDescriptor, (∀ t ∈ ts, t.WellFormed) ∧
      ts.map TypeDescriptor.spelling = types := by
  induction types with
  | nil => exact ⟨[], by simp⟩
  | cons type types ih =>
      obtain ⟨htype, htypes⟩ := List.forall_mem_cons.1 h
      obtain ⟨t, ht, rfl⟩ := isType_iff.1 htype
      obtain ⟨ts, hts, rfl⟩ := ih htypes
      exact ⟨t :: ts, List.forall_mem_cons.2 ⟨ht, hts⟩, rfl⟩

variable {d : String}

/-- A descriptor splits as the signature that is read from it is spelled. -/
theorem splits_iff {parameters : List (List Char)} {result rest : List Char} :
    Splits d parameters result rest ↔ ∃ s, Signature.parse d = .ok s ∧
      parameters = s.parameters.map TypeDescriptor.spelling ∧ result = s.result.spelling ∧
        d.toList = s.spelling ++ rest := by
  constructor
  · intro h
    obtain ⟨ts, hts, rfl⟩ := exists_map_spelling h.parameters
    obtain ⟨t, ht, rfl⟩ := isType_iff.1 h.result
    have hd : d.toList = Signature.spelling ⟨ts, t⟩ ++ rest := by
      rw [h.eq, Signature.spelling, List.flatMap_def]
      simp
    exact ⟨⟨ts, t⟩, Signature.parse_eq_ok_iff.2 ⟨⟨hts, ht⟩, rest, hd⟩, rfl, rfl, hd⟩
  · rintro ⟨s, hs, rfl, rfl, hd⟩
    obtain ⟨hwf, -⟩ := Signature.parse_eq_ok_iff.1 hs
    refine ⟨?_, isType_iff.2 ⟨_, hwf.result, rfl⟩, ?_⟩
    · intro type htype
      obtain ⟨t, ht, rfl⟩ := List.mem_map.1 htype
      exact isType_iff.2 ⟨t, hwf.parameters t ht, rfl⟩
    · rw [hd, Signature.spelling, List.flatMap_def]
      simp

theorem Splits.unique {ps ps' : List (List Char)} {r r' rest rest' : List Char}
    (h : Splits d ps r rest) (h' : Splits d ps' r' rest') : ps = ps' ∧ r = r' ∧ rest = rest' := by
  obtain ⟨s, hs, rfl, rfl, hd⟩ := splits_iff.1 h
  obtain ⟨s', hs', rfl, rfl, hd'⟩ := splits_iff.1 h'
  cases hs.symm.trans hs'
  exact ⟨rfl, rfl, List.append_cancel_left (hd.symm.trans hd')⟩

theorem exists_parse_iff : (∃ s, Signature.parse d = .ok s) ↔ ∃ ps r rest, Splits d ps r rest := by
  constructor
  · rintro ⟨s, hs⟩
    obtain ⟨-, rest, hd⟩ := Signature.parse_eq_ok_iff.1 hs
    exact ⟨_, _, rest, splits_iff.2 ⟨s, hs, rfl, rfl, hd⟩⟩
  · rintro ⟨ps, r, rest, h⟩
    obtain ⟨s, hs, -⟩ := splits_iff.1 h
    exact ⟨s, hs⟩

theorem replicate_append_inj {a b : Nat} {x y : Char} {xs ys : List Char} (hx : x ≠ '[')
    (hy : y ≠ '[') (h : List.replicate a '[' ++ x :: xs = List.replicate b '[' ++ y :: ys) :
    a = b ∧ x = y ∧ xs = ys := by
  induction a generalizing b with
  | zero =>
      cases b with
      | zero =>
          cases h
          exact ⟨rfl, rfl, rfl⟩
      | succ b => exact absurd (List.cons.inj h).1 hx
  | succ a ih =>
      cases b with
      | zero => exact absurd (List.cons.inj h).1.symm hy
      | succ b =>
          obtain ⟨rfl, hxy⟩ := ih (List.cons.inj h).2
          exact ⟨rfl, hxy⟩

/-- Only object types can be named like an array. -/
theorem exists_of_namesArray {t : TypeDescriptor} (ht : t.WellFormed) {text : List Char}
    (h : NamesArray t.spelling text) : ∃ name, t.element = .object ('[' :: name) := by
  obtain ⟨dimensions, name, htype, -⟩ := h
  cases helement : t.element with
  | base letter =>
      have hletter : letter ≠ '[' := by
        obtain ⟨c, tail, hspelling, hbracket, -⟩ := ht.element.exists_spelling_eq
        rw [helement] at hspelling
        cases hspelling
        exact hbracket
      rw [TypeDescriptor.spelling, helement] at htype
      obtain ⟨-, -, hnil⟩ := replicate_append_inj hletter (by decide) htype
      cases hnil
  | object name' =>
      rw [TypeDescriptor.spelling, helement] at htype
      obtain ⟨-, -, htail⟩ := replicate_append_inj (by decide) (by decide) htype
      have hname : name' ++ [';'] = ('[' :: name) ++ [';'] := htail
      exact ⟨name, congrArg ScalarType.object (List.append_cancel_right hname)⟩

theorem rendered_chars {t : TypeDescriptor} (ht : t.WellFormed) : Rendered t.spelling t.chars := by
  by_cases hname : ∃ name, t.element = .object ('[' :: name)
  · obtain ⟨name, hname⟩ := hname
    refine .inl ⟨t.dimensions, name, ?_, ?_⟩
    · rw [TypeDescriptor.spelling, hname]
      rfl
    · rw [TypeDescriptor.chars, hname]
      rfl
  · have hplain : ¬ ∃ text, NamesArray t.spelling text := by
      rintro ⟨text, htext⟩
      exact hname (exists_of_namesArray ht htext)
    refine .inr ⟨hplain, ?_⟩
    rw [TypeDescriptor.chars, TypeDescriptor.spelling]
    congr 1
    cases helement : t.element with
    | base letter => rfl
    | object name =>
        change ofTypeName name = 'L' :: (name ++ [';'])
        unfold ofTypeName
        split
        · next tail => exact absurd ⟨tail, helement⟩ hname
        · rfl

theorem signature_eq_ok_iff {s : Signature} :
    signature d = .ok s ↔ Signature.parse d = .ok s := mapError_eq_ok_iff

/-- The types of a report are those of the descriptor, one by one. -/
theorem rendered_of_splits {s : Signature} (hs : signature d = .ok s) {ps : List (List Char)}
    {r rest : List Char} (h : Splits d ps r rest) :
    List.Forall₂ (fun type text => Rendered type text.toList) ps
        (s.parameters.map TypeDescriptor.text) ∧ Rendered r s.result.text.toList := by
  obtain ⟨s', hs', rfl, rfl, -⟩ := splits_iff.1 h
  cases (signature_eq_ok_iff.1 hs).symm.trans hs'
  obtain ⟨hwf, -⟩ := Signature.parse_eq_ok_iff.1 hs'
  have htext : ∀ t : TypeDescriptor, t.WellFormed → Rendered t.spelling t.text.toList := by
    intro t ht
    rw [TypeDescriptor.text, String.toList_ofList]
    exact rendered_chars ht
  refine ⟨?_, htext _ hwf.result⟩
  rw [List.forall₂_map_left_iff, List.forall₂_map_right_iff, List.forall₂_same]
  exact fun t ht => htext t (hwf.parameters t ht)

/-- Put together again, the types of a plain descriptor are the descriptor. -/
theorem IsPlain.exists_signature (h : IsPlain d) :
    ∃ s, signature d = .ok s ∧
      "(" ++ String.join (s.parameters.map TypeDescriptor.text) ++ ")" ++ s.result.text = d := by
  obtain ⟨ps, r, hsplits, hplain⟩ := h
  obtain ⟨s, hs⟩ := exists_parse_iff.2 ⟨ps, r, [], hsplits⟩
  have hs := signature_eq_ok_iff.2 hs
  obtain ⟨hparameters, hresult⟩ := rendered_of_splits hs hsplits
  obtain ⟨hr, hps⟩ := List.forall_mem_cons.1 hplain
  have hverbatim : ∀ type text, (¬ ∃ text, NamesArray type text) → Rendered type text →
      text = type := by
    rintro type text hnone (hnames | ⟨-, htext⟩)
    · exact absurd ⟨text, hnames⟩ hnone
    · exact htext
  have htypes : (s.parameters.map TypeDescriptor.text).map String.toList = ps := by
    rw [← List.forall₂_eq_eq_eq, List.forall₂_map_left_iff]
    exact ((List.forall₂_and_left _ _).2 ⟨hps, hparameters⟩).flip.imp
      fun text type h => hverbatim type _ h.1 h.2
  refine ⟨s, hs, String.toList_inj.1 ?_⟩
  rw [hsplits.eq]
  simp only [String.toList_append, String.toList_join, List.flatMap_def, htypes,
    hverbatim r _ hr hresult]
  simp

end JvmReach.Descriptor

namespace JvmReach.Report

open Descriptor

theorem describe_eq_ok_iff {m : MethodRef} {r : MethodRecord} :
    describe m = .ok r ↔ ∃ s, Descriptor.signature m.descriptor = .ok s ∧
      r = { name := m.name
            declaringType := Descriptor.ofClass m.owner
            returnType := s.result.text
            parameterTypes := s.parameters.map TypeDescriptor.text } := by
  unfold describe
  split
  · next cause hcause =>
      rw [hcause]
      simp
  · next s hs =>
      rw [hs]
      simp [eq_comm]

theorem ofTypeName_injective : Function.Injective ofTypeName := by
  intro name name' h
  unfold ofTypeName at h
  split at h <;> split at h
  · exact h
  · cases h
  · cases h
  · exact List.append_cancel_right (List.cons.inj h).2

theorem ofClass_injective : Function.Injective Descriptor.ofClass := by
  intro name name' h
  exact String.toList_inj.1 (ofTypeName_injective (String.ofList_injective h))

/-- A record of a method with a plain descriptor tells which method it is of. -/
theorem eq_of_describe_eq {m m' : MethodRef} (hm : IsPlain m.descriptor)
    (hm' : IsPlain m'.descriptor) {r : MethodRecord} (h : describe m = .ok r)
    (h' : describe m' = .ok r) : m = m' := by
  obtain ⟨s, hs, rfl⟩ := describe_eq_ok_iff.1 h
  obtain ⟨s', hs', hr⟩ := describe_eq_ok_iff.1 h'
  obtain ⟨hname, howner, hresult, hparameters⟩ := (MethodRecord.mk.injEq ..).mp hr
  obtain ⟨t, ht, hd⟩ := hm.exists_signature
  obtain ⟨t', ht', hd'⟩ := hm'.exists_signature
  cases hs.symm.trans ht
  cases hs'.symm.trans ht'
  have hdescriptor : m.descriptor = m'.descriptor := by
    rw [← hd, ← hd', hparameters, hresult]
  cases m
  cases m'
  cases hname
  cases ofClass_injective howner
  cases hdescriptor
  rfl

/-- A descriptor is accepted if it is a parenthesised list of types with another type behind
it, and the report then has these types: the list is determined, only array names are not
written as they were read, and a plain descriptor is restored from the report. -/
theorem signature_exact (d : String) :
    ((∃ s, Descriptor.signature d = .ok s) ↔ ∃ ps r rest, Splits d ps r rest) ∧
    (∀ ps r rest ps' r' rest', Splits d ps r rest → Splits d ps' r' rest' →
      ps = ps' ∧ r = r' ∧ rest = rest') ∧
    (∀ s ps r rest, Descriptor.signature d = .ok s → Splits d ps r rest →
      List.Forall₂ (fun type text => Rendered type text.toList) ps
          (s.parameters.map TypeDescriptor.text) ∧ Rendered r s.result.text.toList) ∧
    (IsPlain d → ∃ s, Descriptor.signature d = .ok s ∧
      "(" ++ String.join (s.parameters.map TypeDescriptor.text) ++ ")" ++ s.result.text = d) ∧
    ∀ m m' r, m.descriptor = d → IsPlain d → IsPlain m'.descriptor → describe m = .ok r →
      describe m' = .ok r → m = m' := by
  refine ⟨?_, ?_, ?_, IsPlain.exists_signature, ?_⟩
  · simp only [signature_eq_ok_iff]
    exact exists_parse_iff
  · intro ps r rest ps' r' rest' h h'
    exact h.unique h'
  · intro s ps r rest hs h
    exact rendered_of_splits hs h
  · rintro m m' r rfl hplain hplain' h h'
    exact eq_of_describe_eq hplain hplain' h h'

theorem signature_exact_main :
    IsPlain "([Ljava/lang/String;)V" ∧ ∃ s, Descriptor.signature "([Ljava/lang/String;)V" = .ok s ∧
      "(" ++ String.join (s.parameters.map TypeDescriptor.text) ++ ")" ++ s.result.text =
        "([Ljava/lang/String;)V" := by
  have hname : ';' ∉ "java/lang/String".toList := by decide +kernel
  have hstring : IsElementType "Ljava/lang/String;".toList := .object hname
  have hplain : IsPlain "([Ljava/lang/String;)V" := by
    refine ⟨["[Ljava/lang/String;".toList], "V".toList, ⟨?_, ?_, rfl⟩, ?_⟩
    · rintro type htype
      cases List.mem_singleton.1 htype
      exact .mk (show 1 ≤ 255 by decide) hstring
    · exact .mk (Nat.zero_le 255) (.base (by decide))
    · have hinfix : ∀ type ∈ ["V".toList, "[Ljava/lang/String;".toList],
          ¬ "L[".toList <:+: type := by decide +kernel
      rintro type htype ⟨text, dimensions, name, rfl, -⟩
      exact hinfix _ htype ⟨List.replicate dimensions '[', name ++ [';'], by simp⟩
  exact ⟨hplain, (signature_exact "([Ljava/lang/String;)V").2.2.2.1 hplain⟩

end JvmReach.Report
