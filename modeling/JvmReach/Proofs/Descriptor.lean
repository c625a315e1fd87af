import JvmReach.Descriptor
import JvmReach.Proofs.Except

/-!
# Reading a descriptor

Reading a type takes the spelling of one well-formed type off the text, and reading a
descriptor takes a parenthesised list of such spellings and another one. Nothing else is
read, and whatever starts this way is read; so a descriptor has one decomposition only.
-/

namespace JvmReach.Descriptor

def ScalarType.IsKnown : ScalarType → Prop
  | .base letter => letter ∈ baseLetters
  | .object _ => True

/-- The text that the type is read from. -/
def ScalarType.spelling : ScalarType → List Char
  | .base letter => [letter]
  | .object name => 'L' :: (name ++ [';'])

def ScalarType.WellFormed : ScalarType → Prop
  | .base letter => letter ∈ baseLetters
  | .object name => ';' ∉ name

namespace TypeDescriptor

def spelling (t : TypeDescriptor) : List Char :=
  List.replicate t.dimensions '[' ++ t.element.spelling

structure WellFormed (t : TypeDescriptor) : Prop where
  dimensions : t.dimensions ≤ 255
  element : t.element.WellFormed

end TypeDescriptor

namespace Signature

def spelling (s : Signature) : List Char :=
  '(' :: (s.parameters.flatMap TypeDescriptor.spelling ++ ')' :: s.result.spelling)

structure WellFormed (s : Signature) : Prop where
  parameters : ∀ t ∈ s.parameters, t.WellFormed
  result : s.result.WellFormed

end Signature

variable {cs rest : List Char}

theorem ScalarType.WellFormed.isKnown {e : ScalarType} (h : e.WellFormed) : e.IsKnown := by
  cases e with
  | base letter => exact h
  | object name => trivial

/-- No type starts with a bracket after those of its dimensions, or with a parenthesis. -/
theorem ScalarType.WellFormed.exists_spelling_eq {e : ScalarType} (h : e.WellFormed) :
    ∃ c tail, e.spelling = c :: tail ∧ c ≠ '[' ∧ c ≠ ')' := by
  cases e with
  | base letter =>
      have hmem : letter ∈ baseLetters := h
      refine ⟨letter, [], rfl, ?_, ?_⟩
      · rintro rfl
        exact absurd hmem (by decide)
      · rintro rfl
        exact absurd hmem (by decide)
  | object name => exact ⟨'L', _, rfl, by decide, by decide⟩

theorem TypeDescriptor.WellFormed.exists_spelling_eq {t : TypeDescriptor} (h : t.WellFormed) :
    ∃ c tail, t.spelling = c :: tail ∧ c ≠ ')' := by
  obtain ⟨c, tail, hspelling, -, hparenthesis⟩ := h.element.exists_spelling_eq
  rw [spelling, hspelling]
  cases t.dimensions with
  | zero => exact ⟨c, tail, rfl, hparenthesis⟩
  | succ n => exact ⟨'[', _, rfl, by decide⟩

/-- A text is cut at its first semicolon. -/
theorem dropWhile_eq_cons_iff {name : List Char} :
    (∃ c, cs.dropWhile (· ≠ ';') = c :: rest ∧ cs.takeWhile (· ≠ ';') = name) ↔
      ';' ∉ name ∧ cs = name ++ ';' :: rest := by
  constructor
  · rintro ⟨c, hdrop, rfl⟩
    have hc : c = ';' := by
      have hhead := List.head?_dropWhile_not (fun d => decide (d ≠ ';')) cs
      rw [hdrop] at hhead
      simpa using hhead
    subst hc
    refine ⟨?_, ?_⟩
    · intro hmem
      have hall := List.all_eq_true.1
        (List.all_takeWhile (p := fun d => decide (d ≠ ';')) (l := cs))
      simpa using hall ';' hmem
    · rw [← hdrop, List.takeWhile_append_dropWhile]
  · rintro ⟨hname, rfl⟩
    have hne : ∀ d ∈ name, decide (d ≠ ';') = true := by
      intro d hd
      refine decide_eq_true ?_
      rintro rfl
      exact hname hd
    refine ⟨';', ?_, ?_⟩
    · rw [List.dropWhile_append_of_pos hne]
      rfl
    · rw [List.takeWhile_append_of_pos hne]
      simp

theorem wellFormed_of_parseScalar {e : ScalarType} (h : parseScalar cs = .ok (e, rest)) :
    e.WellFormed ∧ cs = e.spelling ++ rest := by
  unfold parseScalar at h
  split at h
  · cases h
  next c tail =>
  split at h
  · next hletter =>
      cases h
      exact ⟨hletter, rfl⟩
  split at h
  · next hc =>
      split at h
      · cases h
      · next c' after hdrop =>
          cases h
          obtain ⟨hname, htail⟩ := dropWhile_eq_cons_iff.1 ⟨c', hdrop, rfl⟩
          refine ⟨hname, ?_⟩
          rw [hc, ScalarType.spelling, List.cons_append, List.append_assoc, List.singleton_append,
            ← htail]
  · cases h

theorem parseScalar_spelling {e : ScalarType} (he : e.WellFormed) (rest : List Char) :
    parseScalar (e.spelling ++ rest) = .ok (e, rest) := by
  cases e with
  | base letter => exact if_pos he
  | object name =>
      have htail : name ++ [';'] ++ rest = name ++ ';' :: rest := by simp
      obtain ⟨c, hdrop, htake⟩ := dropWhile_eq_cons_iff.2 ⟨he, htail⟩
      rw [ScalarType.spelling, List.cons_append, parseScalar, if_neg (by decide), if_pos rfl,
        hdrop, htake]

theorem parseElement_of_ne_bracket {dimensions : Nat} {c : Char} (hbracket : c ≠ '[') :
    parseElement dimensions (c :: cs) =
      if 0 < dimensions ∧ c = ')' then .error .noElementType
      else (parseScalar (c :: cs)).map fun (element, rest) => (⟨dimensions, element⟩, rest) := by
  rw [parseElement]
  · simp
  · rintro rest ⟨⟩
    exact hbracket rfl

/-- The brackets read so far are among those of the type. -/
theorem wellFormed_of_parseElement_brackets {dimensions : Nat} {t : TypeDescriptor}
    (hdimensions : dimensions ≤ 255) (h : parseElement dimensions cs = .ok (t, rest)) :
    t.WellFormed ∧ List.replicate dimensions '[' ++ cs = t.spelling ++ rest := by
  fun_induction parseElement dimensions cs with
  | case1 => cases h
  | case2 dimensions tail hmore ih =>
      obtain ⟨ht, hcs⟩ := ih (by omega) h
      refine ⟨ht, ?_⟩
      rw [← hcs, List.replicate_succ', List.append_assoc, List.singleton_append]
  | case3 => cases h
  | case4 dimensions cs _ _ =>
      obtain ⟨⟨element, after⟩, hscalar, heq⟩ := map_eq_ok_iff.1 h
      cases heq
      obtain ⟨he, rfl⟩ := wellFormed_of_parseScalar hscalar
      exact ⟨⟨hdimensions, he⟩, (List.append_assoc _ _ _).symm⟩

theorem parseElement_brackets {e : ScalarType} (he : e.WellFormed) (rest : List Char)
    {count dimensions : Nat} (h : dimensions + count ≤ 255) :
    parseElement dimensions (List.replicate count '[' ++ (e.spelling ++ rest)) =
      .ok (⟨dimensions + count, e⟩, rest) := by
  induction count generalizing dimensions with
  | zero =>
      obtain ⟨c, tail, hspelling, hbracket, hparenthesis⟩ := he.exists_spelling_eq
      have hscalar := parseScalar_spelling he rest
      rw [hspelling, List.cons_append] at hscalar
      rw [List.replicate_zero, List.nil_append, hspelling, List.cons_append,
        parseElement_of_ne_bracket hbracket, if_neg (fun hnone => hparenthesis hnone.2), hscalar]
      rfl
  | succ count ih =>
      rw [List.replicate_succ, List.cons_append, parseElement, if_neg (by omega), ih (by omega),
        Nat.add_right_comm, Nat.add_assoc]

theorem wellFormed_of_parseElement {t : TypeDescriptor} (h : parseElement 0 cs = .ok (t, rest)) :
    t.WellFormed ∧ cs = t.spelling ++ rest :=
  wellFormed_of_parseElement_brackets (Nat.zero_le 255) h

theorem parseElement_spelling {t : TypeDescriptor} (ht : t.WellFormed) (rest : List Char) :
    parseElement 0 (t.spelling ++ rest) = .ok (t, rest) := by
  have hdimensions : 0 + t.dimensions ≤ 255 := (Nat.zero_add _).symm ▸ ht.dimensions
  rw [TypeDescriptor.spelling, List.append_assoc, parseElement_brackets ht.element rest hdimensions,
    Nat.zero_add]

theorem wellFormed_of_parseParameters {bound : Nat} {types : List TypeDescriptor}
    (h : parseParameters bound cs = .ok (types, rest)) :
    (∀ t ∈ types, t.WellFormed) ∧ cs = types.flatMap TypeDescriptor.spelling ++ ')' :: rest := by
  fun_induction parseParameters bound cs generalizing types rest with
  | case1 =>
      cases h
      simp
  | case2 => cases h
  | case3 _ _ _ ih =>
      obtain ⟨⟨first, after⟩, hfirst, h⟩ := bind_eq_ok_iff.1 h
      obtain ⟨⟨others, after'⟩, hothers, h⟩ := bind_eq_ok_iff.1 h
      cases h
      obtain ⟨ht, rfl⟩ := wellFormed_of_parseElement hfirst
      obtain ⟨hts, rfl⟩ := ih _ hothers
      exact ⟨List.forall_mem_cons.2 ⟨ht, hts⟩, by simp⟩

theorem parseParameters_spelling {types : List TypeDescriptor} (h : ∀ t ∈ types, t.WellFormed)
    (rest : List Char) {bound : Nat} (hbound : types.length ≤ bound) :
    parseParameters bound (types.flatMap TypeDescriptor.spelling ++ ')' :: rest) =
      .ok (types, rest) := by
  induction types generalizing bound with
  | nil => cases bound <;> rfl
  | cons t types ih =>
      obtain ⟨ht, htypes⟩ := List.forall_mem_cons.1 h
      rw [List.length_cons] at hbound
      obtain ⟨bound, rfl⟩ := Nat.exists_eq_add_of_le' (show 1 ≤ bound by omega)
      have helement := parseElement_spelling ht
        (types.flatMap TypeDescriptor.spelling ++ ')' :: rest)
      have htail := ih htypes (show types.length ≤ bound by omega)
      obtain ⟨c, tail, hspelling, hparenthesis⟩ := ht.exists_spelling_eq
      rw [List.flatMap_cons, List.append_assoc]
      rw [hspelling, List.cons_append] at helement ⊢
      rw [parseParameters]
      · exact bind_eq_ok_iff.2 ⟨_, helement, bind_eq_ok_iff.2 ⟨_, htail, rfl⟩⟩
      · rintro rest' ⟨⟩
        exact hparenthesis rfl

theorem wellFormed_of_parseReturn {t : TypeDescriptor} (h : parseReturn cs = .ok (t, rest)) :
    t.WellFormed ∧ cs = t.spelling ++ rest := by
  unfold parseReturn at h
  split at h
  · cases h
  · exact wellFormed_of_parseElement h

theorem parseReturn_spelling {t : TypeDescriptor} (ht : t.WellFormed) (rest : List Char) :
    parseReturn (t.spelling ++ rest) = .ok (t, rest) := by
  have helement := parseElement_spelling ht rest
  obtain ⟨c, tail, hspelling, hparenthesis⟩ := ht.exists_spelling_eq
  rw [hspelling, List.cons_append] at helement ⊢
  rw [parseReturn]
  · exact helement
  · rintro rest' ⟨⟩
    exact hparenthesis rfl

namespace Signature

theorem length_le_length_spelling {types : List TypeDescriptor} (h : ∀ t ∈ types, t.WellFormed) :
    types.length ≤ (types.flatMap TypeDescriptor.spelling).length := by
  induction types with
  | nil => exact Nat.le_refl 0
  | cons t types ih =>
      obtain ⟨ht, htypes⟩ := List.forall_mem_cons.1 h
      obtain ⟨c, tail, hspelling, -⟩ := ht.exists_spelling_eq
      have := ih htypes
      rw [List.flatMap_cons, hspelling, List.length_append, List.length_cons, List.length_cons]
      omega

/-- A descriptor is read if it starts with the spelling of a signature. -/
theorem parse_eq_ok_iff {descriptor : String} {s : Signature} :
    parse descriptor = .ok s ↔ s.WellFormed ∧ ∃ rest, descriptor.toList = s.spelling ++ rest := by
  constructor
  · intro h
    unfold parse at h
    split at h
    · next tail htail =>
        obtain ⟨⟨parameters, after⟩, hparameters, h⟩ := bind_eq_ok_iff.1 h
        obtain ⟨⟨result, rest⟩, hresult, h⟩ := bind_eq_ok_iff.1 h
        cases h
        obtain ⟨hps, rfl⟩ := wellFormed_of_parseParameters hparameters
        obtain ⟨hr, rfl⟩ := wellFormed_of_parseReturn hresult
        exact ⟨⟨hps, hr⟩, rest, by simp [htail, spelling]⟩
    · cases h
  · rintro ⟨hs, rest, hdescriptor⟩
    have hbound : s.parameters.length ≤ (s.parameters.flatMap TypeDescriptor.spelling ++
        ')' :: (s.result.spelling ++ rest)).length := by
      rw [List.length_append]
      exact Nat.le_add_right_of_le (length_le_length_spelling hs.parameters)
    have hparameters := parseParameters_spelling hs.parameters (s.result.spelling ++ rest) hbound
    have hresult := parseReturn_spelling hs.result rest
    rw [parse, hdescriptor, spelling, List.cons_append, List.append_assoc, List.cons_append]
    exact bind_eq_ok_iff.2 ⟨_, hparameters, bind_eq_ok_iff.2 ⟨_, hresult, rfl⟩⟩

theorem isKnown_of_parse {descriptor : String} {s : Signature}
    (h : Signature.parse descriptor = .ok s) :
    s.result.element.IsKnown ∧ ∀ t ∈ s.parameters, t.element.IsKnown := by
  obtain ⟨hs, -⟩ := parse_eq_ok_iff.1 h
  exact ⟨hs.result.element.isKnown, fun t ht => (hs.parameters t ht).element.isKnown⟩

end Signature

end JvmReach.Descriptor
