import JvmReach.Hierarchy.Resolution
import JvmReach.Proofs.Program.Subtypes
import Mathlib.Order.WellFoundedSet

/-!
# Maximally specific types

A candidate is dropped when another candidate descends from it. Descending is a partial
order in a hierarchy and candidates are finitely many, so below every candidate there is
one that is kept. What is kept is listed by increasing name.

`Represents` says what a choice among the candidates has to be, and only one choice is. So
neither the order of the candidates nor how often one is given has a part in the result.
-/

namespace JvmReach.Hierarchy

theorem mem_covered_iff (h : Hierarchy) (candidates : List TypeName) (type : TypeName) :
    type ∈ h.covered candidates ↔ ∃ c ∈ candidates, c ≠ type ∧ h.program.Descends c type := by
  simp only [covered, Std.ExtTreeSet.mem_ofList, List.contains_iff_mem, List.mem_flatMap,
    List.mem_filter, Std.ExtTreeSet.mem_toList, Program.mem_ancestors_iff, bne_iff_ne]
  constructor
  · rintro ⟨c, hc, hdescends, hne⟩
    exact ⟨c, hc, hne.symm, hdescends⟩
  · rintro ⟨c, hc, hne, hdescends⟩
    exact ⟨c, hc, hdescends, hne.symm⟩

theorem mem_maximallySpecific_iff (h : Hierarchy) (candidates : List TypeName)
    (type : TypeName) :
    type ∈ h.maximallySpecific candidates ↔
      type ∈ candidates ∧ ∀ c ∈ candidates, h.program.Descends c type → c = type := by
  simp only [maximallySpecific, List.mem_filter, Std.ExtTreeSet.mem_toList,
    Std.ExtTreeSet.mem_ofList, List.contains_iff_mem, Bool.not_eq_true', ← Bool.not_eq_true,
    Std.ExtTreeSet.contains_iff_mem, mem_covered_iff]
  refine and_congr_right fun _ => ?_
  constructor
  · intro hnone c hc hdescends
    by_contra hne
    exact hnone ⟨c, hc, hne, hdescends⟩
  · rintro hall ⟨c, hc, hne, hdescends⟩
    exact hne (hall c hc hdescends)

theorem pairwise_maximallySpecific (h : Hierarchy) (candidates : List TypeName) :
    (h.maximallySpecific candidates).Pairwise (· < ·) := by
  apply List.Pairwise.filter
  refine (Std.ExtTreeSet.ordered_toList (t := Std.ExtTreeSet.ofList candidates)).imp ?_
  intro a b hab
  exact compareOfLessAndEq_eq_lt.1 hab

theorem nodup_maximallySpecific (h : Hierarchy) (candidates : List TypeName) :
    (h.maximallySpecific candidates).Nodup := by
  refine (h.pairwise_maximallySpecific candidates).imp ?_
  rintro a _ hlt rfl
  exact String.lt_irrefl a hlt

/-- Proper descendants come first in a well-founded order of the candidates. -/
theorem wellFoundedOn_descends (h : Hierarchy) (candidates : List TypeName) :
    {type | type ∈ candidates}.WellFoundedOn fun a b => a ≠ b ∧ h.program.Descends a b := by
  have hstrict : IsStrictOrder TypeName fun a b => a ≠ b ∧ h.program.Descends a b :=
    { irrefl := fun a ha => ha.1 rfl
      trans := by
        rintro a b c ⟨hne, hab⟩ ⟨-, hbc⟩
        refine ⟨?_, hab.trans hbc⟩
        rintro rfl
        exact hne (hab.antisymm h.acyclic hbc) }
  exact (List.finite_toSet candidates).wellFoundedOn

/-- Below every candidate there is a maximally specific one. -/
theorem exists_mem_maximallySpecific (h : Hierarchy) {candidates : List TypeName}
    {type : TypeName} (htype : type ∈ candidates) :
    ∃ kept ∈ h.maximallySpecific candidates, h.program.Descends kept type := by
  refine (h.wellFoundedOn_descends candidates).induction
    (P := fun type => ∃ kept ∈ h.maximallySpecific candidates, h.program.Descends kept type)
    htype ?_
  intro type htype ih
  by_cases hkept : ∀ c ∈ candidates, h.program.Descends c type → c = type
  · exact ⟨type, (h.mem_maximallySpecific_iff candidates type).2 ⟨htype, hkept⟩, .refl _ _⟩
  · simp only [not_forall] at hkept
    obtain ⟨c, hc, hdescends, hne⟩ := hkept
    obtain ⟨kept, hmem, hbelow⟩ := ih c hc ⟨hne, hdescends⟩
    exact ⟨kept, hmem, hbelow.trans hdescends⟩

/-- Some of the candidates, by increasing name, none of them a subtype of another, with a
subtype of every candidate among them. -/
structure Represents (h : Hierarchy) (candidates kept : List TypeName) : Prop where
  increasing : kept.Pairwise (· < ·)
  nodup : kept.Nodup
  subset : ∀ type ∈ kept, type ∈ candidates
  unrelated : ∀ a ∈ kept, ∀ b ∈ kept, h.program.isSubtypeOf a b = true → a = b
  dominates : ∀ c ∈ candidates, ∃ type ∈ kept, h.program.isSubtypeOf type c = true

theorem represents_maximallySpecific (h : Hierarchy) (candidates : List TypeName) :
    h.Represents candidates (h.maximallySpecific candidates) where
  increasing := h.pairwise_maximallySpecific candidates
  nodup := h.nodup_maximallySpecific candidates
  subset type htype := ((h.mem_maximallySpecific_iff candidates type).1 htype).1
  unrelated a ha b hb hab :=
    ((h.mem_maximallySpecific_iff candidates b).1 hb).2 a
      ((h.mem_maximallySpecific_iff candidates a).1 ha).1 ((h.program.isSubtypeOf_iff a b).1 hab)
  dominates c hc := by
    obtain ⟨kept, hkept, hbelow⟩ := h.exists_mem_maximallySpecific hc
    exact ⟨kept, hkept, (h.program.isSubtypeOf_iff kept c).2 hbelow⟩

namespace Represents

variable {h : Hierarchy} {candidates others kept kept' : List TypeName}

theorem congr (hkept : h.Represents candidates kept)
    (hsame : ∀ type, type ∈ others ↔ type ∈ candidates) : h.Represents others kept where
  increasing := hkept.increasing
  nodup := hkept.nodup
  subset type htype := (hsame type).2 (hkept.subset type htype)
  unrelated := hkept.unrelated
  dominates c hc := hkept.dominates c ((hsame c).1 hc)

/-- Below a representative lies one of the other choice, and below that one of the first again,
which must be the same. -/
theorem subset_of_represents (hkept : h.Represents candidates kept)
    (hkept' : h.Represents candidates kept') : kept ⊆ kept' := by
  intro type htype
  obtain ⟨below, hbelow, hsub⟩ := hkept'.dominates type (hkept.subset type htype)
  obtain ⟨least, hleast, hsub'⟩ := hkept.dominates below (hkept'.subset below hbelow)
  rw [Program.isSubtypeOf_iff] at hsub hsub'
  have heq : least = type := hkept.unrelated least hleast type htype
    ((h.program.isSubtypeOf_iff least type).2 (hsub'.trans hsub))
  rw [heq] at hsub'
  rwa [hsub'.antisymm h.acyclic hsub]

theorem unique (hkept : h.Represents candidates kept) (hkept' : h.Represents candidates kept') :
    kept = kept' := by
  have hperm : kept.Perm kept' := by
    rw [List.perm_ext_iff_of_nodup hkept.nodup hkept'.nodup]
    intro type
    exact ⟨fun htype => hkept.subset_of_represents hkept' htype,
      fun htype => hkept'.subset_of_represents hkept htype⟩
  exact hperm.eq_of_pairwise (fun a b _ _ hab hba => absurd hba (String.lt_asymm hab))
    hkept.increasing hkept'.increasing

theorem eq_nil_iff (hkept : h.Represents candidates kept) : kept = [] ↔ candidates = [] := by
  constructor
  · rintro rfl
    rw [List.eq_nil_iff_forall_not_mem]
    intro c hc
    obtain ⟨type, htype, -⟩ := hkept.dominates c hc
    cases htype
  · rintro rfl
    rw [List.eq_nil_iff_forall_not_mem]
    intro type htype
    cases hkept.subset type htype

end Represents

/-- The maximally specific candidates are the one choice that represents all candidates. So
there are some if there are candidates, and the candidates only matter as a set. -/
theorem maximallySpecific_exact (h : Hierarchy) (candidates : List TypeName) :
    (∀ kept, h.Represents candidates kept ↔ kept = h.maximallySpecific candidates) ∧
    (h.maximallySpecific candidates = [] ↔ candidates = []) ∧
    ∀ others, (∀ type, type ∈ others ↔ type ∈ candidates) →
      h.maximallySpecific others = h.maximallySpecific candidates := by
  have hrepresents := h.represents_maximallySpecific candidates
  refine ⟨fun kept => ⟨fun hkept => hkept.unique hrepresents, ?_⟩, hrepresents.eq_nil_iff, ?_⟩
  · rintro rfl
    exact hrepresents
  · intro others hsame
    exact (h.represents_maximallySpecific others).unique (hrepresents.congr hsame)

/-- Two interfaces below a third, and one that is only mentioned. -/
def forked : Hierarchy where
  program := {
    index := Program.indexOf [
      { name := "Top", interfaces := ["Missing"], access := { isInterface := true } },
      { name := "Left", interfaces := ["Top"], access := { isInterface := true } },
      { name := "Right", interfaces := ["Top"], access := { isInterface := true } }]
    name_eq_of_getElem? := Program.name_eq_of_getElem?_indexOf _ }
  acyclic := by decide +kernel

theorem maximallySpecific_exact_forked :
    (∀ type, type ∈ ["Right", "Missing", "Left", "Top", "Right"] ↔
      type ∈ ["Top", "Missing", "Right", "Left"]) ∧
    forked.maximallySpecific ["Right", "Missing", "Left", "Top", "Right"] =
      forked.maximallySpecific ["Top", "Missing", "Right", "Left"] ∧
    forked.maximallySpecific ["Top", "Missing", "Right", "Left"] = ["Left", "Right"] := by
  have hsame : ∀ type, type ∈ ["Right", "Missing", "Left", "Top", "Right"] ↔
      type ∈ ["Top", "Missing", "Right", "Left"] := by
    intro type
    simp only [List.mem_cons, List.not_mem_nil]
    tauto
  refine ⟨hsame, ?_, by decide +kernel⟩
  exact (forked.maximallySpecific_exact ["Top", "Missing", "Right", "Left"]).2.2 _ hsame

end JvmReach.Hierarchy
