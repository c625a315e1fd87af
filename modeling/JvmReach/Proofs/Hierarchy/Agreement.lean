import JvmReach.Proofs.Hierarchy.Selection

/-!
# Selection and resolution agree

Both search the chain of a type and then the interfaces above it. They part in two places.
Resolution takes a static declaration on the chain, which selection passes over. And among
several maximally specific declarations with a body resolution takes one, while selection
takes none. Apart from this, what is selected is what is resolved to, and a method that can
run is selected if it is resolved to.
-/

namespace JvmReach

theorem ClassDef.declares_of_method? {c : ClassDef} {name descriptor : String} {method : Method}
    (hmethod : c.method? name descriptor = some method) : c.declares name descriptor = true := by
  rw [declares, hmethod, Option.isSome_some]

namespace Program

/-- A class on the chain of the owner that is met before the one called `name`, if there is
one of this name on the chain. -/
def MetBefore (p : Program) (m : MethodRef) (name : TypeName) (c : ClassDef) : Prop :=
  p.OnChain m.owner c ∧ ¬ ∃ d, p.OnChain m.owner d ∧ d.name = name ∧ p.OnChain d.name c

/-- A maximally specific declaration with a body. -/
def Default (p : Program) (m : MethodRef) (type : TypeName) : Prop :=
  p.MostSpecific m type ∧ ∃ method, p.method? ⟨type, m.name, m.descriptor⟩ = some method ∧
    method.access.isAbstract = false

/-- No class on the chain declares the method, and several defaults of it are inherited. -/
def Conflicting (p : Program) (m : MethodRef) : Prop :=
  p.NoneDeclares m ∧ ∃ type other, type ≠ other ∧ p.Default m type ∧ p.Default m other

variable {p : Program} {m : MethodRef}

theorem SoleDefault.default {type : TypeName} (htype : p.SoleDefault m type) :
    p.Default m type :=
  ⟨htype.mostSpecific, htype.hasBody⟩

theorem Default.soleDefault_or_exists {type : TypeName} (htype : p.Default m type) :
    p.SoleDefault m type ∨ ∃ other, other ≠ type ∧ p.Default m other := by
  by_cases hother : ∃ other, other ≠ type ∧ p.Default m other
  · exact Or.inr hother
  · left
    refine ⟨htype.1, htype.2, ?_⟩
    intro other hspecific hbody
    by_contra hne
    exact hother ⟨other, hne, hspecific, hbody⟩

theorem NoneDeclares.neverStops (hnone : p.NoneDeclares m) (stops : Method → Bool) :
    p.NeverStops stops m := by
  intro c method hc hmethod
  have hdeclares := hnone c hc
  rw [ClassDef.declares_of_method? hmethod] at hdeclares
  cases hdeclares

/-- If nothing static is met before it, a declaration that is selected is the nearest of all. -/
theorem StopsAt.nearestDeclaring {c : ClassDef} {method : Method}
    (hc : p.StopsAt Method.decides m c method)
    (hinstance : ∀ d, p.MetBefore m c.name d → ∀ other,
      d.method? m.name m.descriptor = some other → other.access.isStatic = false) :
    p.NearestDeclaring m c := by
  refine ⟨hc.onChain, ClassDef.declares_of_method? hc.found, ?_⟩
  intro d hd hdeclares
  obtain ⟨other, hother⟩ := Option.isSome_iff_exists.1 hdeclares
  by_contra habove
  -- what is not above `c` is met before it, so it is not static and decides as well
  have hbefore : p.MetBefore m c.name d := by
    refine ⟨hd, ?_⟩
    rintro ⟨e, -, hname, he⟩
    rw [hname] at he
    exact habove he
  have hstatic := hinstance d hbefore other hother
  exact habove (hc.nearest d other hd hother (by simp [Method.decides, hstatic]))

/-- A selected superinterface is not on the chain, so the whole chain is met before it. -/
theorem NeverStops.noneDeclares {type : TypeName} (hnone : p.NeverStops Method.decides m)
    (htype : p.SoleDefault m type)
    (hinstance : ∀ d, p.MetBefore m type d → ∀ other,
      d.method? m.name m.descriptor = some other → other.access.isStatic = false) :
    p.NoneDeclares m := by
  obtain ⟨method, hmethod, -⟩ := htype.hasBody
  have hstatic := (htype.mostSpecific.inherits.method? hmethod).1
  -- on the chain its declaration would decide
  have hoff : ¬ ∃ d, p.OnChain m.owner d ∧ d.name = type := by
    rintro ⟨d, hd, rfl⟩
    rw [Program.method?, p.class?_of_onChain hd, Option.bind_some] at hmethod
    have hdecides := hnone d method hd hmethod
    simp [Method.decides, hstatic] at hdecides
  intro c hc
  by_contra hdeclares
  rw [Bool.not_eq_false] at hdeclares
  obtain ⟨other, hother⟩ := Option.isSome_iff_exists.1 hdeclares
  have hbefore : p.MetBefore m type c := by
    refine ⟨hc, ?_⟩
    rintro ⟨d, hd, hname, -⟩
    exact hoff ⟨d, hd, hname⟩
  have hdecides := hnone c other hc hother
  simp [Method.decides, hinstance c hbefore other hother] at hdecides

end Program

namespace Hierarchy

variable (h : Hierarchy) (m : MethodRef)

/-- What the rules resolve a reference to, if it is a method, is what is computed. -/
theorem resolve_eq_of_resolvesTo {t : MethodRef}
    (ht : h.program.ResolvesTo m (.resolved t)) : h.resolve m = .resolved t := by
  rcases ht.unique h.acyclic (h.resolvesTo_resolve m) with heq | ⟨-, _, _, heq, -⟩
  · exact heq.symm
  · cases heq

theorem resolve_eq_of_select? {t : MethodRef}
    (hselect : h.select? m.owner m.name m.descriptor = some t)
    (hinstance : ∀ c, h.program.MetBefore m t.owner c → ∀ method,
      c.method? m.name m.descriptor = some method → method.access.isStatic = false) :
    h.resolve m = .resolved t := by
  apply h.resolve_eq_of_resolvesTo m
  cases (h.select?_eq_some_iff m t).1 hselect with
  | declared hc => exact .declared (hc.nearestDeclaring hinstance)
  | inherited hnone htype =>
      exact .inherited (hnone.noneDeclares htype hinstance) (Or.inl htype)

theorem select?_eq_none_of_conflicting (hconflict : h.program.Conflicting m) :
    h.select? m.owner m.name m.descriptor = none := by
  obtain ⟨hnone, type, other, hne, htype, hother⟩ := hconflict
  rw [Option.eq_none_iff_forall_ne_some]
  intro t hselect
  cases (h.select?_eq_some_iff m t).1 hselect with
  | declared hc => exact (hnone.neverStops _).not_stopsAt hc
  | inherited _ hsole =>
      apply hne
      rw [hsole.sole type htype.1 htype.2, hsole.sole other hother.1 hother.2]

theorem select?_eq_of_resolve {t : MethodRef} {method : Method}
    (hresolve : h.resolve m = .resolved t) (hmethod : h.program.method? t = some method)
    (hstatic : method.access.isStatic = false) (habstract : method.access.isAbstract = false)
    (hconflict : ¬ h.program.Conflicting m) :
    h.select? m.owner m.name m.descriptor = some t := by
  rw [select?_eq_some_iff]
  have hrules := h.resolvesTo_resolve m
  rw [hresolve] at hrules
  cases hrules with
  | @declared c hc =>
      rw [Program.method?, h.program.class?_of_onChain hc.onChain, Option.bind_some] at hmethod
      refine .declared ⟨hc.onChain, hmethod, by simp [Method.decides, hstatic], ?_⟩ hstatic habstract
      intro d other hd hother _
      exact hc.nearest d hd (ClassDef.declares_of_method? hother)
  | @inherited type hnone htype =>
      have hdefault : h.program.Default m type := ⟨htype.mostSpecific, method, hmethod, habstract⟩
      rcases hdefault.soleDefault_or_exists with hsole | ⟨other, hne, hother⟩
      · exact .inherited (hnone.neverStops _) hsole
      · exact absurd ⟨hnone, other, type, hne, hother, hdefault⟩ hconflict

/-- A selected method is resolved to, unless a static one is declared before it; a resolved
method that can run is selected, unless defaults are in conflict. -/
theorem select?_agrees_resolve (h : Hierarchy) (m : MethodRef) :
    (∀ t, h.select? m.owner m.name m.descriptor = some t →
      (∀ c, h.program.MetBefore m t.owner c → ∀ method,
        c.method? m.name m.descriptor = some method → method.access.isStatic = false) →
      h.resolve m = .resolved t) ∧
    ∀ t method, h.resolve m = .resolved t → h.program.method? t = some method →
      method.access.isStatic = false → method.access.isAbstract = false →
      (h.program.Conflicting m → h.select? m.owner m.name m.descriptor = none) ∧
      (¬ h.program.Conflicting m → h.select? m.owner m.name m.descriptor = some t) := by
  refine ⟨fun t => h.resolve_eq_of_select? m, ?_⟩
  intro t method hresolve hmethod hstatic habstract
  exact ⟨h.select?_eq_none_of_conflicting m,
    h.select?_eq_of_resolve m hresolve hmethod hstatic habstract⟩

def describe : Method := { name := "describe", descriptor := "()V", body? := some {} }

/-- An item inherits one default from above its superclass, and a pair inherits two. -/
def twoDefaults : Hierarchy where
  program :=
    { index := Program.indexOf [
        { name := "Named"
          access := { isInterface := true, isAbstract := true }
          methods := [describe] },
        { name := "Tagged"
          access := { isInterface := true, isAbstract := true }
          methods := [describe] },
        { name := "Base", interfaces := ["Named"] },
        { name := "Item", superclass? := some "Base" },
        { name := "Pair", superclass? := some "Base", interfaces := ["Tagged"] }]
      name_eq_of_getElem? := Program.name_eq_of_getElem?_indexOf _ }
  acyclic := by decide +kernel

theorem conflicting_pair : twoDefaults.program.Conflicting ⟨"Pair", "describe", "()V"⟩ := by
  have hnone : twoDefaults.program.NoneDeclares ⟨"Pair", "describe", "()V"⟩ :=
    twoDefaults.noneDeclares_of_find? ⟨"Pair", "describe", "()V"⟩ (by decide +kernel)
  have hdefault : ∀ type ∈ ["Named", "Tagged"],
      twoDefaults.program.Default ⟨"Pair", "describe", "()V"⟩ type := by
    intro type htype
    have hboth : ∀ type ∈ ["Named", "Tagged"],
        type ∈ twoDefaults.inherited (twoDefaults.superclassChain "Pair").classes "describe"
            "()V" ∧
          twoDefaults.program.method? ⟨type, "describe", "()V"⟩ = some describe := by
      decide +kernel
    obtain ⟨hinherited, hmethod⟩ := hboth type htype
    exact ⟨(twoDefaults.mem_inherited_iff ⟨"Pair", "describe", "()V"⟩ type).1 hinherited,
      describe, hmethod, rfl⟩
  exact ⟨hnone, "Named", "Tagged", by decide, hdefault "Named" (by simp),
    hdefault "Tagged" (by simp)⟩

theorem select?_agrees_resolve_twoDefaults :
    twoDefaults.select? "Item" "describe" "()V" = some ⟨"Named", "describe", "()V"⟩ ∧
      twoDefaults.resolve ⟨"Item", "describe", "()V"⟩ =
        .resolved ⟨"Named", "describe", "()V"⟩ ∧
      twoDefaults.resolve ⟨"Pair", "describe", "()V"⟩ =
        .resolved ⟨"Named", "describe", "()V"⟩ ∧
      twoDefaults.program.Conflicting ⟨"Pair", "describe", "()V"⟩ ∧
      twoDefaults.select? "Pair" "describe" "()V" = none := by
  have hselect : twoDefaults.select? "Item" "describe" "()V" =
      some ⟨"Named", "describe", "()V"⟩ := by decide +kernel
  have hinstance : ∀ c, twoDefaults.program.MetBefore ⟨"Item", "describe", "()V"⟩ "Named" c →
      ∀ method, c.method? "describe" "()V" = some method → method.access.isStatic = false := by
    intro c hc method hmethod
    have hnone := twoDefaults.noneDeclares_of_find? ⟨"Item", "describe", "()V"⟩
      (by decide +kernel) c hc.1
    rw [ClassDef.declares_of_method? hmethod] at hnone
    cases hnone
  have hpair : twoDefaults.resolve ⟨"Pair", "describe", "()V"⟩ =
      .resolved ⟨"Named", "describe", "()V"⟩ := by decide +kernel
  refine ⟨hselect, ?_, hpair, conflicting_pair, ?_⟩
  · exact (select?_agrees_resolve twoDefaults ⟨"Item", "describe", "()V"⟩).1 _ hselect hinstance
  · exact ((select?_agrees_resolve twoDefaults ⟨"Pair", "describe", "()V"⟩).2 _ describe hpair
      (by decide +kernel) rfl rfl).1 conflicting_pair

end Hierarchy

end JvmReach
