import JvmReach.Proofs.Hierarchy.Chain
import JvmReach.Proofs.Hierarchy.Specificity

/-!
# What resolution finds

`Program.ResolvesTo` says what a reference resolves to in terms of the declarations alone:
superclasses and superinterfaces are relations, and the maximally specific declarations are
a condition on types. The four rules exclude each other. Resolution computes a result that
one of them allows, and every result that they allow is the computed one, up to the choice
of the missing interface that is blamed.
-/

namespace JvmReach

namespace Program

/-- Going up from the first type along superclasses leads out of the program at the second. -/
inductive LeavesAt (p : Program) : TypeName → TypeName → Prop
  | here {name : TypeName} (hnone : p.class? name = none) : p.LeavesAt name name
  | above {name up missing : TypeName} {c : ClassDef} (hc : p.class? name = some c)
      (hup : c.superclass? = some up) (hleaves : p.LeavesAt up missing) : p.LeavesAt name missing

/-- A class on the chain of the owner that declares the method; all others that do are
further up. -/
structure NearestDeclaring (p : Program) (m : MethodRef) (c : ClassDef) : Prop where
  onChain : p.OnChain m.owner c
  declares : c.declares m.name m.descriptor = true
  nearest : ∀ d, p.OnChain m.owner d → d.declares m.name m.descriptor = true →
    p.OnChain c.name d

def NoneDeclares (p : Program) (m : MethodRef) : Prop :=
  ∀ c, p.OnChain m.owner c → c.declares m.name m.descriptor = false

/-- A superinterface of a class on the chain of the owner, missing ones included. -/
def AboveChain (p : Program) (m : MethodRef) (type : TypeName) : Prop :=
  ∃ c, p.OnChain m.owner c ∧ p.Superinterface c type

/-- A superinterface of the chain that declares the method neither static nor private. -/
def Inherits (p : Program) (m : MethodRef) (type : TypeName) : Prop :=
  p.AboveChain m type ∧ ∃ method, p.method? ⟨type, m.name, m.descriptor⟩ = some method ∧
    method.access.isStatic = false ∧ method.access.isPrivate = false

/-- Of the types the method is inherited from, one that no other descends from. -/
structure MostSpecific (p : Program) (m : MethodRef) (type : TypeName) : Prop where
  inherits : p.Inherits m type
  minimal : ∀ other, p.Inherits m other → p.Descends other type → other = type

/-- The only maximally specific declaration with a body. -/
structure SoleDefault (p : Program) (m : MethodRef) (type : TypeName) : Prop where
  mostSpecific : p.MostSpecific m type
  hasBody : ∃ method, p.method? ⟨type, m.name, m.descriptor⟩ = some method ∧
    method.access.isAbstract = false
  sole : ∀ other, p.MostSpecific m other →
    (∃ method, p.method? ⟨other, m.name, m.descriptor⟩ = some method ∧
      method.access.isAbstract = false) → other = type

/-- The maximally specific declaration that is taken: the only one with a body, or else the
first one by name. -/
def Preferred (p : Program) (m : MethodRef) (type : TypeName) : Prop :=
  p.SoleDefault m type ∨ (¬ ∃ other, p.SoleDefault m other) ∧ p.MostSpecific m type ∧
    ∀ other, p.MostSpecific m other → type ≤ other

/-- A missing type that the search meets: the end of the chain, or a superinterface if the
chain does not leave the program. -/
def Blamed (p : Program) (m : MethodRef) (missing : TypeName) : Prop :=
  p.LeavesAt m.owner missing ∨
    (¬ ∃ other, p.LeavesAt m.owner other) ∧ p.AboveChain m missing

/-- What a reference resolves to. -/
inductive ResolvesTo (p : Program) (m : MethodRef) : Resolution → Prop
  | declared {c : ClassDef} (hc : p.NearestDeclaring m c) :
      p.ResolvesTo m (.resolved ⟨c.name, m.name, m.descriptor⟩)
  | inherited {type : TypeName} (hnone : p.NoneDeclares m) (htype : p.Preferred m type) :
      p.ResolvesTo m (.resolved ⟨type, m.name, m.descriptor⟩)
  | phantom {missing : TypeName} (hnone : p.NoneDeclares m) (hinherits : ∀ type, ¬ p.Inherits m type)
      (hblamed : p.Blamed m missing) (hmissing : p.class? missing = none)
      (hdescends : p.Descends m.owner missing) : p.ResolvesTo m (.phantom missing)
  | notFound (hnone : p.NoneDeclares m) (hinherits : ∀ type, ¬ p.Inherits m type)
      (hchain : ∀ missing, ¬ p.LeavesAt m.owner missing)
      (habove : ∀ type, p.AboveChain m type → ∃ c, p.class? type = some c) :
      p.ResolvesTo m .notFound

variable {p : Program}

theorem OnChain.descends {name : TypeName} {c : ClassDef} (hc : p.OnChain name c) :
    p.Descends name c.name := by
  induction hc with
  | @here name c hc =>
      rw [p.name_eq_of_class? hc]
      exact .refl p name
  | above hc hup _ ih => exact (Descends.of_mem (p.supertype_of_superclass hc hup)).trans ih

/-- Two classes are the same if each is met on the way up from the other. -/
theorem OnChain.antisymm (hacyclic : p.cycle? = none) {c d : ClassDef}
    (hcd : p.OnChain c.name d) (hdc : p.OnChain d.name c) : c = d := by
  have hname : c.name = d.name := hcd.descends.antisymm hacyclic hdc.descends
  have hclass := p.class?_of_onChain hdc
  rw [hname, p.class?_of_onChain hcd] at hclass
  exact (Option.some.inj hclass).symm

theorem LeavesAt.class?_eq_none {name missing : TypeName} (h : p.LeavesAt name missing) :
    p.class? missing = none := by
  induction h with
  | here hnone => exact hnone
  | above _ _ _ ih => exact ih

theorem LeavesAt.descends {name missing : TypeName} (h : p.LeavesAt name missing) :
    p.Descends name missing := by
  induction h with
  | here hnone => exact .refl p _
  | above hc hup _ ih => exact (Descends.of_mem (p.supertype_of_superclass hc hup)).trans ih

theorem LeavesAt.unique {name missing other : TypeName} (h : p.LeavesAt name missing)
    (h' : p.LeavesAt name other) : missing = other := by
  induction h with
  | here hnone =>
      cases h' with
      | here => rfl
      | above hc => cases hnone.symm.trans hc
  | above hc hup _ ih =>
      cases h' with
      | here hnone => cases hnone.symm.trans hc
      | above hc' hup' hleaves =>
          cases hc.symm.trans hc'
          cases hup.symm.trans hup'
          exact ih hleaves

theorem AboveChain.descends {m : MethodRef} {type : TypeName} (h : p.AboveChain m type) :
    p.Descends m.owner type := by
  obtain ⟨c, hc, htype⟩ := h
  exact hc.descends.trans (htype.descends (p.class?_of_onChain hc))

theorem Blamed.descends {m : MethodRef} {missing : TypeName} (h : p.Blamed m missing) :
    p.Descends m.owner missing := by
  rcases h with hleaves | ⟨-, habove⟩
  · exact hleaves.descends
  · exact habove.descends

end Program

namespace Hierarchy

theorem missing?_superclassChain_iff (h : Hierarchy) (name missing : TypeName) :
    (h.superclassChain name).missing? = some missing ↔ h.program.LeavesAt name missing := by
  constructor
  · intro hmissing
    induction h.program.acc_supertype h.acyclic name with
    | intro name _ ih =>
        cases hc : h.program.class? name with
        | none =>
            rw [h.superclassChain_of_missing hc] at hmissing
            cases hmissing
            exact .here hc
        | some c =>
            cases hup : c.superclass? with
            | none => simp [h.superclassChain_of_top hc hup] at hmissing
            | some up =>
                rw [h.superclassChain_of_superclass hc hup] at hmissing
                exact .above hc hup (ih up (h.program.supertype_of_superclass hc hup) hmissing)
  · intro hleaves
    induction hleaves with
    | here hnone => rw [h.superclassChain_of_missing hnone]
    | above hc hup _ ih => rwa [h.superclassChain_of_superclass hc hup]

variable (h : Hierarchy) (m : MethodRef)

theorem mem_superinterfaces_iff (type : TypeName) :
    type ∈ h.superinterfaces (h.superclassChain m.owner).classes ↔
      h.program.AboveChain m type := by
  simp only [superinterfaces, List.mem_flatMap, mem_superclassChain_iff,
    Std.ExtTreeSet.mem_toList, Program.mem_interfaceClosure_iff, Program.AboveChain]

theorem offers_iff (name descriptor : String) (type : TypeName) :
    h.offers name descriptor type = true ↔
      ∃ method, h.program.method? ⟨type, name, descriptor⟩ = some method ∧
        method.access.isStatic = false ∧ method.access.isPrivate = false := by
  rw [offers]
  cases h.program.method? ⟨type, name, descriptor⟩ <;> simp

theorem hasBody_iff (name descriptor : String) (type : TypeName) :
    h.hasBody name descriptor type = true ↔
      ∃ method, h.program.method? ⟨type, name, descriptor⟩ = some method ∧
        method.access.isAbstract = false := by
  rw [hasBody]
  cases h.program.method? ⟨type, name, descriptor⟩ <;> simp

theorem mem_filter_superinterfaces_iff (type : TypeName) :
    type ∈ (h.superinterfaces (h.superclassChain m.owner).classes).filter
        (h.offers m.name m.descriptor) ↔ h.program.Inherits m type := by
  rw [List.mem_filter, mem_superinterfaces_iff, offers_iff, Program.Inherits]

/-- The maximally specific declarations above the chain of the owner. -/
theorem mem_inherited_iff (type : TypeName) :
    type ∈ h.inherited (h.superclassChain m.owner).classes m.name m.descriptor ↔
      h.program.MostSpecific m type := by
  simp only [inherited, mem_maximallySpecific_iff, mem_filter_superinterfaces_iff]
  exact ⟨fun ⟨hinherits, hminimal⟩ => ⟨hinherits, hminimal⟩,
    fun htype => ⟨htype.inherits, htype.minimal⟩⟩

theorem inherited_eq_nil_iff :
    h.inherited (h.superclassChain m.owner).classes m.name m.descriptor = [] ↔
      ∀ type, ¬ h.program.Inherits m type := by
  constructor
  · intro hnil type htype
    obtain ⟨kept, hkept, -⟩ :=
      h.exists_mem_maximallySpecific ((h.mem_filter_superinterfaces_iff m type).2 htype)
    rw [inherited] at hnil
    rw [hnil] at hkept
    cases hkept
  · intro hnone
    apply List.eq_nil_iff_forall_not_mem.2
    intro type htype
    exact hnone type ((h.mem_inherited_iff m type).1 htype).inherits

theorem soleDefault?_eq_some_iff (type : TypeName) :
    h.soleDefault? (h.superclassChain m.owner).classes m.name m.descriptor = some type ↔
      h.program.SoleDefault m type := by
  have hmem : ∀ other, other ∈ (h.inherited (h.superclassChain m.owner).classes m.name
        m.descriptor).filter (h.hasBody m.name m.descriptor) ↔
      h.program.MostSpecific m other ∧
        ∃ method, h.program.method? ⟨other, m.name, m.descriptor⟩ = some method ∧
          method.access.isAbstract = false := by
    intro other
    rw [List.mem_filter, mem_inherited_iff, hasBody_iff]
  constructor
  · intro hsole
    rw [soleDefault?] at hsole
    split at hsole
    · next found hfound =>
        cases hsole
        rw [hfound] at hmem
        obtain ⟨hspecific, hbody⟩ := (hmem type).1 (List.mem_singleton_self type)
        refine ⟨hspecific, hbody, ?_⟩
        intro other hother hbody'
        exact List.mem_singleton.1 ((hmem other).2 ⟨hother, hbody'⟩)
    · cases hsole
  · intro hsole
    have hnodup : ((h.inherited (h.superclassChain m.owner).classes m.name
        m.descriptor).filter (h.hasBody m.name m.descriptor)).Nodup :=
      (h.nodup_maximallySpecific _).filter _
    have hsingle : (h.inherited (h.superclassChain m.owner).classes m.name
        m.descriptor).filter (h.hasBody m.name m.descriptor) = [type] := by
      apply List.perm_singleton.1
      refine (List.perm_ext_iff_of_nodup hnodup (List.nodup_singleton type)).2 ?_
      intro other
      rw [hmem, List.mem_singleton]
      constructor
      · rintro ⟨hother, hbody⟩
        exact hsole.sole other hother hbody
      · rintro rfl
        exact ⟨hsole.mostSpecific, hsole.hasBody⟩
    simp only [soleDefault?, hsingle]

theorem nearestDeclaring_of_find? {c : ClassDef}
    (hfind : (h.superclassChain m.owner).classes.find? (·.declares m.name m.descriptor) = some c) :
    h.program.NearestDeclaring m c := by
  obtain ⟨hdeclares, before, after, hclasses, hbefore⟩ := List.find?_eq_some_iff_append.1 hfind
  refine ⟨?_, hdeclares, ?_⟩
  · exact (h.mem_superclassChain_iff m.owner c).1 (List.mem_of_find?_eq_some hfind)
  · intro d hd hdeclared
    apply h.onChain_of_superclassChain_eq hclasses hd
    intro hpassed
    simpa [hdeclared] using hbefore d hpassed

theorem noneDeclares_of_find?
    (hfind : (h.superclassChain m.owner).classes.find? (·.declares m.name m.descriptor) = none) :
    h.program.NoneDeclares m := by
  intro c hc
  simpa using List.find?_eq_none.1 hfind c ((h.mem_superclassChain_iff m.owner c).2 hc)

/-- The declaration that is taken among the maximally specific ones. -/
theorem preferred_of_eq_some {type : TypeName}
    (htype : (h.soleDefault? (h.superclassChain m.owner).classes m.name m.descriptor <|>
      (h.inherited (h.superclassChain m.owner).classes m.name m.descriptor).head?) = some type) :
    h.program.Preferred m type := by
  rw [Option.orElse_eq_orElse, Option.orElse_eq_or] at htype
  rcases Option.or_eq_some_iff.1 htype with hsole | ⟨hnone, hhead⟩
  · exact Or.inl ((h.soleDefault?_eq_some_iff m type).1 hsole)
  · right
    refine ⟨?_, (h.mem_inherited_iff m type).1 (List.mem_of_mem_head? hhead), ?_⟩
    · rintro ⟨other, hother⟩
      rw [(h.soleDefault?_eq_some_iff m other).2 hother] at hnone
      cases hnone
    · intro other hother
      obtain ⟨rest, hrest⟩ := List.head?_eq_some_iff.1 hhead
      have hmem := (h.mem_inherited_iff m other).2 hother
      have hsorted : (type :: rest).Pairwise (· < ·) := hrest ▸ h.pairwise_maximallySpecific _
      rw [hrest, List.mem_cons] at hmem
      rcases hmem with rfl | hmem
      · exact String.le_refl _
      · exact Std.le_of_lt ((List.pairwise_cons.1 hsorted).1 other hmem)

theorem blamed_of_eq_some {missing : TypeName}
    (hmissing : ((h.superclassChain m.owner).missing? <|>
      (h.superinterfaces (h.superclassChain m.owner).classes).find?
        (!h.program.contains ·)) = some missing) :
    h.program.Blamed m missing ∧ h.program.class? missing = none := by
  rw [Option.orElse_eq_orElse, Option.orElse_eq_or] at hmissing
  rcases Option.or_eq_some_iff.1 hmissing with hend | ⟨hnone, hfind⟩
  · have hleaves := (h.missing?_superclassChain_iff m.owner missing).1 hend
    exact ⟨Or.inl hleaves, hleaves.class?_eq_none⟩
  · refine ⟨Or.inr ⟨?_, ?_⟩, ?_⟩
    · rintro ⟨other, hother⟩
      rw [(h.missing?_superclassChain_iff m.owner other).2 hother] at hnone
      cases hnone
    · exact (h.mem_superinterfaces_iff m missing).1 (List.mem_of_find?_eq_some hfind)
    · simpa [Program.contains] using List.find?_some hfind

theorem resolvesTo_notFound (hnone : h.program.NoneDeclares m)
    (hinherits : ∀ type, ¬ h.program.Inherits m type)
    (hmissing : ((h.superclassChain m.owner).missing? <|>
      (h.superinterfaces (h.superclassChain m.owner).classes).find?
        (!h.program.contains ·)) = none) : h.program.ResolvesTo m .notFound := by
  rw [Option.orElse_eq_orElse, Option.orElse_eq_or, Option.or_eq_none_iff] at hmissing
  refine .notFound hnone hinherits ?_ ?_
  · intro missing hleaves
    rw [(h.missing?_superclassChain_iff m.owner missing).2 hleaves] at hmissing
    cases hmissing.1
  · intro type habove
    have hcontains := List.find?_eq_none.1 hmissing.2 type
      ((h.mem_superinterfaces_iff m type).2 habove)
    simpa [Program.contains, Option.ne_none_iff_exists'] using hcontains

theorem resolvesTo_resolve : h.program.ResolvesTo m (h.resolve m) := by
  simp only [resolve]
  split
  · next c hfind => exact .declared (h.nearestDeclaring_of_find? m hfind)
  · next hfind =>
      have hnone := h.noneDeclares_of_find? m hfind
      split
      · next type htype => exact .inherited hnone (h.preferred_of_eq_some m htype)
      · next hempty =>
          rw [Option.orElse_eq_orElse, Option.orElse_eq_or, Option.or_eq_none_iff,
            List.head?_eq_none_iff] at hempty
          have hinherits := (h.inherited_eq_nil_iff m).1 hempty.2
          split
          · next missing hmissing =>
              obtain ⟨hblamed, habsent⟩ := h.blamed_of_eq_some m hmissing
              exact .phantom hnone hinherits hblamed habsent hblamed.descends
          · next hmissing => exact h.resolvesTo_notFound m hnone hinherits hmissing

end Hierarchy

namespace Program

variable {p : Program} {m : MethodRef}

theorem NearestDeclaring.unique (hacyclic : p.cycle? = none) {c d : ClassDef}
    (hc : p.NearestDeclaring m c) (hd : p.NearestDeclaring m d) : c = d :=
  (hc.nearest d hd.onChain hd.declares).antisymm hacyclic (hd.nearest c hc.onChain hc.declares)

theorem NoneDeclares.not_nearestDeclaring (hnone : p.NoneDeclares m) {c : ClassDef}
    (hc : p.NearestDeclaring m c) : False := by
  have hdeclares := hc.declares
  rw [hnone c hc.onChain] at hdeclares
  cases hdeclares

theorem Preferred.mostSpecific {type : TypeName} (htype : p.Preferred m type) :
    p.MostSpecific m type := by
  rcases htype with hsole | ⟨-, hspecific, -⟩
  · exact hsole.mostSpecific
  · exact hspecific

theorem Preferred.unique {type other : TypeName} (htype : p.Preferred m type)
    (hother : p.Preferred m other) : type = other := by
  rcases htype with hsole | ⟨hnone, hspecific, hleast⟩
  · rcases hother with hsole' | ⟨hnone', -, -⟩
    · exact hsole'.sole type hsole.mostSpecific hsole.hasBody
    · exact absurd ⟨type, hsole⟩ hnone'
  · rcases hother with hsole' | ⟨-, hspecific', hleast'⟩
    · exact absurd ⟨other, hsole'⟩ hnone
    · exact String.le_antisymm (hleast other hspecific') (hleast' type hspecific)

theorem Blamed.not_complete {missing : TypeName} (hblamed : p.Blamed m missing)
    (hmissing : p.class? missing = none) (hchain : ∀ other, ¬ p.LeavesAt m.owner other)
    (habove : ∀ type, p.AboveChain m type → ∃ c, p.class? type = some c) : False := by
  rcases hblamed with hleaves | ⟨-, hmet⟩
  · exact hchain missing hleaves
  · obtain ⟨c, hc⟩ := habove missing hmet
    rw [hmissing] at hc
    cases hc

theorem Blamed.eq_or {missing missing' : TypeName} (hblamed : p.Blamed m missing)
    (hblamed' : p.Blamed m missing') :
    missing = missing' ∨ ¬ ∃ other, p.LeavesAt m.owner other := by
  rcases hblamed with hleaves | ⟨hchain, -⟩
  · rcases hblamed' with hleaves' | ⟨hchain, -⟩
    · exact Or.inl (hleaves.unique hleaves')
    · exact Or.inr hchain
  · exact Or.inr hchain

/-- The rules allow one result, up to the missing interface that is blamed. -/
theorem ResolvesTo.unique (hacyclic : p.cycle? = none) {r r' : Resolution}
    (hr : p.ResolvesTo m r) (hr' : p.ResolvesTo m r') :
    r = r' ∨ (¬ ∃ other, p.LeavesAt m.owner other) ∧
      ∃ missing missing', r = .phantom missing ∧ r' = .phantom missing' := by
  cases hr with
  | declared hc =>
      cases hr' with
      | declared hd => exact Or.inl (by rw [hc.unique hacyclic hd])
      | inherited hnone => exact (hnone.not_nearestDeclaring hc).elim
      | phantom hnone => exact (hnone.not_nearestDeclaring hc).elim
      | notFound hnone => exact (hnone.not_nearestDeclaring hc).elim
  | inherited hnone htype =>
      cases hr' with
      | declared hd => exact (hnone.not_nearestDeclaring hd).elim
      | inherited _ hother => exact Or.inl (by rw [htype.unique hother])
      | phantom _ hinherits => exact absurd htype.mostSpecific.inherits (hinherits _)
      | notFound _ hinherits => exact absurd htype.mostSpecific.inherits (hinherits _)
  | phantom hnone hinherits hblamed hmissing =>
      cases hr' with
      | declared hd => exact (hnone.not_nearestDeclaring hd).elim
      | inherited _ hother => exact absurd hother.mostSpecific.inherits (hinherits _)
      | phantom _ _ hblamed' =>
          rcases hblamed.eq_or hblamed' with heq | hchain
          · exact Or.inl (by rw [heq])
          · exact Or.inr ⟨hchain, _, _, rfl, rfl⟩
      | notFound _ _ hchain habove => exact (hblamed.not_complete hmissing hchain habove).elim
  | notFound hnone hinherits hchain habove =>
      cases hr' with
      | declared hd => exact (hnone.not_nearestDeclaring hd).elim
      | inherited _ hother => exact absurd hother.mostSpecific.inherits (hinherits _)
      | phantom _ _ hblamed hmissing => exact (hblamed.not_complete hmissing hchain habove).elim
      | notFound => exact Or.inl rfl

end Program

/-- Resolution follows the rules for declarations, and they leave it no other result: only
which missing interface is blamed is its own choice. -/
theorem Hierarchy.resolve_spec (h : Hierarchy) (m : MethodRef) :
    h.program.ResolvesTo m (h.resolve m) ∧
      ∀ r, h.program.ResolvesTo m r → r = h.resolve m ∨
        (¬ ∃ other, h.program.LeavesAt m.owner other) ∧
          ∃ missing missing', r = .phantom missing ∧ h.resolve m = .phantom missing' :=
  ⟨h.resolvesTo_resolve m, fun _ hr => hr.unique h.acyclic (h.resolvesTo_resolve m)⟩

end JvmReach
