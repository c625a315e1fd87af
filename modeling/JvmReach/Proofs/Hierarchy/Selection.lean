import JvmReach.Hierarchy.Dispatch
import JvmReach.Proofs.Hierarchy.Resolution

/-!
# What selection finds

`Program.Selects` says which method runs on a receiver in terms of the declarations alone.
Selection stops at the nearest declaration on the superclass chain that `stops` picks out: it
is what runs, unless it is static or abstract and nothing runs. Where there is none, the only
maximally specific superinterface declaration with a body runs. `Method.decides` is the
condition under which `select?` stops.
-/

namespace JvmReach

/-- Selection passes over static declarations, unless they are abstract as well. -/
def Method.decides (method : Method) : Bool :=
  !method.access.isStatic || method.access.isAbstract

namespace Program

/-- A declaration on the chain of the owner that a search stops at; all others that it would
stop at are further up. -/
structure StopsAt (p : Program) (stops : Method → Bool) (m : MethodRef) (c : ClassDef)
    (method : Method) : Prop where
  onChain : p.OnChain m.owner c
  found : c.method? m.name m.descriptor = some method
  stopped : stops method = true
  nearest : ∀ d other, p.OnChain m.owner d → d.method? m.name m.descriptor = some other →
    stops other = true → p.OnChain c.name d

def NeverStops (p : Program) (stops : Method → Bool) (m : MethodRef) : Prop :=
  ∀ c method, p.OnChain m.owner c → c.method? m.name m.descriptor = some method →
    stops method = false

/-- The method that runs on a receiver whose type is the owner. -/
inductive Selects (p : Program) (stops : Method → Bool) (m : MethodRef) : MethodRef → Prop
  | declared {c : ClassDef} {method : Method} (hc : p.StopsAt stops m c method)
      (hstatic : method.access.isStatic = false) (habstract : method.access.isAbstract = false) :
      p.Selects stops m ⟨c.name, m.name, m.descriptor⟩
  | inherited {type : TypeName} (hnone : p.NeverStops stops m) (htype : p.SoleDefault m type) :
      p.Selects stops m ⟨type, m.name, m.descriptor⟩

variable {p : Program} {stops : Method → Bool} {m : MethodRef}

theorem StopsAt.class? {c : ClassDef} {method : Method} (hc : p.StopsAt stops m c method) :
    p.class? c.name = some c := p.class?_of_onChain hc.onChain

theorem StopsAt.method? {c : ClassDef} {method : Method} (hc : p.StopsAt stops m c method) :
    p.method? ⟨c.name, m.name, m.descriptor⟩ = some method := by
  rw [Program.method?, hc.class?, Option.bind_some, hc.found]

theorem StopsAt.unique (hacyclic : p.cycle? = none) {c d : ClassDef} {method other : Method}
    (hc : p.StopsAt stops m c method) (hd : p.StopsAt stops m d other) :
    c = d ∧ method = other := by
  have hcd := hc.nearest d other hd.onChain hd.found hd.stopped
  have hdc := hd.nearest c method hc.onChain hc.found hc.stopped
  obtain rfl := hcd.antisymm hacyclic hdc
  exact ⟨rfl, Option.some.inj (hc.found.symm.trans hd.found)⟩

theorem NeverStops.not_stopsAt (hnone : p.NeverStops stops m) {c : ClassDef} {method : Method}
    (hc : p.StopsAt stops m c method) : False := by
  have hstops := hc.stopped
  rw [hnone c method hc.onChain hc.found] at hstops
  cases hstops

theorem Inherits.method? {type : TypeName} (htype : p.Inherits m type) {method : Method}
    (hmethod : p.method? ⟨type, m.name, m.descriptor⟩ = some method) :
    method.access.isStatic = false ∧ method.access.isPrivate = false := by
  obtain ⟨-, other, hother, hstatic, hprivate⟩ := htype
  rw [hmethod] at hother
  cases hother
  exact ⟨hstatic, hprivate⟩

/-- What is selected is declared by the receiver's type or by one above it, with a body. -/
theorem Selects.declares {t : MethodRef} (ht : p.Selects stops m t) :
    p.Descends m.owner t.owner ∧ ∃ method, p.method? t = some method ∧
      method.access.isStatic = false ∧ method.access.isAbstract = false := by
  cases ht with
  | declared hc hstatic habstract =>
      exact ⟨hc.onChain.descends, _, hc.method?, hstatic, habstract⟩
  | inherited _ htype =>
      obtain ⟨method, hmethod, habstract⟩ := htype.hasBody
      have hinherits := htype.mostSpecific.inherits
      exact ⟨hinherits.1.descends, method, hmethod, (hinherits.method? hmethod).1, habstract⟩

end Program

namespace Hierarchy

theorem verdict_eq_none_iff (name descriptor : String) (c : ClassDef) :
    verdict name descriptor c = none ↔
      ∀ method, c.method? name descriptor = some method → method.decides = false := by
  rw [verdict]
  cases c.method? name descriptor with
  | none => simp
  | some method =>
      cases hstatic : method.access.isStatic <;> cases habstract : method.access.isAbstract <;>
        simp [Method.decides, hstatic, habstract]

theorem verdict_eq_some_iff (name descriptor : String) (c : ClassDef)
    (selected : Option MethodRef) :
    verdict name descriptor c = some selected ↔
      ∃ method, c.method? name descriptor = some method ∧ method.decides = true ∧
        selected = if method.access.isAbstract then none else some ⟨c.name, name, descriptor⟩ := by
  rw [verdict]
  cases c.method? name descriptor with
  | none => simp
  | some method =>
      simp only [Option.some.injEq, exists_eq_left']
      cases hstatic : method.access.isStatic <;> cases habstract : method.access.isAbstract <;>
        simp [Method.decides, hstatic, habstract, eq_comm (a := selected)]

variable (h : Hierarchy) (m : MethodRef)

theorem stopsAt_of_findSome? {selected : Option MethodRef}
    (hfind : (h.superclassChain m.owner).classes.findSome? (verdict m.name m.descriptor) =
      some selected) :
    ∃ c method, h.program.StopsAt Method.decides m c method ∧
      selected = if method.access.isAbstract then none else some ⟨c.name, m.name, m.descriptor⟩ := by
  obtain ⟨before, c, after, hclasses, hverdict, hbefore⟩ := List.findSome?_eq_some_iff.1 hfind
  obtain ⟨method, hmethod, hdecides, hselected⟩ :=
    (verdict_eq_some_iff m.name m.descriptor c selected).1 hverdict
  refine ⟨c, method, ⟨?_, hmethod, hdecides, ?_⟩, hselected⟩
  · exact (h.mem_superclassChain_iff m.owner c).1 (by simp [hclasses])
  · intro d other hd hother hstops
    apply h.onChain_of_superclassChain_eq hclasses hd
    intro hpassed
    have hpass := (verdict_eq_none_iff m.name m.descriptor d).1 (hbefore d hpassed) other hother
    rw [hstops] at hpass
    cases hpass

theorem neverStops_of_findSome?
    (hfind : (h.superclassChain m.owner).classes.findSome? (verdict m.name m.descriptor) = none) :
    h.program.NeverStops Method.decides m := by
  intro c method hc hmethod
  have hverdict := List.findSome?_eq_none_iff.1 hfind c ((h.mem_superclassChain_iff m.owner c).2 hc)
  exact (verdict_eq_none_iff m.name m.descriptor c).1 hverdict method hmethod

/-- Selection computes what the declarations select. -/
theorem select?_eq_some_iff (t : MethodRef) :
    h.select? m.owner m.name m.descriptor = some t ↔ h.program.Selects Method.decides m t := by
  simp only [select?]
  split
  · next selected hfind =>
      obtain ⟨c, method, hc, rfl⟩ := h.stopsAt_of_findSome? m hfind
      constructor
      · intro ht
        split at ht
        · cases ht
        · next habstract =>
            cases ht
            have hstatic : method.access.isStatic = false := by
              simpa [Method.decides, habstract] using hc.stopped
            exact .declared hc hstatic (by simpa using habstract)
      · intro ht
        cases ht with
        | declared hd _ habstract =>
            obtain ⟨rfl, rfl⟩ := hc.unique h.acyclic hd
            simp [habstract]
        | inherited hnone => exact (hnone.not_stopsAt hc).elim
  · next hfind =>
      have hnone := h.neverStops_of_findSome? m hfind
      constructor
      · intro ht
        obtain ⟨type, htype, rfl⟩ := Option.map_eq_some_iff.1 ht
        exact .inherited hnone ((h.soleDefault?_eq_some_iff m type).1 htype)
      · intro ht
        cases ht with
        | declared hc => exact (hnone.not_stopsAt hc).elim
        | inherited _ htype => simp [(h.soleDefault?_eq_some_iff m _).2 htype]

end Hierarchy

end JvmReach
