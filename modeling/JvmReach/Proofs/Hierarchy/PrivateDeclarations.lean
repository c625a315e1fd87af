import JvmReach.Proofs.Hierarchy.Dispatch

/-!
# Private declarations on the chain of a receiver

A private method overrides nothing, so a machine passes over it on the superclass chain of a
receiver, as `Method.overrides` says. Selection does not: it stops at a private declaration
like at any other. Among the interfaces above the chain private declarations are left out, so
the private targets of a dispatch are just those at which selection stops. Where it stops at
none, it selects what a machine selects.
-/

namespace JvmReach

/-- The declarations that take the place of an inherited one. -/
def Method.overrides (method : Method) : Bool :=
  method.decides && !method.access.isPrivate

theorem Method.decides_of_overrides {method : Method} (h : method.overrides = true) :
    method.decides = true := by
  rw [overrides, Bool.and_eq_true] at h
  exact h.1

namespace Program

def IsPrivate (p : Program) (m : MethodRef) : Prop :=
  ∃ method, p.method? m = some method ∧ method.access.isPrivate = true

/-- Selection stops at a private declaration. -/
def StopsAtPrivate (p : Program) (m : MethodRef) : Prop :=
  ∃ c method, p.StopsAt Method.decides m c method ∧ method.access.isPrivate = true

variable {p : Program} {m : MethodRef}

theorem NeverStops.overrides (hnone : p.NeverStops Method.decides m) :
    p.NeverStops Method.overrides m := by
  intro c method hc hmethod
  rw [Method.overrides, hnone c method hc hmethod, Bool.false_and]

theorem StopsAt.overrides {c : ClassDef} {method : Method}
    (hc : p.StopsAt Method.decides m c method) (hprivate : ¬ p.StopsAtPrivate m) :
    p.StopsAt Method.overrides m c method where
  onChain := hc.onChain
  found := hc.found
  stopped := by
    have hpublic : method.access.isPrivate = false := by
      by_contra hmethod
      exact hprivate ⟨c, method, hc, by simpa using hmethod⟩
    rw [Method.overrides, hc.stopped, hpublic, Bool.not_false, Bool.and_self]
  nearest d other hd hother hstops :=
    hc.nearest d other hd hother (Method.decides_of_overrides hstops)

/-- What a machine selects is not private. -/
theorem Selects.not_isPrivate {t : MethodRef} (ht : p.Selects Method.overrides m t) :
    ¬ p.IsPrivate t := by
  rintro ⟨method, hmethod, hprivate⟩
  cases ht with
  | declared hc =>
      cases hc.method?.symm.trans hmethod
      have hoverrides := hc.stopped
      simp [Method.overrides, hprivate] at hoverrides
  | inherited _ htype =>
      rw [(htype.mostSpecific.inherits.method? hmethod).2] at hprivate
      cases hprivate

end Program

namespace Hierarchy

variable (h : Hierarchy) (m : MethodRef)

theorem exists_stopsAt_or_neverStops :
    (∃ c method, h.program.StopsAt Method.decides m c method) ∨
      h.program.NeverStops Method.decides m := by
  cases hfind : (h.superclassChain m.owner).classes.findSome? (verdict m.name m.descriptor) with
  | some selected =>
      obtain ⟨c, method, hc, -⟩ := h.stopsAt_of_findSome? m hfind
      exact Or.inl ⟨c, method, hc⟩
  | none => exact Or.inr (h.neverStops_of_findSome? m hfind)

/-- Unless it stops at a private declaration, selection is that of a machine. -/
theorem selects_overrides_iff (hprivate : ¬ h.program.StopsAtPrivate m) (t : MethodRef) :
    h.program.Selects Method.overrides m t ↔ h.program.Selects Method.decides m t := by
  rcases h.exists_stopsAt_or_neverStops m with ⟨c, method, hc⟩ | hnone
  · -- a machine stops at the same declaration, as it is not private
    have hc' := hc.overrides hprivate
    constructor
    · intro ht
      cases ht with
      | declared hd hstatic habstract =>
          obtain ⟨rfl, rfl⟩ := hc'.unique h.acyclic hd
          exact .declared hc hstatic habstract
      | inherited hnone => exact (hnone.not_stopsAt hc').elim
    · intro ht
      cases ht with
      | declared hd hstatic habstract => exact .declared (hd.overrides hprivate) hstatic habstract
      | inherited hnone => exact (hnone.not_stopsAt hc).elim
  · constructor
    · intro ht
      cases ht with
      | declared hc => exact (hnone.overrides.not_stopsAt hc).elim
      | inherited _ htype => exact .inherited hnone htype
    · intro ht
      cases ht with
      | declared hc => exact (hnone.not_stopsAt hc).elim
      | inherited _ htype => exact .inherited hnone.overrides htype

/-- A private method is selected exactly where selection stops at it. -/
theorem select?_isPrivate_iff (t : MethodRef) :
    (h.select? m.owner m.name m.descriptor = some t ∧ h.program.IsPrivate t) ↔
      ∃ c method, h.program.StopsAt Method.decides m c method ∧
        method.access.isPrivate = true ∧ method.access.isAbstract = false ∧
        t = ⟨c.name, m.name, m.descriptor⟩ := by
  rw [select?_eq_some_iff]
  constructor
  · rintro ⟨ht, hprivate⟩
    by_cases hstops : h.program.StopsAtPrivate m
    · obtain ⟨c, method, hc, hmethod⟩ := hstops
      cases ht with
      | declared hd _ habstract =>
          obtain ⟨rfl, rfl⟩ := hc.unique h.acyclic hd
          exact ⟨c, method, hc, hmethod, habstract, rfl⟩
      | inherited hnone => exact (hnone.not_stopsAt hc).elim
    · exact absurd hprivate ((h.selects_overrides_iff m hstops t).2 ht).not_isPrivate
  · rintro ⟨c, method, hc, hprivate, habstract, rfl⟩
    have hstatic : method.access.isStatic = false := by
      simpa [Method.decides, habstract] using hc.stopped
    exact ⟨.declared hc hstatic habstract, method, hc.method?, hprivate⟩

/-- A dispatch lands on a private method exactly where selection stops at one for an admitted
receiver; if it does so for none, the targets are what a machine selects, none of them private. -/
theorem dispatchTargets_isPrivate (h : Hierarchy) (m : MethodRef) (admits : TypeName → Bool) :
    (∀ t, (t ∈ h.dispatchTargets m admits ∧ h.program.IsPrivate t) ↔
      ∃ type, h.program.Receives m.owner type ∧ admits type = true ∧
        ∃ c method, h.program.StopsAt Method.decides ⟨type, m.name, m.descriptor⟩ c method ∧
          method.access.isPrivate = true ∧ method.access.isAbstract = false ∧
          t = ⟨c.name, m.name, m.descriptor⟩) ∧
    ((∀ type, h.program.Receives m.owner type → admits type = true →
        ¬ h.program.StopsAtPrivate ⟨type, m.name, m.descriptor⟩) →
      ∀ t, (t ∈ h.dispatchTargets m admits ↔
          ∃ type, h.program.Receives m.owner type ∧ admits type = true ∧
            h.program.Selects Method.overrides ⟨type, m.name, m.descriptor⟩ t) ∧
        (t ∈ h.dispatchTargets m admits → ¬ h.program.IsPrivate t)) := by
  constructor
  · intro t
    have hselect := fun type => h.select?_isPrivate_iff ⟨type, m.name, m.descriptor⟩ t
    rw [mem_dispatchTargets_iff_receives]
    constructor
    · rintro ⟨⟨type, htype, hadmits, ht⟩, hprivate⟩
      exact ⟨type, htype, hadmits, (hselect type).1 ⟨ht, hprivate⟩⟩
    · rintro ⟨type, htype, hadmits, hstops⟩
      obtain ⟨ht, hprivate⟩ := (hselect type).2 hstops
      exact ⟨⟨type, htype, hadmits, ht⟩, hprivate⟩
  · intro hpassed t
    have hmachine : t ∈ h.dispatchTargets m admits ↔
        ∃ type, h.program.Receives m.owner type ∧ admits type = true ∧
          h.program.Selects Method.overrides ⟨type, m.name, m.descriptor⟩ t := by
      rw [mem_dispatchTargets_iff_receives]
      refine exists_congr fun type => and_congr_right fun htype =>
        and_congr_right fun hadmits => ?_
      rw [h.selects_overrides_iff ⟨type, m.name, m.descriptor⟩ (hpassed type htype hadmits),
        ← h.select?_eq_some_iff]
    refine ⟨hmachine, ?_⟩
    intro ht
    obtain ⟨type, -, -, hselects⟩ := hmachine.1 ht
    exact hselects.not_isPrivate

def greeting : MethodRef := ⟨"Greeter", "greet", "()V"⟩

def greet (access : MethodAccess) : Method :=
  { name := "greet", descriptor := "()V", access, body? := some {} }

def plainGreeter : ClassDef := { name := "Plain", interfaces := ["Greeter"] }

/-- A default method is inherited below a class with a private method of the same name, and
by a class without superclass. -/
def shadowedDefault : Hierarchy where
  program :=
    { index := Program.indexOf [
        { name := "Greeter"
          access := { isInterface := true, isAbstract := true }
          methods := [greet { isPublic := true }] },
        { name := "Base", methods := [greet { isPrivate := true }] },
        { name := "Sub", superclass? := some "Base", interfaces := ["Greeter"] },
        plainGreeter]
      name_eq_of_getElem? := Program.name_eq_of_getElem?_indexOf _ }
  acyclic := by decide +kernel

theorem not_isPrivate_greeting : ¬ shadowedDefault.program.IsPrivate greeting := by
  rintro ⟨method, hmethod, hprivate⟩
  have hgreet : shadowedDefault.program.method? greeting = some (greet { isPublic := true }) := by
    decide +kernel
  cases hgreet.symm.trans hmethod
  cases hprivate

/-- The receiver without superclass passes no private declaration and runs the default. -/
theorem dispatchTargets_isPrivate_shadowedDefault :
    (∀ type, shadowedDefault.program.Receives "Greeter" type → (type == "Plain") = true →
        ¬ shadowedDefault.program.StopsAtPrivate ⟨type, "greet", "()V"⟩) ∧
      greeting ∈ shadowedDefault.dispatchTargets greeting (· == "Plain") ∧
      ¬ shadowedDefault.program.IsPrivate greeting := by
  have hpassed : ∀ type, shadowedDefault.program.Receives "Greeter" type →
      (type == "Plain") = true →
      ¬ shadowedDefault.program.StopsAtPrivate ⟨type, "greet", "()V"⟩ := by
    rintro type - hplain ⟨c, method, hc, -⟩
    rw [beq_iff_eq] at hplain
    subst hplain
    have hchain : (shadowedDefault.superclassChain "Plain").classes = [plainGreeter] := by
      decide +kernel
    have hmem := (shadowedDefault.mem_superclassChain_iff "Plain" c).2 hc.onChain
    rw [hchain, List.mem_singleton] at hmem
    subst hmem
    cases hc.found
  have hmem : greeting ∈ shadowedDefault.dispatchTargets greeting (· == "Plain") := by
    decide +kernel
  exact ⟨hpassed, hmem, ((dispatchTargets_isPrivate shadowedDefault greeting
    (· == "Plain")).2 hpassed greeting).2 hmem⟩

/-- Below the private method the default is shadowed: the call resolves to the default and
lands on the private method instead. -/
theorem isPrivate_of_mem_dispatchTargets_shadowedDefault :
    shadowedDefault.resolve greeting = .resolved greeting ∧
      ¬ shadowedDefault.program.IsPrivate greeting ∧
      ⟨"Base", "greet", "()V"⟩ ∈ shadowedDefault.dispatchTargets greeting (fun _ => true) ∧
      shadowedDefault.program.IsPrivate ⟨"Base", "greet", "()V"⟩ ∧
      greeting ∉ shadowedDefault.dispatchTargets greeting (· == "Sub") := by
  have hprivate : shadowedDefault.program.IsPrivate ⟨"Base", "greet", "()V"⟩ :=
    ⟨greet { isPrivate := true }, by decide +kernel, rfl⟩
  exact ⟨by decide +kernel, not_isPrivate_greeting, by decide +kernel, hprivate,
    by decide +kernel⟩

end Hierarchy

end JvmReach
