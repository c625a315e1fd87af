import JvmReach.Proofs.Hierarchy.Selection

/-!
# Resolution and dispatch find declared methods

Whatever a call resolves to and whatever is selected for a receiver type is
declared by the program: it stands on a superclass chain, or it is inherited from a
superinterface of one. It has the name that was asked for.
-/

namespace JvmReach

/-- The program has a method of this reference. -/
def Program.Declares (p : Program) (m : MethodRef) : Prop := ∃ method, p.method? m = some method

namespace Hierarchy

theorem declares_of_resolve (h : Hierarchy) {m target : MethodRef}
    (hresolve : h.resolve m = .resolved target) : h.program.Declares target := by
  have hrules := h.resolvesTo_resolve m
  rw [hresolve] at hrules
  cases hrules with
  | declared hc =>
      obtain ⟨method, hmethod⟩ := Option.isSome_iff_exists.1 hc.declares
      have hclass := h.program.class?_of_onChain hc.onChain
      exact ⟨method, by simp [Program.method?, hclass, hmethod]⟩
  | inherited _ htype =>
      obtain ⟨-, method, hmethod, -⟩ := htype.mostSpecific.inherits
      exact ⟨method, hmethod⟩

theorem declares_of_select? (h : Hierarchy) {type name descriptor : String} {target : MethodRef}
    (hselect : h.select? type name descriptor = some target) : h.program.Declares target := by
  have hselects := (h.select?_eq_some_iff ⟨type, name, descriptor⟩ target).1 hselect
  obtain ⟨-, method, hmethod, -⟩ := hselects.declares
  exact ⟨method, hmethod⟩

theorem name_of_resolve (h : Hierarchy) {m target : MethodRef}
    (hresolve : h.resolve m = .resolved target) : target.name = m.name := by
  have hrules := h.resolvesTo_resolve m
  rw [hresolve] at hrules
  cases hrules with
  | declared => rfl
  | inherited => rfl

theorem name_of_select? (h : Hierarchy) {type name descriptor : String} {target : MethodRef}
    (hselect : h.select? type name descriptor = some target) : target.name = name := by
  cases (h.select?_eq_some_iff ⟨type, name, descriptor⟩ target).1 hselect with
  | declared => rfl
  | inherited => rfl

end Hierarchy

end JvmReach
