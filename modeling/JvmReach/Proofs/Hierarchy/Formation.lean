import JvmReach.Proofs.Hierarchy.Resolution

/-!
# When a program is a hierarchy

A program forms a hierarchy exactly if no type is its own proper supertype; otherwise the
error names one that is. `Program.Climbs` is the walk along superclasses that neither counts
its steps nor remembers the classes it has met: it holds of a start and a chain if the walk
ends with this chain. In a hierarchy it ends from every type, with the chain that
`superclassChain` computes, and the classes met are distinct. From a class that is above
itself it never ends.
-/

namespace JvmReach

namespace Program

/-- The walk along superclasses from a start ends, having met a chain. -/
inductive Climbs (p : Program) : Option TypeName → Hierarchy.Chain → Prop
  | top : p.Climbs none ⟨[], none⟩
  | missing {name : TypeName} (hnone : p.class? name = none) :
      p.Climbs (some name) ⟨[], some name⟩
  | up {name : TypeName} {c : ClassDef} {above : Hierarchy.Chain} (hc : p.class? name = some c)
      (habove : p.Climbs c.superclass? above) :
      p.Climbs (some name) ⟨c :: above.classes, above.missing?⟩

variable {p : Program}

theorem Climbs.unique {start? : Option TypeName} {chain other : Hierarchy.Chain}
    (hchain : p.Climbs start? chain) (hother : p.Climbs start? other) : chain = other := by
  induction hchain generalizing other with
  | top =>
      cases hother
      rfl
  | missing hnone =>
      cases hother with
      | missing => rfl
      | up hc => cases hnone.symm.trans hc
  | up hc _ ih =>
      cases hother with
      | missing hnone => cases hnone.symm.trans hc
      | up hd hrest =>
          cases hc.symm.trans hd
          rw [ih hrest]

/-- From a class on its way a walk goes on as it would have started there. -/
theorem Climbs.of_onChain {name : TypeName} {c : ClassDef} {chain : Hierarchy.Chain}
    (hchain : p.Climbs (some name) chain) (hc : p.OnChain name c) :
    ∃ rest, p.Climbs (some c.name) rest ∧ rest.classes.length ≤ chain.classes.length := by
  induction hc generalizing chain with
  | here hc =>
      rw [p.name_eq_of_class? hc]
      exact ⟨chain, hchain, Nat.le_refl _⟩
  | above hc hup _ ih =>
      cases hchain with
      | missing hnone => cases hnone.symm.trans hc
      | up hd habove =>
          cases hc.symm.trans hd
          rw [hup] at habove
          obtain ⟨rest, hrest, hlength⟩ := ih habove
          exact ⟨rest, hrest, Nat.le_succ_of_le hlength⟩

/-- A walk never ends if it comes back to where it was. -/
theorem not_climbs_of_onChain {c : ClassDef} {up : TypeName} (hc : p.class? c.name = some c)
    (hup : c.superclass? = some up) (hback : p.OnChain up c) (chain : Hierarchy.Chain) :
    ¬ p.Climbs (some c.name) chain := by
  intro hchain
  cases hchain with
  | missing hnone => cases hnone.symm.trans hc
  | up hd habove =>
      cases hc.symm.trans hd
      -- the rest of the walk starts over, so it would be longer than itself
      have hagain := Climbs.up hc habove
      rw [hup] at habove
      obtain ⟨rest, hrest, hlength⟩ := habove.of_onChain hback
      rw [hrest.unique hagain, List.length_cons] at hlength
      exact Nat.not_succ_le_self _ hlength

end Program

namespace Hierarchy

theorem climbs_superclassChain (h : Hierarchy) (name : TypeName) :
    h.program.Climbs (some name) (h.superclassChain name) := by
  induction h.program.acc_supertype h.acyclic name with
  | intro name _ ih =>
      cases hc : h.program.class? name with
      | none =>
          rw [h.superclassChain_of_missing hc]
          exact .missing hc
      | some c =>
          cases hup : c.superclass? with
          | none =>
              rw [h.superclassChain_of_top hc hup]
              have habove : h.program.Climbs c.superclass? ⟨[], none⟩ := by
                rw [hup]
                exact .top
              exact .up hc habove
          | some up =>
              rw [h.superclassChain_of_superclass hc hup]
              refine .up hc ?_
              rw [hup]
              exact ih up (h.program.supertype_of_superclass hc hup)

theorem climbs_iff (h : Hierarchy) (name : TypeName) (chain : Chain) :
    h.program.Climbs (some name) chain ↔ chain = h.superclassChain name := by
  constructor
  · intro hchain
    exact hchain.unique (h.climbs_superclassChain name)
  · rintro rfl
    exact h.climbs_superclassChain name

/-- No class is met twice: it would be its own proper supertype. -/
theorem nodup_superclassChain (h : Hierarchy) (name : TypeName) :
    ((h.superclassChain name).classes.map ClassDef.name).Nodup := by
  induction h.program.acc_supertype h.acyclic name with
  | intro name _ ih =>
      cases hc : h.program.class? name with
      | none => simp [h.superclassChain_of_missing hc]
      | some c =>
          cases hup : c.superclass? with
          | none => simp [h.superclassChain_of_top hc hup]
          | some up =>
              have hstep := h.program.supertype_of_superclass hc hup
              rw [h.superclassChain_of_superclass hc hup, List.map_cons, List.nodup_cons]
              refine ⟨?_, ih up hstep⟩
              intro hmem
              obtain ⟨d, hd, hname⟩ := List.mem_map.1 hmem
              rw [h.program.name_eq_of_class? hc] at hname
              have hback : h.program.Descends up name :=
                hname ▸ ((h.mem_superclassChain_iff up d).1 hd).descends
              obtain rfl := hback.antisymm h.acyclic (.of_mem hstep)
              exact h.program.ne_of_transGen_supertype h.acyclic (.single hstep) rfl

theorem exists_ofProgram_eq_error_iff (p : Program) :
    (∃ e, ofProgram p = .error e) ↔ ∃ name, Relation.TransGen p.Supertype name name := by
  cases hcycle : p.cycle? with
  | none =>
      have hnone := p.cycle?_eq_none_iff.1 hcycle
      rw [ofProgram_eq_ok hcycle]
      constructor
      · rintro ⟨e, he⟩
        cases he
      · rintro ⟨name, hname⟩
        exact absurd hname (hnone name)
  | some name =>
      rw [ofProgram_eq_error hcycle]
      exact ⟨fun _ => ⟨name, p.transGen_of_cycle?_eq_some hcycle⟩, fun _ => ⟨_, rfl⟩⟩

theorem transGen_of_ofProgram_eq_error {p : Program} {e : CyclicHierarchy}
    (he : ofProgram p = .error e) : Relation.TransGen p.Supertype e.name e.name := by
  cases hcycle : p.cycle? with
  | none =>
      rw [ofProgram_eq_ok hcycle] at he
      cases he
  | some name =>
      rw [ofProgram_eq_error hcycle] at he
      cases he
      exact p.transGen_of_cycle?_eq_some hcycle

theorem program_of_ofProgram_eq_ok {p : Program} {h : Hierarchy} (hp : ofProgram p = .ok h) :
    h.program = p := by
  cases hcycle : p.cycle? with
  | none =>
      rw [ofProgram_eq_ok hcycle] at hp
      cases hp
      rfl
  | some name =>
      rw [ofProgram_eq_error hcycle] at hp
      cases hp

/-- A program is refused exactly for a cycle, which is named. In all others the walk along
superclasses ends from every type without meeting a class twice; where superclasses form a cycle
it does not end. -/
theorem ofProgram_exact (p : Program) :
    ((∃ e, ofProgram p = .error e) ↔ ∃ name, Relation.TransGen p.Supertype name name) ∧
    (∀ e, ofProgram p = .error e →
      e.message = "cyclic type hierarchy involving " ++ e.name ∧
        Relation.TransGen p.Supertype e.name e.name) ∧
    (∀ h, ofProgram p = .ok h → h.program = p ∧ ∀ name,
      (∀ chain, p.Climbs (some name) chain ↔ chain = h.superclassChain name) ∧
        ((h.superclassChain name).classes.map ClassDef.name).Nodup) ∧
    ∀ c up, p.class? c.name = some c → c.superclass? = some up → p.OnChain up c →
      ∀ chain, ¬ p.Climbs (some c.name) chain := by
  refine ⟨exists_ofProgram_eq_error_iff p, ?_, ?_, fun _ _ => Program.not_climbs_of_onChain⟩
  · intro e he
    exact ⟨rfl, transGen_of_ofProgram_eq_error he⟩
  · intro h hp
    obtain rfl := program_of_ofProgram_eq_ok hp
    exact ⟨rfl, fun name => ⟨h.climbs_iff name, h.nodup_superclassChain name⟩⟩

/-- A cycle through a superclass, an interface listed twice, and the interface above it. -/
def looped : Program where
  index := Program.indexOf [
    { name := "A", superclass? := some "B" },
    { name := "B", interfaces := ["C", "C"] },
    { name := "C", interfaces := ["A"] },
    { name := "Below", superclass? := some "A", interfaces := ["Missing"] }]
  name_eq_of_getElem? := Program.name_eq_of_getElem?_indexOf _

theorem ofProgram_exact_looped :
    ofProgram looped = .error ⟨"A"⟩ ∧ Relation.TransGen looped.Supertype "A" "A" := by
  have herror : ofProgram looped = .error ⟨"A"⟩ := ofProgram_eq_error (by decide +kernel)
  exact ⟨herror, ((ofProgram_exact looped).2.1 ⟨"A"⟩ herror).2⟩

end Hierarchy

end JvmReach
