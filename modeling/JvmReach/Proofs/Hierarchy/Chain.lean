import JvmReach.Hierarchy.Basic
import JvmReach.Proofs.Program.Acyclic

/-!
# What a superclass chain meets

`OnChain name c` says that `c` is met on the way up from `name` along
superclasses, before the first type that the program lacks. The chain computed
for a type in a hierarchy holds exactly these classes: its classes are distinct,
because supertypes never lead back, so the depth allowed for the walk is never
used up. Each class of a chain is followed by the chain of its superclass.
-/

namespace JvmReach

/-- `c` is met on the way up from `name` along superclasses. -/
inductive Program.OnChain (p : Program) : TypeName → ClassDef → Prop
  | here {name : TypeName} {c : ClassDef} (hc : p.class? name = some c) : p.OnChain name c
  | above {name up : TypeName} {c d : ClassDef} (hc : p.class? name = some c)
      (hup : c.superclass? = some up) (hd : p.OnChain up d) : p.OnChain name d

namespace Program

theorem class?_of_onChain (p : Program) {name : TypeName} {d : ClassDef}
    (h : p.OnChain name d) : p.class? d.name = some d := by
  induction h with
  | here hc => rwa [p.name_eq_of_class? hc]
  | above _ _ _ ih => exact ih

theorem OnChain.trans {p : Program} {name : TypeName} {c d : ClassDef}
    (hc : p.OnChain name c) (hd : p.OnChain c.name d) : p.OnChain name d := by
  induction hc with
  | here hc => rwa [p.name_eq_of_class? hc] at hd
  | above hc hup _ ih => exact .above hc hup (ih hd)

@[simp] theorem chainFrom_none (p : Program) (depth : Nat) :
    p.chainFrom depth none = ⟨[], none⟩ := by
  cases depth <;> rfl

theorem onChain_of_mem_chainFrom (p : Program) (depth : Nat) {start? : Option TypeName}
    {d : ClassDef} (h : d ∈ (p.chainFrom depth start?).classes) :
    ∃ name, start? = some name ∧ p.OnChain name d := by
  induction depth generalizing start? with
  | zero => cases start? <;> simp [chainFrom] at h
  | succ depth ih =>
      cases start? with
      | none => simp at h
      | some name =>
          refine ⟨name, rfl, ?_⟩
          cases hc : p.class? name with
          | none => simp [chainFrom, hc] at h
          | some c =>
              simp only [chainFrom, hc, List.mem_cons] at h
              rcases h with rfl | h
              · exact .here hc
              · obtain ⟨up, hup, hd⟩ := ih h
                exact .above hc hup hd

/-- On a chain each class comes with those further up behind it. -/
theorem pairwise_chainFrom (p : Program) (depth : Nat) (start? : Option TypeName) :
    (p.chainFrom depth start?).classes.Pairwise fun c d => p.OnChain c.name d := by
  induction depth generalizing start? with
  | zero => cases start? <;> simp [chainFrom]
  | succ depth ih =>
      cases start? with
      | none => simp
      | some name =>
          cases hc : p.class? name with
          | none => simp [chainFrom, hc]
          | some c =>
              simp only [chainFrom, hc, List.pairwise_cons]
              refine ⟨?_, ih c.superclass?⟩
              intro d hd
              obtain ⟨up, hup, hd⟩ := p.onChain_of_mem_chainFrom depth hd
              rw [p.name_eq_of_class? hc]
              exact .above hc hup hd

theorem notMem_below (p : Program) (hacyclic : p.cycle? = none) {below : List TypeName}
    {name : TypeName} (hbelow : ∀ other ∈ below, Relation.TransGen p.Supertype name other) :
    name ∉ below := by
  intro hmem
  exact p.ne_of_transGen_supertype hacyclic (hbelow name hmem) rfl

/-- One more step changes nothing once the classes below and the depth left make
up for all classes. -/
theorem chainFrom_succ (p : Program) (hacyclic : p.cycle? = none) (depth : Nat)
    (below : List TypeName) (name : TypeName) (hnodup : below.Nodup)
    (hbelow : ∀ other ∈ below,
      (∃ c, p.class? other = some c) ∧ Relation.TransGen p.Supertype name other)
    (hdepth : p.classCount ≤ below.length + depth) :
    p.chainFrom (depth + 1) (some name) = p.chainFrom depth (some name) := by
  induction depth generalizing below name with
  | zero =>
      cases hc : p.class? name with
      | none => simp [chainFrom, hc]
      | some c =>
          -- the class itself would be one class too many
          have hnew := p.notMem_below hacyclic fun other hother => (hbelow other hother).2
          have hlength : (name :: below).length ≤ p.classCount := by
            refine p.length_le_classCount (List.nodup_cons.2 ⟨hnew, hnodup⟩) ?_
            intro other hother
            rcases List.mem_cons.1 hother with rfl | hother
            · exact ⟨c, hc⟩
            · exact (hbelow other hother).1
          rw [List.length_cons] at hlength
          omega
  | succ depth ih =>
      cases hc : p.class? name with
      | none => simp [chainFrom, hc]
      | some c =>
          cases hup : c.superclass? with
          | none => simp [chainFrom, hc, hup]
          | some up =>
              have hstep : p.Supertype up name := p.supertype_of_superclass hc hup
              have hnew := p.notMem_below hacyclic fun other hother => (hbelow other hother).2
              have habove : p.chainFrom (depth + 1) (some up) = p.chainFrom depth (some up) := by
                refine ih (name :: below) up (List.nodup_cons.2 ⟨hnew, hnodup⟩) ?_ ?_
                · intro other hother
                  rcases List.mem_cons.1 hother with rfl | hother
                  · exact ⟨⟨c, hc⟩, .single hstep⟩
                  · exact ⟨(hbelow other hother).1, .head hstep (hbelow other hother).2⟩
                · rw [List.length_cons]
                  omega
              rw [chainFrom, chainFrom, hc]
              simp only [hup, habove]

end Program

namespace Hierarchy

theorem superclassChain_of_missing (h : Hierarchy) {name : TypeName}
    (hnone : h.program.class? name = none) : h.superclassChain name = ⟨[], some name⟩ := by
  simp [superclassChain, Program.chainFrom, hnone]

theorem superclassChain_of_top (h : Hierarchy) {name : TypeName} {c : ClassDef}
    (hc : h.program.class? name = some c) (htop : c.superclass? = none) :
    h.superclassChain name = ⟨[c], none⟩ := by
  simp [superclassChain, Program.chainFrom, hc, htop]

theorem superclassChain_of_superclass (h : Hierarchy) {name up : TypeName} {c : ClassDef}
    (hc : h.program.class? name = some c) (hup : c.superclass? = some up) :
    h.superclassChain name =
      ⟨c :: (h.superclassChain up).classes, (h.superclassChain up).missing?⟩ := by
  have habove := h.program.chainFrom_succ h.acyclic h.program.classCount [] up
    List.nodup_nil (by simp) (by simp)
  simp only [superclassChain, habove]
  rw [Program.chainFrom, hc]
  simp only [hup]

theorem mem_superclassChain_iff (h : Hierarchy) (name : TypeName) (d : ClassDef) :
    d ∈ (h.superclassChain name).classes ↔ h.program.OnChain name d := by
  constructor
  · intro hd
    obtain ⟨_, hname, hd⟩ := h.program.onChain_of_mem_chainFrom _ hd
    cases hname
    exact hd
  · intro hd
    induction hd with
    | here hc =>
        rename_i name c
        cases hup : c.superclass? with
        | none => simp [h.superclassChain_of_top hc hup]
        | some up => simp [h.superclassChain_of_superclass hc hup]
    | above hc hup _ ih => simp [h.superclassChain_of_superclass hc hup, ih]

theorem pairwise_superclassChain (h : Hierarchy) (name : TypeName) :
    (h.superclassChain name).classes.Pairwise fun c d => h.program.OnChain c.name d :=
  h.program.pairwise_chainFrom _ _

/-- A search that stops on a chain leaves above it whatever it did not pass over. -/
theorem onChain_of_superclassChain_eq (h : Hierarchy) {name : TypeName}
    {before after : List ClassDef} {c d : ClassDef}
    (hclasses : (h.superclassChain name).classes = before ++ c :: after)
    (hd : h.program.OnChain name d) (hpassed : d ∉ before) : h.program.OnChain c.name d := by
  have hpairwise := h.pairwise_superclassChain name
  rw [hclasses, List.pairwise_append, List.pairwise_cons] at hpairwise
  have hc : h.program.OnChain name c :=
    (h.mem_superclassChain_iff name c).1 (by simp [hclasses])
  have hmem := (h.mem_superclassChain_iff name d).2 hd
  rw [hclasses, List.mem_append, List.mem_cons] at hmem
  rcases hmem with hmem | rfl | hmem
  · exact absurd hmem hpassed
  · exact .here (h.program.class?_of_onChain hc)
  · exact hpairwise.2.1.1 d hmem

end Hierarchy

end JvmReach
