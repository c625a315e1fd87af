import JvmReach.Proofs.Program.Rearranged

/-!
# The classes of a program in order

A list of classes that forms a program has distinct names. The program lists its classes by
increasing name, whatever their order was.
-/

namespace JvmReach.Program

theorem nodup_of_repeatedNames_eq_nil {classes : List ClassDef}
    (hnone : repeatedNames classes = []) : (classes.map ClassDef.name).Nodup := by
  rw [repeatedNames, List.filterMap_eq_nil_iff] at hnone
  rw [List.nodup_iff_count_le_one]
  intro name
  by_cases hmem : name ∈ classes.map ClassDef.name
  · have hcount := hnone name
      (Std.ExtTreeSet.mem_toList.2 (Std.ExtTreeSet.mem_ofList.2 (List.contains_iff_mem.2 hmem)))
    by_contra hmore
    rw [if_pos (by omega)] at hcount
    cases hcount
  · rw [List.count_eq_zero_of_not_mem hmem]
    exact Nat.zero_le 1

/-- A program has the classes that it was formed of. -/
theorem perm_classes_of_ofClasses {classes : List ClassDef} {p : Program}
    (hp : ofClasses classes = .ok p) : p.classes.Perm classes := by
  have hnames : (classes.map ClassDef.name).Nodup := by
    rw [ofClasses] at hp
    split at hp
    · next hnone => exact nodup_of_repeatedNames_eq_nil hnone
    · cases hp
  obtain ⟨p', hp', hperm⟩ := ofClasses_eq_ok hnames
  rw [hp] at hp'
  cases hp'
  exact hperm

theorem pairwise_classes (p : Program) :
    p.classes.Pairwise fun c d => compare c.name d.name = .lt := by
  rw [classes, List.pairwise_map]
  refine p.index.ordered_keys_toList.imp_of_mem ?_
  rintro ⟨n, c⟩ ⟨m, d⟩ hc hd hlt
  have hname := p.name_eq_of_getElem? n c (Std.ExtTreeMap.mem_toList_iff_getElem?_eq_some.1 hc)
  have hname' := p.name_eq_of_getElem? m d (Std.ExtTreeMap.mem_toList_iff_getElem?_eq_some.1 hd)
  rw [hname, hname']
  exact hlt

/-- A choice of classes is listed in the order of their names, so it is told by its members. -/
theorem filter_classes_eq_of_perm {p p' : Program} {f : ClassDef → Bool}
    (hperm : (p.classes.filter f).Perm (p'.classes.filter f)) :
    p.classes.filter f = p'.classes.filter f := by
  apply List.Perm.eq_of_pairwise ?_ (p.pairwise_classes.filter f) (p'.pairwise_classes.filter f)
    hperm
  intro c d _ _ hcd hdc
  have hswap : compare c.name d.name = (compare d.name c.name).swap := Std.OrientedCmp.eq_swap
  rw [hcd, hdc] at hswap
  cases hswap

end JvmReach.Program
