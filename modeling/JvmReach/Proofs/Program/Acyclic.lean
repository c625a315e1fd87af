import JvmReach.Program.Acyclic
import Mathlib.Data.List.Perm.Subperm
import Mathlib.Data.List.Nodup
import Mathlib.Order.WellFounded

/-!
# A program without reported cycle is well-founded

The depth first search keeps a set of finished types. Every finished type is
accessible for the direct supertype relation: it was added after all its
supertypes had been finished. The types on a path are distinct classes, so the
depth allowed for the search is never used up, and a search that reports nothing
has finished every class. So supertypes cannot be followed forever, and no type
is its own proper supertype. Conversely a cycle that is reported is one: the type that
is visited lies above all types on the path, so one of them above it closes a cycle.
-/

namespace JvmReach.Program

/-- `a` is a direct supertype of `b`. -/
def Supertype (p : Program) (a b : TypeName) : Prop := a ∈ p.directSupertypes b

theorem mem_names_iff (p : Program) (name : TypeName) :
    name ∈ p.classes.map ClassDef.name ↔ ∃ c, p.class? name = some c := by
  constructor
  · intro h
    obtain ⟨c, hc, rfl⟩ := List.mem_map.1 h
    exact ⟨c, (p.mem_classes_iff c).1 hc⟩
  · rintro ⟨c, hc⟩
    have hname := p.name_eq_of_class? hc
    subst hname
    exact List.mem_map_of_mem ((p.mem_classes_iff c).2 hc)

theorem length_names (p : Program) : (p.classes.map ClassDef.name).length = p.classCount := by
  simp [classes, classCount]

/-- Distinct classes are at most as many as the program has. -/
theorem length_le_classCount (p : Program) {names : List TypeName} (hnodup : names.Nodup)
    (hnames : ∀ name ∈ names, ∃ c, p.class? name = some c) :
    names.length ≤ p.classCount := by
  have hsub : names ⊆ p.classes.map ClassDef.name := by
    intro name hname
    exact (p.mem_names_iff name).2 (hnames name hname)
  rw [← p.length_names]
  exact (hnodup.subperm hsub).length_le

theorem exists_class?_of_supertype (p : Program) {a b : TypeName} (h : p.Supertype a b) :
    ∃ c, p.class? b = some c ∧ a ∈ c.supertypes := by
  rw [Supertype, directSupertypes] at h
  cases hc : p.class? b with
  | none => simp [hc] at h
  | some c => exact ⟨c, rfl, by simpa [hc] using h⟩

theorem supertype_of_superclass (p : Program) {name up : TypeName} {c : ClassDef}
    (hc : p.class? name = some c) (hup : c.superclass? = some up) : p.Supertype up name := by
  simp [Supertype, directSupertypes, ClassDef.supertypes, hc, hup]

/-- What is kept of a set of finished types: its members are accessible. -/
def Finished (p : Program) (done : Std.ExtTreeSet TypeName) : Prop :=
  ∀ name ∈ done, Acc p.Supertype name

/-- A search that keeps finished sets finished and finishes each type it is
started from does so along a list of types. -/
theorem foldlM_finished (p : Program)
    {search : Std.ExtTreeSet TypeName → TypeName → Except TypeName (Std.ExtTreeSet TypeName)}
    {names : List TypeName}
    (hsearch : ∀ name ∈ names, ∀ done done', p.Finished done → search done name = .ok done' →
      p.Finished done' ∧ name ∈ done' ∧ ∀ other ∈ done, other ∈ done')
    {done done' : Std.ExtTreeSet TypeName} (hdone : p.Finished done)
    (h : names.foldlM search done = Except.ok done') :
    p.Finished done' ∧ (∀ name ∈ names, name ∈ done') ∧ ∀ other ∈ done, other ∈ done' := by
  induction names generalizing done with
  | nil =>
      cases h
      exact ⟨hdone, by simp, fun _ hother => hother⟩
  | cons name rest ih =>
      rw [List.foldlM_cons] at h
      cases hfirst : search done name with
      | error cycle => simp [hfirst, bind, Except.bind] at h
      | ok mid =>
          obtain ⟨hmid, hname, hle⟩ := hsearch name (by simp) done mid hdone hfirst
          have hrest : rest.foldlM search mid = Except.ok done' := by
            simpa [hfirst, bind, Except.bind] using h
          obtain ⟨hdone', hnames, hle'⟩ :=
            ih (fun other hother => hsearch other (by simp [hother])) hmid hrest
          refine ⟨hdone', ?_, fun other hother => hle' other (hle other hother)⟩
          intro other hother
          rcases List.mem_cons.1 hother with rfl | hother
          · exact hle' other hname
          · exact hnames other hother

/-- A visit finishes its type, provided the path to it has distinct classes and
leaves enough depth. -/
theorem visit_finished (p : Program) (depth : Nat) {path : List TypeName} {name : TypeName}
    {done done' : Std.ExtTreeSet TypeName} (hnodup : (name :: path).Nodup)
    (hpath : ∀ other ∈ path, ∃ c, p.class? other = some c)
    (hdepth : p.classCount < path.length + depth) (hdone : p.Finished done)
    (h : p.visit depth path done name = .ok done') :
    p.Finished done' ∧ name ∈ done' ∧ ∀ other ∈ done, other ∈ done' := by
  induction depth generalizing path name done done' with
  | zero =>
      have hlength := p.length_le_classCount hnodup.of_cons hpath
      omega
  | succ depth ih =>
      rw [visit] at h
      split at h
      · next hmem =>
          cases h
          exact ⟨hdone, Std.ExtTreeSet.contains_iff_mem.1 hmem, fun _ hother => hother⟩
      · split at h
        · cases h
        · next hfind =>
            have hsearch : ∀ parent ∈ (p.directSupertypes name).reverse, ∀ done done',
                p.Finished done → p.visit depth (name :: path) done parent = .ok done' →
                p.Finished done' ∧ parent ∈ done' ∧ ∀ other ∈ done, other ∈ done' := by
              intro parent hparent done done' hdone hvisit
              have hparent : p.Supertype parent name := by simpa [Supertype] using hparent
              have hnew : parent ∉ name :: path := by
                simpa using List.find?_eq_none.1 hfind parent hparent
              obtain ⟨c, hc, -⟩ := p.exists_class?_of_supertype hparent
              refine ih (List.nodup_cons.2 ⟨hnew, hnodup⟩) ?_ ?_ hdone hvisit
              · intro other hother
                rcases List.mem_cons.1 hother with rfl | hother
                · exact ⟨c, hc⟩
                · exact hpath other hother
              · simp only [List.length_cons]
                omega
            cases hfold : (p.directSupertypes name).reverse.foldlM
                (fun done parent => p.visit depth (name :: path) done parent) done with
            | error cycle => simp [hfold, bind, Except.bind] at h
            | ok mid =>
                obtain ⟨hmid, hparents, hle⟩ := p.foldlM_finished hsearch hdone hfold
                have hdone' : mid.insert name = done' := by
                  simpa [hfold, bind, Except.bind, pure, Except.pure] using h
                subst hdone'
                have hname : Acc p.Supertype name := by
                  refine Acc.intro name fun parent hparent => hmid parent ?_
                  exact hparents parent (List.mem_reverse.2 hparent)
                refine ⟨?_, by simp, ?_⟩
                · intro other hother
                  rcases Std.ExtTreeSet.mem_insert.1 hother with heq | hother
                  · rw [← Std.LawfulEqCmp.eq_of_compare heq]
                    exact hname
                  · exact hmid other hother
                · intro other hother
                  exact Std.ExtTreeSet.mem_insert.2 (Or.inr (hle other hother))

/-- Without a reported cycle, every type is accessible. -/
theorem acc_supertype (p : Program) (h : p.cycle? = none) (name : TypeName) :
    Acc p.Supertype name := by
  by_cases hname : ∃ c, p.class? name = some c
  · rw [cycle?] at h
    split at h
    · next done hfold =>
        have hsearch : ∀ root ∈ p.classes.map ClassDef.name, ∀ done done',
            p.Finished done → p.visit (p.classCount + 1) [] done root = .ok done' →
            p.Finished done' ∧ root ∈ done' ∧ ∀ other ∈ done, other ∈ done' := by
          intro root hroot done done' hdone hvisit
          exact p.visit_finished _ (List.nodup_singleton root) (by simp) (by simp) hdone hvisit
        obtain ⟨hdone, hroots, -⟩ := p.foldlM_finished hsearch
          (fun _ hmem => absurd hmem Std.ExtTreeSet.not_mem_empty) hfold
        exact hdone name (hroots name ((p.mem_names_iff name).2 hname))
    · cases h
  · refine Acc.intro name fun parent hparent => ?_
    obtain ⟨c, hc, -⟩ := p.exists_class?_of_supertype hparent
    exact absurd ⟨c, hc⟩ hname

theorem wellFounded_supertype (p : Program) (h : p.cycle? = none) : WellFounded p.Supertype :=
  ⟨p.acc_supertype h⟩

/-- Following supertypes never leads back. -/
theorem ne_of_transGen_supertype (p : Program) (h : p.cycle? = none) {a b : TypeName}
    (hab : Relation.TransGen p.Supertype a b) : a ≠ b := by
  rintro rfl
  exact (p.wellFounded_supertype h).transGen.irrefl.irrefl a hab

theorem exists_of_foldlM_eq_error {α β ε : Type} {f : β → α → Except ε β} {l : List α} {b : β}
    {e : ε} (h : l.foldlM f b = Except.error e) : ∃ a ∈ l, ∃ b', f b' a = .error e := by
  induction l generalizing b with
  | nil => cases h
  | cons a rest ih =>
      rw [List.foldlM_cons] at h
      cases hfirst : f b a with
      | error e' =>
          rw [hfirst] at h
          cases h
          exact ⟨a, by simp, b, hfirst⟩
      | ok b' =>
          rw [hfirst] at h
          obtain ⟨a', ha', b'', hb''⟩ := ih h
          exact ⟨a', by simp [ha'], b'', hb''⟩

/-- A visit of a type that lies above all types on the path only fails at a cycle. -/
theorem transGen_of_visit_eq_error (p : Program) (depth : Nat) {path : List TypeName}
    {name cycle : TypeName} {done : Std.ExtTreeSet TypeName}
    (hpath : ∀ other ∈ path, Relation.TransGen p.Supertype name other)
    (h : p.visit depth path done name = .error cycle) :
    Relation.TransGen p.Supertype cycle cycle := by
  induction depth generalizing path name done with
  | zero => cases h
  | succ depth ih =>
      have habove : ∀ parent, p.Supertype parent name →
          ∀ other ∈ name :: path, Relation.TransGen p.Supertype parent other := by
        intro parent hparent other hother
        rcases List.mem_cons.1 hother with rfl | hother
        · exact .single hparent
        · exact .head hparent (hpath other hother)
      rw [visit] at h
      split at h
      · cases h
      · split at h
        · next parent hfind =>
            cases h
            have hmem : cycle ∈ name :: path := by simpa using List.find?_some hfind
            exact habove cycle (List.mem_of_find?_eq_some hfind) cycle hmem
        · cases hfold : (p.directSupertypes name).reverse.foldlM
              (fun done parent => p.visit depth (name :: path) done parent) done with
          | ok mid => simp [hfold, bind, Except.bind, pure, Except.pure] at h
          | error e =>
              have heq : e = cycle := by simpa [hfold, bind, Except.bind] using h
              subst heq
              obtain ⟨parent, hparent, _, hvisit⟩ := exists_of_foldlM_eq_error hfold
              exact ih (habove parent (List.mem_reverse.1 hparent)) hvisit

/-- The type that is reported is its own proper supertype. -/
theorem transGen_of_cycle?_eq_some (p : Program) {name : TypeName} (h : p.cycle? = some name) :
    Relation.TransGen p.Supertype name name := by
  rw [cycle?] at h
  split at h
  · cases h
  · next cycle hfold =>
      cases h
      obtain ⟨root, -, done, hvisit⟩ := exists_of_foldlM_eq_error hfold
      exact p.transGen_of_visit_eq_error _ (by simp) hvisit

/-- No cycle is reported exactly if there is none. -/
theorem cycle?_eq_none_iff (p : Program) :
    p.cycle? = none ↔ ∀ name, ¬ Relation.TransGen p.Supertype name name := by
  constructor
  · intro h name hname
    exact p.ne_of_transGen_supertype h hname rfl
  · intro h
    rw [Option.eq_none_iff_forall_ne_some]
    intro name hname
    exact h name (p.transGen_of_cycle?_eq_some hname)

end JvmReach.Program
