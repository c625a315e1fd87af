import JvmReach.Proofs.Program.Index
import Mathlib.Data.List.Pairwise

/-!
# Programs formed of lists of classes

A list of classes is refused exactly if two of its classes share a name. The error then counts
the definitions of every name that has several, by increasing name. Every other list forms a
program that indexes it: looking a name up answers for all definitions of the name, the classes
are the loaded ones by increasing name, and what is missing are the names that some class
mentions and none has.
-/

namespace JvmReach

/-- A class mentions its superclass, its interfaces, and the types that its code refers to. -/
def ClassDef.Mentions (c : ClassDef) (type : TypeName) : Prop :=
  c.superclass? = some type ∨ type ∈ c.interfaces ∨ type ∈ c.references

/-- Each name that several classes share is listed once, with the number of these classes. -/
structure DuplicateClasses.Counts (e : DuplicateClasses) (classes : List ClassDef) : Prop where
  increasing : (e.repeated.map Prod.fst).Pairwise (· < ·)
  mem_repeated_iff : ∀ name count, (name, count) ∈ e.repeated ↔
    classes.countP (·.name == name) = count ∧ 1 < count
  message : e.message = "duplicate classes found: " ++ ", ".intercalate
    (e.repeated.map fun r => r.1 ++ " (defined " ++ toString r.2 ++ " times)")

/-- The program answers for the loaded classes, and for no others. -/
structure Program.Indexes (p : Program) (classes : List ClassDef) : Prop where
  /-- At most one class has the name, and it is the one that is found. -/
  class? : ∀ name, classes.filter (·.name == name) = (p.class? name).toList
  perm : p.classes.Perm classes
  increasing : p.classes.Pairwise fun c d => c.name < d.name
  mem_missing_iff : ∀ name, name ∈ p.missing ↔
    (∃ c ∈ classes, c.Mentions name) ∧ ∀ c ∈ classes, c.name ≠ name

namespace Program

variable {classes : List ClassDef} {p : Program}

/-- Sharing a name, said of the positions in the list. -/
theorem exists_name_eq_iff_not_nodup (classes : List ClassDef) :
    (∃ i j : Fin classes.length, i < j ∧ classes[i].name = classes[j].name) ↔
      ¬ (classes.map ClassDef.name).Nodup := by
  rw [List.Nodup, List.pairwise_map, List.pairwise_iff_get]
  simp

theorem repeatedNames_eq_nil_iff (classes : List ClassDef) :
    repeatedNames classes = [] ↔ (classes.map ClassDef.name).Nodup :=
  ⟨nodup_of_repeatedNames_eq_nil, repeatedNames_eq_nil⟩

theorem ofClasses_eq_error_iff (classes : List ClassDef) (e : DuplicateClasses) :
    ofClasses classes = .error e ↔
      repeatedNames classes ≠ [] ∧ e = ⟨repeatedNames classes⟩ := by
  rw [ofClasses]
  split
  · next hnone => simp [hnone]
  · next repeated hsome =>
      simp only [Except.error.injEq]
      constructor
      · rintro rfl
        exact ⟨hsome, rfl⟩
      · rintro ⟨-, rfl⟩
        rfl

theorem exists_ofClasses_eq_error_iff (classes : List ClassDef) :
    (∃ e, ofClasses classes = .error e) ↔ ¬ (classes.map ClassDef.name).Nodup := by
  rw [← repeatedNames_eq_nil_iff]
  constructor
  · rintro ⟨e, he⟩
    exact ((ofClasses_eq_error_iff classes e).1 he).1
  · intro hsome
    exact ⟨_, (ofClasses_eq_error_iff classes _).2 ⟨hsome, rfl⟩⟩

theorem count_name_eq (classes : List ClassDef) (name : TypeName) :
    (classes.map ClassDef.name).count name = classes.countP (·.name == name) := by
  rw [List.count, List.countP_map]
  rfl

theorem mem_repeatedNames_iff (classes : List ClassDef) (name : TypeName) (count : Nat) :
    (name, count) ∈ repeatedNames classes ↔
      classes.countP (·.name == name) = count ∧ 1 < count := by
  simp only [repeatedNames, List.mem_filterMap, Std.ExtTreeSet.mem_toList,
    Std.ExtTreeSet.mem_ofList, List.contains_iff_mem, count_name_eq]
  constructor
  · rintro ⟨other, -, hother⟩
    split at hother
    · next hmore =>
        cases hother
        exact ⟨rfl, hmore⟩
    · cases hother
  · rintro ⟨rfl, hmore⟩
    refine ⟨name, ?_, if_pos hmore⟩
    have hpos : 0 < (classes.map ClassDef.name).count name := by
      rw [count_name_eq]
      exact Nat.lt_of_succ_lt hmore
    exact List.count_pos_iff.1 hpos

theorem pairwise_repeatedNames (classes : List ClassDef) :
    ((repeatedNames classes).map Prod.fst).Pairwise (· < ·) := by
  rw [repeatedNames, List.pairwise_map, List.pairwise_filterMap]
  refine Std.ExtTreeSet.ordered_toList.imp ?_
  intro a b hab r hr r' hr'
  simp only [Option.ite_none_right_eq_some, Option.some.injEq] at hr hr'
  obtain ⟨-, rfl⟩ := hr
  obtain ⟨-, rfl⟩ := hr'
  exact compareOfLessAndEq_eq_lt.1 hab

theorem counts_of_ofClasses_eq_error {e : DuplicateClasses}
    (he : ofClasses classes = .error e) : e.Counts classes := by
  obtain ⟨-, rfl⟩ := (ofClasses_eq_error_iff classes e).1 he
  exact ⟨pairwise_repeatedNames classes, mem_repeatedNames_iff classes, rfl⟩

theorem nodup_of_ofClasses_eq_ok (hp : ofClasses classes = .ok p) :
    (classes.map ClassDef.name).Nodup :=
  ((perm_classes_of_ofClasses hp).map ClassDef.name).nodup_iff.1 p.nodup_names

theorem class?_eq_find? (hp : ofClasses classes = .ok p) (name : TypeName) :
    p.class? name = classes.find? (·.name == name) := by
  rw [← getElem?_indexOf (nodup_of_ofClasses_eq_ok hp)]
  rw [ofClasses] at hp
  split at hp
  · cases hp
    rfl
  · cases hp

/-- What is found under a name is all there is of the name. -/
theorem filter_eq_class? (hp : ofClasses classes = .ok p) (name : TypeName) :
    classes.filter (·.name == name) = (p.class? name).toList := by
  have hlength : (classes.filter (·.name == name)).length ≤ 1 := by
    rw [← List.countP_eq_length_filter, ← count_name_eq]
    exact List.nodup_iff_count_le_one.1 (nodup_of_ofClasses_eq_ok hp) name
  rw [class?_eq_find? hp, ← List.head?_filter]
  cases hfilter : classes.filter (·.name == name) with
  | nil => rfl
  | cons c rest =>
      rw [hfilter, List.length_cons] at hlength
      obtain rfl := List.length_eq_zero_iff.1 (Nat.le_zero.1 (Nat.le_of_succ_le_succ hlength))
      rfl

theorem contains_iff (hp : ofClasses classes = .ok p) (name : TypeName) :
    p.contains name = true ↔ ∃ c ∈ classes, c.name = name := by
  rw [contains, class?_eq_find? hp, List.find?_isSome]
  simp

theorem mem_mentioned_iff (hp : ofClasses classes = .ok p) (name : TypeName) :
    name ∈ p.mentioned ↔ ∃ c ∈ classes, c.Mentions name := by
  simp only [mentioned, List.mem_flatMap, (perm_classes_of_ofClasses hp).mem_iff, List.mem_append,
    ClassDef.supertypes, Option.mem_toList, ClassDef.Mentions]
  refine exists_congr fun c => and_congr_right fun _ => ?_
  tauto

theorem mem_missing_iff_of_ofClasses (hp : ofClasses classes = .ok p) (name : TypeName) :
    name ∈ p.missing ↔ (∃ c ∈ classes, c.Mentions name) ∧ ∀ c ∈ classes, c.name ≠ name := by
  simp only [missing, Std.ExtTreeSet.mem_ofList, List.contains_iff_mem, List.mem_filter,
    mem_mentioned_iff hp, Bool.not_eq_true', ← Bool.not_eq_true, contains_iff hp, not_exists,
    not_and, ne_eq]

theorem indexes_of_ofClasses_eq_ok (hp : ofClasses classes = .ok p) : p.Indexes classes where
  class? := filter_eq_class? hp
  perm := perm_classes_of_ofClasses hp
  increasing := p.pairwise_classes.imp compareOfLessAndEq_eq_lt.1
  mem_missing_iff := mem_missing_iff_of_ofClasses hp

/-- Classes form a program unless two of them share a name. A refusal counts the definitions of
the names that are shared, and a program indexes the classes that it was formed of. -/
theorem ofClasses_exact (classes : List ClassDef) :
    ((∃ e, ofClasses classes = .error e) ↔
      ∃ i j : Fin classes.length, i < j ∧ classes[i].name = classes[j].name) ∧
    (∀ e, ofClasses classes = .error e → e.Counts classes) ∧
    ∀ p, ofClasses classes = .ok p → p.Indexes classes := by
  refine ⟨?_, fun e he => counts_of_ofClasses_eq_error he,
    fun p hp => indexes_of_ofClasses_eq_ok hp⟩
  rw [exists_ofClasses_eq_error_iff, exists_name_eq_iff_not_nodup]

/-- Three classes share one name, two share another, and one has a name of its own. -/
def sharedNames : List ClassDef :=
  [{ name := "B" }, { name := "A" }, { name := "C" }, { name := "B", interfaces := ["C"] },
    { name := "A" }, { name := "B" }]

/-- The superclass comes later, and two names that are mentioned are missing. -/
def scattered : List ClassDef :=
  [{ name := "Sub", superclass? := some "Base", references := ["Gone", "Sub"] },
    { name := "Base", interfaces := ["Absent", "Gone"] }]

theorem ofClasses_exact_sharedNames :
    ofClasses sharedNames = .error ⟨[("A", 2), ("B", 3)]⟩ ∧
    DuplicateClasses.Counts ⟨[("A", 2), ("B", 3)]⟩ sharedNames ∧
    ∃ p, ofClasses scattered = .ok p ∧ p.Indexes scattered := by
  have hrepeated : repeatedNames sharedNames = [("A", 2), ("B", 3)] := by decide +kernel
  have herror : ofClasses sharedNames = .error ⟨[("A", 2), ("B", 3)]⟩ := by
    rw [ofClasses_eq_error_iff, hrepeated]
    exact ⟨List.cons_ne_nil _ _, rfl⟩
  have hnames : (scattered.map ClassDef.name).Nodup := by decide
  obtain ⟨p, hp, -⟩ := ofClasses_eq_ok hnames
  exact ⟨herror, (ofClasses_exact sharedNames).2.1 _ herror,
    p, hp, (ofClasses_exact scattered).2.2 p hp⟩

end Program

end JvmReach
