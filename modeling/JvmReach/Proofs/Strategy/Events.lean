import JvmReach.Strategy

/-!
# What strategies are told

A strategy is told of entry points and of constructions. An event either shows one type to be
constructed, and the strategy then learns of this construction, or it shows none and changes
nothing (`observe_cases`). So a strategy only ever admits more types, and whenever it changes
at all its generation has grown.
-/

namespace JvmReach.Strategy

theorem admits_cha {s : Strategy} (h : s.algorithm = .cha) (type : TypeName) :
    s.admits type = true := by
  cases s with
  | cha => rfl
  | rta instantiated generation => cases h

theorem admits_ofAlgorithm (a : Algorithm) (type : TypeName) :
    (ofAlgorithm a).admits type = true ↔ a = .cha := by
  cases a <;> simp [ofAlgorithm, admits]

@[simp] theorem algorithm_ofAlgorithm (a : Algorithm) : (ofAlgorithm a).algorithm = a := by
  cases a <;> rfl

theorem isNews_iff (s : Strategy) (type : TypeName) :
    s.isNews type = true ↔ s.admits type = false := by
  cases s <;> simp [isNews, admits]

theorem admits_onInstantiation_self (s : Strategy) (type : TypeName) :
    (s.onInstantiation type).admits type = true := by
  cases halgorithm : s.algorithm with
  | cha => exact admits_cha ((s.algorithm_onInstantiation type).trans halgorithm) type
  | rta => exact (s.admits_onInstantiation type type).2 (Or.inr ⟨halgorithm, rfl⟩)

theorem generation_onInstantiation (s : Strategy) (type : TypeName) :
    (s.onInstantiation type).generation =
      s.generation + if s.isNews type = true then 1 else 0 := by
  cases s with
  | cha => rfl
  | rta instantiated generation =>
      by_cases hmem : instantiated.contains type = true
      · simp [onInstantiation, isNews, Strategy.generation, hmem]
      · simp [onInstantiation, isNews, Strategy.generation, hmem]

theorem generation_onInstantiation_le (s : Strategy) (type : TypeName) :
    (s.onInstantiation type).generation ≤ s.generation + 1 := by
  rw [s.generation_onInstantiation]
  split <;> omega

theorem onInstantiation_eq_or_generation_lt (s : Strategy) (type : TypeName) :
    s.onInstantiation type = s ∨ s.generation < (s.onInstantiation type).generation := by
  cases hnews : s.isNews type with
  | false => exact Or.inl (onInstantiation_of_not_isNews hnews)
  | true =>
      rw [generation_onInstantiation, if_pos hnews]
      exact Or.inr (Nat.lt_succ_self _)

/-- The class that is looked up declares a constructor of this reference. -/
theorem isConstructorRoot_iff (p : Program) (m : MethodRef) :
    isConstructorRoot p m = true ↔ ∃ c, p.class? m.owner = some c ∧
      ∃ method ∈ c.methods, method.name = "<init>" ∧ method.refIn m.owner = m := by
  obtain ⟨owner, name, descriptor⟩ := m
  simp only [isConstructorRoot, Program.method?, Option.any_eq_true, Option.bind_eq_some_iff,
    Method.isConstructor, Method.refIn, MethodRef.mk.injEq, true_and, beq_iff_eq]
  constructor
  · rintro ⟨method, ⟨c, hc, hfound⟩, hname⟩
    have hkey := List.find?_some hfound
    simp only [Bool.and_eq_true, beq_iff_eq] at hkey
    exact ⟨c, hc, method, List.mem_of_find?_eq_some hfound, hname, hkey⟩
  · rintro ⟨c, hc, method, hmem, hname, rfl, rfl⟩
    -- a method of the same name and descriptor may come first, and is found instead
    have hsome : (c.method? method.name method.descriptor).isSome = true :=
      List.find?_isSome.2 ⟨method, hmem, by simp⟩
    obtain ⟨first, hfirst⟩ := Option.isSome_iff_exists.1 hsome
    have hkey := List.find?_some hfirst
    simp only [Bool.and_eq_true, beq_iff_eq] at hkey
    exact ⟨first, ⟨c, hc, hfirst⟩, hkey.1.trans hname⟩

inductive Event where
  | entry (m : MethodRef)
  | construction (type : TypeName)
deriving DecidableEq

/-- The event is a construction of the type, or an entry point that the program declares as a
constructor of it. -/
inductive Event.Constructs (p : Program) (type : TypeName) : Event → Prop
  | construction : Constructs p type (.construction type)
  | root {c : ClassDef} {method : Method} (hc : p.class? type = some c)
      (hmethod : method ∈ c.methods) (hname : method.name = "<init>") :
      Constructs p type (.entry (method.refIn type))

theorem Event.constructs_construction_iff (p : Program) (type other : TypeName) :
    (construction type).Constructs p other ↔ type = other := by
  constructor
  · rintro ⟨⟩
    rfl
  · rintro rfl
    exact .construction

theorem Event.constructs_entry_iff (p : Program) (m : MethodRef) (type : TypeName) :
    (entry m).Constructs p type ↔ isConstructorRoot p m = true ∧ m.owner = type := by
  rw [isConstructorRoot_iff]
  constructor
  · rintro (_ | @⟨c, method, hc, hmethod, hname⟩)
    exact ⟨⟨c, hc, method, hmethod, hname, rfl⟩, rfl⟩
  · rintro ⟨⟨c, hc, method, hmethod, hname, href⟩, rfl⟩
    have hroot := Constructs.root hc hmethod hname
    rwa [href] at hroot

/-- The strategy is told of an event. -/
def observe (p : Program) (s : Strategy) : Event → Strategy
  | .entry m => s.onEntryPoint p m
  | .construction type => s.onInstantiation type

section observe

variable (p : Program) (s : Strategy) (events : List Event)

theorem observe_cases (e : Event) :
    (∃ type, (∀ other, e.Constructs p other ↔ type = other) ∧
      s.observe p e = s.onInstantiation type) ∨
    ((∀ other, ¬ e.Constructs p other) ∧ s.observe p e = s) := by
  cases e with
  | construction type =>
      exact Or.inl ⟨type, Event.constructs_construction_iff p type, rfl⟩
  | entry m =>
      by_cases hroot : isConstructorRoot p m = true
      · refine Or.inl ⟨m.owner, fun other => ?_, if_pos hroot⟩
        rw [Event.constructs_entry_iff]
        exact and_iff_right hroot
      · refine Or.inr ⟨fun other hother => ?_, if_neg hroot⟩
        exact hroot ((Event.constructs_entry_iff p m other).1 hother).1

@[simp] theorem algorithm_observe (e : Event) : (s.observe p e).algorithm = s.algorithm := by
  obtain ⟨type, -, heq⟩ | ⟨-, heq⟩ := observe_cases p s e
  · rw [heq, algorithm_onInstantiation]
  · rw [heq]

theorem admits_observe (e : Event) (type : TypeName) :
    (s.observe p e).admits type = true ↔
      s.admits type = true ∨ (s.algorithm = .rta ∧ e.Constructs p type) := by
  obtain ⟨constructed, hconstructs, heq⟩ | ⟨hnone, heq⟩ := observe_cases p s e
  · rw [heq, admits_onInstantiation, hconstructs]
  · rw [heq, or_iff_left fun hright => hnone type hright.2]

theorem observe_eq_or_generation_lt (e : Event) :
    s.observe p e = s ∨ s.generation < (s.observe p e).generation := by
  obtain ⟨type, -, heq⟩ | ⟨-, heq⟩ := observe_cases p s e
  · rw [heq]
    exact s.onInstantiation_eq_or_generation_lt type
  · exact Or.inl heq

@[simp] theorem algorithm_foldl_observe :
    (events.foldl (observe p) s).algorithm = s.algorithm := by
  induction events generalizing s with
  | nil => rfl
  | cons e rest ih => rw [List.foldl_cons, ih, algorithm_observe]

theorem admits_foldl_observe (type : TypeName) :
    (events.foldl (observe p) s).admits type = true ↔
      s.admits type = true ∨ (s.algorithm = .rta ∧ ∃ e ∈ events, e.Constructs p type) := by
  induction events generalizing s with
  | nil => simp
  | cons e rest ih =>
      rw [List.foldl_cons, ih, admits_observe, algorithm_observe]
      simp only [List.mem_cons, exists_eq_or_imp]
      rw [or_assoc, ← and_or_left]

theorem foldl_observe_eq_or_generation_lt :
    events.foldl (observe p) s = s ∨
      s.generation < (events.foldl (observe p) s).generation := by
  induction events generalizing s with
  | nil => exact Or.inl rfl
  | cons e rest ih =>
      rw [List.foldl_cons]
      rcases s.observe_eq_or_generation_lt p e with heq | hlt
      · rw [heq]
        exact ih s
      · rcases ih (s.observe p e) with heq' | hlt'
        · rw [heq']
          exact Or.inr hlt
        · exact Or.inr (Nat.lt_trans hlt hlt')

end observe

end JvmReach.Strategy
