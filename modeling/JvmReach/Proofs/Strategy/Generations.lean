import JvmReach.Proofs.Strategy.Events
import Mathlib.Data.Set.Card

/-!
# What generations tell

While a strategy is told of events, a type that it admits stays admitted, and as long as its
generation stays the same so does all that it admits: it is enough to compare two generations
to see that nothing is to be looked at again. Rapid type analysis admits the types that the
events construct, and its generation is their number.
-/

namespace JvmReach.Strategy

/-- The strategy of the algorithm after it was told of the events, one after the other. -/
def after (p : Program) (a : Algorithm) (events : List Event) : Strategy :=
  events.foldl (observe p) (ofAlgorithm a)

section after

variable (p : Program) (a : Algorithm) {first second events : List Event}

theorem admits_after_mono (hbefore : first <+: second) {type : TypeName}
    (htype : (after p a first).admits type = true) : (after p a second).admits type = true := by
  obtain ⟨rest, rfl⟩ := hbefore
  rw [after, List.foldl_append]
  exact (admits_foldl_observe p (after p a first) rest type).2 (Or.inl htype)

theorem after_eq_or_generation_lt (hbefore : first <+: second) :
    after p a second = after p a first ∨
      (after p a first).generation < (after p a second).generation := by
  obtain ⟨rest, rfl⟩ := hbefore
  rw [after, List.foldl_append]
  exact foldl_observe_eq_or_generation_lt p (after p a first) rest

theorem after_eq_of_generation_eq (hfirst : first <+: events) (hsecond : second <+: events)
    (hgeneration : (after p a first).generation = (after p a second).generation) :
    after p a first = after p a second := by
  rcases List.prefix_or_prefix_of_prefix hfirst hsecond with hbefore | hbefore
  · rcases after_eq_or_generation_lt p a hbefore with heq | hlt
    · exact heq.symm
    · exact absurd hgeneration hlt.ne
  · rcases after_eq_or_generation_lt p a hbefore with heq | hlt
    · exact heq
    · exact absurd hgeneration hlt.ne'

theorem admits_after_rta_iff (events : List Event) (type : TypeName) :
    (after p .rta events).admits type = true ↔ ∃ e ∈ events, e.Constructs p type := by
  rw [after, admits_foldl_observe, admits_ofAlgorithm, algorithm_ofAlgorithm]
  simp

end after

/-- The generation is the number of admitted types. -/
def Counted (s : Strategy) : Prop := {type | s.admits type = true}.encard = s.generation

namespace Counted

variable {s : Strategy}

theorem onInstantiation (hs : s.Counted) (hrta : s.algorithm = .rta) (type : TypeName) :
    (s.onInstantiation type).Counted := by
  cases hnews : s.isNews type with
  | false => rwa [onInstantiation_of_not_isNews hnews]
  | true =>
      have hnew : type ∉ {other | s.admits other = true} := by
        simpa using (s.isNews_iff type).1 hnews
      have hadmitted : {other | (s.onInstantiation type).admits other = true} =
          insert type {other | s.admits other = true} := by
        ext other
        show (s.onInstantiation type).admits other = true ↔
          other = type ∨ s.admits other = true
        rw [admits_onInstantiation, or_comm, and_iff_right hrta, eq_comm]
      rw [Counted, hadmitted, Set.encard_insert_of_notMem hnew, hs, generation_onInstantiation,
        if_pos hnews, Nat.cast_add, Nat.cast_one]

theorem observe (hs : s.Counted) (hrta : s.algorithm = .rta) (p : Program) (e : Event) :
    (s.observe p e).Counted := by
  obtain ⟨type, -, heq⟩ | ⟨-, heq⟩ := observe_cases p s e
  · rw [heq]
    exact hs.onInstantiation hrta type
  · rwa [heq]

theorem foldl_observe (hs : s.Counted) (hrta : s.algorithm = .rta) (p : Program)
    (events : List Event) : (events.foldl (Strategy.observe p) s).Counted := by
  induction events generalizing s with
  | nil => exact hs
  | cons e rest ih =>
      exact ih (hs.observe hrta p e) ((algorithm_observe p s e).trans hrta)

end Counted

theorem counted_ofAlgorithm_rta : (ofAlgorithm .rta).Counted := by
  simp [Counted, ofAlgorithm, admits, generation]

/-- What is admitted stays admitted, and points of a sequence of events at which the generation
is the same admit the same types. Rapid type analysis admits what the events construct, and its
generation counts the admitted types. -/
theorem admits_after_exact (p : Program) (a : Algorithm) (events : List Event) :
    (∀ first second, first <+: second → second <+: events → ∀ type,
      (after p a first).admits type = true → (after p a second).admits type = true) ∧
    (∀ first second, first <+: events → second <+: events →
      (after p a first).generation = (after p a second).generation →
      ∀ type, (after p a first).admits type = (after p a second).admits type) ∧
    (∀ type, (after p .rta events).admits type = true ↔ ∃ e ∈ events, e.Constructs p type) ∧
    {type | (after p .rta events).admits type = true}.encard =
      (after p .rta events).generation := by
  refine ⟨?_, ?_, admits_after_rta_iff p events, ?_⟩
  · intro first second hbefore _ type htype
    exact admits_after_mono p a hbefore htype
  · intro first second hfirst hsecond hgeneration type
    rw [after_eq_of_generation_eq p a hfirst hsecond hgeneration]
  · exact counted_ofAlgorithm_rta.foldl_observe (algorithm_ofAlgorithm .rta) p events

/-- A class with a constructor and another method. -/
def workshop : Program where
  index := Program.indexOf [
    { name := "Tool", methods := [
      { name := "<init>", descriptor := "()V" }, { name := "use", descriptor := "()V" }] }]
  name_eq_of_getElem? := Program.name_eq_of_getElem?_indexOf _

/-- A type that the program lacks is constructed twice, and entry points that are no
constructors, or none that is declared, come before one that is. -/
def heard : List Event :=
  [.entry ⟨"Tool", "use", "()V"⟩, .construction "Missing", .entry ⟨"Tool", "<init>", "(I)V"⟩,
    .construction "Missing", .entry ⟨"Tool", "<init>", "()V"⟩, .construction "Tool"]

theorem admits_after_exact_workshop :
    (after workshop .rta (heard.take 2)).generation = 1 ∧
    (after workshop .rta (heard.take 4)).generation = 1 ∧
    (after workshop .rta heard).generation = 2 ∧
    (∀ type, (after workshop .rta (heard.take 2)).admits type =
      (after workshop .rta (heard.take 4)).admits type) ∧
    (after workshop .rta heard).admits "Missing" = true := by
  have htwo : (after workshop .rta (heard.take 2)).generation = 1 := by decide +kernel
  have hfour : (after workshop .rta (heard.take 4)).generation = 1 := by decide +kernel
  have hall : (after workshop .rta heard).generation = 2 := by decide +kernel
  have hmissing : (after workshop .rta (heard.take 2)).admits "Missing" = true := by
    decide +kernel
  obtain ⟨hstays, hsame, -, -⟩ := admits_after_exact workshop .rta heard
  refine ⟨htwo, hfour, hall, ?_, ?_⟩
  · exact hsame (heard.take 2) (heard.take 4) (List.take_prefix 2 heard)
      (List.take_prefix 4 heard) (htwo.trans hfour.symm)
  · exact hstays (heard.take 2) heard (List.take_prefix 2 heard) List.prefix_rfl "Missing" hmissing

end JvmReach.Strategy
