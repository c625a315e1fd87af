import JvmReach.Proofs.Construction.Initial
import JvmReach.Proofs.Program.Declarations

/-!
# Constructions finish

The bound on the number of turns is never what ends a construction. Processing a
method takes it from the methods that are left, resolving a site again shortens
the pass, and a pass starts only when a receiver type has been admitted since the
latest one. `work` adds these up: each observation admits at most one type and
opens at most one site, and no method is processed twice, so it starts below the
bound, and every turn makes it less.
-/

namespace JvmReach.Construction

/-- The dispatching sites and the types admitted since `start` are no more than the
observations of the methods that have been taken up. -/
structure Bounded (h : Hierarchy) (start : Nat) (s : State) : Prop where
  virtualSites : s.virtualSites.length ≤ h.program.observationCount s.processed
  generation : s.strategy.generation ≤ start + h.program.observationCount s.processed

/-- The turns that may be left to take. -/
def work (h : Hierarchy) (entries : List MethodRef) (start : Nat) (s : State) : Nat :=
  (entries.length + h.program.methodCount - s.processed.length) + s.sweep.length +
    (start + h.program.instructionCount - s.resolvedAt) * (h.program.instructionCount + 1)

/-- Nothing is left to do, and nothing has been admitted since the latest pass. -/
structure Finished (s : State) : Prop where
  sweep : s.sweep = []
  pending : s.pending = []
  generation : s.strategy.generation = s.resolvedAt

theorem Bounded.advance {h : Hierarchy} {o : Options} {entries : List MethodRef}
    {start elapsed : Nat} {s s' : State} (hwf : WellFormed h entries s)
    (hs : Bounded h start s) (hadvance : s.advance h o elapsed = .continued s') :
    Bounded h start s' := by
  rcases State.continued_cases hadvance with ⟨site, rest, hsweep, hok⟩ |
    ⟨m, rest, -, -, hok⟩ | ⟨-, -, -, log, rfl⟩
  · have hadds := State.adds_revisit_next hwf.swept hsweep hok
    constructor
    · rw [hadds.processed]
      exact hadds.virtualSites.trans hs.virtualSites
    · rw [hadds.processed]
      exact hadds.generation.trans hs.generation
  · have hadds := State.adds_process (by simp) hok
    have hprocessed : s'.processed = s.processed ++ [m] := hadds.processed
    constructor
    · rw [hprocessed, Program.observationCount_append_singleton]
      exact hadds.virtualSites.trans (Nat.add_le_add_right hs.virtualSites _)
    · rw [hprocessed, Program.observationCount_append_singleton, ← Nat.add_assoc]
      exact hadds.generation.trans (Nat.add_le_add_right hs.generation _)
  · exact ⟨hs.virtualSites, hs.generation⟩

namespace WellFormed

variable {h : Hierarchy} {entries : List MethodRef} {s : State}

theorem nodup_processed (hs : WellFormed h entries s) : s.processed.Nodup :=
  (List.nodup_append.1 hs.listed.nodup).1

theorem length_processed_le (hs : WellFormed h entries s) :
    s.processed.length ≤ entries.length + h.program.methodCount := by
  apply h.program.length_le_of_declares entries hs.nodup_processed
  intro m hm
  exact hs.declared m ((hs.listed.mem_iff m).1 (List.mem_append_left _ hm))

theorem observationCount_le (hs : WellFormed h entries s) :
    h.program.observationCount s.processed ≤ h.program.instructionCount :=
  h.program.observationCount_le hs.nodup_processed

end WellFormed

/-- Every turn leaves less to do. -/
theorem work_lt_of_continued {h : Hierarchy} {o : Options} {entries : List MethodRef}
    {start elapsed : Nat} {s s' : State} (hwf : WellFormed h entries s)
    (hs : Bounded h start s) (hadvance : s.advance h o elapsed = .continued s') :
    work h entries start s' < work h entries start s := by
  have hwf' := (State.steps_of_continued hwf.swept hadvance).wellFormed hwf
  have hprocessed := hwf'.length_processed_le
  have hcount := hwf.observationCount_le
  rcases State.continued_cases hadvance with ⟨site, rest, hsweep, hok⟩ |
    ⟨m, rest, hsweep, -, hok⟩ | ⟨hsweep, -, hnews, log, rfl⟩
  · have hadds := State.adds_revisit_next hwf.swept hsweep hok
    have hprocessed : s'.processed = s.processed := hadds.processed
    have hsweep' : s'.sweep = rest := hadds.sweep
    have hresolvedAt : s'.resolvedAt = s.resolvedAt := hadds.resolvedAt
    rw [work, work, hprocessed, hsweep', hresolvedAt, hsweep, List.length_cons]
    omega
  · have hadds := State.adds_process (by simp) hok
    have htaken : s'.processed.length = s.processed.length + 1 := by
      rw [hadds.processed, List.length_append, List.length_singleton]
    have hsweep' : s'.sweep = s.sweep := hadds.sweep
    have hresolvedAt : s'.resolvedAt = s.resolvedAt := hadds.resolvedAt
    rw [work, work, hsweep', hresolvedAt]
    omega
  · -- the new pass costs at most one round of all sites, and a generation pays for it
    have hvirtual := hs.virtualSites
    have hgeneration := hs.generation
    have hpaced : s.resolvedAt ≤ s.strategy.generation := hwf.paced
    obtain ⟨spent, hspent⟩ : ∃ spent, start + h.program.instructionCount - s.resolvedAt =
        start + h.program.instructionCount - s.strategy.generation + spent + 1 :=
      ⟨s.strategy.generation - s.resolvedAt - 1, by omega⟩
    simp only [work, hsweep, hspent, List.length_nil, Nat.add_mul, Nat.one_mul]
    omega

theorem finished_of_run {h : Hierarchy} {o : Options} {entries : List MethodRef}
    {start : Nat} (clock : Nat → Nat) (turns k : Nat) {s s' : State}
    (hwf : WellFormed h entries s) (hs : Bounded h start s)
    (hturns : work h entries start s < turns) (hrun : run h o clock turns k s = .ok s') :
    Finished s' := by
  induction turns generalizing k s with
  | zero => exact absurd hturns (Nat.not_lt_zero _)
  | succ turns ih =>
      rw [run] at hrun
      cases hadvance : s.advance h o (clock k) with
      | continued s₁ =>
          rw [hadvance] at hrun
          have hless := work_lt_of_continued hwf hs hadvance
          have hwf₁ := (State.steps_of_continued hwf.swept hadvance).wellFormed hwf
          exact ih (k + 1) hwf₁ (hs.advance hwf hadvance) (by omega) hrun
      | finished s₁ =>
          rw [hadvance] at hrun
          cases hrun
          obtain ⟨rfl, hsweep, hpending, hgeneration⟩ := State.finished_cases hadvance
          exact ⟨hsweep, hpending, hgeneration⟩
      | halted halt =>
          rw [hadvance] at hrun
          cases hrun

theorem work_initial_lt (h : Hierarchy) (strategy : Strategy) (entries : List MethodRef) :
    work h entries (initial h strategy entries).strategy.generation
      (initial h strategy entries) < turnBound h entries := by
  have hsweep : (initial h strategy entries).sweep = [] := by
    obtain ⟨_, _, _, _, heq⟩ := initial_eq h strategy entries
    rw [heq]
  rw [work, turnBound, processed_initial, hsweep, resolvedAt_initial, Nat.add_sub_cancel_left]
  simp only [List.length_nil, Nat.sub_zero, Nat.add_zero, Nat.add_lt_add_iff_left]
  exact Nat.mul_lt_mul_of_lt_of_lt (by omega) (by omega)

theorem bounded_initial (h : Hierarchy) (strategy : Strategy) (entries : List MethodRef) :
    Bounded h (initial h strategy entries).strategy.generation (initial h strategy entries) := by
  constructor
  · obtain ⟨_, _, _, _, heq⟩ := initial_eq h strategy entries
    simp [heq]
  · exact Nat.le_add_right _ _

/-- A construction that is not interrupted comes to its end within the bound. -/
theorem finished_of_eq_ok {h : Hierarchy} {o : Options} {clock : Nat → Nat}
    {strategy : Strategy} {entries : List MethodRef} {s : State}
    (hrun : run h o clock (turnBound h entries) 0 (initial h strategy entries) = .ok s) :
    Finished s :=
  finished_of_run clock _ 0 (wellFormed_initial h strategy entries)
    (bounded_initial h strategy entries) (work_initial_lt h strategy entries) hrun

end JvmReach.Construction
