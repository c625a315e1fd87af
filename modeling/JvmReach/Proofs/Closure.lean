import JvmReach.Closure
import Mathlib.Data.List.Basic
import Mathlib.Logic.Relation

/-!
# What a closure holds

Between two rounds every element that has been met is closed under successors, unless it is
on the frontier. A round that finds nothing closes the frontier too and is the last one.
Every other round meets an element of the domain that successors are drawn from, so a
bound above the size of the domain is never used up. The closure therefore holds just
what is reached from the start.
-/

namespace JvmReach.Closure

variable {α : Type} [Ord α] [Std.TransOrd α]

/-- The part of the domain that has not been met. -/
def unmet (domain : List α) (met : Std.ExtTreeSet α) : List α :=
  domain.filter fun a => !met.contains a

theorem length_unmet_lt (domain : List α) {met met' : Std.ExtTreeSet α}
    (hle : ∀ a ∈ met, a ∈ met') {new : α} (hnew : new ∈ domain) (hout : new ∉ met)
    (hin : new ∈ met') : (unmet domain met').length < (unmet domain met).length := by
  have hsub : unmet domain met' = (unmet domain met).filter fun a => !met'.contains a := by
    rw [unmet, unmet, List.filter_filter]
    apply List.filter_congr
    intro a _
    by_cases ha : a ∈ met
    · simp [Std.ExtTreeSet.contains_iff_mem.2 ha, Std.ExtTreeSet.contains_iff_mem.2 (hle a ha)]
    · have hcontains : met.contains a = false :=
        Bool.eq_false_iff.2 fun hmem => ha (Std.ExtTreeSet.contains_iff_mem.1 hmem)
      simp [hcontains]
  have hmem : new ∈ unmet domain met := by
    rw [unmet, List.mem_filter, Bool.not_eq_true', ← Bool.not_eq_true,
      Std.ExtTreeSet.contains_iff_mem]
    exact ⟨hnew, hout⟩
  rw [hsub, List.length_filter_lt_length_iff_exists]
  exact ⟨new, hmem, by simpa using hin⟩

variable [BEq α] [LawfulBEq α] [Std.LawfulBEqOrd α]

/-- What is kept from round to round: what has been met is closed, but for the frontier. -/
structure Explored (next : α → List α) (met : Std.ExtTreeSet α) (frontier : List α) : Prop where
  mem_met : ∀ a ∈ frontier, a ∈ met
  closed : ∀ b ∈ met, b ∉ frontier → ∀ a ∈ next b, a ∈ met

/-- The frontier of the next round is all that it does not close. -/
theorem Explored.round {next : α → List α} {met : Std.ExtTreeSet α} {frontier : List α}
    (h : Explored next met frontier) :
    Explored next (met.insertMany (discover next met frontier).toList)
      (discover next met frontier).toList where
  mem_met a ha := Std.ExtTreeSet.mem_insertMany_list.2 (Or.inr (List.contains_iff_mem.2 ha))
  closed b hb hnew a ha := by
    have hb : b ∈ met := by
      rcases Std.ExtTreeSet.mem_insertMany_list.1 hb with hb | hb
      · exact hb
      · exact absurd (List.contains_iff_mem.1 hb) hnew
    apply Std.ExtTreeSet.mem_insertMany_list.2
    by_cases hmet : a ∈ met
    · exact Or.inl hmet
    · by_cases hfrontier : b ∈ frontier
      · right
        rw [List.contains_iff_mem, Std.ExtTreeSet.mem_toList, mem_discover]
        exact ⟨⟨b, hfrontier, ha⟩, hmet⟩
      · exact Or.inl (h.closed b hb hfrontier a ha)

/-- Once the bound exceeds what is left to meet, the closure is closed. -/
theorem closed_closeFrom {next : α → List α} {domain : List α}
    (hnext : ∀ b, ∀ a ∈ next b, a ∈ domain) {bound : Nat} {met : Std.ExtTreeSet α}
    {frontier : List α} (h : Explored next met frontier)
    (hbound : (unmet domain met).length < bound) :
    ∀ b ∈ closeFrom next bound met frontier, ∀ a ∈ next b,
      a ∈ closeFrom next bound met frontier := by
  induction bound generalizing met frontier with
  | zero => omega
  | succ bound ih =>
      rw [closeFrom]
      split
      · next hempty =>
          intro b hb a ha
          by_cases hfrontier : b ∈ frontier
          · by_contra hmet
            have hfound := (mem_discover next met frontier a).2 ⟨⟨b, hfrontier, ha⟩, hmet⟩
            rw [Std.ExtTreeSet.isEmpty_iff.1 hempty] at hfound
            exact Std.ExtTreeSet.not_mem_empty hfound
          · exact h.closed b hb hfrontier a ha
      · next hempty =>
          apply ih h.round
          have hne : (discover next met frontier).toList ≠ [] := by
            simpa [Std.ExtTreeSet.isEmpty_toList] using hempty
          obtain ⟨new, hnew⟩ := List.exists_mem_of_ne_nil _ hne
          obtain ⟨⟨b, -, hb⟩, hout⟩ :=
            (mem_discover next met frontier new).1 (Std.ExtTreeSet.mem_toList.1 hnew)
          have hlt := length_unmet_lt domain
            (fun a ha => Std.ExtTreeSet.mem_insertMany_list.2 (Or.inl ha)) (hnext b new hb) hout
            (h.round.mem_met new hnew)
          omega

/-- A closure holds what is reached from the start along successors. -/
theorem mem_close_iff {next : α → List α} {domain : List α}
    (hnext : ∀ b, ∀ a ∈ next b, a ∈ domain) {bound : Nat} (hbound : domain.length < bound)
    (s : Std.ExtTreeSet α) (a : α) :
    a ∈ close next bound s ↔ ∃ b ∈ s, Relation.ReflTransGen (fun b a => a ∈ next b) b a := by
  constructor
  · refine forall_mem_close (p := fun a => ∃ b ∈ s, Relation.ReflTransGen _ b a) ?_ bound s ?_ a
    · rintro b ⟨start, hstart, hb⟩ a ha
      exact ⟨start, hstart, hb.tail ha⟩
    · intro a ha
      exact ⟨a, ha, .refl⟩
  · rintro ⟨b, hb, hpath⟩
    have hexplored : Explored next s s.toList :=
      ⟨fun a ha => Std.ExtTreeSet.mem_toList.1 ha,
        fun b hb hnew => absurd (Std.ExtTreeSet.mem_toList.2 hb) hnew⟩
    have hlength : (unmet domain s).length < bound :=
      Nat.lt_of_le_of_lt (List.length_filter_le _ _) hbound
    induction hpath with
    | refl => exact subset_close next bound s hb
    | tail _ ha ih => exact closed_closeFrom hnext hexplored hlength _ ih _ ha

end JvmReach.Closure
