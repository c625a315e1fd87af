import Std.Data.ExtTreeSet

/-!
# Closing a finite set under successors

`close next bound s` adds to `s` the successors of its members, round after
round, and stops at the first round that finds nothing new. A round looks at the
successors of the elements that the round before has found, its frontier, so
every element is looked at once. A round that does not stop adds at least one
element, so `bound` only has to exceed the number of elements that can be added;
the result is then the least set that holds `s` and every successor of its
members. The rounds only ever add, so the order in which successors are listed
has no effect on the result.
-/

namespace JvmReach.Closure

variable {α : Type} [Ord α] [Std.TransOrd α]

/-- The successors of the frontier that have not been met. -/
def discover (next : α → List α) (met : Std.ExtTreeSet α) (frontier : List α) :
    Std.ExtTreeSet α :=
  Std.ExtTreeSet.ofList ((frontier.flatMap next).filter fun a => !met.contains a)

/-- Goes on from what has been met so far, the frontier included. -/
def closeFrom (next : α → List α) : Nat → Std.ExtTreeSet α → List α → Std.ExtTreeSet α
  | 0, met, _ => met
  | bound + 1, met, frontier =>
      let found := discover next met frontier
      if found.isEmpty then met
      else closeFrom next bound (met.insertMany found.toList) found.toList

def close (next : α → List α) (bound : Nat) (s : Std.ExtTreeSet α) : Std.ExtTreeSet α :=
  closeFrom next bound s s.toList

theorem mem_discover [BEq α] [LawfulBEq α] [Std.LawfulBEqOrd α] (next : α → List α)
    (met : Std.ExtTreeSet α) (frontier : List α) (a : α) :
    a ∈ discover next met frontier ↔ (∃ b ∈ frontier, a ∈ next b) ∧ a ∉ met := by
  simp only [discover, Std.ExtTreeSet.mem_ofList, List.contains_iff_mem, List.mem_filter,
    List.mem_flatMap, Bool.not_eq_true', ← Bool.not_eq_true, Std.ExtTreeSet.contains_iff_mem]

theorem subset_closeFrom [BEq α] [Std.LawfulBEqOrd α] (next : α → List α) (bound : Nat)
    (met : Std.ExtTreeSet α) (frontier : List α) {a : α} (h : a ∈ met) :
    a ∈ closeFrom next bound met frontier := by
  induction bound generalizing met frontier with
  | zero => exact h
  | succ bound ih =>
      rw [closeFrom]
      split
      · exact h
      · exact ih _ _ (Std.ExtTreeSet.mem_insertMany_list.2 (Or.inl h))

theorem subset_close [BEq α] [Std.LawfulBEqOrd α] (next : α → List α) (bound : Nat)
    (s : Std.ExtTreeSet α) {a : α} (h : a ∈ s) : a ∈ close next bound s :=
  subset_closeFrom next bound s s.toList h

theorem forall_mem_closeFrom [BEq α] [LawfulBEq α] [Std.LawfulBEqOrd α]
    {next : α → List α} {p : α → Prop} (hnext : ∀ b, p b → ∀ a ∈ next b, p a)
    (bound : Nat) (met : Std.ExtTreeSet α) (frontier : List α) (hmet : ∀ a ∈ met, p a)
    (hfrontier : ∀ a ∈ frontier, p a) :
    ∀ a ∈ closeFrom next bound met frontier, p a := by
  induction bound generalizing met frontier with
  | zero => exact hmet
  | succ bound ih =>
      have hfound : ∀ a ∈ (discover next met frontier).toList, p a := fun a ha => by
        obtain ⟨⟨b, hb, h⟩, -⟩ :=
          (mem_discover next met frontier a).1 (Std.ExtTreeSet.mem_toList.1 ha)
        exact hnext b (hfrontier b hb) a h
      rw [closeFrom]
      split
      · exact hmet
      · refine ih _ _ (fun a ha => ?_) hfound
        rcases Std.ExtTreeSet.mem_insertMany_list.1 ha with h | h
        · exact hmet a h
        · exact hfound a (List.contains_iff_mem.1 h)

/-- What holds of `s` and passes from an element to its successors holds of the
whole closure. -/
theorem forall_mem_close [BEq α] [LawfulBEq α] [Std.LawfulBEqOrd α] {next : α → List α}
    {p : α → Prop} (hnext : ∀ b, p b → ∀ a ∈ next b, p a) (bound : Nat)
    (s : Std.ExtTreeSet α) (hs : ∀ a ∈ s, p a) : ∀ a ∈ close next bound s, p a :=
  forall_mem_closeFrom hnext bound s s.toList hs fun a ha =>
    hs a (Std.ExtTreeSet.mem_toList.1 ha)

end JvmReach.Closure
