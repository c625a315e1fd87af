import JvmReach.Proofs.Load.Entries
import Mathlib.Data.Nat.Digits.Defs
import Mathlib.Order.Interval.Finset.Nat

/-!
# The expansion of a class path ends

Expansion works off a queue: a path that has been met is passed over, any other is met, and its
references go to the end of the queue. A path that leads somewhere is not too long, so there
are fewer of these than the bound of the expansion, and the bound is never used up. Whatever
archives refer to each other, the expansion ends, and the bound has no say in its outcome.
-/

namespace JvmReach.Load

open Files

section PathCount

variable {fs : FileSystem} {p q : Path}

theorem utf8ByteSize_le_of_contains (h : fs.contains p = true) :
    p.text.utf8ByteSize ≤ FileSystem.maxPathSize := by
  by_contra hsize
  have hstart : ∃ e, fs.start p = .error e := by
    unfold FileSystem.start
    split
    · exact ⟨_, rfl⟩
    · rw [if_pos (Nat.lt_of_not_le hsize)]
      exact ⟨_, rfl⟩
  obtain ⟨e, he⟩ := hstart
  rw [FileSystem.contains, FileSystem.lookup, FileSystem.resolve, he] at h
  cases h

/-- The bytes of a path as the digits of a number, with a leading one. -/
def pathDigits (p : Path) : List Nat :=
  p.text.toByteArray.data.toList.map UInt8.toNat ++ [1]

def pathNumber (p : Path) : Nat := Nat.ofDigits 256 (pathDigits p)

theorem lt_of_mem_pathDigits : ∀ d ∈ pathDigits p, d < 256 := by
  intro d hd
  rcases List.mem_append.1 hd with hd | hd
  · obtain ⟨b, -, rfl⟩ := List.mem_map.1 hd
    exact b.toNat_lt
  · rw [List.mem_singleton.1 hd]
    decide

theorem digits_pathNumber (p : Path) : Nat.digits 256 (pathNumber p) = pathDigits p := by
  apply Nat.digits_ofDigits 256 (by decide) _ lt_of_mem_pathDigits
  intro hne
  simp [pathDigits]

theorem pathNumber_injective : Function.Injective pathNumber := by
  intro p q h
  have hdigits : pathDigits p = pathDigits q := by
    rw [← digits_pathNumber, h, digits_pathNumber]
  have hbytes : p.text.toByteArray.data.toList = q.text.toByteArray.data.toList :=
    List.map_injective_iff.2 (fun _ _ => UInt8.toNat_inj.1) (List.append_cancel_right hdigits)
  have htext : p.text = q.text :=
    String.toByteArray_inj.1 (ByteArray.ext (Array.toList_inj.1 hbytes))
  cases p
  cases htext
  rfl

theorem length_pathDigits (p : Path) : (pathDigits p).length = p.text.utf8ByteSize + 1 := by
  rw [pathDigits, List.length_append, List.length_map, Array.length_toList]
  rfl

theorem pow_le_pathCount {size : Nat} (h : size ≤ FileSystem.maxPathSize) :
    256 ^ (size + 1) ≤ pathCount := by
  unfold pathCount
  generalize FileSystem.maxPathSize = greatest at h
  exact Nat.pow_le_pow_right (by decide) (Nat.succ_le_succ h)

theorem pathNumber_lt (h : fs.contains p = true) : pathNumber p < pathCount := by
  have hlt := Nat.ofDigits_lt_base_pow_length (by decide : 1 < 256) (lt_of_mem_pathDigits (p := p))
  rw [length_pathDigits] at hlt
  exact Nat.lt_of_lt_of_le hlt (pow_le_pathCount (utf8ByteSize_le_of_contains h))

theorem pathNumber_pos (p : Path) : 0 < pathNumber p := by
  apply Nat.pos_of_ne_zero
  intro h
  have hdigits := digits_pathNumber p
  rw [h, Nat.digits_zero] at hdigits
  simp [pathDigits] at hdigits

/-- There are fewer paths that lead somewhere than the bound. -/
theorem length_lt_pathCount {met : List Path} (hnodup : met.Nodup)
    (hmet : ∀ p ∈ met, fs.contains p = true) : met.length < pathCount := by
  have hnumbers : (0 :: met.map pathNumber).Nodup := by
    rw [List.nodup_cons]
    refine ⟨?_, hnodup.map pathNumber_injective⟩
    intro hmem
    obtain ⟨p, -, hp⟩ := List.mem_map.1 hmem
    exact Nat.ne_of_gt (pathNumber_pos p) hp
  have hsubset : (0 :: met.map pathNumber).toFinset ⊆ Finset.range pathCount := by
    intro n hn
    rw [Finset.mem_range]
    rcases List.mem_cons.1 (List.mem_toFinset.1 hn) with rfl | hn
    · exact pathCount_pos
    · obtain ⟨p, hp, rfl⟩ := List.mem_map.1 hn
      exact pathNumber_lt (hmet p hp)
  have hcard := Finset.card_le_card hsubset
  rw [List.toFinset_card_of_nodup hnumbers, Finset.card_range, List.length_cons,
    List.length_map] at hcard
  exact hcard

end PathCount

/-- How a queue is worked off beside the paths that have been met: a path that has been met is
passed over; any other is met, and its references go to the end of the queue. -/
inductive Expands (fs : FileSystem) : List Path → List Path → Except LoadError (List Path) → Prop
  | done {met : List Path} : Expands fs met [] (.ok [])
  | skip {met rest : List Path} {p : Path} {outcome : Except LoadError (List Path)}
      (hp : p ∈ met) (h : Expands fs met rest outcome) : Expands fs met (p :: rest) outcome
  | meet {met rest found : List Path} {p : Path} {outcome : Except LoadError (List Path)}
      (hp : p ∉ met) (hfound : references fs p = .ok found)
      (h : Expands fs (met ++ [p]) (rest ++ found) outcome) :
      Expands fs met (p :: rest) (outcome.map (p :: ·))
  | stop {met rest : List Path} {p : Path} {cause : LoadError}
      (hp : p ∉ met) (hfail : references fs p = .error cause) :
      Expands fs met (p :: rest) (.error cause)

variable {fs : FileSystem} {p : Path} {met queue found : List Path}
  {outcome outcome' : Except LoadError (List Path)}

theorem Expands.unique (h : Expands fs met queue outcome) (h' : Expands fs met queue outcome') :
    outcome = outcome' := by
  induction h generalizing outcome' with
  | done =>
      cases h'
      rfl
  | skip hp _ ih =>
      cases h' with
      | skip _ h' => exact ih h'
      | meet hp' _ _ => exact absurd hp hp'
      | stop hp' _ => exact absurd hp hp'
  | meet hp hfound _ ih =>
      cases h' with
      | skip hp' _ => exact absurd hp' hp
      | meet _ hfound' h' =>
          cases hfound.symm.trans hfound'
          rw [ih h']
      | stop _ hfail => cases hfound.symm.trans hfail
  | stop hp hfail =>
      cases h' with
      | skip hp' _ => exact absurd hp' hp
      | meet _ hfound _ => cases hfail.symm.trans hfound
      | stop _ hfail' =>
          cases hfail.symm.trans hfail'
          rfl

theorem expands_of_dropWhile {known : Std.ExtTreeSet Path} (hknown : ∀ p, p ∈ known → p ∈ met)
    (h : Expands fs met (queue.dropWhile known.contains) outcome) :
    Expands fs met queue outcome := by
  induction queue with
  | nil => exact h
  | cons p rest ih =>
      by_cases hp : known.contains p = true
      · rw [List.dropWhile_cons_of_pos hp] at h
        exact .skip (hknown p (Std.ExtTreeSet.contains_iff_mem.1 hp)) (ih h)
      · rwa [List.dropWhile_cons_of_neg hp] at h

theorem contains_of_references (h : references fs p = .ok found) : fs.contains p = true := by
  unfold references at h
  split at h
  · cases h
  · next hp => simpa using hp

/-- The bound is above the number of paths that can still be met, so it is not used up. -/
theorem expands_expandQueue {bound : Nat} {known : Std.ExtTreeSet Path}
    (hknown : ∀ p, p ∈ known ↔ p ∈ met) (hnodup : met.Nodup)
    (hmet : ∀ p ∈ met, fs.contains p = true) (hbound : pathCount ≤ met.length + bound) :
    Expands fs met queue (expandQueue fs bound known queue) := by
  induction bound generalizing known met queue with
  | zero => exact absurd (length_lt_pathCount hnodup hmet) (Nat.not_lt.2 hbound)
  | succ bound ih =>
      apply expands_of_dropWhile (fun p => (hknown p).1)
      rw [expandQueue]
      split
      · next hempty =>
          rw [hempty]
          exact .done
      · next p rest hrest =>
          rw [hrest]
          have hne : queue.dropWhile known.contains ≠ [] := by
            rw [hrest]
            exact List.cons_ne_nil _ _
          have hcontains := List.head_dropWhile_not known.contains hne
          simp only [hrest, List.head_cons] at hcontains
          have hp : p ∉ met := by
            rw [← hknown, ← Std.ExtTreeSet.contains_iff_mem, hcontains]
            exact Bool.false_ne_true
          cases hfound : references fs p with
          | error cause => exact .stop hp hfound
          | ok found =>
              refine .meet hp hfound (ih ?_ ?_ ?_ ?_)
              · intro q
                rw [Std.ExtTreeSet.mem_insert, Std.LawfulEqOrd.compare_eq_iff_eq, hknown,
                  List.mem_append, List.mem_singleton, or_comm, eq_comm]
              · rw [List.nodup_append]
                refine ⟨hnodup, List.nodup_singleton p, ?_⟩
                rintro q hq _ hp' rfl
                exact hp (List.mem_singleton.1 hp' ▸ hq)
              · intro q hq
                rcases List.mem_append.1 hq with hq | hq
                · exact hmet q hq
                · rw [List.mem_singleton.1 hq]
                  exact contains_of_references hfound
              · rwa [List.length_append, List.length_singleton, Nat.add_assoc, Nat.add_comm 1]

/-- The expansion ends, and it ends as the queue is worked off without any bound. -/
theorem expands_iff {entries : List Path} :
    Expands fs [] entries outcome ↔ outcome = expand fs entries := by
  have hexpand : Expands fs [] entries (expand fs entries) := by
    have hbound : pathCount ≤ ([] : List Path).length + pathCount := by
      rw [List.length_nil, Nat.zero_add]
    refine expands_expandQueue ?_ List.nodup_nil ?_ hbound
    · exact fun p => iff_of_false Std.ExtTreeSet.not_mem_empty List.not_mem_nil
    · exact fun p hp => absurd hp List.not_mem_nil
  constructor
  · intro h
    exact h.unique hexpand
  · intro h
    rw [h]
    exact hexpand

end JvmReach.Load
