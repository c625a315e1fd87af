import JvmReach.Program.Basic
import Mathlib.Data.List.Nodup

/-!
# Line tables

A line is looked up in a table that has been put in order. What is found does not depend on
the order in which the entries were listed: it is the line of the entry that covers the
offset, the last one among those with the greatest start at or before it. Sorting keeps the
order of entries that start together, so the last of them in the listing is also the last in
the table.
-/

namespace JvmReach

/-- The same entries, by increasing start; those that start together keep their order. -/
structure StablySorted (listing table : List LineEntry) : Prop where
  perm : table.Perm listing
  sorted : table.Pairwise fun x y => x.startPc ≤ y.startPc
  ties : ∀ start, table.filter (·.startPc = start) = listing.filter (·.startPc = start)

/-- Of the entries that start at or before the offset, `e` is the last one listed among those
with the greatest start. -/
structure Covers (listing : List LineEntry) (offset : Nat) (e : LineEntry) : Prop where
  starts : e.startPc ≤ offset
  greatest : ∀ x ∈ listing, x.startPc ≤ offset → x.startPc ≤ e.startPc
  last : (listing.filter (·.startPc = e.startPc)).getLast? = some e

/-- The method finds the lines of the entries that were listed for it, if it has a body. -/
structure Method.ReadsLines (m : Method) (listing? : Option (List LineEntry)) : Prop where
  body : m.body? = none ↔ listing? = none
  line : ∀ offset line, m.line? offset = some line ↔
    ∃ listing, listing? = some listing ∧ ∃ e, Covers listing offset e ∧ e.line = line
  noLine : ∀ offset, m.line? offset = none ↔
    m.body? = none ∨ ∃ listing, listing? = some listing ∧ ∀ e ∈ listing, offset < e.startPc

/-- The same entries in whatever order, no two of which start together, or none for want of a
body. -/
inductive SameEntries : Option (List LineEntry) → Option (List LineEntry) → Prop
  | none : SameEntries none none
  | some {listing listing' : List LineEntry} (hperm : listing.Perm listing')
      (hdistinct : (listing.map LineEntry.startPc).Nodup) :
      SameEntries (some listing) (some listing')

variable {listing listing' table : List LineEntry} {offset : Nat} {e e' : LineEntry}

namespace Covers

theorem mem (h : Covers listing offset e) : e ∈ listing :=
  List.mem_of_mem_filter (List.mem_of_mem_getLast? h.last)

theorem unique (h : Covers listing offset e) (h' : Covers listing offset e') : e = e' := by
  have hstart : e.startPc = e'.startPc :=
    Nat.le_antisymm (h'.greatest e h.mem h.starts) (h.greatest e' h'.mem h'.starts)
  have hlast := h'.last
  rw [← hstart, h.last] at hlast
  exact Option.some.inj hlast

end Covers

theorem filter_eq_singleton_of_nodup (hnodup : (listing.map LineEntry.startPc).Nodup)
    (he : e ∈ listing) : listing.filter (·.startPc = e.startPc) = [e] := by
  induction listing with
  | nil => cases he
  | cons x rest ih =>
      rw [List.map_cons, List.nodup_cons] at hnodup
      rcases List.mem_cons.1 he with rfl | he
      · have hrest : rest.filter (·.startPc = e.startPc) = [] := by
          apply List.filter_eq_nil_iff.2
          intro y hy hstart
          exact hnodup.1 (of_decide_eq_true hstart ▸ List.mem_map_of_mem hy)
        rw [List.filter_cons_of_pos (by simp), hrest]
      · have hne : x.startPc ≠ e.startPc := by
          intro hstart
          exact hnodup.1 (hstart ▸ List.mem_map_of_mem he)
        rw [List.filter_cons_of_neg (by simpa using hne), ih hnodup.2 he]

/-- Where no two entries start together, it does not matter how they are listed. -/
theorem Covers.of_perm (h : Covers listing offset e) (hperm : listing.Perm listing')
    (hnodup : (listing.map LineEntry.startPc).Nodup) : Covers listing' offset e where
  starts := h.starts
  greatest x hx := h.greatest x (hperm.mem_iff.2 hx)
  last := by
    have hnodup' : (listing'.map LineEntry.startPc).Nodup := (hperm.map _).nodup_iff.1 hnodup
    rw [filter_eq_singleton_of_nodup hnodup' (hperm.mem_iff.1 h.mem)]
    rfl

/-- In a table that is in order, the entries before the first one past the offset are all
those that do not start past it. -/
theorem takeWhile_eq_filter (hsorted : table.Pairwise fun x y => x.startPc ≤ y.startPc) :
    table.takeWhile (·.startPc ≤ offset) = table.filter (·.startPc ≤ offset) := by
  induction table with
  | nil => rfl
  | cons x rest ih =>
      rw [List.pairwise_cons] at hsorted
      by_cases hx : x.startPc ≤ offset
      · rw [List.takeWhile_cons_of_pos (by simpa using hx),
          List.filter_cons_of_pos (by simpa using hx), ih hsorted.2]
      · have hrest : rest.filter (·.startPc ≤ offset) = [] := by
          apply List.filter_eq_nil_iff.2
          intro y hy hstarts
          exact hx (Nat.le_trans (hsorted.1 y hy) (of_decide_eq_true hstarts))
        rw [List.takeWhile_cons_of_neg (by simpa using hx),
          List.filter_cons_of_neg (by simpa using hx), hrest]

namespace StablySorted

/-- The last entry that does not start past the offset covers it. -/
theorem covers_of_getLast? (h : StablySorted listing table)
    (he : (table.takeWhile (·.startPc ≤ offset)).getLast? = some e) :
    Covers listing offset e := by
  rw [takeWhile_eq_filter h.sorted] at he
  obtain ⟨before, hbefore⟩ := List.getLast?_eq_some_iff.1 he
  have hmem : ∀ x, x ∈ before ++ [e] ↔ x ∈ listing ∧ x.startPc ≤ offset := by
    intro x
    rw [← hbefore, List.mem_filter, h.perm.mem_iff, decide_eq_true_iff]
  have hstarts : e.startPc ≤ offset := ((hmem e).1 (by simp)).2
  have hsorted : (before ++ [e]).Pairwise fun x y => x.startPc ≤ y.startPc :=
    hbefore ▸ h.sorted.filter _
  refine ⟨hstarts, ?_, ?_⟩
  · intro x hx hxstarts
    rcases List.mem_append.1 ((hmem x).2 ⟨hx, hxstarts⟩) with hx | hx
    · exact (List.pairwise_append.1 hsorted).2.2 x hx e (by simp)
    · exact Nat.le_of_eq (congrArg LineEntry.startPc (List.mem_singleton.1 hx))
  · have hties : table.filter (·.startPc = e.startPc) =
        (table.filter (·.startPc ≤ offset)).filter (·.startPc = e.startPc) := by
      rw [List.filter_filter]
      refine List.filter_congr fun x _ => ?_
      by_cases hx : x.startPc = e.startPc <;> simp [hx, hstarts]
    rw [← h.ties, hties, hbefore, List.filter_append]
    simp

theorem getLast?_eq_some_iff (h : StablySorted listing table) :
    (table.takeWhile (·.startPc ≤ offset)).getLast? = some e ↔ Covers listing offset e := by
  refine ⟨h.covers_of_getLast?, fun he => ?_⟩
  have hmem : e ∈ table.takeWhile (·.startPc ≤ offset) := by
    rw [takeWhile_eq_filter h.sorted]
    exact List.mem_filter.2 ⟨h.perm.mem_iff.2 he.mem, decide_eq_true he.starts⟩
  obtain ⟨e', he'⟩ := Option.ne_none_iff_exists'.1
    (mt List.getLast?_eq_none_iff.1 (List.ne_nil_of_mem hmem))
  rw [he', he.unique (h.covers_of_getLast? he')]

theorem getLast?_eq_none_iff (h : StablySorted listing table) :
    (table.takeWhile (·.startPc ≤ offset)).getLast? = none ↔
      ∀ e ∈ listing, offset < e.startPc := by
  rw [List.getLast?_eq_none_iff, takeWhile_eq_filter h.sorted, List.filter_eq_nil_iff]
  simp only [decide_eq_true_eq, Nat.not_le, h.perm.mem_iff]

end StablySorted

theorem stablySorted_sortLines (b : Body) : StablySorted b.lines b.sortLines.lines := by
  let le : LineEntry → LineEntry → Bool := fun x y => decide (x.startPc ≤ y.startPc)
  have htrans : ∀ x y z, le x y = true → le y z = true → le x z = true := by
    simp only [le, decide_eq_true_eq]
    exact fun x y z => Nat.le_trans
  have htotal : ∀ x y, (le x y || le y x) = true := by
    simp only [le, Bool.or_eq_true, decide_eq_true_eq]
    exact fun x y => Nat.le_total x.startPc y.startPc
  have hperm : (b.lines.mergeSort le).Perm b.lines := List.mergeSort_perm b.lines le
  have hsorted : (b.lines.mergeSort le).Pairwise fun x y => le x y = true :=
    List.pairwise_mergeSort htrans htotal b.lines
  refine ⟨hperm, hsorted.imp of_decide_eq_true, fun start => ?_⟩
  -- entries that start together are in order as they are listed, so they are not rearranged
  have htogether : (b.lines.filter (·.startPc = start)).Pairwise fun x y => le x y = true := by
    refine List.pairwise_of_forall_mem_list fun x hx y hy => ?_
    have hxstart : x.startPc = start := of_decide_eq_true (List.mem_filter.1 hx).2
    have hystart : y.startPc = start := of_decide_eq_true (List.mem_filter.1 hy).2
    exact decide_eq_true (Nat.le_of_eq (hxstart.trans hystart.symm))
  have hsublist := (List.sublist_mergeSort htrans htotal htogether List.filter_sublist).filter
    (·.startPc = start)
  simp only [List.filter_filter, Bool.and_self] at hsublist
  exact (hsublist.eq_of_length (hperm.filter _).length_eq.symm).symm

namespace Method

variable {m m' : Method}

theorem readsLines_of_body?_eq_none (hbody : m.body? = none) : m.ReadsLines none where
  body := iff_of_true hbody rfl
  line offset line := by simp [line?, hbody]
  noLine offset := by simp [line?, hbody]

theorem readsLines_of_stablySorted {body : Body} (hbody : m.body? = some body)
    (h : StablySorted listing body.lines) : m.ReadsLines (some listing) := by
  have hline : ∀ offset, m.line? offset =
      (body.lines.takeWhile (·.startPc ≤ offset)).getLast?.map LineEntry.line := by
    intro offset
    rw [line?, hbody, Option.bind_some]
  refine ⟨by simp [hbody], fun offset line => ?_, fun offset => ?_⟩
  · simp only [hline, Option.map_eq_some_iff, h.getLast?_eq_some_iff, Option.some.injEq,
      exists_eq_left']
  · simp only [hline, hbody, Option.map_eq_none_iff, h.getLast?_eq_none_iff, Option.some.injEq,
      reduceCtorEq, false_or, exists_eq_left']

/-- Methods for which the same entries were listed find the same lines. -/
theorem ReadsLines.line?_eq {listing? listing'? : Option (List LineEntry)}
    (h : m.ReadsLines listing?) (h' : m'.ReadsLines listing'?)
    (hsame : SameEntries listing? listing'?) (offset : Nat) : m.line? offset = m'.line? offset := by
  cases hsame with
  | none =>
      rw [(h.noLine offset).2 (.inl (h.body.2 rfl)), (h'.noLine offset).2 (.inl (h'.body.2 rfl))]
  | @some listing listing' hperm hdistinct =>
      have hdistinct' : (listing'.map LineEntry.startPc).Nodup :=
        (hperm.map _).nodup_iff.1 hdistinct
      have hcovers : ∀ e, Covers listing offset e ↔ Covers listing' offset e := fun e =>
        ⟨fun he => he.of_perm hperm hdistinct, fun he => he.of_perm hperm.symm hdistinct'⟩
      refine Option.ext fun line => ?_
      simp only [h.line offset, h'.line offset, Option.some.injEq, exists_eq_left', hcovers]

end Method

end JvmReach
