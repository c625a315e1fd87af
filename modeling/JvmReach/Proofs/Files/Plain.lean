import JvmReach.Files.FileSystem
import JvmReach.Proofs.Except
import Mathlib.Data.List.TakeWhile

/-!
# Plain paths

A plain path is a list of names with slashes between them, behind one more slash if it starts at
the root. It leads down along its names, so of the plain paths that start at the root, or of
those that do not, no two lead to one place. What a plain path names, as seen from the directory
of another, is plain again.
-/

namespace JvmReach.Files

namespace Path

/-- A piece that leads one step down. -/
structure IsName (piece : String) : Prop where
  isFiller_eq_false : isFiller piece = false
  ne_up : piece ≠ ".."
  notMem : '/' ∉ piece.toList

instance (piece : String) : Decidable (IsName piece) :=
  decidable_of_iff (isFiller piece = false ∧ piece ≠ ".." ∧ '/' ∉ piece.toList)
    ⟨fun h => ⟨h.1, h.2.1, h.2.2⟩,
      fun h => ⟨h.isFiller_eq_false, h.ne_up, h.notMem⟩⟩

/-- The pieces of a path that consists of names. -/
def plainPieces (rooted : Bool) (names : List String) : List String :=
  if rooted then "" :: names else names

def IsPlain (rooted : Bool) (p : Path) : Prop :=
  ∃ names, names ≠ [] ∧ (∀ name ∈ names, IsName name) ∧ p.pieces = plainPieces rooted names

/-- The names are what is left of the pieces behind the one at the root. -/
theorem isPlain_iff (rooted : Bool) (p : Path) : p.IsPlain rooted ↔
    p.pieces.drop rooted.toNat ≠ [] ∧ (∀ name ∈ p.pieces.drop rooted.toNat, IsName name) ∧
      p.pieces = plainPieces rooted (p.pieces.drop rooted.toNat) := by
  constructor
  · rintro ⟨names, hne, hnames, hpieces⟩
    have hdrop : p.pieces.drop rooted.toNat = names := by
      rw [hpieces]
      cases rooted <;> rfl
    rw [hdrop]
    exact ⟨hne, hnames, hpieces⟩
  · exact fun h => ⟨_, h⟩

instance (rooted : Bool) (p : Path) : Decidable (p.IsPlain rooted) :=
  decidable_of_iff _ (isPlain_iff rooted p).symm

variable {rooted : Bool} {p q : Path} {piece : String} {names ps : List String}

theorem IsName.ne_empty (h : IsName piece) : piece ≠ "" := by
  rintro rfl
  exact Bool.noConfusion h.isFiller_eq_false

section Pieces

theorem pieces_append (a b : String) :
    (Path.mk (a ++ "/" ++ b)).pieces = (Path.mk a).pieces ++ (Path.mk b).pieces := by
  have htext : (a ++ "/" ++ b).toList = a.toList ++ '/' :: b.toList := by simp
  have hsplit := List.splitOnP_append_cons (p := (· == '/')) a.toList b.toList
    (beq_self_eq_true '/')
  rw [pieces, htext, hsplit, List.map_append]
  rfl

theorem pieces_empty : (Path.mk "").pieces = [""] := rfl

theorem pieces_ne_nil (p : Path) : p.pieces ≠ [] := by
  rw [pieces, Ne, List.map_eq_nil_iff]
  exact List.splitOnP_ne_nil _ _

/-- A path is its pieces with slashes between them. -/
theorem intercalate_pieces (p : Path) : "/".intercalate p.pieces = p.text := by
  have hpieces : p.pieces.map String.toList = p.text.toList.splitOn '/' := by
    rw [pieces, List.map_map]
    simp [Function.comp_def, List.splitOn]
  apply String.toList_inj.1
  rw [String.toList_intercalate, hpieces]
  exact List.intercalate_splitOn '/'

theorem pieces_injective : Function.Injective pieces := by
  intro p q h
  have htext : p.text = q.text := by
    rw [← intercalate_pieces, h, intercalate_pieces]
  cases p
  cases htext
  rfl

theorem pieces_intercalate (hne : ps ≠ []) (hnone : ∀ piece ∈ ps, '/' ∉ piece.toList) :
    (Path.mk ("/".intercalate ps)).pieces = ps := by
  have hsplit : ("/".intercalate ps).toList.splitOn '/' = ps.map String.toList := by
    rw [String.toList_intercalate]
    apply List.splitOn_intercalate '/'
    · intro piece hpiece
      obtain ⟨piece, hmem, rfl⟩ := List.mem_map.1 hpiece
      exact hnone piece hmem
    · rwa [Ne, List.map_eq_nil_iff]
  calc (Path.mk ("/".intercalate ps)).pieces
      = (("/".intercalate ps).toList.splitOn '/').map String.ofList := rfl
    _ = ps := by rw [hsplit, List.map_map]; simp [Function.comp_def]

theorem isAbsolute_iff : p.isAbsolute = true ↔ ∃ rest, rest ≠ [] ∧ p.pieces = "" :: rest := by
  rw [isAbsolute, beq_iff_eq, List.head?_eq_some_iff]
  constructor
  · rintro ⟨rest, hrest⟩
    refine ⟨(Path.mk (String.ofList rest)).pieces, pieces_ne_nil _, ?_⟩
    have htext : p = ⟨"" ++ "/" ++ String.ofList rest⟩ := by
      cases p
      congr 1
      apply String.toList_inj.1
      simpa using hrest
    rw [htext, pieces_append]
    rfl
  · rintro ⟨rest, hne, hpieces⟩
    obtain ⟨first, rest, rfl⟩ := List.exists_cons_of_ne_nil hne
    refine ⟨("/".intercalate (first :: rest)).toList, ?_⟩
    rw [← intercalate_pieces, hpieces, String.intercalate_cons_cons]
    simp

end Pieces

section Parent

theorem trim_eq_self (h : ∀ piece ∈ ps.tail, isFiller piece = false) : trim ps = ps := by
  cases ps with
  | nil => rfl
  | cons first rest =>
      have hkept : rest.reverse.dropWhile isFiller = rest.reverse := by
        apply List.dropWhile_eq_self_iff.2
        intro hlength
        rw [h _ (List.mem_reverse.1 (List.getElem_mem hlength))]
        exact Bool.false_ne_true
      rw [trim, hkept, List.reverse_reverse]

theorem parent_eq_ofPieces (h : ∀ piece ∈ p.pieces.tail, isFiller piece = false) :
    p.parent = ofPieces p.pieces.dropLast := by
  rw [parent, trim_eq_self h]
  match hpieces : p.pieces with
  | [] => rfl
  | [first] => rfl
  | first :: second :: rest =>
      rw [hpieces] at h
      have hkept : ∀ piece ∈ (second :: rest).dropLast, isFiller piece = false :=
        fun piece hpiece => h piece (List.dropLast_subset _ hpiece)
      simp only [List.dropLast_cons_cons]
      exact congrArg ofPieces (trim_eq_self hkept)

theorem getLast?_pieces (h : p.text = "" ∨ p.text.toList.getLast? = some '/') :
    p.pieces.getLast? = some "" := by
  rcases h with h | h
  · have hp : p = ⟨""⟩ := by
      cases p
      exact congrArg Path.mk h
    rw [hp, pieces_empty]
    rfl
  · obtain ⟨before, hbefore⟩ := List.getLast?_eq_some_iff.1 h
    have hp : p = ⟨String.ofList before ++ "/" ++ ""⟩ := by
      cases p
      congr 1
      apply String.toList_inj.1
      simpa using hbefore
    rw [hp, pieces_append, pieces_empty, List.getLast?_concat]

theorem pieces_join (hp : p.pieces.getLast? ≠ some "") (hq : q.isAbsolute = false) :
    (p.join q).pieces = p.pieces ++ q.pieces := by
  have hopen : ¬ (q.isAbsolute = true ∨ p.text = "") := by
    rw [hq]
    rintro (h | h)
    · cases h
    · exact hp (getLast?_pieces (.inl h))
  rw [join, if_neg hopen, if_neg fun h => hp (getLast?_pieces (.inr h))]
  exact pieces_append p.text q.text

theorem notMem_of_mem_plainPieces (hnames : ∀ name ∈ names, IsName name) :
    ∀ piece ∈ plainPieces rooted names, '/' ∉ piece.toList := by
  cases rooted with
  | false => exact fun piece hpiece => (hnames piece hpiece).notMem
  | true =>
      intro piece hpiece
      rcases List.mem_cons.1 hpiece with rfl | hpiece
      · simp
      · exact (hnames piece hpiece).notMem

/-- What a path names, as seen from the directory that the names lead to. -/
theorem pieces_join_ofPieces (hnames : ∀ name ∈ names, IsName name) (hq : q.isAbsolute = false) :
    ((ofPieces (plainPieces rooted names)).join q).pieces =
      plainPieces rooted names ++ q.pieces := by
  rcases List.eq_nil_or_concat names with rfl | ⟨init, last, rfl⟩
  · have hq' : ¬ (q.isAbsolute = true ∨ "/" = "") := by simp [hq]
    cases rooted with
    | false => exact congrArg pieces (if_pos (.inr rfl))
    | true =>
        have hjoin : (Path.mk "/").join q = ⟨"" ++ "/" ++ q.text⟩ := by
          rw [join, if_neg hq']
          exact if_pos rfl
        calc ((Path.mk "/").join q).pieces
            = (Path.mk "").pieces ++ q.pieces := by rw [hjoin, pieces_append]
          _ = [""] ++ q.pieces := by rw [pieces_empty]
  · have hlast : (plainPieces rooted (init.concat last)).getLast? = some last := by
      cases rooted <;> simp [plainPieces, List.getLast?_cons]
    have hname : last ≠ "" := (hnames last (by simp)).ne_empty
    have hne : plainPieces rooted (init.concat last) ≠ [""] := by
      intro h
      rw [h] at hlast
      exact hname (Option.some.inj hlast).symm
    have hnone : ∀ piece ∈ plainPieces rooted (init.concat last), '/' ∉ piece.toList :=
      notMem_of_mem_plainPieces hnames
    have hpieces := pieces_intercalate (List.getLast?_isSome.1 (hlast ▸ rfl)) hnone
    rw [ofPieces, if_neg hne, pieces_join _ hq, hpieces]
    rw [hpieces, hlast]
    exact fun h => hname (Option.some.inj h)

end Parent

namespace IsPlain

theorem isAbsolute_eq (h : p.IsPlain rooted) : p.isAbsolute = rooted := by
  obtain ⟨names, hne, hnames, hpieces⟩ := h
  rw [Bool.eq_iff_iff, isAbsolute_iff, hpieces]
  cases rooted with
  | true => exact iff_of_true ⟨names, hne, rfl⟩ rfl
  | false =>
      refine iff_of_false ?_ Bool.false_ne_true
      rintro ⟨rest, -, rfl⟩
      exact (hnames "" List.mem_cons_self).ne_empty rfl

/-- What a plain path names, as seen from the directory of another, is plain again. -/
theorem join (hp : p.IsPlain rooted) (hq : q.IsPlain false) : (p.parent.join q).IsPlain rooted := by
  have habsolute := hq.isAbsolute_eq
  obtain ⟨names, hne, hnames, hpieces⟩ := hp
  obtain ⟨others, hne', hothers, hpieces'⟩ := hq
  have hinit : ∀ name ∈ names.dropLast, IsName name :=
    fun name hname => hnames name (List.dropLast_subset _ hname)
  have hdirectory : p.pieces.dropLast = plainPieces rooted names.dropLast := by
    obtain ⟨first, rest, rfl⟩ := List.exists_cons_of_ne_nil hne
    rw [hpieces]
    cases rooted <;> rfl
  have hkept : ∀ piece ∈ p.pieces.tail, isFiller piece = false := by
    intro piece hpiece
    rw [hpieces] at hpiece
    refine (hnames piece ?_).isFiller_eq_false
    cases rooted with
    | false => exact List.mem_of_mem_tail hpiece
    | true => exact hpiece
  refine ⟨names.dropLast ++ others, by simp [hne'], ?_, ?_⟩
  · intro name hname
    exact (List.mem_append.1 hname).elim (hinit name) (hothers name)
  · rw [parent_eq_ofPieces hkept, hdirectory, pieces_join_ofPieces hinit habsolute, hpieces']
    cases rooted <;> rfl

end IsPlain

end Path

namespace FileSystem

open JvmReach.Files.Path

variable {fs : FileSystem} {rooted : Bool} {p q : Path} {piece : String} {names : List String}
  {location location' : Location}

/-- A piece that stays where it is, or leads one step down, does nothing else. -/
theorem eq_of_step (h : fs.step location piece = .ok location') :
    (isFiller piece = true → location' = location) ∧
      (IsName piece → location' = location ++ [piece]) := by
  unfold step at h
  split at h
  · cases h
  · split at h
    · next hfiller =>
        cases h
        exact ⟨fun _ => rfl, fun hname =>
          Bool.noConfusion (hname.isFiller_eq_false.symm.trans hfiller)⟩
    · next hfiller =>
        refine ⟨fun h => absurd h hfiller, fun hname => ?_⟩
        rw [if_neg hname.ne_up] at h
        split at h
        · cases h
        · split at h
          · cases h
          · cases h
            rfl
  · cases h

theorem foldlM_step_names (hnames : ∀ name ∈ names, IsName name)
    (h : names.foldlM fs.step location = .ok location') : location' = location ++ names := by
  induction names generalizing location with
  | nil =>
      cases h
      rw [List.append_nil]
  | cons name rest ih =>
      rw [List.foldlM_cons] at h
      obtain ⟨next, hstep, h⟩ := bind_eq_ok_iff.1 h
      have hnext := (eq_of_step hstep).2 (hnames name List.mem_cons_self)
      rw [ih (fun n hn => hnames n (List.mem_cons_of_mem name hn)) h, hnext, List.append_assoc]
      rfl

theorem eq_of_start (h : fs.start p = .ok location) :
    location = if p.isAbsolute then [] else fs.workingDirectory := by
  unfold start at h
  split at h
  · cases h
  · split at h
    · cases h
    · split at h
      · cases h
      · exact (Except.ok.inj h).symm

/-- A plain path leads down along its names. -/
theorem resolve_eq_append (hnames : ∀ name ∈ names, IsName name)
    (hpieces : p.pieces = plainPieces rooted names) (hp : p.isAbsolute = rooted)
    (h : fs.resolve p = .ok location) :
    location = (if rooted then [] else fs.workingDirectory) ++ names := by
  obtain ⟨start, hstart, h⟩ := bind_eq_ok_iff.1 h
  have hfrom := eq_of_start hstart
  rw [hp] at hfrom
  rw [hpieces] at h
  subst hfrom
  cases rooted with
  | false => exact foldlM_step_names hnames h
  | true =>
      obtain ⟨next, hnext, h⟩ := bind_eq_ok_iff.1 (List.foldlM_cons.symm.trans h)
      rw [(eq_of_step hnext).1 rfl] at h
      exact foldlM_step_names hnames h

/-- Plain paths to one place are the same path. -/
theorem eq_of_resolve (hp : p.IsPlain rooted) (hq : q.IsPlain rooted)
    (h : fs.resolve p = .ok location) (h' : fs.resolve q = .ok location) : p = q := by
  have hp' := hp.isAbsolute_eq
  have hq' := hq.isAbsolute_eq
  obtain ⟨names, -, hnames, hpieces⟩ := hp
  obtain ⟨names', -, hnames', hpieces'⟩ := hq
  have heq := (resolve_eq_append hnames hpieces hp' h).symm.trans
    (resolve_eq_append hnames' hpieces' hq' h')
  apply pieces_injective
  rw [hpieces, hpieces', List.append_cancel_left heq]

end FileSystem

end JvmReach.Files
