import JvmReach.Load.Manifest
import JvmReach.Proofs.Text.Words
import Mathlib.Data.List.DropRight

/-!
# Headers on several lines

The value of a header may be broken anywhere behind the colon. Each further piece stands on a
line of its own behind a space, and reading puts the pieces together again, whichever way the
lines end. So the class path of an archive does not depend on how it is broken into lines, nor
on the headers around it.
-/

namespace JvmReach.Manifest

open Files Text

inductive LineEnd where
  | feed
  | returnFeed

def LineEnd.chars : LineEnd → List Char
  | feed => ['\n']
  | returnFeed => ['\r', '\n']

/-- A line without the returns at its end. -/
def bare (line : List Char) : List Char := line.rdropWhile (· == '\r')

def linesOf (cs : List Char) : List (List Char) := (cs.splitOnP (· == '\n')).map bare

theorem lines_ofList (cs : List Char) : lines (String.ofList cs) = linesOf cs := by
  rw [lines, String.toList_ofList]
  rfl

variable {line cs tail : List Char} {ls : List (List Char)}

theorem beq_newline_eq_false (h : '\n' ∉ line) : ∀ c ∈ line, (c == '\n') = false := by
  intro c hc
  exact beq_false_of_ne fun heq => h (heq ▸ hc)

/-- The text ends a line that stands before it, and goes on with further lines. -/
def EndsLine (tail : List Char) (ls : List (List Char)) : Prop :=
  ∀ line, '\n' ∉ line → linesOf (line ++ tail) = bare line :: ls

theorem endsLine_nil : EndsLine [] [] := by
  intro line h
  rw [List.append_nil, linesOf, List.splitOnP_eq_singleton (beq_newline_eq_false h)]
  rfl

theorem endsLine_chars (ending : LineEnd) (cs : List Char) :
    EndsLine (ending.chars ++ cs) (linesOf cs) := by
  intro line h
  have hfeed : ∀ line, '\n' ∉ line → linesOf (line ++ '\n' :: cs) = bare line :: linesOf cs := by
    intro line h
    rw [linesOf,
      List.splitOnP_append_cons_of_forall_mem (beq_newline_eq_false h) '\n' (beq_self_eq_true _)]
    rfl
  cases ending with
  | feed => exact hfeed line h
  | returnFeed =>
      have hreturn : '\n' ∉ line ++ ['\r'] := by simp [h]
      have hbare : bare (line ++ ['\r']) = bare line :=
        List.rdropWhile_concat_pos _ _ _ (beq_self_eq_true _)
      calc linesOf (line ++ '\r' :: '\n' :: cs)
        _ = linesOf (line ++ ['\r'] ++ '\n' :: cs) := by simp
        _ = bare line :: linesOf cs := by rw [hfeed _ hreturn, hbare]

theorem bare_isPrefix (line : List Char) : bare line <+: line := List.rdropWhile_prefix _ _

theorem bare_of_notMem (h : '\r' ∉ line) : bare line = line := by
  rw [bare, List.rdropWhile_eq_self_iff]
  intro hne hlast
  exact h (beq_iff_eq.1 hlast ▸ List.getLast_mem hne)

theorem bare_cons_space (line : List Char) : bare (' ' :: line) = ' ' :: bare line := by
  induction line using List.reverseRecOn with
  | nil => decide
  | append_singleton line c ih =>
      rw [← List.cons_append, bare, bare, List.rdropWhile_concat, List.rdropWhile_concat]
      split
      · exact ih
      · rfl

/-- A header as it is written: the line that starts it, and the pieces of its value on further
lines, each with the end of the line before it. -/
structure Folded where
  start : List Char
  pieces : List (LineEnd × List Char)

namespace Folded

def written (f : Folded) : List Char :=
  f.start ++ f.pieces.flatMap fun part => part.1.chars ++ ' ' :: part.2

/-- The first line does not continue another, and nothing in a line ends it. -/
structure WellFormed (f : Folded) : Prop where
  start_new : f.start.head? ≠ some ' '
  start_line : '\n' ∉ f.start
  piece_line : ∀ part ∈ f.pieces, '\n' ∉ part.2

def lines (f : Folded) : List (List Char) :=
  bare f.start :: f.pieces.map fun part => ' ' :: bare part.2

/-- The header that its lines are read as. -/
def header? (f : Folded) : Option Header :=
  (Manifest.header? (bare f.start)).map fun h =>
    { h with value := h.value ++ f.pieces.flatMap fun part => bare part.2 }

variable {f : Folded} {fs : List Folded}

theorem WellFormed.linesOf_written_append (hf : f.WellFormed) (htail : EndsLine tail ls) :
    linesOf (f.written ++ tail) = f.lines ++ ls := by
  obtain ⟨start, pieces⟩ := f
  obtain ⟨-, hstart, hpieces⟩ := hf
  simp only [written, lines, List.append_assoc, List.cons_append]
  induction pieces generalizing start with
  | nil => exact htail start hstart
  | cons part pieces ih =>
      -- The piece takes the part of the first line, with the space in front of it.
      obtain ⟨hpart, hpieces⟩ := List.forall_mem_cons.1 hpieces
      have hline : '\n' ∉ ' ' :: part.2 := by simpa using hpart
      have hrest := ih (' ' :: part.2) hline hpieces
      rw [bare_cons_space] at hrest
      rw [List.flatMap_cons, List.append_assoc, List.append_assoc,
        endsLine_chars part.1 _ start hstart, hrest]
      rfl

theorem endsLine_flatMap {after : List (LineEnd × Folded)}
    (h : ∀ part ∈ after, part.2.WellFormed) :
    EndsLine (after.flatMap fun part => part.1.chars ++ part.2.written)
      ((after.map Prod.snd).flatMap lines) := by
  induction after with
  | nil => exact endsLine_nil
  | cons part after ih =>
      obtain ⟨hpart, hafter⟩ := List.forall_mem_cons.1 h
      intro line hline
      rw [List.flatMap_cons, List.append_assoc, endsLine_chars part.1 _ line hline,
        hpart.linesOf_written_append (ih hafter)]
      rfl

theorem linesOf_flatMap_append {before : List (Folded × LineEnd)}
    (h : ∀ part ∈ before, part.1.WellFormed) (cs : List Char) :
    linesOf ((before.flatMap fun part => part.1.written ++ part.2.chars) ++ cs) =
      (before.map Prod.fst).flatMap lines ++ linesOf cs := by
  induction before with
  | nil => rfl
  | cons part before ih =>
      obtain ⟨hpart, hbefore⟩ := List.forall_mem_cons.1 h
      rw [List.flatMap_cons, List.append_assoc, List.append_assoc,
        hpart.linesOf_written_append (endsLine_chars part.2 _), ih hbefore, ← List.append_assoc]
      rfl

end Folded

theorem headersFrom_cons (h : line.head? ≠ some ' ') (pending? : Option Header) :
    headersFrom pending? (line :: ls) = pending?.toList ++ headersFrom (header? line) ls := by
  rw [headersFrom]
  rintro more rfl
  exact h rfl

theorem headersFrom_pieces (pending? : Option Header) (pieces : List (LineEnd × List Char)) :
    headersFrom pending? ((pieces.map fun part => ' ' :: bare part.2) ++ ls) =
      headersFrom (pending?.map fun h =>
        { h with value := h.value ++ pieces.flatMap fun part => bare part.2 }) ls := by
  induction pieces generalizing pending? with
  | nil => simp
  | cons part pieces ih =>
      rw [List.map_cons, List.cons_append, headersFrom, ih, Option.map_map]
      simp [Function.comp_def]

namespace Folded

variable {f : Folded} {fs : List Folded}

theorem WellFormed.headersFrom_lines (hf : f.WellFormed) (pending? : Option Header) :
    headersFrom pending? (f.lines ++ ls) = pending?.toList ++ headersFrom f.header? ls := by
  have hnew : (bare f.start).head? ≠ some ' ' := by
    intro h
    obtain ⟨rest, hrest⟩ := bare_isPrefix f.start
    apply hf.start_new
    rw [← hrest, List.head?_append, h]
    rfl
  rw [lines, List.cons_append, headersFrom_cons hnew, headersFrom_pieces, header?]

/-- The headers are read one by one, each with all of its pieces. -/
theorem headersFrom_flatMap (h : ∀ f ∈ fs, f.WellFormed) (pending? : Option Header) :
    headersFrom pending? (fs.flatMap lines) = pending?.toList ++ fs.filterMap header? := by
  induction fs generalizing pending? with
  | nil => rw [List.flatMap_nil, headersFrom, List.filterMap_nil, List.append_nil]
  | cons f fs ih =>
      obtain ⟨hf, hfs⟩ := List.forall_mem_cons.1 h
      rw [List.flatMap_cons, hf.headersFrom_lines, ih hfs, List.filterMap_cons]
      cases f.header? <;> rfl

end Folded

theorem decide_ne_colon (h : ':' ∉ line) : ∀ c ∈ line, decide (c ≠ ':') = true := by
  intro c hc
  exact decide_eq_true fun heq => h (heq ▸ hc)

theorem takeWhile_append_cons {name : List Char} (h : ':' ∉ name) (value : List Char) :
    (name ++ ':' :: value).takeWhile (· ≠ ':') = name := by
  rw [List.takeWhile_append_of_pos (decide_ne_colon h), List.takeWhile_cons_of_neg (by simp), List.append_nil]

/-- The name of a header stands before the first colon of its line, its value behind it. -/
theorem header?_append_cons {name : List Char} (h : ':' ∉ name) (value : List Char) :
    header? (name ++ ':' :: value) = some ⟨trimLeft (trimRight name), trimLeft value⟩ := by
  have hdrop : (name ++ ':' :: value).dropWhile (· ≠ ':') = ':' :: value := by
    rw [List.dropWhile_append_of_pos (decide_ne_colon h), List.dropWhile_cons_of_neg (by simp)]
  rw [header?, hdrop, takeWhile_append_cons h]

theorem header?_of_notMem (h : ':' ∉ line) : header? line = none := by
  have hdrop : line.dropWhile (· ≠ ':') = [] := by
    rw [List.dropWhile_eq_nil_iff]
    exact decide_ne_colon h
  rw [header?, hdrop]

namespace Folded

variable {f : Folded}

/-- A header of another name, or a line that starts none. -/
structure IsOther (f : Folded) : Prop extends WellFormed f where
  name_ne : ':' ∈ f.start → trimLeft (trimRight (f.start.takeWhile (· ≠ ':'))) ≠ classPathName

theorem isOther_iff : f.IsOther ↔ (f.start.head? ≠ some ' ' ∧ '\n' ∉ f.start ∧
    ∀ part ∈ f.pieces, '\n' ∉ part.2) ∧
      (':' ∈ f.start → trimLeft (trimRight (f.start.takeWhile (· ≠ ':'))) ≠ classPathName) :=
  ⟨fun h => ⟨⟨h.start_new, h.start_line, h.piece_line⟩, h.name_ne⟩,
    fun ⟨⟨hnew, hline, hpieces⟩, hname⟩ => ⟨⟨hnew, hline, hpieces⟩, hname⟩⟩

instance (f : Folded) : Decidable f.IsOther := decidable_of_iff _ isOther_iff.symm

theorem IsOther.name_ne_of_header? (hf : f.IsOther) {h : Header} (hh : f.header? = some h) :
    h.name ≠ classPathName := by
  obtain ⟨h, hstart, rfl⟩ := Option.map_eq_some_iff.1 hh
  by_cases hcolon : ':' ∈ bare f.start
  · obtain ⟨name, value, hbare, hname⟩ := List.eq_append_cons_of_mem hcolon
    rw [hbare, header?_append_cons hname] at hstart
    cases hstart
    -- The colon stands before the returns at the end of the line, so these are not in the name.
    obtain ⟨rest, hrest⟩ := bare_isPrefix f.start
    have hne := hf.name_ne ((bare_isPrefix f.start).subset hcolon)
    rw [← hrest, hbare, List.append_assoc, List.cons_append, takeWhile_append_cons hname] at hne
    exact hne
  · rw [header?_of_notMem hcolon] at hstart
    cases hstart

/-- The header of the class path with a value in these pieces. -/
def classPath (first : List Char) (pieces : List (LineEnd × List Char)) : Folded :=
  ⟨classPathName ++ ':' :: first, pieces⟩

variable {first : List Char} {pieces : List (LineEnd × List Char)}

theorem wellFormed_classPath (hfirst : '\n' ∉ first) (hpieces : ∀ part ∈ pieces, '\n' ∉ part.2) :
    (classPath first pieces).WellFormed where
  start_new := by
    have hhead : classPathName.head? = some 'C' := by decide
    simp [classPath, hhead]
  start_line := by
    have hname : '\n' ∉ classPathName := by decide
    simp [classPath, hname, hfirst]
  piece_line := hpieces

theorem header?_classPath (hfirst : '\r' ∉ first) (hpieces : ∀ part ∈ pieces, '\r' ∉ part.2) :
    (classPath first pieces).header? =
      some ⟨classPathName, trimLeft first ++ pieces.flatMap Prod.snd⟩ := by
  have hreturn : '\r' ∉ classPathName := by decide
  have hcolon : ':' ∉ classPathName := by decide
  have htrim : trimLeft (trimRight classPathName) = classPathName := by decide
  have hstart : bare (classPath first pieces).start = classPathName ++ ':' :: first :=
    bare_of_notMem (by simp [classPath, hreturn, hfirst])
  have hvalue : pieces.flatMap (fun part => bare part.2) = pieces.flatMap Prod.snd := by
    rw [List.flatMap_def, List.flatMap_def,
      List.map_congr_left fun part hpart => bare_of_notMem (hpieces part hpart)]
  rw [header?, hstart, header?_append_cons hcolon, htrim, ← hvalue]
  rfl

end Folded

/-- A manifest with a header among others, line by line. -/
def written (before : List (Folded × LineEnd)) (own : Folded)
    (after : List (LineEnd × Folded)) : List Char :=
  (before.flatMap fun part => part.1.written ++ part.2.chars) ++
    (own.written ++ after.flatMap fun part => part.1.chars ++ part.2.written)

variable {before : List (Folded × LineEnd)} {own : Folded} {after : List (LineEnd × Folded)}

theorem headers_written (hbefore : ∀ part ∈ before, part.1.WellFormed) (hown : own.WellFormed)
    (hafter : ∀ part ∈ after, part.2.WellFormed) :
    headers (String.ofList (written before own after)) =
      (before.map Prod.fst ++ own :: after.map Prod.snd).filterMap Folded.header? := by
  have hall : ∀ f ∈ before.map Prod.fst ++ own :: after.map Prod.snd, f.WellFormed := by
    intro f hf
    rcases List.mem_append.1 hf with hf | hf
    · obtain ⟨part, hpart, rfl⟩ := List.mem_map.1 hf
      exact hbefore part hpart
    · rcases List.mem_cons.1 hf with rfl | hf
      · exact hown
      · obtain ⟨part, hpart, rfl⟩ := List.mem_map.1 hf
        exact hafter part hpart
  have hlines : linesOf (written before own after) =
      (before.map Prod.fst ++ own :: after.map Prod.snd).flatMap Folded.lines := by
    rw [written, Folded.linesOf_flatMap_append hbefore,
      hown.linesOf_written_append (Folded.endsLine_flatMap hafter), List.flatMap_append,
      List.flatMap_cons]
  rw [headers, lines_ofList, hlines, Folded.headersFrom_flatMap hall]
  rfl

/-- The value of the only header for the class path. -/
theorem classPathValue?_written (hbefore : ∀ part ∈ before, part.1.IsOther)
    (hown : own.WellFormed) {value : List Char} (hheader : own.header? = some ⟨classPathName, value⟩)
    (hafter : ∀ part ∈ after, part.2.IsOther) :
    classPathValue? (String.ofList (written before own after)) = some value := by
  have hnone : ∀ fs : List Folded, (∀ f ∈ fs, f.IsOther) →
      (fs.filterMap Folded.header?).reverse.find? (·.name == classPathName) = none := by
    intro fs hfs
    rw [List.find?_eq_none]
    intro h hh
    obtain ⟨f, hf, hfh⟩ := List.mem_filterMap.1 (List.mem_reverse.1 hh)
    simpa using (hfs f hf).name_ne_of_header? hfh
  have hlast := hnone (after.map Prod.snd) (List.forall_mem_map.2 hafter)
  rw [classPathValue?, headers_written (fun part hpart => (hbefore part hpart).toWellFormed) hown
    fun part hpart => (hafter part hpart).toWellFormed]
  rw [List.filterMap_append, List.filterMap_cons_some hheader, List.reverse_append,
    List.reverse_cons, List.append_assoc, List.find?_append, hlast]
  simp

/-- The entries of a class path are read back, however their value is broken into lines and
whatever headers stand around it. -/
theorem classPath_of_folded (jar : Path) (entries : List String) (first : List Char)
    (pieces : List (LineEnd × List Char)) (before : List (Folded × LineEnd))
    (after : List (LineEnd × Folded))
    (hvalue : Spaced (entries.map String.toList) (first ++ pieces.flatMap Prod.snd))
    (hbefore : ∀ part ∈ before, part.1.IsOther) (hafter : ∀ part ∈ after, part.2.IsOther) :
    classPath jar (String.ofList (written before (.classPath first pieces) after)) =
      entries.map fun entry =>
        if (Files.Path.mk entry).isAbsolute then ⟨entry⟩ else jar.parent.join ⟨entry⟩ := by
  have hlack : ∀ c, isBlank c = true → c ≠ ' ' → c ∉ first ∧ ∀ part ∈ pieces, c ∉ part.2 := by
    intro c hc hspace
    have hmem := notMem_of_spaced hvalue hc hspace
    simp only [List.mem_append, List.mem_flatMap, not_or, not_exists, not_and] at hmem
    exact hmem
  obtain ⟨hfeed, hfeeds⟩ := hlack '\n' (by decide) (by decide)
  obtain ⟨hreturn, hreturns⟩ := hlack '\r' (by decide) (by decide)
  have hwords : words (String.ofList (trimLeft first ++ pieces.flatMap Prod.snd)) = entries := by
    rw [words_ofList, wordLists_trimLeft_append, wordLists_of_spaced hvalue, List.map_map]
    simp [Function.comp_def]
  rw [classPath, classPathValue?_written hbefore (Folded.wellFormed_classPath hfeed hfeeds)
    (Folded.header?_classPath hreturn hreturns) hafter]
  simp only [hwords]
  apply List.map_congr_left
  intro entry _
  split
  · next habsolute => exact Path.join_of_isAbsolute _ habsolute
  · rfl

/-- Headers before a class path, one of them on two lines. -/
def sampleBefore : List (Folded × LineEnd) :=
  [(⟨"Manifest-Version: 1.0".toList, []⟩, .returnFeed),
    (⟨"Created-By:".toList, [(.feed, " Class-Path: none".toList)]⟩, .feed)]

/-- A value that is broken behind the colon, inside its first entry and into an empty piece. -/
def samplePieces : List (LineEnd × List Char) :=
  [(.feed, " a.j".toList), (.returnFeed, "ar ".toList), (.feed, []), (.feed, "/opt/b.jar".toList)]

def sampleAfter : List (LineEnd × Folded) :=
  [(.returnFeed, ⟨"Main-Class: app.Main".toList, []⟩), (.feed, ⟨[], []⟩)]

theorem classPath_of_folded_sample :
    String.ofList (written sampleBefore (.classPath [] samplePieces) sampleAfter) =
        "Manifest-Version: 1.0\r\nCreated-By:\n  Class-Path: none\n" ++
          "Class-Path:\n  a.j\r\n ar \n \n /opt/b.jar\r\nMain-Class: app.Main\n" ∧
      Spaced (["a.jar", "/opt/b.jar"].map String.toList) (samplePieces.flatMap Prod.snd) ∧
      (∀ part ∈ sampleBefore, part.1.IsOther) ∧ (∀ part ∈ sampleAfter, part.2.IsOther) ∧
      classPath ⟨"/opt/app/main.jar"⟩
          (String.ofList (written sampleBefore (.classPath [] samplePieces) sampleAfter)) =
        [⟨"/opt/app/a.jar"⟩, ⟨"/opt/b.jar"⟩] := by
  have hvalue : samplePieces.flatMap Prod.snd =
      ' ' :: ("a.jar".toList ++ ' ' :: ("/opt/b.jar".toList ++ [])) := by decide +kernel
  have hspaced : Spaced (["a.jar", "/opt/b.jar"].map String.toList)
      (samplePieces.flatMap Prod.snd) := by
    have hrelative : IsWord "a.jar".toList := isWord_of_any_eq_false (by decide) (by decide)
    have habsolute : IsWord "/opt/b.jar".toList := isWord_of_any_eq_false (by decide) (by decide)
    rw [hvalue]
    exact .space (.word hrelative (by simp) (.space (.word habsolute (by simp) .nil)))
  have hbefore : ∀ part ∈ sampleBefore, part.1.IsOther := by decide +kernel
  have hafter : ∀ part ∈ sampleAfter, part.2.IsOther := by decide +kernel
  refine ⟨by decide +kernel, hspaced, hbefore, hafter, ?_⟩
  rw [classPath_of_folded ⟨"/opt/app/main.jar"⟩ ["a.jar", "/opt/b.jar"] [] samplePieces
    sampleBefore sampleAfter hspaced hbefore hafter]
  decide +kernel

end JvmReach.Manifest
