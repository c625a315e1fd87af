import JvmReach.Proofs.Load.Expansion

/-!
# The order of an expanded class path

A path is mentioned if it is given, or if the manifest of an archive refers to it that is
mentioned itself. An expansion that succeeds holds the paths that are mentioned, in the order
in which they are first mentioned: by what was given, then by one archive after the other. So
it goes breadth first.

It fails if one of these paths is not there, or names an archive that does not open or whose
manifest opens but is no text. A manifest that does not open at all, as an encrypted one, is
passed over: its archive refers to nothing, and the expansion goes on.
-/

namespace JvmReach.Load

open Files

/-- Mentioned by the entries or, over at most so many archives, by their references. -/
inductive MentionedWithin (fs : FileSystem) (entries : List Path) : Nat → Path → Prop
  | given {p : Path} {n : Nat} (hp : p ∈ entries) : MentionedWithin fs entries n p
  | reference {p q : Path} {found : List Path} {n : Nat} (hp : MentionedWithin fs entries n p)
      (hjar : p.isJar = true) (hfound : manifestClassPath fs p = .ok found) (hq : q ∈ found) :
      MentionedWithin fs entries (n + 1) q

def Mentioned (fs : FileSystem) (entries : List Path) (p : Path) : Prop :=
  ∃ n, MentionedWithin fs entries n p

/-- The path is there; if it names an archive, that is one, and its manifest is a text. -/
structure CanRead (fs : FileSystem) (p : Path) : Prop where
  contains : fs.contains p = true
  archive : p.isJar = true → ∃ files, openArchive fs p = .ok files ∧
    ∀ manifest ∈ files.find? (·.name == manifestName), ∃ bytes content,
      manifest.content = .bytes bytes ∧ String.fromUTF8? ⟨bytes⟩ = some content

/-- The path names an archive with a manifest that does not open. -/
def SealedManifest (fs : FileSystem) (p : Path) : Prop :=
  p.isJar = true ∧ ∃ files, openArchive fs p = .ok files ∧
    ∃ manifest ∈ files.find? (·.name == manifestName), manifest.content = .sealed

/-- A manifest that does not open is passed over. -/
def CanFollow (fs : FileSystem) (p : Path) : Prop := CanRead fs p ∨ SealedManifest fs p

/-- The references of a path in the order in which they are followed. -/
def links (fs : FileSystem) (p : Path) : List Path :=
  if p.isJar then sortPaths ((manifestClassPath fs p).toOption.getD []) else []

/-- The paths that are mentioned, each where it is mentioned first. -/
structure BreadthFirst (fs : FileSystem) (entries paths : List Path) : Prop where
  mem_iff : ∀ p, p ∈ paths ↔ Mentioned fs entries p
  nodup : paths.Nodup
  eq_eraseDups : paths = (entries ++ paths.flatMap (links fs)).eraseDups
  links_sorted : ∀ p ∈ paths, p.isJar = true → ∃ found, manifestClassPath fs p = .ok found ∧
    (links fs p).Perm found ∧ (links fs p).Pairwise fun a b => a.text ≤ b.text
  /-- What is mentioned over fewer archives comes first. -/
  within_of_before : ∀ p q n, List.Sublist [p, q] paths →
    MentionedWithin fs entries n q → MentionedWithin fs entries n p

variable {fs : FileSystem} {p q : Path} {entries met queue found others : List Path}
  {outcome : Except LoadError (List Path)}

section Manifests

variable {files : List ArchiveEntry}

theorem textOf_eq_ok_iff {bytes : Array UInt8} {content : String} :
    textOf bytes = .ok content ↔ String.fromUTF8? ⟨bytes⟩ = some content := by
  unfold textOf
  cases String.fromUTF8? ⟨bytes⟩ <;> simp

/-- A manifest leads on if it does not open, or is a text. -/
theorem exists_ok_of_manifestText?_iff :
    (∀ read ∈ manifestText? files, ∃ content, read = .ok content) ↔
      ∀ manifest ∈ files.find? (·.name == manifestName), manifest.content = .sealed ∨
        ∃ bytes content, manifest.content = .bytes bytes ∧
          String.fromUTF8? ⟨bytes⟩ = some content := by
  unfold manifestText?
  cases files.find? (·.name == manifestName) with
  | none => simp
  | some manifest =>
      cases hcontent : manifest.content with
      | bytes bytes => simp [hcontent, EntryContent.read?, Except.bind, textOf_eq_ok_iff]
      | damaged cause => simp [hcontent, EntryContent.read?, Except.bind]
      | sealed => simp [hcontent, EntryContent.read?]

theorem manifestClassPath_eq_ok_iff : manifestClassPath fs p = .ok found ↔
    ∃ files, openArchive fs p = .ok files ∧
      (manifestText? files = none ∧ [] = found ∨
        ∃ content, manifestText? files = some (.ok content) ∧
          Manifest.classPath p content = found) := by
  rw [manifestClassPath, bind_eq_ok_iff]
  refine exists_congr fun files => and_congr_right fun _ => ?_
  cases manifestText? files with
  | none => exact pure_eq_ok_iff.trans (by simp)
  | some read =>
      have hread : (do return Manifest.classPath p (← read.mapError (LoadError.badManifest p))) =
          .ok found ↔ ∃ content, read = .ok content ∧ Manifest.classPath p content = found := by
        simp only [bind_eq_ok_iff, mapError_eq_ok_iff, pure_eq_ok_iff]
      exact hread.trans (by simp)

theorem contains_of_openArchive (h : openArchive fs p = .ok files) : fs.contains p = true := by
  obtain ⟨node, hnode, -⟩ := bind_eq_ok_iff.1 h
  exact contains_of_lookup (mapError_eq_ok_iff.1 hnode)

theorem exists_manifestClassPath_iff (hjar : p.isJar = true) :
    (∃ found, manifestClassPath fs p = .ok found) ↔ CanFollow fs p := by
  have hread : (∃ found, manifestClassPath fs p = .ok found) ↔
      ∃ files, openArchive fs p = .ok files ∧
        ∀ read ∈ manifestText? files, ∃ content, read = .ok content := by
    simp only [manifestClassPath_eq_ok_iff]
    rw [exists_comm]
    refine exists_congr fun files => ?_
    cases manifestText? files <;> simp [eq_comm]
  rw [hread]
  simp only [exists_ok_of_manifestText?_iff]
  constructor
  · rintro ⟨files, hfiles, hmanifest⟩
    by_cases hsealed : ∃ manifest ∈ files.find? (·.name == manifestName),
        manifest.content = .sealed
    · exact .inr ⟨hjar, files, hfiles, hsealed⟩
    · refine .inl ⟨contains_of_openArchive hfiles, fun _ => ⟨files, hfiles, ?_⟩⟩
      intro manifest hfind
      exact (hmanifest manifest hfind).resolve_left fun h => hsealed ⟨manifest, hfind, h⟩
  · rintro (hcan | ⟨-, files, hfiles, manifest, hfind, hsealed⟩)
    · obtain ⟨files, hfiles, hmanifest⟩ := hcan.archive hjar
      exact ⟨files, hfiles, fun manifest hfind => .inr (hmanifest manifest hfind)⟩
    · refine ⟨files, hfiles, fun other hother => .inl ?_⟩
      rwa [Option.mem_unique hother hfind]

theorem CanFollow.contains (h : CanFollow fs p) : fs.contains p = true := by
  rcases h with hcan | ⟨-, files, hfiles, -⟩
  · exact hcan.contains
  · exact contains_of_openArchive hfiles

end Manifests

theorem perm_sortPaths (paths : List Path) : (sortPaths paths).Perm paths :=
  List.mergeSort_perm _ _

theorem pairwise_sortPaths (paths : List Path) :
    (sortPaths paths).Pairwise fun a b => a.text ≤ b.text := by
  have hsorted : (sortPaths paths).Pairwise fun a b => decide (a.text ≤ b.text) = true := by
    apply List.pairwise_mergeSort
    · simpa using fun a b c => String.le_trans
    · simpa using fun a b => String.le_total ..
  exact hsorted.imp fun h => of_decide_eq_true h

theorem mem_links : q ∈ links fs p ↔
    p.isJar = true ∧ ∃ found, manifestClassPath fs p = .ok found ∧ q ∈ found := by
  unfold links
  cases hjar : p.isJar with
  | false => simp
  | true =>
      rw [if_pos rfl, (perm_sortPaths _).mem_iff]
      cases manifestClassPath fs p with
      | error cause => simp [Except.toOption]
      | ok found => simp [Except.toOption]

theorem references_eq_ok_iff :
    references fs p = .ok found ↔ CanFollow fs p ∧ found = links fs p := by
  unfold references links
  cases hcontains : fs.contains p with
  | false =>
      have hcannot : ¬ CanFollow fs p :=
        fun h => Bool.false_ne_true (hcontains.symm.trans h.contains)
      simp [hcannot]
  | true =>
      cases hjar : p.isJar with
      | false =>
          have hcan : CanFollow fs p := .inl ⟨hcontains, by simp [hjar]⟩
          simp [hcan, eq_comm]
      | true =>
          rw [← exists_manifestClassPath_iff hjar]
          cases manifestClassPath fs p with
          | error cause => simp [Except.map]
          | ok found => simp [Except.map, Except.toOption, eq_comm]

theorem MentionedWithin.mono {n m : Nat} (h : MentionedWithin fs entries n p) (hle : n ≤ m) :
    MentionedWithin fs entries m p := by
  induction h generalizing m with
  | given hp => exact .given hp
  | @reference _ _ _ n _ hjar hfound hq ih =>
      obtain ⟨m, rfl⟩ := Nat.exists_eq_add_of_le' hle
      exact .reference (ih (Nat.le_add_left n m)) hjar hfound hq

theorem mentioned_of_mem_links (hp : Mentioned fs entries p) (hq : q ∈ links fs p) :
    Mentioned fs entries q := by
  obtain ⟨n, hp⟩ := hp
  obtain ⟨hjar, found, hfound, hq⟩ := mem_links.1 hq
  exact ⟨n + 1, .reference hp hjar hfound hq⟩

theorem Mentioned.of_forall {entries' : List Path} (h : Mentioned fs entries' p)
    (hentries : ∀ q ∈ entries', Mentioned fs entries q) : Mentioned fs entries p := by
  obtain ⟨n, h⟩ := h
  induction h with
  | given hp => exact hentries _ hp
  | reference _ hjar hfound hq ih =>
      exact mentioned_of_mem_links ih (mem_links.2 ⟨hjar, _, hfound, hq⟩)

/-- The references of the first path in the queue are mentioned by the queue. -/
theorem Mentioned.of_append_links (h : Mentioned fs (queue ++ links fs p) q) :
    Mentioned fs (p :: queue) q := by
  apply h.of_forall
  intro a ha
  have hp : Mentioned fs (p :: queue) p := ⟨0, .given List.mem_cons_self⟩
  rcases List.mem_append.1 ha with ha | ha
  · exact ⟨0, .given (List.mem_cons_of_mem p ha)⟩
  · exact mentioned_of_mem_links hp ha

theorem Mentioned.of_tail (h : Mentioned fs queue q) : Mentioned fs (p :: queue) q :=
  h.of_forall fun _ ha => ⟨0, .given (List.mem_cons_of_mem p ha)⟩

theorem Expands.mentioned (h : Expands fs met queue outcome) {others : List Path}
    (hok : outcome = .ok others) : ∀ q ∈ others, Mentioned fs queue q ∧ CanFollow fs q := by
  induction h generalizing others with
  | done =>
      cases hok
      exact fun q hq => absurd hq List.not_mem_nil
  | skip _ _ ih => exact fun q hq => ⟨(ih hok q hq).1.of_tail, (ih hok q hq).2⟩
  | meet _ hfound _ ih =>
      obtain ⟨hp, rfl⟩ := references_eq_ok_iff.1 hfound
      obtain ⟨others, rfl, rfl⟩ := map_eq_ok_iff.1 hok
      intro q hq
      rcases List.mem_cons.1 hq with rfl | hq
      · exact ⟨⟨0, .given List.mem_cons_self⟩, hp⟩
      · exact ⟨(ih rfl q hq).1.of_append_links, (ih rfl q hq).2⟩
  | stop _ _ => cases hok

theorem Expands.exists_not_canFollow (h : Expands fs met queue outcome) {cause : LoadError}
    (herror : outcome = .error cause) : ∃ p, Mentioned fs queue p ∧ ¬ CanFollow fs p := by
  induction h with
  | done => cases herror
  | skip _ _ ih =>
      obtain ⟨q, hq, hcannot⟩ := ih herror
      exact ⟨q, hq.of_tail, hcannot⟩
  | @meet _ _ _ _ outcome _ hfound _ ih =>
      obtain ⟨-, rfl⟩ := references_eq_ok_iff.1 hfound
      cases outcome with
      | error cause' =>
          cases herror
          obtain ⟨q, hq, hcannot⟩ := ih rfl
          exact ⟨q, hq.of_append_links, hcannot⟩
      | ok others => cases herror
  | stop _ hfail =>
      refine ⟨_, ⟨0, .given List.mem_cons_self⟩, ?_⟩
      intro hcan
      cases hfail.symm.trans (references_eq_ok_iff.2 ⟨hcan, rfl⟩)

section FirstMentions

variable {α : Type} [BEq α] [LawfulBEq α]

theorem nodup_eraseDups (l : List α) : l.eraseDups.Nodup := by
  induction hlength : l.length using Nat.strong_induction_on generalizing l with
  | _ n ih =>
      cases l with
      | nil => exact List.nodup_nil
      | cons a rest =>
          rw [List.eraseDups_cons, List.nodup_cons]
          refine ⟨by simp [List.mem_eraseDups], ih _ ?_ _ rfl⟩
          rw [← hlength]
          exact Nat.lt_succ_of_le (List.length_filter_le _ _)

theorem eraseDups_isPrefix {l l' : List α} (h : l <+: l') : l.eraseDups <+: l'.eraseDups := by
  obtain ⟨rest, rfl⟩ := h
  exact ⟨_, List.eraseDups_append.symm⟩

/-- What comes before a member of a prefix is in the prefix. -/
theorem mem_of_before {l l' : List α} {a b : α} (hbegins : l <+: l') (hb : b ∈ l)
    (hbefore : List.Sublist [a, b] l'.eraseDups) : a ∈ l := by
  obtain ⟨rest, hrest⟩ := eraseDups_isPrefix hbegins
  have hnodup := nodup_eraseDups l'
  rw [← hrest, List.nodup_append] at hnodup
  rw [← hrest, List.sublist_append_iff] at hbefore
  obtain ⟨-, -, hdisjoint⟩ := hnodup
  obtain ⟨before, behind, heq, hbefore, hbehind⟩ := hbefore
  rw [← List.mem_eraseDups]
  cases before with
  | nil =>
      have hmem : b ∈ behind := by
        rw [← List.nil_append behind, ← heq]
        exact List.mem_cons_of_mem a List.mem_cons_self
      exact absurd rfl (hdisjoint b (List.mem_eraseDups.2 hb) b (hbehind.subset hmem))
  | cons a' before =>
      cases (List.cons.inj heq).1
      exact hbefore.subset List.mem_cons_self

end FirstMentions

/-- The paths in a list that have not been met, each where it is mentioned first. -/
def firstMentions (met paths : List Path) : List Path :=
  (paths.filter (· ∉ met)).eraseDups

theorem firstMentions_cons_of_mem (hp : p ∈ met) (paths : List Path) :
    firstMentions met (p :: paths) = firstMentions met paths := by
  rw [firstMentions, List.filter_cons_of_neg (by simpa using hp), firstMentions]

theorem firstMentions_cons_of_notMem (hp : p ∉ met) (paths : List Path) :
    firstMentions met (p :: paths) = p :: firstMentions (met ++ [p]) paths := by
  rw [firstMentions, List.filter_cons_of_pos (by simpa using hp), List.eraseDups_cons,
    List.filter_filter, firstMentions]
  congr 2
  apply List.filter_congr
  intro q _
  rw [Bool.eq_iff_iff]
  simp [and_comm, not_or]

/-- The queue is extended by the references of what is met, and all of it is met in turn. -/
theorem Expands.eq_firstMentions (h : Expands fs met queue outcome) {others : List Path}
    (hok : outcome = .ok others) :
    others = firstMentions met (queue ++ others.flatMap (links fs)) := by
  induction h generalizing others with
  | done =>
      cases hok
      rfl
  | skip hp _ ih =>
      rw [List.cons_append, firstMentions_cons_of_mem hp]
      exact ih hok
  | meet hp hfound _ ih =>
      obtain ⟨-, rfl⟩ := references_eq_ok_iff.1 hfound
      obtain ⟨others, rfl, rfl⟩ := map_eq_ok_iff.1 hok
      have hothers := ih rfl
      rw [List.append_assoc, ← List.flatMap_cons] at hothers
      rw [List.cons_append, firstMentions_cons_of_notMem hp, ← hothers]
  | stop _ _ => cases hok

variable {paths : List Path}

theorem mem_of_mentionedWithin (h : paths = (entries ++ paths.flatMap (links fs)).eraseDups)
    {n : Nat} (hp : MentionedWithin fs entries n p) : p ∈ paths := by
  induction hp with
  | given hp =>
      rw [h, List.mem_eraseDups]
      exact List.mem_append_left _ hp
  | reference _ hjar hfound hq ih =>
      rw [h, List.mem_eraseDups]
      exact List.mem_append_right _
        (List.mem_flatMap.2 ⟨_, ih, mem_links.2 ⟨hjar, _, hfound, hq⟩⟩)

/-- The first mention of the path is by an archive over which the later one is mentioned, or
by one before it. -/
theorem mentionedWithin_of_before (h : paths = (entries ++ paths.flatMap (links fs)).eraseDups)
    {n : Nat} (hq : MentionedWithin fs entries n q) (hbefore : List.Sublist [p, q] paths) :
    MentionedWithin fs entries n p := by
  induction hq generalizing p with
  | given hq =>
      rw [h] at hbefore
      exact .given (mem_of_before (List.prefix_append _ _) hq hbefore)
  | @reference a q found n ha hjar hfound hq ih =>
      obtain ⟨before, behind, hsplit⟩ := List.append_of_mem (mem_of_mentionedWithin h ha)
      have hbegins : entries ++ (before ++ [a]).flatMap (links fs) <+:
          entries ++ paths.flatMap (links fs) := by
        refine ⟨behind.flatMap (links fs), ?_⟩
        rw [hsplit]
        simp
      have hmention : q ∈ entries ++ (before ++ [a]).flatMap (links fs) :=
        List.mem_append_right _
          (List.mem_flatMap.2 ⟨a, by simp, mem_links.2 ⟨hjar, found, hfound, hq⟩⟩)
      rw [h] at hbefore
      rcases List.mem_append.1 (mem_of_before hbegins hmention hbefore) with hp | hp
      · exact .given hp
      · obtain ⟨b, hb, hp⟩ := List.mem_flatMap.1 hp
        obtain ⟨hjar, found, hfound, hp⟩ := mem_links.1 hp
        refine .reference ?_ hjar hfound hp
        rcases List.mem_append.1 hb with hb | hb
        · apply ih
          rw [hsplit]
          exact (List.singleton_sublist.2 hb).append
            (List.singleton_sublist.2 List.mem_cons_self)
        · rwa [List.mem_singleton.1 hb]

theorem breadthFirst_of_expand (h : expand fs entries = .ok paths) :
    BreadthFirst fs entries paths := by
  have hexpands : Expands fs [] entries (.ok paths) := expands_iff.2 h.symm
  have heq : paths = (entries ++ paths.flatMap (links fs)).eraseDups := by
    have hfirst := hexpands.eq_firstMentions rfl
    rwa [firstMentions, List.filter_eq_self.2 fun p _ => by simp] at hfirst
  have hmentioned := hexpands.mentioned rfl
  exact {
    mem_iff := fun p =>
      ⟨fun hp => (hmentioned p hp).1, fun ⟨n, hp⟩ => mem_of_mentionedWithin heq hp⟩
    nodup := by
      rw [heq]
      exact nodup_eraseDups _
    eq_eraseDups := heq
    links_sorted := by
      intro p hp hjar
      obtain ⟨found, hfound⟩ := (exists_manifestClassPath_iff hjar).2 (hmentioned p hp).2
      have hlinks : links fs p = sortPaths found := by
        rw [links, if_pos hjar, hfound]
        rfl
      rw [hlinks]
      exact ⟨found, hfound, perm_sortPaths found, pairwise_sortPaths found⟩
    within_of_before := fun p q n hbefore hq => mentionedWithin_of_before heq hq hbefore }

/-- A class path is expanded iff each path that it mentions can be read, but for manifests that do
not open. The outcome holds the paths that it mentions, in the order of their first mention. -/
theorem expand_breadthFirst (fs : FileSystem) (entries : List Path) :
    ((∃ paths, expand fs entries = .ok paths) ↔
      ∀ p, Mentioned fs entries p → CanRead fs p ∨ SealedManifest fs p) ∧
    ∀ paths, expand fs entries = .ok paths → BreadthFirst fs entries paths := by
  have hexpands : Expands fs [] entries (expand fs entries) := expands_iff.2 rfl
  refine ⟨⟨?_, ?_⟩, fun paths => breadthFirst_of_expand⟩
  · rintro ⟨paths, h⟩ p hp
    exact (hexpands.mentioned h p (((breadthFirst_of_expand h).mem_iff p).2 hp)).2
  · intro h
    by_contra hfail
    obtain ⟨cause, herror⟩ := exists_eq_error_iff.2 hfail
    obtain ⟨p, hp, hcannot⟩ := hexpands.exists_not_canFollow herror
    exact hcannot (h p hp)

/-- An archive that only has a class path. -/
def referring (classPath : String) : Node :=
  .archive (.ofRecords [⟨manifestName, .bytes ("Class-Path: " ++ classPath ++ "\n").toUTF8.data⟩])

/-- Archives that refer to each other in a circle. -/
def circularFiles : FileSystem :=
  (((FileSystem.empty ["work"]).add ["work", "a.jar"] (referring "b.jar")).add
    ["work", "b.jar"] (referring "c.jar")).add ["work", "c.jar"] (referring "a.jar")

theorem expand_breadthFirst_circular :
    expand circularFiles [⟨"b.jar"⟩, ⟨"a.jar"⟩] = .ok [⟨"b.jar"⟩, ⟨"a.jar"⟩, ⟨"c.jar"⟩] ∧
      BreadthFirst circularFiles [⟨"b.jar"⟩, ⟨"a.jar"⟩] [⟨"b.jar"⟩, ⟨"a.jar"⟩, ⟨"c.jar"⟩] := by
  have h : expand circularFiles [⟨"b.jar"⟩, ⟨"a.jar"⟩] =
      .ok [⟨"b.jar"⟩, ⟨"a.jar"⟩, ⟨"c.jar"⟩] := by
    rw [← toOption_eq_some_iff]
    decide +kernel
  exact ⟨h, (expand_breadthFirst circularFiles [⟨"b.jar"⟩, ⟨"a.jar"⟩]).2 _ h⟩

/-- A text, and an archive whose manifest does not open. -/
def sealedFiles : FileSystem :=
  ((FileSystem.empty ["work"]).add ["work", "a.txt"] (.file "text".toUTF8.data)).add
    ["work", "b.jar"] (.archive (.ofRecords [⟨manifestName, .sealed⟩]))

/-- The expansion succeeds although a manifest on the class path cannot be read. -/
theorem expand_sealedFiles :
    expand sealedFiles [⟨"a.txt"⟩, ⟨"b.jar"⟩] = .ok [⟨"a.txt"⟩, ⟨"b.jar"⟩] ∧
      Mentioned sealedFiles [⟨"a.txt"⟩, ⟨"b.jar"⟩] ⟨"b.jar"⟩ ∧
      ¬ CanRead sealedFiles ⟨"b.jar"⟩ := by
  have hexpand : expand sealedFiles [⟨"a.txt"⟩, ⟨"b.jar"⟩] = .ok [⟨"a.txt"⟩, ⟨"b.jar"⟩] := by
    rw [← toOption_eq_some_iff]
    decide +kernel
  refine ⟨hexpand, ⟨0, .given (by simp)⟩, fun hcan => ?_⟩
  have hopen : openArchive sealedFiles ⟨"b.jar"⟩ = .ok [⟨manifestName, .sealed⟩] := by
    rw [← toOption_eq_some_iff]
    decide +kernel
  obtain ⟨files, hfiles, hmanifest⟩ := hcan.archive (by decide)
  cases hopen.symm.trans hfiles
  obtain ⟨bytes, content, hbytes, -⟩ := hmanifest ⟨manifestName, .sealed⟩ (by simp)
  cases hbytes

end JvmReach.Load
