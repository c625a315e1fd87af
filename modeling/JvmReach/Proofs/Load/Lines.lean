import JvmReach.Proofs.Construction.Outcomes
import JvmReach.Proofs.Load.Targets
import JvmReach.Proofs.Program.LineTables

/-!
# Lines of loaded methods

Class files and models list the entries of a line table in any order. Both are put in order
when they are loaded, so the line at an offset is that of the entry that covers it, and it is
the line of the call sites there.
-/

namespace JvmReach

namespace ClassFile

variable {pool : ConstantPool} {member : Member} {m : Method}

theorem readsLines_of_body? {body? : Option Body} (hbody : member.body? pool = .ok body?)
    (hm : m.body? = body?) : m.ReadsLines member.listing? := by
  rw [Member.body?] at hbody
  rw [Member.listing?]
  cases hcode : member.code? with
  | none =>
      rw [hcode] at hbody
      cases hbody
      exact m.readsLines_of_body?_eq_none hm
  | some found =>
      obtain ⟨code, attributes⟩ := found
      rw [hcode] at hbody
      obtain ⟨instructions, -, hbody⟩ := bind_eq_ok_iff.1 hbody
      cases hbody
      exact m.readsLines_of_stablySorted hm
        (stablySorted_sortLines { instructions, lines := lineEntries attributes })

theorem readsLines_of_load (h : member.load pool = .ok m) : m.ReadsLines member.listing? := by
  obtain ⟨name, -, h⟩ := bind_eq_ok_iff.1 h
  obtain ⟨descriptor, -, h⟩ := bind_eq_ok_iff.1 h
  obtain ⟨body?, hbody, h⟩ := bind_eq_ok_iff.1 h
  cases h
  exact readsLines_of_body? (mapError_eq_ok_iff.1 hbody) rfl

theorem Structure.mapM_methods_of_load {f : Structure} {isTarget : Bool} {c : ClassDef}
    (h : f.load isTarget = .ok c) :
    f.methods.mapM (fun member => member.load f.pool) = .ok c.methods := by
  obtain ⟨name, -, h⟩ := bind_eq_ok_iff.1 h
  obtain ⟨superclass?, -, h⟩ := bind_eq_ok_iff.1 h
  obtain ⟨interfaces, -, h⟩ := bind_eq_ok_iff.1 h
  obtain ⟨references, -, h⟩ := bind_eq_ok_iff.1 h
  obtain ⟨methods, hmethods, h⟩ := bind_eq_ok_iff.1 h
  cases h
  exact mapError_eq_ok_iff.1 hmethods

end ClassFile

namespace Load

open Files

theorem readsLines_prepare (m : Method) :
    Method.ReadsLines { m with body? := m.body?.map Body.sortLines } (m.body?.map Body.lines) := by
  cases hbody : m.body? with
  | none => exact Method.readsLines_of_body?_eq_none rfl
  | some body => exact Method.readsLines_of_stablySorted rfl (stablySorted_sortLines body)

/-- The methods of a class find the lines that its source lists for them. -/
theorem Yields.readsLines {content : Array UInt8} {isTarget : Bool} {c : ClassDef}
    {listings : List (Option (List LineEntry))} (h : Yields content isTarget c listings) :
    List.Forall₂ Method.ReadsLines c.methods listings := by
  cases h with
  | @classFile f _ _ hload =>
      have hmethods := mapM_eq_ok_iff.1 (ClassFile.Structure.mapM_methods_of_load hload)
      rw [List.forall₂_map_right_iff]
      exact hmethods.flip.imp fun _ _ => ClassFile.readsLines_of_load
  | @model _ d _ _ =>
      rw [prepare, List.forall₂_map_left_iff, List.forall₂_map_right_iff, List.forall₂_same]
      exact fun m _ => readsLines_prepare m

theorem forall₂_line?_eq {ms ms' : List Method}
    {listings listings' : List (Option (List LineEntry))}
    (h : List.Forall₂ Method.ReadsLines ms listings)
    (h' : List.Forall₂ Method.ReadsLines ms' listings')
    (hsame : List.Forall₂ SameEntries listings listings') :
    List.Forall₂ (fun m m' => ∀ offset, m.line? offset = m'.line? offset) ms ms' := by
  induction hsame generalizing ms ms' with
  | nil =>
      cases h
      cases h'
      exact .nil
  | cons hhead _ ih =>
      cases h with
      | cons hm hms =>
          cases h' with
          | cons hm' hms' => exact .cons (hm.line?_eq hm' hhead) (ih hms hms')

theorem exists_source_of_loadInputs {fs : FileSystem} {target : Path} {classPath : List Path}
    {loaded : Loaded} (h : loadInputs fs target classPath = .ok loaded) :
    ∀ c ∈ loaded.classes, ∃ isTarget, HasSource fs isTarget c := by
  obtain ⟨own, libraries, hparts⟩ := exists_loadedInParts h
  obtain ⟨given, entries, -, -, hlibraries⟩ := hparts.ofClassPath
  rw [hparts.eq_append]
  intro c hc
  rcases List.mem_append.1 hc with hc | hc
  · exact ⟨true, hasSource_of_loadInput hparts.ofTarget c hc⟩
  · exact ⟨false, forall_mem_of_collect (fun _ _ => hasSource_of_loadInput) hlibraries c hc⟩

/-- Whatever is loaded finds the lines of the entries that its source lists, in whatever order
they are listed there, and these are the lines of the call sites. -/
theorem lines_exact :
    (∀ (content : Array UInt8) (isTarget : Bool) (c : ClassDef),
      ClassFile.load content isTarget = .ok c →
        ∃ f, ClassFile.Structure.ofBytes content = .ok f ∧
          Yields content isTarget c (f.methods.map ClassFile.Member.listing?)) ∧
    (∀ (fs : FileSystem) (target : Path) (classPath : List Path) (loaded : Loaded),
      loadInputs fs target classPath = .ok loaded →
        ∀ c ∈ loaded.classes, ∃ isTarget content listings,
          Stores fs content ∧ Yields content isTarget c listings) ∧
    (∀ (content : Array UInt8) (isTarget : Bool) (c : ClassDef)
      (listings : List (Option (List LineEntry))), Yields content isTarget c listings →
        List.Forall₂ Method.ReadsLines c.methods listings ∧
        ∀ (content' : Array UInt8) (isTarget' : Bool) (c' : ClassDef)
          (listings' : List (Option (List LineEntry))), Yields content' isTarget' c' listings' →
            List.Forall₂ SameEntries listings listings' →
              List.Forall₂ (fun m m' => ∀ offset, m.line? offset = m'.line? offset)
                c.methods c'.methods) ∧
    ∀ (h : Hierarchy) (o : Construction.Options) (clock : Nat → Nat) (strategy : Strategy)
      (entries : List MethodRef) (site : CallSite) (r : SiteRecord),
      (Construction.build h o clock strategy entries).graph.sites[site]? = some r →
        r.line? = (h.program.method? site.caller).bind (·.line? site.offset) := by
  refine ⟨?_, ?_, ?_, ?_⟩
  · intro content isTarget c hload
    obtain ⟨f, hfile, hload⟩ := exists_structure_of_load hload
    exact ⟨f, hfile, .classFile hfile hload⟩
  · intro fs target classPath loaded hloaded c hc
    exact exists_source_of_loadInputs hloaded c hc
  · intro content isTarget c listings hc
    exact ⟨hc.readsLines, fun _ _ _ _ hc' => forall₂_line?_eq hc.readsLines hc'.readsLines⟩
  · intro h o clock strategy entries site r hr
    exact Construction.line?_of_getElem?_sites_build h o clock strategy entries hr

/-- A class file with a method `m()V` of three bytes. Its first line table puts line 30 at
offset 2, the second one line 10 at offset 0 and line 31 at offset 2. -/
def twoTables : Array UInt8 :=
  #[0xca, 0xfe, 0xba, 0xbe, 0x00, 0x00, 0x00, 0x34, 0x00, 0x07, 0x01, 0x00, 0x01, 0x41, 0x07, 0x00,
    0x01, 0x01, 0x00, 0x01, 0x6d, 0x01, 0x00, 0x03, 0x28, 0x29, 0x56, 0x01, 0x00, 0x04, 0x43, 0x6f,
    0x64, 0x65, 0x01, 0x00, 0x0f, 0x4c, 0x69, 0x6e, 0x65, 0x4e, 0x75, 0x6d, 0x62, 0x65, 0x72, 0x54,
    0x61, 0x62, 0x6c, 0x65, 0x00, 0x21, 0x00, 0x02, 0x00, 0x00, 0x00, 0x00, 0x00, 0x00, 0x00, 0x01,
    0x00, 0x09, 0x00, 0x03, 0x00, 0x04, 0x00, 0x01, 0x00, 0x05, 0x00, 0x00, 0x00, 0x2b, 0x00, 0x00,
    0x00, 0x00, 0x00, 0x00, 0x00, 0x03, 0x00, 0x00, 0xb1, 0x00, 0x00, 0x00, 0x02, 0x00, 0x06, 0x00,
    0x00, 0x00, 0x06, 0x00, 0x01, 0x00, 0x02, 0x00, 0x1e, 0x00, 0x06, 0x00, 0x00, 0x00, 0x0a, 0x00,
    0x02, 0x00, 0x00, 0x00, 0x0a, 0x00, 0x02, 0x00, 0x1f, 0x00, 0x00]

theorem load_twoTables : (ClassFile.load twoTables true).toOption.map ClassDef.name = some "A" ∧
    (ClassFile.Structure.ofBytes twoTables).toOption.map
        (fun f => f.methods.map ClassFile.Member.listing?) =
      some [some [⟨2, 30⟩, ⟨0, 10⟩, ⟨2, 31⟩]] := by
  decide +kernel

theorem lines_exact_twoTables :
    ∃ c m, ClassFile.load twoTables true = .ok c ∧ c.methods = [m] ∧
      m.line? 0 = some 10 ∧ m.line? 1 = some 10 ∧ m.line? 2 = some 31 := by
  obtain ⟨c, hload, -⟩ := eq_ok_of_toOption_map load_twoTables.1
  obtain ⟨f, hfile, hlistings⟩ := eq_ok_of_toOption_map load_twoTables.2
  obtain ⟨f', hfile', hyields⟩ := lines_exact.1 twoTables true c hload
  cases hfile.symm.trans hfile'
  obtain ⟨hreads, -⟩ := lines_exact.2.2.1 twoTables true c _ hyields
  rw [hlistings, List.forall₂_cons_right_iff] at hreads
  obtain ⟨m, rest, hm, hrest, hmethods⟩ := hreads
  cases hrest
  have hbefore : ∀ offset < 2, Covers [⟨2, 30⟩, ⟨0, 10⟩, ⟨2, 31⟩] offset ⟨0, 10⟩ := fun offset h =>
    ⟨Nat.zero_le offset, by simp; omega, by decide⟩
  refine ⟨c, m, hload, hmethods, ?_, ?_, ?_⟩
  · exact (hm.line 0 10).2 ⟨_, rfl, ⟨0, 10⟩, hbefore 0 (by decide), rfl⟩
  · exact (hm.line 1 10).2 ⟨_, rfl, ⟨0, 10⟩, hbefore 1 (by decide), rfl⟩
  · exact (hm.line 2 31).2 ⟨_, rfl, ⟨2, 31⟩, ⟨by decide, by decide, by decide⟩, rfl⟩

end Load

end JvmReach
