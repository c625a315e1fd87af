import JvmReach.Proofs.Construction.Accumulation

/-!
# Nothing is lost along a construction

Methods keep their places, diagnostics stay, and call sites only gain targets
(`Contained`). Opening a call site drops its targets, so this needs that no site is opened
twice, which follows from distinct offsets, as no method is taken up twice. It holds of
whatever a scan, a turn or a run leaves behind, interrupted or not.
-/

namespace JvmReach.Construction

/-- Everything in the first state is still there in the second. -/
structure Contained (s s' : State) : Prop extends Accumulates s s' where
  sites : ∀ (site : CallSite) (r : SiteRecord), s.sites[site]? = some r →
    ∃ r', s'.sites[site]? = some r' ∧ r.Grows r'

namespace Contained

theorem refl (s : State) : Contained s s where
  toAccumulates := Accumulates.refl s
  sites _ r hr := ⟨r, hr, .refl r⟩

theorem trans {s₁ s₂ s₃ : State} (h₁ : Contained s₁ s₂) (h₂ : Contained s₂ s₃) :
    Contained s₁ s₃ where
  toAccumulates := h₁.toAccumulates.trans h₂.toAccumulates
  sites site r hr := by
    obtain ⟨r₂, hr₂, hgrows₂⟩ := h₁.sites site r hr
    obtain ⟨r₃, hr₃, hgrows₃⟩ := h₂.sites site r₂ hr₂
    exact ⟨r₃, hr₃, hgrows₂.trans hgrows₃⟩

theorem of_eq_ok {s s' : State} {p : Progress} (hcontained : Contained s p.state)
    (hok : p = .ok s') : Contained s s' := by
  rwa [hok] at hcontained

end Contained

theorem Updates.contained {h : Hierarchy} {s s' : State} (hupdates : Updates h s s') :
    Contained s s' where
  toAccumulates := hupdates.steps.accumulates
  sites := hupdates.grows.sites

/-- None of the observations has a call site yet. -/
def Unopened (s : State) (m : MethodRef) (observed : List Observation) : Prop :=
  ∀ obs ∈ observed, (⟨m, obs.1.offset⟩ : CallSite) ∉ s.sites

/-- A method that is taken up has no call sites yet. -/
theorem unopened_take {h : Hierarchy} {entries : List MethodRef} {s : State}
    (hwf : WellFormed h entries s) {m : MethodRef} {rest : List MethodRef}
    (hpending : s.pending = m :: rest) (observed : List Observation) : Unopened s m observed := by
  intro obs _ hsite
  obtain ⟨r, hr⟩ := (s.mem_sites_iff _).1 hsite
  obtain ⟨-, _, hat, -⟩ := hwf.recorded.call _ r hr
  exact hwf.listed.notMem_processed hpending hat.processed

namespace State

variable {h : Hierarchy} {o : Options} {s s' : State} {m : MethodRef} {method : Method}
  {obs : Observation} {observed : List Observation}

theorem contained_entered {site : CallSite} (hnew : site ∉ s.sites) (operation : Operation)
    (line? : Option Nat) : Contained s (s.entered site operation line?) := by
  cases operation with
  | invoke call =>
      obtain ⟨_, _, heq⟩ := s.entered_eq site (.invoke call) line?
      refine ⟨?_, ?_⟩
      · rw [heq]
        exact ⟨List.prefix_refl _, fun _ hd => hd⟩
      · intro other r hr
        refine ⟨r, ?_, .refl r⟩
        rw [entered, getElem?_sites_opened, if_neg, hr]
        rintro rfl
        exact hnew ((s.mem_sites_iff site).2 ⟨r, hr⟩)
  | _ => exact Contained.refl s

theorem contained_scan (hm : m ∈ s.processed) (hobs : obs ∈ h.program.observed m)
    (hnew : (⟨m, obs.1.offset⟩ : CallSite) ∉ s.sites) :
    Contained s (scan h o m method s obs).state :=
  (contained_entered hnew _ _).trans (updates_scan ⟨hm, hobs, rfl⟩).contained

/-- A scan opens no site but its own. -/
theorem mem_sites_of_scan (hm : m ∈ s.processed) (hobs : obs ∈ h.program.observed m)
    (hok : scan h o m method s obs = .ok s') {site : CallSite} (hsite : site ∈ s'.sites) :
    (⟨m, obs.1.offset⟩ : CallSite) = site ∨ site ∈ s.sites := by
  have hentered := (grows_scan ⟨hm, hobs, rfl⟩ hok).opened site hsite
  cases hoperation : obs.1.operation with
  | invoke call =>
      rw [hoperation] at hentered
      exact (s.mem_sites_opened _ site call _).1 hentered
  | _ =>
      rw [hoperation] at hentered
      exact Or.inr hentered

theorem unopened_scan (hm : m ∈ s.processed) (hobs : obs ∈ h.program.observed m)
    (hoffsets : ((obs :: observed).map fun obs => obs.1.offset).Nodup)
    (hnew : Unopened s m (obs :: observed)) (hok : scan h o m method s obs = .ok s') :
    Unopened s' m observed := by
  intro other hother hsite
  rcases mem_sites_of_scan hm hobs hok hsite with heq | hsite
  · have heq : obs.1.offset = other.1.offset := congrArg CallSite.offset heq
    rw [List.map_cons, List.nodup_cons] at hoffsets
    exact hoffsets.1 (List.mem_map.2 ⟨other, hother, heq.symm⟩)
  · exact hnew other (List.mem_cons_of_mem obs hother) hsite

theorem contained_foldlM (hm : m ∈ s.processed)
    (hobserved : ∀ obs ∈ observed, obs ∈ h.program.observed m)
    (hoffsets : (observed.map fun obs => obs.1.offset).Nodup) (hnew : Unopened s m observed) :
    Contained s (Progress.state (observed.foldlM (scan h o m method) s)) := by
  induction observed generalizing s with
  | nil => exact Contained.refl s
  | cons obs rest ih =>
      have hobs := hobserved obs (by simp)
      have hfirst : Contained s (scan h o m method s obs).state :=
        contained_scan hm hobs (hnew obs (by simp))
      rw [List.foldlM_cons]
      cases hscan : scan h o m method s obs with
      | error halt => simpa [hscan, bind, Except.bind] using hfirst
      | ok s₁ =>
          rw [hscan] at hfirst
          exact hfirst.trans (ih (processed_scan hm hobs hscan ▸ hm)
            (fun obs hobs => hobserved obs (by simp [hobs])) (List.nodup_cons.1 hoffsets).2
            (unopened_scan hm hobs hoffsets hnew hscan))

theorem contained_process (hoffsets : h.program.DistinctOffsets) (hm : m ∈ s.processed)
    (hnew : Unopened s m (h.program.observed m)) : Contained s (s.process h o m).state := by
  rw [process_eq]
  cases h.program.method? m with
  | none => exact Contained.refl s
  | some method =>
      exact contained_foldlM hm (fun _ hobs => hobs) (hoffsets.nodup_observed m) hnew

theorem contained_revisit {site : CallSite} (hsite : site ∈ s.virtualSites) :
    Contained s (s.revisit h o site).state := by
  rw [revisit]
  cases hr : s.sites[site]? with
  | none => exact Contained.refl s
  | some r => exact (updates_resolveVirtual ⟨hsite, r, hr, rfl⟩).contained

theorem contained_advance {entries : List MethodRef} (hoffsets : h.program.DistinctOffsets)
    (hwf : WellFormed h entries s) (elapsed : Nat) :
    Contained s (s.advance h o elapsed).state := by
  have haccumulates := (steps_advance (h := h) (o := o) hwf.swept elapsed).accumulates
  refine ⟨haccumulates, ?_⟩
  rw [advance]
  split
  · next site rest hsweep =>
      split
      · exact (Contained.refl s).sites
      · rw [Turn.state_ofProgress]
        have hsite : site ∈ s.virtualSites := hwf.swept site (by simp [hsweep])
        have hrevisit : Contained { s with sweep := rest }
            ({ s with sweep := rest }.revisit h o site).state := contained_revisit hsite
        exact hrevisit.sites
  · next m rest hsweep hpending =>
      split
      · exact (Contained.refl s).sites
      · rw [Turn.state_ofProgress]
        have hprocess : Contained { s with processed := s.processed ++ [m], pending := rest }
            ({ s with processed := s.processed ++ [m], pending := rest }.process h o m).state :=
          contained_process hoffsets (by simp) (unopened_take hwf hpending _)
        exact hprocess.sites
  · split
    · exact (Contained.refl s).sites
    · exact (Contained.refl s).sites

end State

/-- A run keeps everything, whatever ends it. -/
theorem contained_run {h : Hierarchy} {o : Options} {entries : List MethodRef}
    (hoffsets : h.program.DistinctOffsets) (clock : Nat → Nat) (turns k : Nat) {s : State}
    (hwf : WellFormed h entries s) : Contained s (run h o clock turns k s).state := by
  induction turns generalizing k s with
  | zero => exact Contained.refl s
  | succ turns ih =>
      have hturn := State.contained_advance (o := o) hoffsets hwf (clock k)
      rw [run]
      cases hadvance : s.advance h o (clock k) with
      | continued s' =>
          rw [hadvance] at hturn
          have hwf' := (State.steps_of_continued hwf.swept hadvance).wellFormed hwf
          exact hturn.trans (ih (k + 1) hwf')
      | finished s' => rwa [hadvance] at hturn
      | halted halt => rwa [hadvance] at hturn

end JvmReach.Construction
