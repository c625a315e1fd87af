import JvmReach.Proofs.Construction.Initialization
import JvmReach.Proofs.Construction.Soundness

/-!
# Call graphs as fixed points

With distinct offsets, the graph of a construction that is not interrupted is a
fixed point of the rules for the receiver types that are finally admitted: no
site keeps the targets of an earlier time, and nothing is there without a reason.
It is the least one: it lies within any methods and types that are closed under
the rules. As the rules of class hierarchy analysis admit more receivers, a rapid
type analysis stays within a class hierarchy analysis of the same program.
-/

namespace JvmReach.Construction

/-- A construction from `entries` that came to its end without interruption. -/
structure Final (h : Hierarchy) (entries : List MethodRef) (s : State) : Prop where
  wellFormed : WellFormed h entries s
  followed : Followed h s
  settled : Settled h s
  grounded : Grounded h entries s
  finished : Finished s
  roots : ∀ e ∈ entries, e ∈ s.reachable
  constructorRoots : ∀ e ∈ entries, Strategy.isConstructorRoot h.program e = true →
    s.strategy.admits e.owner = true

section

variable {h : Hierarchy} {o : Options} {clock : Nat → Nat} {a : Algorithm}
  {entries : List MethodRef} {s : State}

theorem steps_of_run {strategy : Strategy} {turns : Nat}
    (hrun : run h o clock turns 0 (initial h strategy entries) = .ok s) :
    Steps h (initial h strategy entries) s :=
  (steps_run h o clock turns 0 (wellFormed_initial h strategy entries).swept).of_eq_ok hrun

theorem algorithm_of_run {strategy : Strategy} {turns : Nat}
    (hrun : run h o clock turns 0 (initial h strategy entries) = .ok s) :
    s.strategy.algorithm = strategy.algorithm :=
  (steps_of_run hrun).extends.algorithm.trans (algorithm_initial h strategy entries)

theorem final_of_run (hoffsets : h.program.DistinctOffsets)
    (hrun : run h o clock (turnBound h entries) 0 (initial h (.ofAlgorithm a) entries) = .ok s) :
    Final h entries s := by
  have hinitial := wellFormed_initial h (.ofAlgorithm a) entries
  have hsteps := steps_of_run hrun
  constructor
  · exact wellFormed_run hinitial hrun
  · exact followed_run hrun hinitial (followed_initial h _ entries)
  · exact settled_run hoffsets hrun hinitial (settled_initial h _ entries)
  · exact hsteps.grounded hoffsets hinitial (grounded_initial h a entries)
  · exact finished_of_eq_ok hrun
  · intro e he
    exact hsteps.extends.reachable e ((mem_reachable_initial h _ entries e).2 he)
  · intro e he hroot
    refine hsteps.extends.admits e.owner ((admits_initial h _ entries e.owner).2 ?_)
    rw [Strategy.admits_ofAlgorithm, Strategy.algorithm_ofAlgorithm]
    cases a with
    | cha => exact Or.inl rfl
    | rta => exact Or.inr ⟨rfl, e, he, hroot, rfl⟩

end

namespace Final

variable {h : Hierarchy} {entries : List MethodRef} {s : State}

theorem mem_processed (hs : Final h entries s) {m : MethodRef} (hm : m ∈ s.reachable) :
    m ∈ s.processed :=
  hs.finished.mem_processed hs.wellFormed hm

theorem mem_reachable (hs : Final h entries s) {m : MethodRef} (hm : m ∈ s.processed) :
    m ∈ s.reachable :=
  (hs.wellFormed.listed.mem_iff m).1 (List.mem_append_left _ hm)

/-- No dispatching site keeps the targets of an earlier time. -/
theorem resolved (hs : Final h entries s) {site : CallSite} (hsite : site ∈ s.virtualSites) :
    Resolved h s site := by
  apply hs.settled.fresh hs.finished.generation.symm site hsite
  rw [hs.finished.sweep]
  exact List.not_mem_nil

theorem mem_sites_iff (hs : Final h entries s) (site : CallSite) :
    site ∈ s.sites ↔ site.caller ∈ s.reachable ∧
      ∃ body, h.program.body? site.caller = some body ∧
        ∃ call, ⟨site.offset, .invoke call⟩ ∈ body.instructions := by
  constructor
  · intro hsite
    obtain ⟨r, hr⟩ := (s.mem_sites_iff site).1 hsite
    obtain ⟨-, obs, hat, hcall⟩ := hs.wellFormed.recorded.call site r hr
    obtain ⟨body, hbody, hobs⟩ := (h.program.mem_observed_iff _ _).1 hat.observed
    refine ⟨hs.mem_reachable hat.processed, body, hbody, r.call, ?_⟩
    rw [← hat.offset, ← hcall]
    exact (body.mem_instructions_iff obs.1).2 ⟨obs.2, hobs⟩
  · rintro ⟨hcaller, body, hbody, call, hinstruction⟩
    obtain ⟨effect?, hobs⟩ := (body.mem_instructions_iff _).1 hinstruction
    have hobs := (h.program.mem_observed_iff site.caller _).2 ⟨body, hbody, hobs⟩
    obtain ⟨-, r, hr, -⟩ := hs.settled.sites site.caller (hs.mem_processed hcaller) _ hobs call rfl
    exact (s.mem_sites_iff site).2 ⟨r, hr⟩

/-- The site of a call holds the call, its line and all its targets, and no other. -/
theorem exists_record (hoffsets : h.program.DistinctOffsets) (hs : Final h entries s)
    {m : MethodRef} (hm : m ∈ s.reachable) {obs : Observation}
    (hobs : obs ∈ h.program.observed m) {call : Invocation}
    (hcall : obs.1.operation = .invoke call) :
    ∃ r, s.sites[(⟨m, obs.1.offset⟩ : CallSite)]? = some r ∧ r.call = call ∧
      r.line? = (h.program.method? m).bind (·.line? obs.1.offset) ∧
      ∀ t, t ∈ r.targets ↔ t ∈ h.targets s.strategy.admits obs := by
  have hprocessed := hs.mem_processed hm
  have hat : At h s ⟨m, obs.1.offset⟩ obs := ⟨hprocessed, hobs, rfl⟩
  obtain ⟨hvirtual, r, hr, hdirect, hconstructors⟩ :=
    hs.settled.sites m hprocessed obs hobs call hcall
  obtain ⟨hline, obs', hat', hcall'⟩ := hs.wellFormed.recorded.call _ r hr
  have hsame : r.call = call := by
    rw [← hat.unique hoffsets hat', hcall] at hcall'
    cases hcall'
    rfl
  refine ⟨r, hr, hsame, hline, ?_⟩
  intro t
  constructor
  · intro ht
    obtain ⟨-, obs'', hat'', ht⟩ := hs.grounded.targets _ r hr t ht
    rwa [hat.unique hoffsets hat'']
  · rintro (⟨call'', hcall'', ht⟩ | ⟨effect, heffect, ht⟩)
    · rw [hcall] at hcall''
      cases hcall''
      cases hdispatches : call.dispatches with
      | true =>
          rw [h.callTargets_of_dispatches _ hdispatches, ← hsame] at ht
          exact hs.resolved (hvirtual hdispatches) r hr t ht
      | false => exact hdirect hdispatches _ t ht
    · exact hconstructors effect heffect t ht

/-- Calls are the only observations with targets. -/
theorem mem_reachable_of_targets (hoffsets : h.program.DistinctOffsets)
    (hs : Final h entries s) {m : MethodRef} (hm : m ∈ s.reachable) {obs : Observation}
    (hobs : obs ∈ h.program.observed m) {t : MethodRef}
    (ht : t ∈ h.targets s.strategy.admits obs) : t ∈ s.reachable := by
  have hinvoke : ∃ call, obs.1.operation = .invoke call := by
    rcases ht with ⟨call, hcall, -⟩ | ⟨effect, heffect, -⟩
    · exact ⟨call, hcall⟩
    · exact h.program.exists_invoke_of_effect hobs heffect
  obtain ⟨call, hcall⟩ := hinvoke
  obtain ⟨r, hr, -, -, htargets⟩ := hs.exists_record hoffsets hm hobs hcall
  exact (hs.grounded.targets _ r hr t ((htargets t).2 ht)).1

theorem fixedPoint (hoffsets : h.program.DistinctOffsets) (hs : Final h entries s) :
    h.FixedPoint entries s.strategy s.graph where
  roots := hs.roots
  sites := hs.mem_sites_iff
  records m hm obs hobs call hcall := hs.exists_record hoffsets hm hobs hcall
  reachable t := by
    constructor
    · intro ht
      rcases hs.grounded.reachable t ht with hentry | ⟨m, hm, obs, hobs, ht⟩
      · exact Or.inl hentry
      · exact Or.inr ⟨m, hs.mem_reachable hm, obs, hobs, ht⟩
    · rintro (hentry | ⟨m, hm, obs, hobs, ht | ⟨type, htype, ht⟩⟩)
      · exact hs.roots t hentry
      · exact hs.mem_reachable_of_targets hoffsets hm hobs ht
      · obtain ⟨c, hc, hinit⟩ := (h.mem_initializers_iff type t).1 ht
        have hscanned := hs.followed m (hs.mem_processed hm) obs hobs
        exact (hscanned.started type htype).mem_reachable hs.wellFormed.startedAbove hc hinit
  admits type := by
    constructor
    · intro htype
      rcases hs.grounded.admits type htype with hcha | hroot | ⟨m, hm, obs, hobs, htype⟩
      · exact Or.inl hcha
      · exact Or.inr (Or.inl hroot)
      · exact Or.inr (Or.inr ⟨m, hs.mem_reachable hm, obs, hobs, htype⟩)
    · rintro (hcha | ⟨e, he, hroot, rfl⟩ | ⟨m, hm, obs, hobs, htype⟩)
      · exact Strategy.admits_cha hcha type
      · exact hs.constructorRoots e he hroot
      · exact (hs.followed m (hs.mem_processed hm) obs hobs).constructed type htype

end Final

section

variable {h : Hierarchy} {o : Options} {clock : Nat → Nat} {a : Algorithm}
  {entries : List MethodRef} {methods : Set MethodRef} {types : Set TypeName} {s : State}

/-- A fixed point is closed under its rules, and under those of an algorithm that
admits fewer receivers. -/
theorem closed_of_fixedPoint {strategy : Strategy} {g : CallGraph}
    (hfixed : h.FixedPoint entries strategy g)
    (ha : a = .cha → strategy.algorithm = .cha) :
    h.Closed a entries {m | m ∈ g.reachable} {type | strategy.admits type = true} where
  roots := hfixed.roots
  constructorRoots e he hroot := (hfixed.admits e.owner).2 (Or.inr (Or.inl ⟨e, he, hroot, rfl⟩))
  constructed m hm obs hobs type htype :=
    (hfixed.admits type).2 (Or.inr (Or.inr ⟨m, hm, obs, hobs, htype⟩))
  targets m hm obs hobs t ht := by
    have hle : ∀ type, a.admitting {type | strategy.admits type = true} type = true →
        strategy.admits type = true := by
      intro type htype
      rcases (a.admitting_eq_true_iff _ type).1 htype with hcha | htype
      · exact Strategy.admits_cha (ha hcha) type
      · exact htype
    exact (hfixed.reachable t).2 (Or.inr ⟨m, hm, obs, hobs, Or.inl (h.targets_mono hle obs ht)⟩)
  initializers m hm obs hobs type htype t ht :=
    (hfixed.reachable t).2 (Or.inr ⟨m, hm, obs, hobs, Or.inr ⟨type, htype, ht⟩⟩)

theorem within_of_run (hoffsets : h.program.DistinctOffsets)
    (hclosed : h.Closed a entries methods types) {turns : Nat}
    (hrun : run h o clock turns 0 (initial h (.ofAlgorithm a) entries) = .ok s) :
    Within a methods types s :=
  (steps_of_run hrun).within hoffsets hclosed (wellFormed_initial h _ entries)
    (within_initial hclosed)

end

def lateMain : MethodRef := ⟨"App", "main", "()V"⟩

def lateDraw : MethodRef := ⟨"Circle", "draw", "()V"⟩

def lateCall : Instruction :=
  ⟨0, .invoke { declared := ⟨"Shape", "draw", "()V"⟩, kind := .virtual }⟩

def lateNew : Instruction := ⟨3, .new "Circle"⟩

/-- A program that calls `Shape.draw` before it constructs the only receiver. -/
def lateReceiver : Hierarchy where
  program :=
    { index := Program.indexOf [
        { name := "Shape"
          access := { isAbstract := true }
          methods := [{ name := "draw", descriptor := "()V", access := { isAbstract := true } }] },
        { name := "Circle"
          superclass? := some "Shape"
          methods := [{ name := "draw", descriptor := "()V", body? := some {} }] },
        { name := "App"
          methods := [{
            name := "main"
            descriptor := "()V"
            access := { isStatic := true }
            body? := some { instructions := [lateCall, lateNew] } }] }]
      name_eq_of_getElem? := Program.name_eq_of_getElem?_indexOf _ }
  acyclic := by decide +kernel

theorem observed_lateMain :
    lateReceiver.program.observed lateMain = [(lateCall, none), (lateNew, none)] := by
  decide +kernel

theorem observed_lateDraw : lateReceiver.program.observed lateDraw = [] := by
  decide +kernel

/-- The call may run `Circle.draw`, once circles are admitted. -/
theorem mem_targets_lateCall_iff (admits : TypeName → Bool) (t : MethodRef) :
    t ∈ lateReceiver.targets admits (lateCall, none) ↔
      admits "Circle" = true ∧ t = lateDraw := by
  have hresolve : lateReceiver.resolve ⟨"Shape", "draw", "()V"⟩ =
      .resolved ⟨"Shape", "draw", "()V"⟩ := by decide +kernel
  have hprivate : (lateReceiver.program.method? ⟨"Shape", "draw", "()V"⟩).any
      (·.access.isPrivate) = false := by decide +kernel
  have hreceivers : lateReceiver.receivers "Shape" = ["Circle"] := by decide +kernel
  have hselect : lateReceiver.select? "Circle" "draw" "()V" = some lateDraw := by decide +kernel
  have htargets : t ∈ lateReceiver.targets admits (lateCall, none) ↔
      t ∈ lateReceiver.dispatchTargets ⟨"Shape", "draw", "()V"⟩ admits := by
    simp [Hierarchy.targets, lateCall, Hierarchy.callTargets,
      lateReceiver.dispatchedTargets_of_resolved admits hresolve hprivate]
  rw [htargets, lateReceiver.mem_dispatchTargets_iff]
  simp only [hreceivers, List.mem_singleton, exists_eq_left, hselect, Option.some.injEq]
  exact and_congr_right fun _ => eq_comm

theorem notMem_targets_lateNew (admits : TypeName → Bool) (t : MethodRef) :
    t ∉ lateReceiver.targets admits (lateNew, none) := by
  simp [Hierarchy.targets, lateNew]

/-- Where phantom types are allowed and there is no time budget, a fresh strategy
ends with a graph that is a fixed point for the finally admitted receiver types. -/
theorem exists_fixedPoint (h : Hierarchy) (hoffsets : h.program.DistinctOffsets) (a : Algorithm)
    (clock : Nat → Nat) (entries : List MethodRef) :
    ∃ s, run h {} clock (turnBound h entries) 0 (initial h (.ofAlgorithm a) entries) = .ok s ∧
      build h {} clock (.ofAlgorithm a) entries = outcome none s ∧
      s.strategy.algorithm = a ∧ h.FixedPoint entries s.strategy s.graph := by
  obtain ⟨s, hrun⟩ := exists_run_eq_ok h (o := {}) rfl rfl clock (turnBound h entries) 0
    (initial h (.ofAlgorithm a) entries)
  have hfinal := final_of_run hoffsets hrun
  refine ⟨s, hrun, build_of_run hrun, ?_, hfinal.fixedPoint hoffsets⟩
  rw [algorithm_of_run hrun, Strategy.algorithm_ofAlgorithm]

theorem exists_fixedPoint_lateReceiver :
    lateReceiver.program.DistinctOffsets ∧
      ∃ s, build lateReceiver {} (fun _ => 0) (.ofAlgorithm .rta) [lateMain] = outcome none s ∧
        s.strategy.algorithm = .rta ∧
        lateReceiver.FixedPoint [lateMain] s.strategy s.graph ∧
        ∃ r, s.graph.sites[(⟨lateMain, 0⟩ : CallSite)]? = some r ∧ lateDraw ∈ r.targets := by
  refine ⟨by decide +kernel, ?_⟩
  obtain ⟨s, -, hbuild, halgorithm, hfixed⟩ :=
    exists_fixedPoint lateReceiver (by decide +kernel) .rta (fun _ => 0) [lateMain]
  have hmain : lateMain ∈ s.graph.reachable := hfixed.roots lateMain (by simp)
  have hadmits : s.strategy.admits "Circle" = true := by
    refine (hfixed.admits "Circle").2 (Or.inr (Or.inr ⟨lateMain, hmain, (lateNew, none), ?_⟩))
    simp [observed_lateMain, lateNew, Hierarchy.constructed]
  obtain ⟨r, hr, -, -, htargets⟩ := hfixed.records lateMain hmain (lateCall, none)
    (by simp [observed_lateMain]) { declared := ⟨"Shape", "draw", "()V"⟩, kind := .virtual } rfl
  refine ⟨s, hbuild, halgorithm, hfixed, r, hr, ?_⟩
  rw [htargets, mem_targets_lateCall_iff]
  exact ⟨hadmits, rfl⟩

theorem closed_lateReceiver :
    lateReceiver.Closed .rta [lateMain] {m | m = lateMain ∨ m = lateDraw} {"Circle"} := by
  have hroot : Strategy.isConstructorRoot lateReceiver.program lateMain = false := by
    decide +kernel
  have hinit : lateReceiver.initializers "Circle" = [] := by decide +kernel
  constructor
  · simp
  · simp [hroot]
  · rintro m (rfl | rfl) obs hobs type htype
    · simp only [observed_lateMain, List.mem_cons, List.not_mem_nil, or_false] at hobs
      rcases hobs with rfl | rfl
      · simp [Hierarchy.constructed, lateCall] at htype
      · simpa [Hierarchy.constructed, lateNew] using htype
    · simp [observed_lateDraw] at hobs
  · rintro m (rfl | rfl) obs hobs t ht
    · simp only [observed_lateMain, List.mem_cons, List.not_mem_nil, or_false] at hobs
      rcases hobs with rfl | rfl
      · exact Or.inr ((mem_targets_lateCall_iff _ t).1 ht).2
      · exact absurd ht (notMem_targets_lateNew _ t)
    · simp [observed_lateDraw] at hobs
  · rintro m (rfl | rfl) obs hobs type htype t ht
    · simp only [observed_lateMain, List.mem_cons, List.not_mem_nil, or_false] at hobs
      rcases hobs with rfl | rfl
      · simp [Hierarchy.started, Hierarchy.startedByCall, lateCall] at htype
      · have heq : type = "Circle" := by simpa [Hierarchy.started, lateNew] using htype
        simp [heq, hinit] at ht
    · simp [observed_lateDraw] at hobs

/-- Nothing is in the graph that closed methods and types do not ask for. -/
theorem exists_run_within_closed (h : Hierarchy) (hoffsets : h.program.DistinctOffsets)
    (a : Algorithm) (clock : Nat → Nat) (entries : List MethodRef) (methods : Set MethodRef)
    (types : Set TypeName) (hclosed : h.Closed a entries methods types) :
    ∃ s, run h {} clock (turnBound h entries) 0 (initial h (.ofAlgorithm a) entries) = .ok s ∧
      build h {} clock (.ofAlgorithm a) entries = outcome none s ∧
      (∀ m ∈ s.graph.reachable, m ∈ methods) ∧
      (a = .rta → ∀ type, s.strategy.admits type = true → type ∈ types) ∧
      ∀ site t, (site, t) ∈ s.graph.edges →
        site.caller ∈ methods ∧ t ∈ methods ∧
          ∃ obs ∈ h.program.observed site.caller, obs.1.offset = site.offset ∧
            t ∈ h.targets (a.admitting types) obs := by
  obtain ⟨s, hrun⟩ := exists_run_eq_ok h (o := {}) rfl rfl clock (turnBound h entries) 0
    (initial h (.ofAlgorithm a) entries)
  have hfinal := final_of_run hoffsets hrun
  have hwithin := within_of_run hoffsets hclosed hrun
  refine ⟨s, hrun, build_of_run hrun, hwithin.reachable, ?_, ?_⟩
  · intro ha type htype
    rcases (a.admitting_eq_true_iff types type).1 (hwithin.admits type htype) with hcha | htype
    · rw [ha] at hcha
      cases hcha
    · exact htype
  · intro site t hedge
    obtain ⟨r, hr, ht⟩ := (s.graph.mem_edges_iff site t).1 hedge
    obtain ⟨hreachable, obs, hat, ht⟩ := hfinal.grounded.targets site r hr t ht
    exact ⟨hwithin.reachable _ (hfinal.mem_reachable hat.processed),
      hwithin.reachable t hreachable, obs, hat.observed, hat.offset,
      h.targets_mono hwithin.admits obs ht⟩

theorem exists_run_within_lateReceiver :
    lateReceiver.program.DistinctOffsets ∧
      lateReceiver.Closed .rta [lateMain] {m | m = lateMain ∨ m = lateDraw} {"Circle"} ∧
      ∃ s, build lateReceiver {} (fun _ => 0) (.ofAlgorithm .rta) [lateMain] = outcome none s ∧
        (∀ m ∈ s.graph.reachable, m = lateMain ∨ m = lateDraw) ∧
        ∀ type, s.strategy.admits type = true → type = "Circle" := by
  refine ⟨by decide +kernel, closed_lateReceiver, ?_⟩
  obtain ⟨s, -, hbuild, hreachable, hadmits, -⟩ := exists_run_within_closed lateReceiver
    (by decide +kernel) .rta (fun _ => 0) [lateMain] _ _ closed_lateReceiver
  exact ⟨s, hbuild, hreachable, hadmits rfl⟩

/-- Rapid type analysis refines class hierarchy analysis, whatever the clocks say. -/
theorem rta_refines_cha (h : Hierarchy) (hoffsets : h.program.DistinctOffsets)
    (clock clock' : Nat → Nat) (entries : List MethodRef) :
    (build h {} clock (.ofAlgorithm .rta) entries).interrupt? = none ∧
    (build h {} clock' (.ofAlgorithm .cha) entries).interrupt? = none ∧
    (∀ m ∈ (build h {} clock (.ofAlgorithm .rta) entries).graph.reachable,
      m ∈ (build h {} clock' (.ofAlgorithm .cha) entries).graph.reachable) ∧
    ∀ (site : CallSite) (r : SiteRecord),
      (build h {} clock (.ofAlgorithm .rta) entries).graph.sites[site]? = some r →
      ∃ r', (build h {} clock' (.ofAlgorithm .cha) entries).graph.sites[site]? = some r' ∧
        r'.call = r.call ∧ r'.line? = r.line? ∧ ∀ t ∈ r.targets, t ∈ r'.targets := by
  obtain ⟨rta, hrta⟩ := exists_run_eq_ok h (o := {}) rfl rfl clock (turnBound h entries) 0
    (initial h (.ofAlgorithm .rta) entries)
  obtain ⟨cha, hcha⟩ := exists_run_eq_ok h (o := {}) rfl rfl clock' (turnBound h entries) 0
    (initial h (.ofAlgorithm .cha) entries)
  have hfinal := final_of_run hoffsets hrta
  have hfinal' := final_of_run hoffsets hcha
  -- what one analysis reaches is closed under the rules of the other, so no simulation is needed
  have hclosed : h.Closed .rta entries {m | m ∈ cha.reachable}
      {type | cha.strategy.admits type = true} :=
    closed_of_fixedPoint (hfinal'.fixedPoint hoffsets) (fun ha => nomatch ha)
  have hwithin := within_of_run hoffsets hclosed hrta
  rw [build_of_run hrta, build_of_run hcha]
  refine ⟨rfl, rfl, hwithin.reachable, ?_⟩
  intro site r hr
  obtain ⟨hline, obs, hat, hcall⟩ := hfinal.wellFormed.recorded.call site r hr
  have hcaller := hwithin.reachable site.caller (hfinal.mem_reachable hat.processed)
  obtain ⟨r', hr', hcall', hline', htargets'⟩ :=
    hfinal'.exists_record hoffsets hcaller hat.observed hcall
  rw [hat.offset] at hr' hline'
  refine ⟨r', hr', hcall', hline'.trans hline.symm, ?_⟩
  intro t ht
  obtain ⟨-, obs', hat', ht⟩ := hfinal.grounded.targets site r hr t ht
  rw [← hat.unique hoffsets hat'] at ht
  have halgorithm : cha.strategy.algorithm = .cha := algorithm_of_run hcha
  exact (htargets' t).2
    (h.targets_mono (fun type _ => Strategy.admits_cha halgorithm type) obs ht)

theorem rta_refines_cha_lateReceiver :
    lateReceiver.program.DistinctOffsets ∧
      ∀ m ∈ (build lateReceiver {} (fun _ => 0) (.ofAlgorithm .rta) [lateMain]).graph.reachable,
        m ∈ (build lateReceiver {} (fun _ => 1) (.ofAlgorithm .cha) [lateMain]).graph.reachable :=
  ⟨by decide +kernel, (rta_refines_cha lateReceiver (by decide +kernel) (fun _ => 0) (fun _ => 1)
    [lateMain]).2.2.1⟩

end JvmReach.Construction
