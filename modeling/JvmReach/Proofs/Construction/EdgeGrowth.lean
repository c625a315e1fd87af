import JvmReach.Proofs.Construction.Containment
import JvmReach.Proofs.Construction.Diagnosis

/-!
# Edges only ever grow

The states that a construction meets on its way (`MetByRun`) are those between turns and,
within a turn, those between the updates that scanning or resolving a call site consists
of. Where offsets are distinct, what is recorded for a call site in any of them is in the
graph in the end, however the construction ends: the same call with the same targets and
perhaps more.

A body that has two calls at one offset loses the first: its record is replaced when the
second is scanned.
-/

namespace JvmReach.Construction

/-- A state on the way from one state to another. -/
structure Between (h : Hierarchy) (s s' u : State) : Prop where
  before : Updates h s u
  after : Updates h u s'

/-- The states met while observations of a method are scanned. -/
inductive MetByScans (h : Hierarchy) (o : Options) (m : MethodRef) (method : Method) :
    List Observation → State → State → Prop
  | start {observed : List Observation} {s : State} : MetByScans h o m method observed s s
  | scanning {obs : Observation} {rest : List Observation} {s u : State}
      (hu : Between h (s.entered ⟨m, obs.1.offset⟩ obs.1.operation (method.line? obs.1.offset))
        (State.scan h o m method s obs).state u) : MetByScans h o m method (obs :: rest) s u
  | scanned {obs : Observation} {rest : List Observation} {s s' u : State}
      (hscan : State.scan h o m method s obs = .ok s')
      (hu : MetByScans h o m method rest s' u) : MetByScans h o m method (obs :: rest) s u

/-- The states met by a run. -/
inductive MetByRun (h : Hierarchy) (o : Options) (clock : Nat → Nat) :
    Nat → Nat → State → State → Prop
  | start {turns k : Nat} {s : State} : MetByRun h o clock turns k s s
  | processing {turns k : Nat} {m : MethodRef} {rest : List MethodRef} {method : Method}
      {s u : State} (hsweep : s.sweep = []) (hpending : s.pending = m :: rest)
      (htime : State.isOutOfTime o (clock k) = false) (hmethod : h.program.method? m = some method)
      (hu : MetByScans h o m method (h.program.observed m)
        { s with processed := s.processed ++ [m], pending := rest } u) :
      MetByRun h o clock (turns + 1) k s u
  | revisiting {turns k : Nat} {site : CallSite} {rest : List CallSite} {s u : State}
      (hsweep : s.sweep = site :: rest) (htime : State.isOutOfTime o (clock k) = false)
      (hu : Between h { s with sweep := rest }
        ({ s with sweep := rest }.revisit h o site).state u) :
      MetByRun h o clock (turns + 1) k s u
  | turn {turns k : Nat} {s s' u : State} (hadvance : s.advance h o (clock k) = .continued s')
      (hu : MetByRun h o clock turns (k + 1) s' u) : MetByRun h o clock (turns + 1) k s u

theorem Between.contained {h : Hierarchy} {s s' u : State} (hu : Between h s s' u) :
    Contained u s' :=
  hu.after.contained

namespace MetByScans

variable {h : Hierarchy} {o : Options} {m : MethodRef} {method : Method}
  {observed : List Observation} {s u : State}

theorem contained (hu : MetByScans h o m method observed s u) (hm : m ∈ s.processed)
    (hobserved : ∀ obs ∈ observed, obs ∈ h.program.observed m)
    (hoffsets : (observed.map fun obs => obs.1.offset).Nodup) (hnew : Unopened s m observed) :
    Contained u (Progress.state (observed.foldlM (State.scan h o m method) s)) := by
  induction hu with
  | start => exact State.contained_foldlM hm hobserved hoffsets hnew
  | @scanning obs rest s u hu =>
      have hobs := hobserved obs (by simp)
      have hfirst := hu.contained
      rw [List.foldlM_cons]
      cases hscan : State.scan h o m method s obs with
      | error halt => simpa [hscan, bind, Except.bind] using hfirst
      | ok s₁ =>
          rw [hscan] at hfirst
          exact hfirst.trans (State.contained_foldlM (State.processed_scan hm hobs hscan ▸ hm)
            (fun obs hobs => hobserved obs (by simp [hobs])) (List.nodup_cons.1 hoffsets).2
            (State.unopened_scan hm hobs hoffsets hnew hscan))
  | @scanned obs rest s s₁ u hscan hu ih =>
      have hobs := hobserved obs (by simp)
      rw [List.foldlM_cons, hscan]
      exact ih (State.processed_scan hm hobs hscan ▸ hm)
        (fun obs hobs => hobserved obs (by simp [hobs])) (List.nodup_cons.1 hoffsets).2
        (State.unopened_scan hm hobs hoffsets hnew hscan)

end MetByScans

namespace State

variable {h : Hierarchy} {o : Options} {s : State} {elapsed : Nat}

theorem advance_of_pending {m : MethodRef} {rest : List MethodRef} (hsweep : s.sweep = [])
    (hpending : s.pending = m :: rest) (htime : isOutOfTime o elapsed = false) :
    s.advance h o elapsed = .ofProgress
      ({ s with processed := s.processed ++ [m], pending := rest }.process h o m) := by
  rw [advance]
  simp only [hsweep, hpending, htime, Bool.false_eq_true, if_false]

theorem advance_of_sweep {site : CallSite} {rest : List CallSite}
    (hsweep : s.sweep = site :: rest) (htime : isOutOfTime o elapsed = false) :
    s.advance h o elapsed = .ofProgress ({ s with sweep := rest }.revisit h o site) := by
  rw [advance]
  simp only [hsweep, htime, Bool.false_eq_true, if_false]

end State

/-- What is in the state that a turn leaves behind is there when the run ends. -/
theorem contained_run_of_advance {h : Hierarchy} {o : Options} {entries : List MethodRef}
    (hoffsets : h.program.DistinctOffsets) (clock : Nat → Nat) (turns k : Nat) {s : State}
    (hwf : WellFormed h entries s) :
    Contained (s.advance h o (clock k)).state (run h o clock (turns + 1) k s).state := by
  rw [run]
  cases hadvance : s.advance h o (clock k) with
  | continued s' =>
      exact contained_run hoffsets clock turns (k + 1)
        ((State.steps_of_continued hwf.swept hadvance).wellFormed hwf)
  | finished s' => exact Contained.refl s'
  | halted halt => exact Contained.refl halt.state

theorem MetByRun.contained {h : Hierarchy} {o : Options} {clock : Nat → Nat}
    {entries : List MethodRef} {turns k : Nat} {s u : State}
    (hu : MetByRun h o clock turns k s u) (hoffsets : h.program.DistinctOffsets)
    (hwf : WellFormed h entries s) : Contained u (run h o clock turns k s).state := by
  induction hu with
  | start => exact contained_run hoffsets clock _ _ hwf
  | @processing turns k m rest method s u hsweep hpending htime hmethod hu =>
      have hscans := hu.contained (by simp) (fun _ hobs => hobs) (hoffsets.nodup_observed m)
        (unopened_take hwf hpending _)
      refine Contained.trans ?_ (contained_run_of_advance hoffsets clock turns k hwf)
      rw [State.advance_of_pending hsweep hpending htime, Turn.state_ofProgress,
        State.process_eq, hmethod]
      exact hscans
  | @revisiting turns k site rest s u hsweep htime hu =>
      refine Contained.trans ?_ (contained_run_of_advance hoffsets clock turns k hwf)
      rw [State.advance_of_sweep hsweep htime, Turn.state_ofProgress]
      exact hu.contained
  | turn hadvance hu ih =>
      rw [run, hadvance]
      exact ih ((State.steps_of_continued hwf.swept hadvance).wellFormed hwf)

/-- With distinct offsets no edge is dropped and no declared call replaced: what any state
met on the way has recorded for a call site is in the graph, complete or partial. -/
theorem sites_grow_of_metByRun (h : Hierarchy) (hoffsets : h.program.DistinctOffsets)
    (o : Options) (clock : Nat → Nat) (strategy : Strategy) (entries : List MethodRef)
    (u : State)
    (hu : MetByRun h o clock (turnBound h entries) 0 (initial h strategy entries) u)
    (site : CallSite) (r : SiteRecord) (hr : u.sites[site]? = some r) :
    ∃ r', (build h o clock strategy entries).graph.sites[site]? = some r' ∧
      r'.call = r.call ∧ ∀ t ∈ r.targets, t ∈ r'.targets := by
  have hcontained := hu.contained hoffsets (wellFormed_initial h strategy entries)
  obtain ⟨r', hr', hgrows⟩ := hcontained.sites site r hr
  rw [graph_build]
  exact ⟨r', hr', hgrows.call, hgrows.targets⟩

/-- A run meets the state in which the first instruction of the method that it takes up
has been scanned. -/
theorem metByRun_scan {h : Hierarchy} {o : Options} {clock : Nat → Nat} {turns k : Nat}
    {m : MethodRef} {rest : List MethodRef} {method : Method} {obs : Observation}
    {later : List Observation} {s : State} (hsweep : s.sweep = [])
    (hpending : s.pending = m :: rest) (htime : State.isOutOfTime o (clock k) = false)
    (hmethod : h.program.method? m = some method)
    (hobserved : h.program.observed m = obs :: later) :
    MetByRun h o clock (turns + 1) k s (State.scan h o m method
      { s with processed := s.processed ++ [m], pending := rest } obs).state := by
  refine .processing hsweep hpending htime hmethod ?_
  rw [hobserved]
  exact .scanning ⟨State.updates_scan ⟨by simp, by simp [hobserved], rfl⟩, .refl⟩

def orphanSetup : MethodRef := ⟨"App", "setup", "()V"⟩

/-- The construction from `main` after the first instruction. -/
def orphanScanned : State :=
  Progress.state (State.scan orphan { phantoms := .fail } orphanMain
    ((orphan.program.method? orphanMain).getD default)
    { initial orphan (.ofAlgorithm .rta) [orphanMain] with processed := [orphanMain], pending := [] }
    (⟨0, .invoke { declared := orphanSetup, kind := .static }⟩, none))

theorem metByRun_orphanScanned :
    MetByRun orphan { phantoms := .fail } (fun _ => 0) (turnBound orphan [orphanMain]) 0
      (initial orphan (.ofAlgorithm .rta) [orphanMain]) orphanScanned := by
  have hsweep : (initial orphan (.ofAlgorithm .rta) [orphanMain]).sweep = [] := by
    decide +kernel
  have hpending : (initial orphan (.ofAlgorithm .rta) [orphanMain]).pending = [orphanMain] := by
    decide +kernel
  have hmethod : orphan.program.method? orphanMain =
      some ((orphan.program.method? orphanMain).getD default) := by decide +kernel
  have hobserved : orphan.program.observed orphanMain =
      (⟨0, .invoke { declared := orphanSetup, kind := .static }⟩, none) ::
        (orphan.program.observed orphanMain).tail := by decide +kernel
  exact metByRun_scan hsweep hpending rfl hmethod hobserved

theorem sites_grow_of_metByRun_orphan :
    orphan.program.DistinctOffsets ∧
      MetByRun orphan { phantoms := .fail } (fun _ => 0) (turnBound orphan [orphanMain]) 0
        (initial orphan (.ofAlgorithm .rta) [orphanMain]) orphanScanned ∧
      (build orphan { phantoms := .fail } (fun _ => 0) (.ofAlgorithm .rta)
        [orphanMain]).interrupt? = some (.phantom ⟨orphanMain, 3⟩ "Gone") ∧
      ∃ r, orphanScanned.sites[(⟨orphanMain, 0⟩ : CallSite)]? = some r ∧
        orphanSetup ∈ r.targets ∧
        ∃ r', (build orphan { phantoms := .fail } (fun _ => 0) (.ofAlgorithm .rta)
          [orphanMain]).graph.sites[(⟨orphanMain, 0⟩ : CallSite)]? = some r' ∧
          orphanSetup ∈ r'.targets := by
  have hsome : (orphanScanned.sites[(⟨orphanMain, 0⟩ : CallSite)]?).any
      (fun r => r.targets.contains orphanSetup) = true := by decide +kernel
  obtain ⟨r, hr, ht⟩ := (Option.any_eq_true _ _).1 hsome
  obtain ⟨r', hr', -, htargets⟩ := sites_grow_of_metByRun orphan (by decide +kernel)
    { phantoms := .fail } (fun _ => 0) (.ofAlgorithm .rta) [orphanMain] orphanScanned
    metByRun_orphanScanned ⟨orphanMain, 0⟩ r hr
  exact ⟨by decide +kernel, metByRun_orphanScanned, by decide +kernel, r, hr, ht, r', hr',
    htargets orphanSetup ht⟩

def repeatedMain : MethodRef := ⟨"App", "main", "()V"⟩

def repeatedFirst : MethodRef := ⟨"App", "first", "()V"⟩

def repeatedSecond : MethodRef := ⟨"App", "second", "()V"⟩

def repeatedMethod : Method :=
  { name := "main"
    descriptor := "()V"
    access := { isStatic := true }
    body? := some { instructions := [
      ⟨0, .invoke { declared := repeatedFirst, kind := .static }⟩,
      ⟨0, .invoke { declared := repeatedSecond, kind := .static }⟩] } }

/-- A program that calls `first` and then `second`, both at offset 0. -/
def repeatedOffset : Hierarchy where
  program :=
    { index := Program.indexOf [
        { name := "App"
          methods := [
            repeatedMethod,
            { name := "first"
              descriptor := "()V"
              access := { isStatic := true }
              body? := some {} },
            { name := "second"
              descriptor := "()V"
              access := { isStatic := true }
              body? := some {} }] }]
      name_eq_of_getElem? := Program.name_eq_of_getElem?_indexOf _ }
  acyclic := by decide +kernel

/-- The construction from `main` after the first instruction. -/
def repeatedScanned : State :=
  Progress.state (State.scan repeatedOffset {} repeatedMain repeatedMethod
    { initial repeatedOffset .cha [repeatedMain] with processed := [repeatedMain], pending := [] }
    (⟨0, .invoke { declared := repeatedFirst, kind := .static }⟩, none))

theorem metByRun_repeatedScanned :
    MetByRun repeatedOffset {} (fun _ => 0) (turnBound repeatedOffset [repeatedMain]) 0
      (initial repeatedOffset .cha [repeatedMain]) repeatedScanned := by
  have hsweep : (initial repeatedOffset .cha [repeatedMain]).sweep = [] := by decide +kernel
  have hpending : (initial repeatedOffset .cha [repeatedMain]).pending = [repeatedMain] := by
    decide +kernel
  have hmethod : repeatedOffset.program.method? repeatedMain = some repeatedMethod := by
    decide +kernel
  have hobserved : repeatedOffset.program.observed repeatedMain =
      [(⟨0, .invoke { declared := repeatedFirst, kind := .static }⟩, none),
        (⟨0, .invoke { declared := repeatedSecond, kind := .static }⟩, none)] := by
    decide +kernel
  exact metByRun_scan hsweep hpending rfl hmethod hobserved

/-- An edge to `first` is recorded, but in the end it is gone, and the call of `first` is
replaced by that of `second`. -/
theorem edge_dropped_of_repeatedOffset :
    MetByRun repeatedOffset {} (fun _ => 0) (turnBound repeatedOffset [repeatedMain]) 0
        (initial repeatedOffset .cha [repeatedMain]) repeatedScanned ∧
      (∃ r, repeatedScanned.sites[(⟨repeatedMain, 0⟩ : CallSite)]? = some r ∧
        r.call.declared = repeatedFirst ∧ repeatedFirst ∈ r.targets) ∧
      ∃ r, (build repeatedOffset {} (fun _ => 0) .cha [repeatedMain]).graph.sites[
          (⟨repeatedMain, 0⟩ : CallSite)]? = some r ∧
        r.call.declared = repeatedSecond ∧ repeatedFirst ∉ r.targets := by
  have hmet : (repeatedScanned.sites[(⟨repeatedMain, 0⟩ : CallSite)]?).any
      (fun r => r.call.declared = repeatedFirst ∧ repeatedFirst ∈ r.targets) = true := by
    decide +kernel
  have hend : ((build repeatedOffset {} (fun _ => 0) .cha [repeatedMain]).graph.sites[
      (⟨repeatedMain, 0⟩ : CallSite)]?).any
      (fun r => r.call.declared = repeatedSecond ∧ repeatedFirst ∉ r.targets) = true := by
    decide +kernel
  obtain ⟨r, hr, hrecord⟩ := (Option.any_eq_true _ _).1 hmet
  obtain ⟨r', hr', hrecord'⟩ := (Option.any_eq_true _ _).1 hend
  exact ⟨metByRun_repeatedScanned, ⟨r, hr, of_decide_eq_true hrecord⟩,
    r', hr', of_decide_eq_true hrecord'⟩

end JvmReach.Construction
