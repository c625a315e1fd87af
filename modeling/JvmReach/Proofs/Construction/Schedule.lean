import JvmReach.Proofs.Construction.Accumulation
import JvmReach.Proofs.Construction.FixedPoint

/-!
# What the turns are spent on

`tasks` lists what the turns of a run are about, in order; without a time budget the run is
nothing but these tasks performed one after the other. The methods among them are those
that are taken up, and since a method is taken up in its place among the discovered ones,
none is processed twice. A pass starts at a generation that no pass has started at
before, and each generation is owed to a type that was not admitted before it (`Owed`), so
the passes are paid for by the types that the bodies taken up construct.
-/

namespace JvmReach

/-- The types that the bodies of the methods construct, by instructions or reflectively. -/
def Hierarchy.constructedIn (h : Hierarchy) (methods : List MethodRef) :
    Std.ExtTreeSet TypeName :=
  Std.ExtTreeSet.ofList (methods.flatMap fun m => (h.program.observed m).flatMap h.constructed)

theorem Hierarchy.mem_constructedIn_iff (h : Hierarchy) (methods : List MethodRef)
    (type : TypeName) : type ∈ h.constructedIn methods ↔
      ∃ m ∈ methods, ∃ obs ∈ h.program.observed m, type ∈ h.constructed obs := by
  simp only [constructedIn, Std.ExtTreeSet.mem_ofList, List.contains_iff_mem, List.mem_flatMap]

namespace Construction

/-- What a turn is about. -/
inductive Task where
  | process (m : MethodRef)
  | revisit (site : CallSite)
  | pass
deriving DecidableEq

def Task.method? : Task → Option MethodRef
  | process m => some m
  | revisit _ | pass => none

/-- The methods that are processed among the tasks. -/
def processedIn (tasks : List Task) : List MethodRef := tasks.filterMap Task.method?

/-- What the next turn is about; a construction that has finished has no task. -/
def State.task? (s : State) : Option Task :=
  match s.sweep, s.pending with
  | site :: _, _ => some (.revisit site)
  | [], m :: _ => some (.process m)
  | [], [] => if s.strategy.generation = s.resolvedAt then none else some .pass

def State.perform (h : Hierarchy) (o : Options) (s : State) : Task → Progress
  | .process m =>
      { s with processed := s.processed ++ [m], pending := s.pending.tail }.process h o m
  | .revisit site => { s with sweep := s.sweep.tail }.revisit h o site
  | .pass =>
      .ok { s with
        resolvedAt := s.strategy.generation
        sweep := s.virtualSites
        log := .pass s.strategy.generation s.virtualSites.length :: s.log }

/-- The tasks of the turns of a run, the one that is interrupted included. -/
def tasks (h : Hierarchy) (o : Options) (clock : Nat → Nat) : Nat → Nat → State → List Task
  | 0, _, _ => []
  | turns + 1, k, s =>
      s.task?.toList ++
        match s.advance h o (clock k) with
        | .continued s => tasks h o clock turns (k + 1) s
        | .finished _ | .halted _ => []

/-- The tasks of a construction from its start on. -/
def schedule (h : Hierarchy) (o : Options) (clock : Nat → Nat) (strategy : Strategy)
    (entries : List MethodRef) : List Task :=
  tasks h o clock (turnBound h entries) 0 (initial h strategy entries)

@[simp] theorem processedIn_nil : processedIn [] = [] := rfl

@[simp] theorem processedIn_process (m : MethodRef) : processedIn [.process m] = [m] := rfl

@[simp] theorem processedIn_revisit (site : CallSite) : processedIn [.revisit site] = [] := rfl

@[simp] theorem processedIn_pass : processedIn [.pass] = [] := rfl

theorem processedIn_append (tasks tasks' : List Task) :
    processedIn (tasks ++ tasks') = processedIn tasks ++ processedIn tasks' :=
  List.filterMap_append

namespace State

variable {h : Hierarchy} {o : Options} {s s' : State} {elapsed : Nat}

/-- A turn that is not too late performs its task. -/
theorem advance_eq (htime : isOutOfTime o elapsed = false) (s : State) :
    s.advance h o elapsed =
      match s.task? with
      | none => .finished s
      | some task => .ofProgress (s.perform h o task) := by
  cases hsweep : s.sweep with
  | cons site rest => simp [advance, task?, hsweep, htime, perform]
  | nil =>
      cases hpending : s.pending with
      | cons m rest => simp [advance, task?, hsweep, hpending, htime, perform]
      | nil =>
          rw [advance, task?, hsweep, hpending]
          dsimp only
          split
          · rfl
          · simp [perform, Turn.ofProgress, hpending]

/-- A method is taken up in its place among the discovered ones. -/
theorem processed_append_task?_prefix (s : State) :
    s.processed ++ processedIn s.task?.toList <+: s.discovered := by
  rw [task?, discovered]
  split
  · simp
  · next m rest _ hpending => simp [hpending]
  · split <;> simp

theorem processed_continued (hs : Swept s) (hadvance : s.advance h o elapsed = .continued s') :
    s'.processed = s.processed ++ processedIn s.task?.toList := by
  rcases continued_cases hadvance with ⟨site, rest, hsweep, hok⟩ |
    ⟨m, rest, hsweep, hpending, hok⟩ | ⟨hsweep, hpending, hnews, log, rfl⟩
  · have hadds := adds_revisit_next hs hsweep hok
    rw [hadds.processed]
    simp [task?, hsweep]
  · have hadds := adds_process (by simp) hok
    rw [hadds.processed]
    simp [task?, hsweep, hpending]
  · simp [task?, hsweep, hpending, hnews]

/-- A pass starts only when the generation has grown since the latest one. -/
theorem resolvedAt_add_task?_le (hs : Paced s) :
    s.resolvedAt + s.task?.toList.count .pass ≤ s.strategy.generation := by
  have hpaced : s.resolvedAt ≤ s.strategy.generation := hs
  rw [task?]
  split
  · simpa using hpaced
  · simpa using hpaced
  · split
    · simpa using hpaced
    · next hnews =>
        simp only [Option.toList_some, List.count_singleton_self]
        omega

theorem resolvedAt_continued (hs : Swept s) (hpaced : Paced s)
    (hadvance : s.advance h o elapsed = .continued s') :
    s.resolvedAt + s.task?.toList.count .pass ≤ s'.resolvedAt := by
  rcases continued_cases hadvance with ⟨site, rest, hsweep, hok⟩ |
    ⟨m, rest, hsweep, hpending, hok⟩ | ⟨-, -, -, log, rfl⟩
  · have hadds := adds_revisit_next hs hsweep hok
    rw [hadds.resolvedAt]
    simp [task?, hsweep]
  · have hadds := adds_process (by simp) hok
    rw [hadds.resolvedAt]
    simp [task?, hsweep, hpending]
  · exact resolvedAt_add_task?_le hpaced

/-- A construction without a task has finished, whatever the time. -/
theorem advance_of_finished (hs : Finished s) (o : Options) (elapsed : Nat) :
    s.advance h o elapsed = .finished s := by
  simp [advance, hs.sweep, hs.pending, hs.generation]

theorem task?_of_finished (hadvance : s.advance h o elapsed = .finished s') :
    s.task? = none := by
  obtain ⟨-, hsweep, hpending, hgeneration⟩ := finished_cases hadvance
  simp [task?, hsweep, hpending, hgeneration]

end State

section

variable {h : Hierarchy} {o : Options} {entries : List MethodRef} {s s' : State}

/-- Without a time budget a run performs its tasks. -/
theorem foldlM_perform_tasks (hbudget : o.budget? = none) (clock : Nat → Nat) (turns k : Nat)
    (s : State) :
    (tasks h o clock turns k s).foldlM (State.perform h o) s = run h o clock turns k s := by
  have htime : ∀ elapsed, State.isOutOfTime o elapsed = false := by
    simp [State.isOutOfTime, hbudget]
  induction turns generalizing k s with
  | zero => rfl
  | succ turns ih =>
      rw [tasks, run, State.advance_eq (htime _)]
      cases s.task? with
      | none => rfl
      | some task =>
          rw [Option.toList_some, List.singleton_append, List.foldlM_cons]
          dsimp only
          cases s.perform h o task with
          | ok s₁ => exact ih (k + 1) s₁
          | error halt => rfl

/-- The methods that a run processes come in the order of their discovery. -/
theorem processedIn_tasks_prefix (clock : Nat → Nat) (turns k : Nat) (hs : Swept s) :
    s.processed ++ processedIn (tasks h o clock turns k s) <+:
      (run h o clock turns k s).state.discovered := by
  induction turns generalizing k s with
  | zero => simp [tasks, run, Progress.state, State.discovered]
  | succ turns ih =>
      have hturn := State.steps_advance (h := h) (o := o) hs (clock k)
      rw [tasks, run, processedIn_append, ← List.append_assoc]
      cases hadvance : s.advance h o (clock k) with
      | continued s₁ =>
          rw [hadvance] at hturn
          rw [← State.processed_continued hs hadvance]
          exact ih (k + 1) (hturn.keeps (fun _ _ => Step.swept) hs)
      | finished s₁ =>
          rw [(State.finished_cases hadvance).1]
          simpa [Progress.state] using s.processed_append_task?_prefix
      | halted halt =>
          rw [hadvance] at hturn
          have hprefix : s.discovered <+: halt.state.discovered := hturn.accumulates.discovered
          simpa [Progress.state] using s.processed_append_task?_prefix.trans hprefix

theorem processed_run (clock : Nat → Nat) (turns k : Nat) (hs : Swept s)
    (hrun : run h o clock turns k s = .ok s') :
    s'.processed = s.processed ++ processedIn (tasks h o clock turns k s) := by
  induction turns generalizing k s with
  | zero =>
      cases hrun
      simp [tasks]
  | succ turns ih =>
      rw [run] at hrun
      rw [tasks, processedIn_append, ← List.append_assoc]
      cases hadvance : s.advance h o (clock k) with
      | continued s₁ =>
          rw [hadvance] at hrun
          rw [← State.processed_continued hs hadvance]
          exact ih (k + 1) ((State.steps_of_continued hs hadvance).keeps (fun _ _ => Step.swept) hs)
            hrun
      | finished s₁ =>
          rw [hadvance] at hrun
          cases hrun
          rw [(State.finished_cases hadvance).1, State.task?_of_finished hadvance]
          simp
      | halted halt =>
          rw [hadvance] at hrun
          cases hrun

theorem Step.generation_le (hstep : Step h s s') :
    s.strategy.generation ≤ s'.strategy.generation := by
  rcases hstep.update_or_organizes with hupdate | horganizes
  · exact hupdate.grows.generation_le
  · rw [horganizes.strategy]

/-- The generation has grown with every pass. -/
theorem resolvedAt_add_count_pass_le (clock : Nat → Nat) (turns k : Nat) (hs : Swept s)
    (hpaced : Paced s) :
    s.resolvedAt + (tasks h o clock turns k s).count .pass ≤
      (run h o clock turns k s).state.strategy.generation := by
  induction turns generalizing k s with
  | zero => exact hpaced
  | succ turns ih =>
      have hturn := State.steps_advance (h := h) (o := o) hs (clock k)
      have htask := State.resolvedAt_add_task?_le hpaced
      rw [tasks, run, List.count_append, ← Nat.add_assoc]
      cases hadvance : s.advance h o (clock k) with
      | continued s₁ =>
          rw [hadvance] at hturn
          have hless := State.resolvedAt_continued hs hpaced hadvance
          exact (Nat.add_le_add_right hless _).trans
            (ih (k + 1) (hturn.keeps (fun _ _ => Step.swept) hs)
              (hturn.keeps (fun _ _ => Step.paced) hpaced))
      | finished s₁ =>
          rw [(State.finished_cases hadvance).1]
          exact htask
      | halted halt =>
          rw [hadvance] at hturn
          exact htask.trans (hturn.keeps
            (P := fun s₁ => s.strategy.generation ≤ s₁.strategy.generation)
            (fun _ _ hstep hle => hle.trans hstep.generation_le) (le_refl _))

/-- The generations since `start` are owed to these types: bodies of methods that have been
taken up construct them, and none was admitted at `start`. -/
structure Owed (h : Hierarchy) (start : Strategy) (s : State) (types : List TypeName) :
    Prop where
  nodup : types.Nodup
  generation : s.strategy.generation = start.generation + types.length
  constructed : ∀ type ∈ types, ∃ m ∈ s.processed, ∃ obs ∈ h.program.observed m,
    type ∈ h.constructed obs
  unadmitted : ∀ type ∈ types, start.admits type = false
  admits : ∀ type, type ∈ types ∨ start.admits type = true → s.strategy.admits type = true

theorem Step.owed {start : Strategy} (hstep : Step h s s')
    (hs : ∃ types, Owed h start s types) : ∃ types, Owed h start s' types := by
  obtain ⟨types, hs⟩ := hs
  have hextends := hstep.extends
  have hconstructed : ∀ type ∈ types, ∃ m ∈ s'.processed, ∃ obs ∈ h.program.observed m,
      type ∈ h.constructed obs := by
    intro type htype
    obtain ⟨m, hm, hobs⟩ := hs.constructed type htype
    exact ⟨m, hextends.processed m hm, hobs⟩
  have hadmits : ∀ type, type ∈ types ∨ start.admits type = true →
      s'.strategy.admits type = true := fun type htype =>
    hextends.admits type (hs.admits type htype)
  rcases hstep.strategy_cases with heq | ⟨m, hm, obs, hobs, type, htype, heq⟩
  · exact ⟨types, hs.nodup, heq ▸ hs.generation, hconstructed, hs.unadmitted, hadmits⟩
  · have hgeneration := s.strategy.generation_onInstantiation type
    rw [← heq, hs.generation] at hgeneration
    cases hnews : s.strategy.isNews type with
    | false =>
        rw [hnews] at hgeneration
        exact ⟨types, hs.nodup, hgeneration, hconstructed, hs.unadmitted, hadmits⟩
    | true =>
        have hnew : ¬(type ∈ types ∨ start.admits type = true) := by
          intro hold
          have hfalse := (s.strategy.isNews_iff type).1 hnews
          rw [hs.admits type hold] at hfalse
          cases hfalse
        rw [not_or] at hnew
        rw [hnews, if_pos rfl] at hgeneration
        refine ⟨type :: types, List.nodup_cons.2 ⟨hnew.1, hs.nodup⟩, hgeneration, ?_, ?_, ?_⟩
        · intro other hother
          rcases List.mem_cons.1 hother with rfl | hother
          · exact ⟨m, hextends.processed m hm, obs, hobs, htype⟩
          · exact hconstructed other hother
        · intro other hother
          rcases List.mem_cons.1 hother with rfl | hother
          · simpa using hnew.2
          · exact hs.unadmitted other hother
        · intro other hother
          rw [List.mem_cons, or_assoc] at hother
          rcases hother with rfl | hother
          · rw [heq]
            exact s.strategy.admits_onInstantiation_self _
          · exact hadmits other hother

theorem owed_initial (h : Hierarchy) (strategy : Strategy) (entries : List MethodRef) :
    Owed h (initial h strategy entries).strategy (initial h strategy entries) [] := by
  constructor <;> simp

theorem Owed.length_le {start : Strategy} {types : List TypeName}
    (hs : Owed h start s types) : types.length ≤
      ((h.constructedIn s.discovered).filter fun type => !start.admits type).size := by
  have hsubset : types ⊆
      ((h.constructedIn s.discovered).filter fun type => !start.admits type).toList := by
    intro type htype
    obtain ⟨m, hm, hobs⟩ := hs.constructed type htype
    have hdiscovered : m ∈ s.discovered := List.mem_append_left _ hm
    have hmem := (h.mem_constructedIn_iff s.discovered type).2 ⟨m, hdiscovered, hobs⟩
    simpa [Std.ExtTreeSet.mem_filter, hs.unadmitted type htype] using hmem
  rw [← Std.ExtTreeSet.length_toList]
  exact (hs.nodup.subperm hsubset).length_le

theorem WellFormed.size_reachable_le (hs : WellFormed h entries s) :
    s.reachable.size ≤ entries.length + h.program.methodCount := by
  have hreachable : s.reachable = Std.ExtTreeSet.ofList s.discovered := by
    refine Std.ExtTreeSet.ext_mem fun m => ?_
    rw [Std.ExtTreeSet.mem_ofList, List.contains_iff_mem, hs.listed.mem_iff]
  have hlength := h.program.length_le_of_declares entries hs.listed.nodup fun m hm =>
    hs.declared m ((hs.listed.mem_iff m).1 hm)
  rw [hreachable]
  exact Std.ExtTreeSet.size_ofList_le.trans hlength

end

/-- The turns of a construction, which admits receiver types from `start` on, process
methods in the order of their discovery, each once. A pass needs a type that the bodies of
the discovered methods construct and that was not admitted at `start`. -/
structure Scheduled (h : Hierarchy) (start : Strategy) (entries : List MethodRef)
    (tasks : List Task) (s : State) : Prop where
  nodup : (processedIn tasks).Nodup
  discovered : processedIn tasks <+: s.discovered
  passes : tasks.count .pass ≤
    ((h.constructedIn s.discovered).filter fun type => !start.admits type).size
  reachable : s.reachable.size ≤ entries.length + h.program.methodCount

theorem scheduled_run (h : Hierarchy) (o : Options) (clock : Nat → Nat) (strategy : Strategy)
    (entries : List MethodRef) :
    Scheduled h (initial h strategy entries).strategy entries
      (schedule h o clock strategy entries)
      (run h o clock (turnBound h entries) 0 (initial h strategy entries)).state := by
  have hinitial := wellFormed_initial h strategy entries
  have hsteps := steps_run h o clock (turnBound h entries) 0 hinitial.swept
  have hwf := hsteps.wellFormed hinitial
  have hprefix := processedIn_tasks_prefix (h := h) (o := o) clock (turnBound h entries) 0
    hinitial.swept
  rw [processed_initial, List.nil_append] at hprefix
  obtain ⟨types, howed⟩ := hsteps.keeps (fun _ _ => Step.owed) ⟨[], owed_initial h strategy entries⟩
  constructor
  case nodup => exact hwf.listed.nodup.sublist hprefix.sublist
  case discovered => exact hprefix
  case passes =>
    have hcount := resolvedAt_add_count_pass_le (h := h) (o := o) clock (turnBound h entries) 0
      hinitial.swept hinitial.paced
    rw [howed.generation, resolvedAt_initial] at hcount
    exact (Nat.le_of_add_le_add_left hcount).trans howed.length_le
  case reachable => exact hwf.size_reachable_le

/-- Without a time budget a construction performs its tasks and comes to its end within the
bound on its turns: nothing is left to do, and every method that was discovered has been
processed once, in that order. Only a phantom type that is not allowed stops it before. -/
theorem run_ends (h : Hierarchy) (o : Options) (hbudget : o.budget? = none) (clock : Nat → Nat)
    (strategy : Strategy) (entries : List MethodRef) :
    (schedule h o clock strategy entries).foldlM (State.perform h o)
        (initial h strategy entries) =
        run h o clock (turnBound h entries) 0 (initial h strategy entries) ∧
      Scheduled h (initial h strategy entries).strategy entries
        (schedule h o clock strategy entries)
        (run h o clock (turnBound h entries) 0 (initial h strategy entries)).state ∧
      match run h o clock (turnBound h entries) 0 (initial h strategy entries) with
      | .ok s => (∀ elapsed, s.advance h o elapsed = .finished s) ∧
          processedIn (schedule h o clock strategy entries) = s.discovered
      | .error halt => o.phantoms = .fail ∧ halt.IsPhantom := by
  refine ⟨foldlM_perform_tasks hbudget clock _ 0 _, scheduled_run h o clock strategy entries, ?_⟩
  cases hrun : run h o clock (turnBound h entries) 0 (initial h strategy entries) with
  | ok s =>
      have hfinished := finished_of_eq_ok hrun
      have hprocessed := processed_run clock _ 0 (wellFormed_initial h strategy entries).swept hrun
      rw [processed_initial, List.nil_append] at hprocessed
      refine ⟨State.advance_of_finished hfinished o, ?_⟩
      rw [schedule, ← hprocessed, State.discovered, hfinished.pending, List.append_nil]
  | error halt => exact permitted_run h hbudget clock _ 0 _ halt hrun

theorem run_ends_lateReceiver :
    ({} : Options).budget? = none ∧
      schedule lateReceiver {} (fun _ => 0) (.ofAlgorithm .rta) [lateMain] =
        [.process lateMain, .pass, .revisit ⟨lateMain, 0⟩, .process lateDraw] ∧
      ∃ s, build lateReceiver {} (fun _ => 0) (.ofAlgorithm .rta) [lateMain] = outcome none s ∧
        s.discovered = [lateMain, lateDraw] ∧
        ∀ elapsed, s.advance lateReceiver {} elapsed = .finished s := by
  have hschedule : schedule lateReceiver {} (fun _ => 0) (.ofAlgorithm .rta) [lateMain] =
      [.process lateMain, .pass, .revisit ⟨lateMain, 0⟩, .process lateDraw] := by
    decide +kernel
  refine ⟨rfl, hschedule, ?_⟩
  obtain ⟨-, -, hend⟩ := run_ends lateReceiver {} rfl (fun _ => 0) (.ofAlgorithm .rta) [lateMain]
  obtain ⟨s, hrun⟩ := exists_run_eq_ok lateReceiver (o := {}) rfl rfl (fun _ => 0)
    (turnBound lateReceiver [lateMain]) 0 (initial lateReceiver (.ofAlgorithm .rta) [lateMain])
  rw [hrun] at hend
  obtain ⟨hfinished, hprocessed⟩ := hend
  rw [hschedule] at hprocessed
  exact ⟨s, build_of_run hrun, hprocessed.symm, hfinished⟩

end Construction

end JvmReach
