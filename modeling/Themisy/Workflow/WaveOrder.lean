import Themisy.Application.NewRun
import Themisy.Planning.Built
import Themisy.Planning.Ordering
import Themisy.Scheduler.WaveCorrectness
import Themisy.Workflow.AssignWaves

/-!
# Every plan can be scheduled

On the run of a plan `assignWaves` succeeds, every step is in exactly one wave, and waves
follow the ordering dependencies. They also follow the phases of the plan exactly when no
step has a dependency in a larger phase: then a pending step of the smallest phase is
always ready, so a wave never has a larger phase than a pending step.

The planner puts every dependency into a smaller phase, unless a phase overflows.
-/

namespace Themisy.Workflow

open Domain Planning

theorem textSet_find {texts : List String} {text : String} :
    (textSet texts).find text false = true ↔ text ∈ texts := by
  rw [textSet, GoMap.find_foldl_set_true fun text => text]
  simp

theorem waveByService_eq (waves : List Scheduler.Wave) :
    waveByService waves =
      (waves.flatMap fun wave => wave.steps.map fun step => (step.id, wave.number)).foldl
        (fun table entry => GoMap.set table entry.1 entry.2) ∅ := by
  simp only [waveByService, List.foldl_flatMap, List.foldl_map]

theorem waveByService_find {limits : Scheduler.Limits} {inputs : List Scheduler.Step}
    {waves : List Scheduler.Wave} (schedule : Scheduler.Schedule limits inputs waves)
    (distinct : (inputs.map Scheduler.Step.id).Nodup) {step : Scheduler.Step}
    {wave : Scheduler.Wave} (waveMem : wave ∈ waves) (stepMem : step ∈ wave.steps) :
    (waveByService waves).find step.id 0 = wave.number := by
  rw [waveByService_eq]
  apply GoMap.find_foldl_set_of_mem
  · have ids : ((waves.flatMap fun wave => wave.steps.map fun step => (step.id, wave.number)).map
        Prod.fst) = (Scheduler.dispatched waves).map Scheduler.Step.id := by
      simp only [List.map_flatMap, List.map_map, Scheduler.dispatched]
      rfl
    rw [ids]
    exact (schedule.partition.map Scheduler.Step.id).nodup_iff.mpr distinct
  · exact List.mem_flatMap.mpr ⟨wave, waveMem, List.mem_map.mpr ⟨step, stepMem, rfl⟩⟩

theorem setWaves_eq_ok {planned : GoMap String Bool} {waves : GoMap String ℕ}
    {steps : List ReleaseStep}
    (present : ∀ step ∈ steps, planned.find step.service false = true) :
    setWaves planned waves steps =
      .ok (steps.map fun step => { step with wave := waves.find step.service 0 }) := by
  induction steps with
  | nil => rfl
  | cons step rest ih =>
    have head := present step List.mem_cons_self
    rw [setWaves, ih fun other member => present other (List.mem_cons_of_mem _ member)]
    simp only [head, require, if_true]
    rfl

/-- Every step of the run is in one wave, and waves follow dependencies. -/
structure Waved (run waved : ReleaseRun) (waves : List Scheduler.Wave) : Prop where
  onlyWaves : waved = { run with steps := run.steps.map fun step =>
    { step with wave := (waveByService waves).find step.service 0 } }
  exactlyOne : ∀ step ∈ waved.steps, ∃ wave ∈ waves, wave.number = step.wave ∧
    ∀ other ∈ waves, step.service ∈ other.steps.map Scheduler.Step.id ↔ other = wave
  dependency_lt : ∀ earlier ∈ waved.steps, ∀ later ∈ waved.steps,
    ∀ planned ∈ run.plan.steps, planned.service = later.service →
      earlier.service ∈ planned.orderingDependencies → earlier.wave < later.wave

/-- Steps of smaller phases are in earlier waves. -/
def FollowsPhases (waved : ReleaseRun) : Prop :=
  ∀ earlier ∈ waved.steps, ∀ later ∈ waved.steps,
    earlier.phase < later.phase → earlier.wave < later.wave

instance (waved : ReleaseRun) : Decidable (FollowsPhases waved) :=
  inferInstanceAs (Decidable (∀ earlier ∈ waved.steps, ∀ later ∈ waved.steps, _))

/-- A service of the plan has an ordering dependency on another one. -/
def Depends (plan : ReleasePlan) (name needed : String) : Prop :=
  ∃ planned ∈ plan.steps, planned.service = name ∧ needed ∈ planned.orderingDependencies ∧
    needed ∈ plan.steps.map PlanStep.service

/-- No step of the plan has an ordering dependency in a larger phase. -/
def PhasesRise (plan : ReleasePlan) : Prop :=
  ∀ planned ∈ plan.steps, ∀ other ∈ plan.steps,
    other.service ∈ planned.orderingDependencies → other.phase ≤ planned.phase

/-- Every step of the plan has its ordering dependencies in smaller phases. -/
def PhasesDescend (plan : ReleasePlan) : Prop :=
  ∀ planned ∈ plan.steps, ∀ other ∈ plan.steps,
    other.service ∈ planned.orderingDependencies → other.phase < planned.phase

/-- No step of the plan has an ordering dependency on a later one. -/
def DependenciesFirst (plan : ReleasePlan) : Prop :=
  plan.steps.Pairwise fun earlier later => later.service ∉ earlier.orderingDependencies

/-- A run whose steps are those of its plan, which has no cycle of dependencies. -/
structure Planned (run : ReleaseRun) : Prop where
  services : run.steps.map ReleaseStep.service = run.plan.steps.map PlanStep.service
  phases : ∀ step ∈ run.steps, ∃ planned ∈ run.plan.steps, planned.service = step.service ∧
    planned.phase = step.phase
  named : ∀ planned ∈ run.plan.steps, planned.service ≠ ""
  distinct : (run.plan.steps.map PlanStep.service).Nodup
  sorted : run.plan.steps.Pairwise fun earlier later => earlier.phase ≤ later.phase
  acyclic : Acyclic (Depends run.plan)

section PlanIntent

variable {digest : Digest} {planner : Planner} {order : IterationOrder String} {now : Time}
  {intent : ReleaseIntent} {plan : ReleasePlan}

theorem orderedAfter_of_depends
    (planned : planner.planIntent digest order now intent = .ok plan) {name needed : String}
    (depends : Depends plan name needed) : planner.OrderedAfter intent name needed := by
  have faithful := Planner.faithful_of_planIntent planned
  obtain ⟨step, member, rfl, ordering, selected⟩ := depends
  exact ⟨faithful.ordered.oneStepEach.mem_iff.mp (List.mem_map_of_mem member),
    faithful.ordered.oneStepEach.mem_iff.mp selected,
    (faithful.dependencies step member needed).mp ordering⟩

/-- The phases of a plan descend along its dependencies, unless one of them overflows. -/
theorem phasesDescend_of_planIntent
    (planned : planner.planIntent digest order now intent = .ok plan)
    (inRange : planner.PhasesInRange intent) : PhasesDescend plan := by
  intro step member other otherMem needed
  exact (Planner.faithful_of_planIntent planned).ordered.earlier inRange step member other otherMem
    (orderedAfter_of_depends planned
      ⟨step, member, rfl, needed, List.mem_map_of_mem otherMem⟩)

theorem planned_of_planIntent (built : planner.Built digest)
    (planned : planner.planIntent digest order now intent = .ok plan) (runID : String)
    (created : Time) (request : ReleaseRequest) :
    Planned (Application.newRun runID created request plan) := by
  have faithful := Planner.faithful_of_planIntent planned
  constructor
  case services => exact Application.newSteps_services _ plan
  case phases =>
    intro step member
    obtain ⟨phase, phaseMem, source, sourceMem, rfl⟩ :=
      Application.exists_planned_of_mem_newSteps member
    refine ⟨source, List.mem_flatMap.mpr ⟨phase, phaseMem, sourceMem⟩, rfl, ?_⟩
    exact faithful.ordered.number_eq phase phaseMem source sourceMem
  case named =>
    intro step member unnamed
    have defined := faithful.defined step member
    rw [unnamed, built.definitions_empty] at defined
    cases defined
  case distinct => exact faithful.ordered.distinct
  case sorted => exact faithful.ordered.sorted_phases
  case acyclic =>
    obtain ⟨-, -, acyclic, -⟩ := Planner.exists_changes_of_planIntent planned
    intro name cycle
    refine acyclic name (Relation.TransGen.mono ?_ _ _ cycle)
    exact fun _ _ => orderedAfter_of_depends planned

end PlanIntent

namespace Planned

variable {run : ReleaseRun}

variable {source : PlanStep}

theorem mem_waveInput (planned : Planned run) {step : Scheduler.Step} :
    step ∈ waveInput run ↔ ∃ source ∈ run.plan.steps, step = scheduledStep source
      (source.orderingDependencies.filter fun dependency =>
        dependency ∈ run.plan.steps.map PlanStep.service) := by
  have selected : ∀ dependency,
      (textSet (run.steps.map ReleaseStep.service)).find dependency false =
      decide (dependency ∈ run.plan.steps.map PlanStep.service) := by
    intro dependency
    rw [Bool.eq_iff_iff, textSet_find, planned.services, decide_eq_true_iff]
  simp only [waveInput, selected, List.mem_map, eq_comm]

theorem map_id_waveInput (run : ReleaseRun) :
    (waveInput run).map Scheduler.Step.id = run.plan.steps.map PlanStep.service := by
  simp only [waveInput, List.map_map]
  rfl

section

variable (planned : Planned run)

include planned

theorem mem_dependencies_waveInput {step : Scheduler.Step} (input : step ∈ waveInput run)
    {dependency : String} (needed : dependency ∈ step.dependencies) :
    ∃ source ∈ run.plan.steps, step.id = source.service ∧ step.phase = source.phase ∧
      dependency ∈ source.orderingDependencies ∧
      dependency ∈ run.plan.steps.map PlanStep.service := by
  obtain ⟨source, sourceMem, rfl⟩ := planned.mem_waveInput.mp input
  obtain ⟨declared, selected⟩ := List.mem_filter.mp needed
  exact ⟨source, sourceMem, rfl, rfl, declared, of_decide_eq_true selected⟩

/-- A comparison of phases along dependencies may be made on the plan or on the steps. -/
theorem phases_waveInput (compare : ℤ → ℤ → Prop) :
    (∀ step ∈ waveInput run, ∀ other ∈ waveInput run, other.id ∈ step.dependencies →
        compare other.phase step.phase) ↔
      ∀ source ∈ run.plan.steps, ∀ other ∈ run.plan.steps,
        other.service ∈ source.orderingDependencies → compare other.phase source.phase := by
  constructor
  · intro holds source sourceMem other otherMem needed
    exact holds _ (planned.mem_waveInput.mpr ⟨source, sourceMem, rfl⟩) _
      (planned.mem_waveInput.mpr ⟨other, otherMem, rfl⟩)
      (List.mem_filter.mpr ⟨needed, decide_eq_true (List.mem_map_of_mem otherMem)⟩)
  · intro holds step input other otherInput needed
    obtain ⟨source, sourceMem, -, phase, declared, -⟩ :=
      planned.mem_dependencies_waveInput input needed
    obtain ⟨target, targetMem, rfl⟩ := planned.mem_waveInput.mp otherInput
    rw [phase]
    exact holds source sourceMem target targetMem declared

theorem distinct_waveInput :
    ((waveInput run).map Scheduler.Step.id).Nodup := by
  rw [map_id_waveInput]
  exact planned.distinct

theorem exists_schedule (order : StepOrder) :
    ∃ waves, Scheduler.buildWaves order (waveInput run) Scheduler.defaultLimits = .ok waves ∧
      Scheduler.Schedule Scheduler.defaultLimits ((waveInput run).map Scheduler.cloneStep)
        waves := by
  have named : ∀ step ∈ waveInput run, step.id ≠ "" := by
    intro step input
    obtain ⟨source, sourceMem, rfl⟩ := planned.mem_waveInput.mp input
    exact planned.named source sourceMem
  refine (Scheduler.buildWaves_cases order Scheduler.Limits.defaultLimits_valid named
    planned.distinct_waveInput).resolve_right ?_
  rintro ⟨-, impossible⟩
  refine impossible ⟨fun step input dependency needed => ?_, fun id cycle => ?_⟩
  · obtain ⟨_, -, -, -, -, selected⟩ := planned.mem_dependencies_waveInput input needed
    rwa [map_id_waveInput]
  · refine planned.acyclic id (Relation.TransGen.mono ?_ _ _ cycle)
    rintro _ dependency ⟨step, input, rfl, needed⟩
    obtain ⟨source, sourceMem, same, -, declared, selected⟩ :=
      planned.mem_dependencies_waveInput input needed
    exact ⟨source, sourceMem, same.symm, declared, selected⟩

theorem exists_input (member : source ∈ run.plan.steps) :
    ∃ input ∈ (waveInput run).map Scheduler.cloneStep, input.id = source.service ∧
      input.phase = source.phase ∧ ∀ dependency ∈ source.orderingDependencies,
        dependency ∈ run.plan.steps.map PlanStep.service → dependency ∈ input.dependencies := by
  have input := planned.mem_waveInput.mpr ⟨source, member, rfl⟩
  refine ⟨_, List.mem_map_of_mem input, rfl, rfl, ?_⟩
  intro dependency declared selected
  rw [Scheduler.mem_dependencies_cloneStep]
  exact List.mem_filter.mpr ⟨declared, decide_eq_true selected⟩

theorem exists_step (member : source ∈ run.plan.steps) :
    ∃ step ∈ run.steps, step.service = source.service ∧ step.phase = source.phase := by
  have listed := List.mem_map_of_mem (f := PlanStep.service) member
  rw [← planned.services] at listed
  obtain ⟨step, stepMem, same⟩ := List.mem_map.mp listed
  obtain ⟨other, otherMem, named, phase⟩ := planned.phases step stepMem
  obtain rfl := List.inj_on_of_nodup_map planned.distinct otherMem member (named.trans same)
  exact ⟨step, stepMem, same, phase.symm⟩

theorem exists_assignWaves (order : StepOrder) :
    ∃ waves waved, Scheduler.buildWaves order (waveInput run) Scheduler.defaultLimits = .ok waves ∧
      assignWaves order run = .ok waved ∧ Waved run waved waves ∧
      (FollowsPhases waved ↔ PhasesRise run.plan) := by
  obtain ⟨waves, built, schedule⟩ := planned.exists_schedule order
  have distinct : (((waveInput run).map Scheduler.cloneStep).map Scheduler.Step.id).Nodup := by
    rw [Scheduler.map_id_cloneStep]
    exact planned.distinct_waveInput
  have present : ∀ step ∈ run.steps,
      (textSet (run.plan.steps.map PlanStep.service)).find step.service false = true := by
    intro step member
    rw [textSet_find, ← planned.services]
    exact List.mem_map_of_mem member
  have number : ∀ source ∈ run.plan.steps, (waveByService waves).find source.service 0 =
      Scheduler.Schedule.waveIndex waves source.service := by
    intro source member
    obtain ⟨input, inputMem, same, -⟩ := planned.exists_input member
    obtain ⟨wave, waveMem, position, stepMem, -⟩ := schedule.exists_wave distinct inputMem
    rw [← same, waveByService_find schedule distinct waveMem stepMem, position]
  refine ⟨waves, _, built, ?_, ⟨rfl, ?_, ?_⟩, ?_⟩
  · simp only [assignWaves, built, setWaves_eq_ok present]
    rfl
  · intro step member
    obtain ⟨original, originalMem, rfl⟩ := List.mem_map.mp member
    obtain ⟨source, sourceMem, service, -⟩ := planned.phases original originalMem
    obtain ⟨input, inputMem, same, -⟩ := planned.exists_input sourceMem
    obtain ⟨wave, waveMem, position, -, unique⟩ := schedule.exists_wave distinct inputMem
    refine ⟨wave, waveMem, ?_, ?_⟩
    · rw [position, same, ← number source sourceMem, service]
    · rw [same, service] at unique
      exact unique
  · intro earlier earlierMem later laterMem source sourceMem service needed
    obtain ⟨first, firstMem, rfl⟩ := List.mem_map.mp earlierMem
    obtain ⟨second, -, rfl⟩ := List.mem_map.mp laterMem
    obtain ⟨other, otherMem, otherService, -⟩ := planned.phases first firstMem
    obtain ⟨input, inputMem, same, -, dependencies⟩ := planned.exists_input sourceMem
    have lt := schedule.waveIndex_dependency_lt distinct inputMem
      (dependencies first.service needed (otherService ▸ List.mem_map_of_mem otherMem))
    rw [same, ← otherService, ← number other otherMem, ← number source sourceMem, otherService,
      service] at lt
    exact lt
  · rw [PhasesRise, ← planned.phases_waveInput (· ≤ ·)]
    refine Iff.trans ?_ ((schedule.follows_phases_iff distinct).trans Scheduler.rising_cloneStep)
    constructor
    · intro follows earlier earlierMem later laterMem smaller
      obtain ⟨_, firstMem, rfl⟩ := List.mem_map.mp earlierMem
      obtain ⟨_, secondMem, rfl⟩ := List.mem_map.mp laterMem
      obtain ⟨source, sourceMem, rfl⟩ := planned.mem_waveInput.mp firstMem
      obtain ⟨target, targetMem, rfl⟩ := planned.mem_waveInput.mp secondMem
      obtain ⟨first, firstStep, firstService, firstPhase⟩ := planned.exists_step sourceMem
      obtain ⟨second, secondStep, secondService, secondPhase⟩ := planned.exists_step targetMem
      have lt := follows _ (List.mem_map_of_mem firstStep) _ (List.mem_map_of_mem secondStep)
        (show first.phase < second.phase by rw [firstPhase, secondPhase]; exact smaller)
      simp only [firstService, secondService, number source sourceMem,
        number target targetMem] at lt
      exact lt
    · intro follows earlier earlierMem later laterMem smaller
      obtain ⟨first, firstMem, rfl⟩ := List.mem_map.mp earlierMem
      obtain ⟨second, secondMem, rfl⟩ := List.mem_map.mp laterMem
      obtain ⟨source, sourceMem, sourceService, sourcePhase⟩ := planned.phases first firstMem
      obtain ⟨target, targetMem, targetService, targetPhase⟩ := planned.phases second secondMem
      obtain ⟨input, inputMem, inputService, inputPhase, -⟩ := planned.exists_input sourceMem
      obtain ⟨goal, goalMem, goalService, goalPhase, -⟩ := planned.exists_input targetMem
      have lt := follows input inputMem goal goalMem (by
        rw [inputPhase, goalPhase, sourcePhase, targetPhase]
        exact smaller)
      rw [inputService, goalService, ← number source sourceMem, ← number target targetMem,
        sourceService, targetService] at lt
      exact lt

end

end Planned

/--
For every plan which a built planner returns, `assignWaves` succeeds on the run
made from it. It changes nothing but the wave of each step, gives each step one
wave, and orders the waves by ordering dependencies. The waves follow the phases
exactly when no step has a dependency in a larger phase, and so they do whenever
no phase overflows.
-/
theorem assignWaves_follows_phases_iff {digest : Digest} {planner : Planner}
    (built : planner.Built digest) {order : IterationOrder String} {now : Time}
    {intent : ReleaseIntent} {plan : ReleasePlan}
    (planned : planner.planIntent digest order now intent = .ok plan) (runID : String)
    (created : Time) (request : ReleaseRequest) (waveOrder : StepOrder) :
    (∃ waves waved,
      Scheduler.buildWaves waveOrder (waveInput (Application.newRun runID created request plan))
        Scheduler.defaultLimits = .ok waves ∧
      assignWaves waveOrder (Application.newRun runID created request plan) = .ok waved ∧
      Waved (Application.newRun runID created request plan) waved waves ∧
      (FollowsPhases waved ↔ PhasesRise plan)) ∧
    (planner.PhasesInRange intent → PhasesRise plan) := by
  refine ⟨(planned_of_planIntent built planned runID created request).exists_assignWaves waveOrder,
    fun inRange step member other otherMem needed => ?_⟩
  exact (phasesDescend_of_planIntent planned inRange step member other otherMem needed).le

/-- The steps of a release with their phases and waves, and whether these follow each other. -/
def wavesOfRelease (services : List Service) (names : List String) :
    Except GoError (List (String × ℤ × ℕ) × Bool) := do
  let planner ← Planning.new default .stored services
  let plan ← planner.planIntent default .stored 1 (stagingRelease names)
  let waved ← assignWaves .stored
    (Application.newRun "run" 1 (legacyRequestFromIntent (stagingRelease names)) plan)
  return (waved.steps.map fun step => (step.service, step.phase, step.wave),
    decide (FollowsPhases waved))

/-- Two services of one release phase, one of which follows the other, get two waves. -/
theorem assignWaves_follows_phases_pair :
    ∃ planner plan waved,
      Planning.new default .stored [legacyService "api" 0 [], legacyService "web" 0 ["api"]] =
        .ok planner ∧
      planner.planIntent default .stored 1 (stagingRelease ["web", "api"]) = .ok plan ∧
      waved.steps.map (fun step => (step.service, step.phase, step.wave)) =
        [("api", 0, 0), ("web", 1, 1)] ∧ FollowsPhases waved ∧ PhasesRise plan := by
  have evaluated : wavesOfRelease [legacyService "api" 0 [], legacyService "web" 0 ["api"]]
      ["web", "api"] = .ok ([("api", 0, 0), ("web", 1, 1)], true) := by
    decide +kernel
  simp only [wavesOfRelease, bind_eq_ok] at evaluated
  obtain ⟨planner, made, plan, planned, waved, assigned, seen⟩ := evaluated
  obtain ⟨⟨_, wavedAgain, -, assignedAgain, -, iff⟩, -⟩ := assignWaves_follows_phases_iff
    (.new made) planned "run" 1 (legacyRequestFromIntent (stagingRelease ["web", "api"])) .stored
  rw [assigned] at assignedAgain
  cases assignedAgain
  obtain ⟨steps, follows⟩ := Prod.mk.inj (Except.ok.inj seen)
  exact ⟨planner, plan, waved, made, planned, steps, of_decide_eq_true follows,
    iff.mp (of_decide_eq_true follows)⟩

/-- A service after the largest phase is planned in the smallest one, but released later. -/
theorem assignWaves_reverses_phases :
    ∃ planner plan waved,
      Planning.new default .stored
        [legacyService "base" 9223372036854775807 [], legacyService "child" 0 ["base"]] =
          .ok planner ∧
      planner.planIntent default .stored 1 (stagingRelease ["base", "child"]) = .ok plan ∧
      assignWaves .stored (Application.newRun "run" 1
        (legacyRequestFromIntent (stagingRelease ["base", "child"])) plan) = .ok waved ∧
      waved.steps.map (fun step => (step.service, step.phase, step.wave)) =
        [("child", -9223372036854775808, 1), ("base", 9223372036854775807, 0)] ∧
      ¬FollowsPhases waved := by
  have evaluated : wavesOfRelease
      [legacyService "base" 9223372036854775807 [], legacyService "child" 0 ["base"]]
      ["base", "child"] =
        .ok ([("child", -9223372036854775808, 1), ("base", 9223372036854775807, 0)], false) := by
    decide +kernel
  simp only [wavesOfRelease, bind_eq_ok] at evaluated
  obtain ⟨planner, made, plan, planned, waved, assigned, seen⟩ := evaluated
  obtain ⟨steps, follows⟩ := Prod.mk.inj (Except.ok.inj seen)
  exact ⟨planner, plan, waved, made, planned, assigned, steps, of_decide_eq_false follows⟩

end Themisy.Workflow
