import Themisy.Planning.Phases
import Themisy.Scheduler.SharedDomains
import Themisy.Workflow.WaveOrder

/-!
# Shared failure domains

A contract declares a shared failure domain by the name of a resource or of another
service. The planner projects the resources into the failure domains of a step, where
the budget of a domain keeps two steps apart. The services are dropped, so such a
declaration separates two releases only where something else does.
-/

namespace Themisy.Workflow

open Domain Contract Planning

def DeclaresResource (contract : ServiceContract) (resource : String) : Prop :=
  ∃ dependency ∈ contract.dependencies,
    dependency.type = .sharedFailureDomain ∧ dependency.resource = resource

/-- Both contracts declare a shared failure domain by the same resource. -/
def SharesResource (first second : ServiceContract) : Prop :=
  ∃ resource, resource ≠ "" ∧ DeclaresResource first resource ∧ DeclaresResource second resource

/-- The first contract declares a shared failure domain with the service of the second one. -/
def SharesService (first second : ServiceContract) : Prop :=
  ∃ dependency ∈ first.dependencies,
    dependency.type = .sharedFailureDomain ∧ dependency.service = second.name

/-- The services are never released into the same environment. -/
def NowhereTogether (first second : ServiceContract) : Prop :=
  ∀ environment, ¬((first.environments.get? environment).isSome ∧
    (second.environments.get? environment).isSome)

/-- The longest paths of ordering dependencies of the services have different lengths. -/
def DifferentPaths (contracts : List ServiceContract) (first second : ServiceContract) : Prop :=
  ∃ one another, LongestPath contracts first.name one ∧
    LongestPath contracts second.name another ∧ one ≠ another

/-- No wave of any plan has two services which share a failure domain by declaration. -/
def DomainsSeparated (digest : Digest) (contracts : List ServiceContract) (planner : Planner) :
    Prop :=
  ∀ (order : IterationOrder String) (now : Time) (intent : ReleaseIntent) (plan : ReleasePlan),
    planner.planIntent digest order now intent = .ok plan →
    ∀ (runID : String) (created : Time) (request : ReleaseRequest)
      (waveOrder : StepOrder) (limits : Scheduler.Limits)
      (waves : List Scheduler.Wave), limits.sharedFailureDomain = 1 →
      Scheduler.buildWaves waveOrder (waveInput (Application.newRun runID created request plan))
        limits = .ok waves →
      ∀ first ∈ contracts, ∀ second ∈ contracts, first.name ≠ second.name →
        SharesResource first second ∨ SharesService first second →
        ∀ wave ∈ waves, ¬(first.name ∈ wave.steps.map Scheduler.Step.id ∧
          second.name ∈ wave.steps.map Scheduler.Step.id)

theorem planStep_failureDomains {planner : Planner} {digest : Digest} {intent : ReleaseIntent}
    {phase : ℤ} {name : String} {change : Change} :
    (planner.planStep digest intent phase name change).scheduling.failureDomains =
      (planner.definition name).service.failureDomains := by
  simp only [Planner.planStep]
  split <;> rfl

variable {waves : List Scheduler.Wave} {limits : Scheduler.Limits} {second first : ServiceContract}
  {step : Scheduler.Step} {run : ReleaseRun}

section Planned

variable {digest : Digest} {orders : Orders} {contracts : List ServiceContract}
  {profiles : List ReleaseProfile} {options : Options} {planner : Planner} {phase : String → ℤ}
  {order : IterationOrder String} {now : Time} {intent : ReleaseIntent} {plan : ReleasePlan}

variable {contract : ServiceContract} {wave : Scheduler.Wave} {environment : Environment}

theorem mem_failureDomains_iff (composed : Composed digest contracts profiles options phase planner)
    (planned : planner.planIntent digest order now intent = .ok plan) {step : PlanStep}
    (member : step ∈ plan.steps) (contractMem : contract ∈ contracts)
    (named : contract.name = step.service) {resource : String} :
    resource ∈ step.scheduling.failureDomains ↔
      resource ≠ "" ∧ DeclaresResource contract resource := by
  obtain ⟨changes, -, -, rfl⟩ := Planner.exists_changes_of_planIntent planned
  obtain ⟨name, -, rfl⟩ :=
    List.mem_map.mp ((Planner.flatMap_planPhases_perm _).mem_iff.mp member)
  rw [Planner.planStep_service] at named
  subst named
  have domains := congrArg DefinitionContent.failureDomains
    (content_definition composed contractMem)
  rw [planStep_failureDomains, show (planner.definition contract.name).service.failureDomains = _
    from domains]
  simp only [contractContent, List.mem_map, List.mem_filter, decide_eq_true_eq, DeclaresResource,
    sortedDependencies, (List.perm_insertionSort _ _).mem_iff]
  constructor
  · rintro ⟨dependency, ⟨listed, type, nonempty⟩, rfl⟩
    exact ⟨nonempty, dependency, listed, type, rfl⟩
  · rintro ⟨nonempty, dependency, listed, type, rfl⟩
    exact ⟨dependency, ⟨listed, type, nonempty⟩, rfl⟩

/-- What the waves show of a planned step. -/
structure Projects (source : PlanStep) (step : Scheduler.Step) : Prop where
  id : step.id = source.service
  phase : step.phase = source.phase
  tenant : step.tenant = source.scheduling.tenantID
  environment : step.environment = source.scheduling.environment.text
  failureDomains : ∀ failureDomain, failureDomain ∈ step.failureDomains ↔
    failureDomain ∈ source.scheduling.failureDomains

theorem projects_cloneStep (source : PlanStep) (dependencies : List String) :
    Projects source (Scheduler.cloneStep (scheduledStep source dependencies)) :=
  ⟨rfl, rfl, rfl, rfl, fun _ => mem_sortStrings⟩

theorem exists_source (planned : Planned run)
    (schedule : Scheduler.Schedule limits ((waveInput run).map Scheduler.cloneStep) waves)
    (waveMem : wave ∈ waves) (stepMem : step ∈ wave.steps) :
    ∃ source ∈ run.plan.steps, Projects source step := by
  have input := schedule.partition.mem_iff.mp (List.mem_flatMap.mpr ⟨wave, waveMem, stepMem⟩)
  obtain ⟨scheduled, scheduledMem, rfl⟩ := List.mem_map.mp input
  obtain ⟨source, sourceMem, rfl⟩ := planned.mem_waveInput.mp scheduledMem
  exact ⟨source, sourceMem, projects_cloneStep source _⟩

theorem schedule_of_buildWaves {waveOrder : StepOrder}
    (built : Scheduler.buildWaves waveOrder (waveInput run) limits = .ok waves) :
    Scheduler.Schedule limits ((waveInput run).map Scheduler.cloneStep) waves := by
  obtain ⟨valid, named, distinct⟩ := Scheduler.buildWaves_accepted (Or.inl ⟨waves, built⟩)
  rcases Scheduler.buildWaves_cases waveOrder valid named distinct with
    ⟨found, builtAgain, schedule⟩ | ⟨failed, -⟩
  · rw [built] at builtAgain
    cases builtAgain
    exact schedule
  · rw [built] at failed
    cases failed

theorem declared_of_planned
    (built : newFromContracts digest orders contracts profiles options = .ok planner)
    (planned : planner.planIntent digest order now intent = .ok plan) {step : PlanStep}
    (member : step ∈ plan.steps) (contractMem : contract ∈ contracts)
    (named : contract.name = step.service) :
    (contract.environments.get? intent.environment.text).isSome := by
  have accepted := (newFromContracts_eq_ok_iff.mp built).1
  obtain ⟨found, environment, profile, documented⟩ := exists_documented built planned member
  obtain rfl := List.inj_on_of_nodup_map accepted.distinct documented.contract_mem contractMem
    (documented.named.trans named.symm)
  rw [documented.declared]
  rfl

theorem phasesDescend_of_contracts
    (composed : Composed digest contracts profiles options phase planner)
    (short : contracts.length < 2 ^ 63)
    (planned : planner.planIntent digest order now intent = .ok plan) : PhasesDescend plan := by
  obtain ⟨changes, checked, -, -⟩ := Planner.exists_changes_of_planIntent planned
  exact phasesDescend_of_planIntent planned (composed.phasesInRange short checked)

/-- A resource, a phase or an environment keeps two services out of one wave. -/
theorem not_together (short : contracts.length < 2 ^ 63)
    (built : newFromContracts digest orders contracts profiles options = .ok planner)
    (planned : planner.planIntent digest order now intent = .ok plan) {runID : String}
    {created : Time} {request : ReleaseRequest} (single : limits.sharedFailureDomain = 1)
    (schedule : Scheduler.Schedule limits
      ((waveInput (Application.newRun runID created request plan)).map Scheduler.cloneStep) waves)
    (firstMem : first ∈ contracts) (secondMem : second ∈ contracts)
    (different : first.name ≠ second.name)
    (apart : SharesResource first second ∨ NowhereTogether first second ∨
      DifferentPaths contracts first second) (waveMem : wave ∈ waves) :
    ¬(first.name ∈ wave.steps.map Scheduler.Step.id ∧
      second.name ∈ wave.steps.map Scheduler.Step.id) := by
  rintro ⟨firstIn, secondIn⟩
  obtain ⟨phase, composed⟩ := composed_of_newFromContracts built
  have run := planned_of_planIntent (.fromContracts built) planned runID created request
  obtain ⟨one, oneMem, oneID⟩ := List.mem_map.mp firstIn
  obtain ⟨another, anotherMem, anotherID⟩ := List.mem_map.mp secondIn
  obtain ⟨source, sourceMem, projects⟩ := exists_source run schedule waveMem oneMem
  obtain ⟨target, targetMem, projected⟩ := exists_source run schedule waveMem anotherMem
  have sourceNamed : first.name = source.service := oneID.symm.trans projects.id
  have targetNamed : second.name = target.service := anotherID.symm.trans projected.id
  rcases apart with ⟨resource, nonempty, declared, again⟩ | nowhere |
    ⟨length, other, path, otherPath, differ⟩
  · have oneDomain := (projects.failureDomains resource).mpr
      ((mem_failureDomains_iff composed planned sourceMem firstMem sourceNamed).mpr
        ⟨nonempty, declared⟩)
    have anotherDomain := (projected.failureDomains resource).mpr
      ((mem_failureDomains_iff composed planned targetMem secondMem targetNamed).mpr
        ⟨nonempty, again⟩)
    have faithful := Planner.faithful_of_planIntent planned
    have tenants : Scheduler.effectiveTenant one = Scheduler.effectiveTenant another := by
      simp only [Scheduler.effectiveTenant, projects.tenant, projected.tenant,
        faithful.tenant _ sourceMem, faithful.tenant _ targetMem]
    have environments : one.environment = another.environment := by
      rw [projects.environment, projected.environment,
        Planner.environment_of_planIntent planned _ sourceMem,
        Planner.environment_of_planIntent planned _ targetMem]
    let key : Scheduler.BudgetKey := ⟨.failureDomain,
      Scheduler.effectiveTenant one ++ "/" ++ one.environment ++ "/" ++ resource, resource⟩
    have held : key ∈ Scheduler.keysFor one := by
      simp [Scheduler.mem_keysFor, key, oneDomain]
    have needed : key ∈ Scheduler.keysFor another := by
      simp [Scheduler.mem_keysFor, key, anotherDomain, tenants, environments]
    have limited : limits.limit key = 1 := single
    refine schedule.not_together_of_key waveMem ?_ limited held needed ⟨oneMem, anotherMem⟩
    rintro rfl
    exact different (oneID.symm.trans anotherID)
  · exact nowhere intent.environment.text
      ⟨declared_of_planned built planned sourceMem firstMem sourceNamed,
        declared_of_planned built planned targetMem secondMem targetNamed⟩
  · have rising := (run.phases_waveInput (· ≤ ·)).mpr fun step member other otherMem needed =>
      (phasesDescend_of_contracts composed short planned step member other otherMem needed).le
    have phases := schedule.phase_eq_of_together
      (by rw [Scheduler.map_id_cloneStep]; exact run.distinct_waveInput)
      (Scheduler.rising_cloneStep.mpr rising) waveMem oneMem anotherMem
    obtain ⟨_, -, -, sourcePhase⟩ := composed.exists_contract_of_planIntent short planned sourceMem
    obtain ⟨_, -, -, targetPhase⟩ := composed.exists_contract_of_planIntent short planned targetMem
    rw [projects.phase, projected.phase, sourcePhase, targetPhase, ← sourceNamed,
      ← targetNamed] at phases
    exact differ ((path.unique (composed.longestPath firstMem)).trans
      (phases.trans (otherPath.unique (composed.longestPath secondMem)).symm))

def releaseOfTwo (first second : String) (environment : Environment) : ReleaseIntent :=
  { releaseOf first environment with
    changes := [{ service := first, desiredVersion := "1" },
      { service := second, desiredVersion := "1" }] }

/-- The input of `buildWaves` for a planned step. -/
def plannedInput (plan : ReleasePlan) (source : PlanStep) : Scheduler.Step :=
  Scheduler.cloneStep (scheduledStep source (source.orderingDependencies.filter fun dependency =>
    dependency ∈ plan.steps.map PlanStep.service))

theorem Planned.mem_inputs (planned : Planned run) :
    step ∈ (waveInput run).map Scheduler.cloneStep ↔
      ∃ source ∈ run.plan.steps, step = plannedInput run.plan source := by
  rw [List.mem_map]
  constructor
  · rintro ⟨scheduled, scheduledMem, rfl⟩
    obtain ⟨source, member, rfl⟩ := planned.mem_waveInput.mp scheduledMem
    exact ⟨source, member, rfl⟩
  · rintro ⟨source, member, rfl⟩
    exact ⟨_, planned.mem_waveInput.mpr ⟨source, member, rfl⟩, rfl⟩

/-- A plan for two services has two inputs. -/
theorem Planned.inputs_of_pair (planned : Planned run) {source target : PlanStep}
    (sourceMem : source ∈ run.plan.steps) (targetMem : target ∈ run.plan.steps)
    (services : (run.plan.steps.map PlanStep.service).Perm [source.service, target.service])
    (member : step ∈ (waveInput run).map Scheduler.cloneStep) :
    step = plannedInput run.plan source ∨ step = plannedInput run.plan target := by
  obtain ⟨other, otherMem, rfl⟩ := planned.mem_inputs.mp member
  have named := services.mem_iff.mp (List.mem_map_of_mem otherMem)
  simp only [List.mem_cons, List.not_mem_nil, or_false] at named
  rcases named with named | named
  · obtain rfl := List.inj_on_of_nodup_map planned.distinct otherMem sourceMem named
    exact Or.inl rfl
  · obtain rfl := List.inj_on_of_nodup_map planned.distinct otherMem targetMem named
    exact Or.inr rfl

section

variable (built : newFromContracts digest orders contracts profiles options = .ok planner)
  (firstMem : first ∈ contracts) (secondMem : second ∈ contracts)
  (different : first.name ≠ second.name)
  (firstDeclared : (first.environments.get? environment.text).isSome)
  (secondDeclared : (second.environments.get? environment.text).isSome)

include built firstMem secondMem different firstDeclared secondDeclared

theorem exists_plan_releaseOfTwo :
    ∃ plan, planner.planIntent digest .stored 0 (releaseOfTwo first.name second.name environment) =
      .ok plan := by
  obtain ⟨phase, composed⟩ := composed_of_newFromContracts built
  have accepted := (newFromContracts_eq_ok_iff.mp built).1
  obtain ⟨declaration, declared⟩ := Option.isSome_iff_exists.mp firstDeclared
  have supported := ServiceContract.supported_of_validate
    (accepted.admissible first firstMem).valid declared
  have plannable : ∀ contract ∈ contracts,
      (contract.environments.get? environment.text).isSome →
        planner.Plannable environment { service := contract.name, desiredVersion := "1" } := by
    intro contract member declared
    refine ⟨⟨_, composed.definitions.eq_some member, ?_⟩, by simp⟩
    simpa [contractContent] using declared
  obtain ⟨changes, checked⟩ : ∃ changes,
      planner.checkIntent (releaseOfTwo first.name second.name environment) = .ok changes := by
    refine ⟨_, Planner.checkIntent_eq_ok_iff.mpr ⟨rfl, rfl, by simp [releaseOfTwo], supported, ?_,
      by simpa [releaseOfTwo] using different, rfl⟩⟩
    intro change member
    simp only [releaseOfTwo, List.mem_cons, List.not_mem_nil, or_false] at member
    rcases member with rfl | rfl
    · exact plannable first firstMem firstDeclared
    · exact plannable second secondMem secondDeclared
  have acyclic := (composed.levelled_changeGraph checked).acyclic
  rw [Planner.changeGraph_needs_iff checked] at acyclic
  exact ⟨_, Planner.planIntent_eq_ok checked acyclic digest .stored 0⟩

/-- Two services of one phase without a common resource are released in one wave. -/
theorem exists_together (short : contracts.length < 2 ^ 63)
    (unshared : ¬SharesResource first second) (level : ¬DifferentPaths contracts first second)
    (request : ReleaseRequest) :
    ∃ plan waves, planner.planIntent digest .stored 0
        (releaseOfTwo first.name second.name environment) = .ok plan ∧
      Scheduler.buildWaves .stored (waveInput (Application.newRun "run" 0 request plan))
        Scheduler.defaultLimits = .ok waves ∧
      ∃ wave ∈ waves, first.name ∈ wave.steps.map Scheduler.Step.id ∧
        second.name ∈ wave.steps.map Scheduler.Step.id := by
  obtain ⟨plan, planned⟩ := exists_plan_releaseOfTwo built firstMem secondMem different
    firstDeclared secondDeclared
  obtain ⟨phase, composed⟩ := composed_of_newFromContracts built
  have run := planned_of_planIntent (.fromContracts built) planned "run" 0 request
  obtain ⟨waves, builtWaves, schedule⟩ := run.exists_schedule .stored
  refine ⟨plan, waves, planned, builtWaves, ?_⟩
  have services := (Planner.faithful_of_planIntent planned).ordered.oneStepEach
  obtain ⟨source, sourceMem, sourceNamed⟩ :=
    List.mem_map.mp (services.mem_iff.mpr (show first.name ∈ _ by simp [releaseOfTwo]))
  obtain ⟨target, targetMem, targetNamed⟩ :=
    List.mem_map.mp (services.mem_iff.mpr (show second.name ∈ _ by simp [releaseOfTwo]))
  have phases : source.phase = target.phase := by
    obtain ⟨_, -, -, sourcePhase⟩ := composed.exists_contract_of_planIntent short planned sourceMem
    obtain ⟨_, -, -, targetPhase⟩ := composed.exists_contract_of_planIntent short planned targetMem
    rw [sourcePhase, targetPhase, sourceNamed, targetNamed]
    by_contra differ
    exact level ⟨_, _, composed.longestPath firstMem, composed.longestPath secondMem, differ⟩
  have ids : source.service ≠ target.service := by
    rwa [sourceNamed, targetNamed]
  have apart : ∀ failureDomain ∈ (plannedInput plan source).failureDomains,
      failureDomain ∉ (plannedInput plan target).failureDomains := by
    intro failureDomain listed again
    obtain ⟨nonempty, declares⟩ := (mem_failureDomains_iff composed planned sourceMem firstMem
      sourceNamed.symm).mp (mem_sortStrings.mp listed)
    obtain ⟨-, declaresAgain⟩ := (mem_failureDomains_iff composed planned targetMem secondMem
      targetNamed.symm).mp (mem_sortStrings.mp again)
    exact unshared ⟨failureDomain, nonempty, declares, declaresAgain⟩
  have descending := (run.phases_waveInput (· < ·)).mpr
    (phasesDescend_of_contracts composed short planned)
  rw [← sourceNamed, ← targetNamed] at services
  obtain ⟨wave, waveMem, sourceIn, targetIn⟩ := schedule.together_of_pair
    (by rw [Scheduler.map_id_cloneStep]; exact run.distinct_waveInput)
    (Scheduler.descending_cloneStep.mpr descending)
    (fun step => run.inputs_of_pair sourceMem targetMem services)
    (run.mem_inputs.mpr ⟨source, sourceMem, rfl⟩) (run.mem_inputs.mpr ⟨target, targetMem, rfl⟩)
    phases ids apart
  refine ⟨wave, waveMem, ?_, ?_⟩
  · exact List.mem_map.mpr ⟨_, sourceIn, sourceNamed⟩
  · exact List.mem_map.mpr ⟨_, targetIn, targetNamed⟩

end

end Planned

/--
For every accepted set of contracts, declared failure domains are never released together
exactly when each declaration by service is enforced by something else: a common resource,
disjoint environments, or longest paths of different lengths. Contracts come in a slice,
whose length is a machine integer.
-/
theorem domains_separated_iff (digest : Digest) (orders : Orders)
    (contracts : List ServiceContract) (short : contracts.length < 2 ^ 63)
    (profiles : List ReleaseProfile) (options : Options) (planner : Planner)
    (built : newFromContracts digest orders contracts profiles options = .ok planner) :
    DomainsSeparated digest contracts planner ↔
      ∀ first ∈ contracts, ∀ second ∈ contracts, first.name ≠ second.name →
        SharesService first second → SharesResource first second ∨
          NowhereTogether first second ∨ DifferentPaths contracts first second := by
  constructor
  · intro separated first firstMem second secondMem different shares
    by_contra together
    simp only [not_or, NowhereTogether, not_forall, not_not] at together
    obtain ⟨unshared, ⟨name, firstDeclared, secondDeclared⟩, level⟩ := together
    rw [← Environment.text_ofText name] at firstDeclared secondDeclared
    let request := legacyRequestFromIntent
      (releaseOfTwo first.name second.name (.ofText name))
    obtain ⟨plan, waves, planned, builtWaves, wave, waveMem, both⟩ :=
      exists_together built firstMem secondMem different firstDeclared secondDeclared short
        unshared level request
    exact separated .stored 0 _ plan planned "run" 0 request .stored _ waves rfl builtWaves
      first firstMem second secondMem different (Or.inr shares) wave waveMem both
  · intro enforced order now intent plan planned runID created request waveOrder limits waves
      single builtWaves first firstMem second secondMem different shares wave waveMem
    have apart : SharesResource first second ∨ NowhereTogether first second ∨
        DifferentPaths contracts first second := by
      rcases shares with resource | service
      · exact Or.inl resource
      · exact enforced first firstMem second secondMem different service
    exact not_together short built planned single (schedule_of_buildWaves builtWaves) firstMem
      secondMem different apart waveMem

/-- Two services which both declare the same disk are never released together. -/
theorem domains_separated_disk :
    let disk : Dependency := { resource := "disk", type := .sharedFailureDomain }
    let contracts := [stagingContract "api" [disk], stagingContract "db" [disk]]
    ∃ planner plan, PlansFrom default contracts (stagingRelease ["api", "db"]) planner plan ∧
      DomainsSeparated default contracts planner := by
  intro disk contracts
  obtain ⟨planner, plan, plans, -⟩ := exists_of_rehearseFrom (show rehearseFrom default contracts
    (stagingRelease ["api", "db"]) (fun _ => .ok ()) = .ok () by decide +kernel)
  refine ⟨planner, plan, plans,
    (domains_separated_iff default _ _ (by decide) _ _ planner plans.built).mpr ?_⟩
  simp [SharesService, contracts, stagingContract, disk]

/-- The service declares a failure domain shared with its database, and both are released in
the first wave. -/
theorem declared_service_domain_ignored :
    let contracts := [stagingContract "api" [{ service := "db", type := .sharedFailureDomain }],
      stagingContract "db" []]
    ∃ planner plan waved,
      PlansFrom default contracts (stagingRelease ["api", "db"]) planner plan ∧
      assignWaves .stored (Application.newRun "run" 1
        (legacyRequestFromIntent (stagingRelease ["api", "db"])) plan) = .ok waved ∧
      waved.steps.map (fun step => (step.service, step.wave)) = [("api", 0), ("db", 0)] ∧
      Scheduler.defaultLimits.sharedFailureDomain = 1 := by
  intro contracts
  obtain ⟨planner, plan, plans, shown⟩ := exists_of_rehearseFrom (show rehearseFrom default
    contracts (stagingRelease ["api", "db"]) (fun plan => do
      let waved ← assignWaves .stored (Application.newRun "run" 1
        (legacyRequestFromIntent (stagingRelease ["api", "db"])) plan)
      return waved.steps.map fun step => (step.service, step.wave)) =
        .ok [("api", 0), ("db", 0)] by decide +kernel)
  simp only [bind_eq_ok] at shown
  obtain ⟨waved, assigned, numbers⟩ := shown
  exact ⟨planner, plan, waved, plans, assigned, Except.ok.inj numbers, rfl⟩

end Themisy.Workflow
