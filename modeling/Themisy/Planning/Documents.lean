import Themisy.Planning.Agreement

/-!
# The documents behind a plan

Every step of a plan comes from a contract, from the environment which the contract
declares for the release, and from the profile of that environment. Conversely every
declared environment of every contract has a plan.
-/

namespace Themisy.Planning

open Domain Contract

variable {contract : ServiceContract} {environment : EnvironmentContract} {intent : ReleaseIntent}
  {profile : ReleaseProfile} {phase : String → ℤ}

section Planned

variable {digest : Digest} {orders : Orders} {contracts : List ServiceContract}
  {profiles : List ReleaseProfile} {options : Options} {planner : Planner}

theorem ofText_eq_automatic_iff {text : String} :
    RollbackMode.ofText text = .automatic ↔ text = "automatic" := by
  constructor
  · intro same
    rw [← RollbackMode.text_ofText text, same]
    rfl
  · rintro rfl
    rfl

/-- The documents from which a step was planned. -/
structure Documented (contracts : List ServiceContract) (profiles : List ReleaseProfile)
    (intent : ReleaseIntent) (step : PlanStep) (contract : ServiceContract)
    (environment : EnvironmentContract) (profile : ReleaseProfile) : Prop where
  contract_mem : contract ∈ contracts
  named : contract.name = step.service
  declared : contract.environments.get? intent.environment.text = some environment
  profile_mem : profile ∈ profiles
  profiled : profile.name = environment.releaseProfile
  rollbackMode : step.rollbackMode = .ofText profile.rollbackMode

variable {step : PlanStep} {name : String}

/-- The documents behind a step are determined by their names. -/
theorem Documented.eq {other : ServiceContract} {again : EnvironmentContract}
    {expected : ReleaseProfile}
    (documented : Documented contracts profiles intent step contract environment profile)
    (accepted : Accepted digest contracts profiles) (member : other ∈ contracts)
    (named : other.name = step.service)
    (declared : other.environments.get? intent.environment.text = some again)
    (expectedMem : expected ∈ profiles) (profiled : expected.name = again.releaseProfile) :
    contract = other ∧ environment = again ∧ profile = expected := by
  obtain rfl := List.inj_on_of_nodup_map accepted.distinct documented.contract_mem member
    (documented.named.trans named.symm)
  obtain rfl := Option.some.inj (documented.declared.symm.trans declared)
  exact ⟨rfl, rfl, List.inj_on_of_nodup_map accepted.profilesDistinct documented.profile_mem
    expectedMem (documented.profiled.trans profiled.symm)⟩

theorem planStep_rollbackMode {environment : EnvironmentDefinition}
    (declared : (planner.definition name).environments.get? intent.environment = some environment)
    (found : planner.profiles.get? environment.profile = some profile) (phase : ℤ)
    (change : Change) :
    (planner.planStep digest intent phase name change).rollbackMode =
      .ofText profile.rollbackMode := by
  simp only [Planner.planStep, GoMap.find, declared, Option.getD_some, found]

section

variable (composed : Composed digest contracts profiles options phase planner)
  (member : contract ∈ contracts)

include composed member

/-- The definition which the planner holds for a contract. -/
theorem content_definition :
    (planner.definition contract.name).content =
      contractContent digest (phase contract.name) contract := by
  obtain ⟨definition, found, content⟩ :=
    Option.map_eq_some_iff.mp (composed.definitions.eq_some member)
  rw [Planner.definition, GoMap.find, found]
  exact content

theorem mem_orderingDependencies_definition {needed : String} :
    needed ∈ (planner.definition contract.name).orderingDependencies ↔
      needed ∈ contract.orderingDependencies := by
  have dependencies : (planner.definition contract.name).dependencies =
      sortedDependencies contract.dependencies :=
    congrArg DefinitionContent.dependencies (content_definition composed member)
  rw [ServiceDefinition.orderingDependencies, dependencies,
    ServiceContract.mem_orderingDependencies_iff]
  rfl

theorem rollbackMode_of_documents
    (declared : contract.environments.get? intent.environment.text = some environment)
    (profileMem : profile ∈ profiles) (profiled : profile.name = environment.releaseProfile)
    (number : ℤ) (change : Change) :
    (planner.planStep digest intent number contract.name change).rollbackMode =
      .ofText profile.rollbackMode := by
  have lookup := congrFun (congrArg DefinitionContent.environments
    (content_definition composed member)) intent.environment
  simp only [ServiceDefinition.content, contractContent, declared, Option.map_some] at lookup
  obtain ⟨stored, found, planned⟩ :=
    Option.map_eq_some_iff.mp (composed.profileContents.eq_some profileMem)
  rw [profiled] at found
  have mode : stored.rollbackMode = profile.rollbackMode :=
    congrArg PlannedProfile.rollbackMode planned
  rw [planStep_rollbackMode lookup found, mode]

end

theorem exists_profile (accepted : Accepted digest contracts profiles)
    (member : contract ∈ contracts)
    (declared : contract.environments.get? name = some environment) :
    ∃ profile ∈ profiles, profile.name = environment.releaseProfile := by
  obtain ⟨_, found, -⟩ := (accepted.admissible contract member).served name environment declared
  obtain ⟨profile, profileMem, profiled, -⟩ :=
    ((tabulates_storedProfiles digest accepted.profilesDistinct).1 _ _).mp found
  exact ⟨profile, profileMem, profiled⟩

theorem exists_documented
    (built : newFromContracts digest orders contracts profiles options = .ok planner)
    {order : IterationOrder String} {now : Time} {plan : ReleasePlan}
    (planned : planner.planIntent digest order now intent = .ok plan) (member : step ∈ plan.steps) :
    ∃ contract environment profile,
      Documented contracts profiles intent step contract environment profile := by
  obtain ⟨phase, composed⟩ := composed_of_newFromContracts built
  have accepted := (newFromContracts_eq_ok_iff.mp built).1
  obtain ⟨changes, checked, -, rfl⟩ := Planner.exists_changes_of_planIntent planned
  have made := (Planner.flatMap_planPhases_perm
    (planner.plannedSteps digest order intent changes)).mem_iff.mp member
  obtain ⟨name, arranged, rfl⟩ := List.mem_map.mp made
  have changed := (Planner.keys_perm_of_checkIntent checked).mem_iff.mp
    ((order.mem_arrange 2 changes.keys name).mp arranged)
  obtain ⟨change, changeMem, rfl⟩ := List.mem_map.mp changed
  obtain ⟨-, -, -, -, plannable, -⟩ := Planner.checkIntent_eq_ok_iff.mp checked
  obtain ⟨content, found, declares⟩ := (plannable change changeMem).declared
  obtain ⟨contract, contractMem, named, rfl⟩ := (composed.definitions _ _).mp found
  obtain ⟨environment, declared⟩ : ∃ environment,
      contract.environments.get? intent.environment.text = some environment := by
    simpa [contractContent, Option.isSome_iff_exists] using declares
  obtain ⟨profile, profileMem, profiled⟩ := exists_profile accepted contractMem declared
  refine ⟨contract, environment, profile, contractMem, ?_, declared, profileMem, profiled, ?_⟩
  · rw [Planner.planStep_service, named]
  · rw [← named]
    exact rollbackMode_of_documents composed contractMem declared profileMem profiled _ _

def releaseOf (name : String) (environment : Environment) : ReleaseIntent where
  apiVersion := releaseIntentAPIVersion
  kind := releaseIntentKind
  requestID := "request"
  releaseVersion := "1"
  environment
  requestedBy := "user"
  agent := { id := "agent" }
  changes := [{ service := name, desiredVersion := "1" }]

/-- Every service can be released alone in each of its environments. -/
theorem exists_plan_releaseOf
    (built : newFromContracts digest orders contracts profiles options = .ok planner)
    (member : contract ∈ contracts) {environment : Environment}
    {declaration : EnvironmentContract}
    (declared : contract.environments.get? environment.text = some declaration) :
    ∃ plan, planner.planIntent digest .stored 0 (releaseOf contract.name environment) = .ok plan ∧
      ∃ step ∈ plan.steps, step.service = contract.name := by
  obtain ⟨phase, composed⟩ := composed_of_newFromContracts built
  have accepted := (newFromContracts_eq_ok_iff.mp built).1
  have supported := ServiceContract.supported_of_validate
    (accepted.admissible contract member).valid declared
  obtain ⟨changes, checked⟩ : ∃ changes,
      planner.checkIntent (releaseOf contract.name environment) = .ok changes := by
    refine ⟨_, Planner.checkIntent_eq_ok_iff.mpr ⟨rfl, rfl, by simp [releaseOf], supported, ?_,
      by simp [releaseOf], rfl⟩⟩
    simp only [releaseOf, List.mem_singleton, forall_eq]
    refine ⟨⟨_, composed.definitions.eq_some member, ?_⟩, by simp⟩
    simp [contractContent, declared]
  have acyclic : Acyclic (planner.OrderedAfter (releaseOf contract.name environment)) := by
    intro name cycle
    refine accepted.acyclic name (Relation.TransGen.mono ?_ _ _ cycle)
    rintro name needed ⟨changed, -, ordering⟩
    obtain rfl : name = contract.name := by simpa [releaseOf] using changed
    exact ⟨contract, member, rfl, (mem_orderingDependencies_definition composed member).mp ordering⟩
  refine ⟨_, Planner.planIntent_eq_ok checked acyclic digest .stored 0, ?_⟩
  have services := (Planner.orderedPlan_ordered checked acyclic digest .stored 0).oneStepEach
  have named :
      contract.name ∈ (releaseOf contract.name environment).changes.map Change.service := by
    simp [releaseOf]
  obtain ⟨step, stepMem, same⟩ := List.mem_map.mp (services.mem_iff.mpr named)
  exact ⟨step, stepMem, same⟩

end Planned

end Themisy.Planning
