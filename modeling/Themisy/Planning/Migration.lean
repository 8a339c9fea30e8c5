import Themisy.Planning.Phases

/-!
# Migrating the legacy catalog

This file embeds the conversion of `internal/catalog`: every service of a legacy
catalog becomes a contract with one profile for all. Reading the file and the source
path are left out.

The conversion keeps the dependencies and drops the release phases. So the migration
keeps the order of a release exactly when the dependencies of the whole catalog imply
the order of the phases which the planner of the catalog computes. Unless these overflow,
they are what the release phases and the dependencies within the release demand.
-/

namespace Themisy.Planning

open Domain Contract

def compatibilityProfile : ReleaseProfile where
  apiVersion := ReleaseProfile.expectedAPIVersion
  kind := ReleaseProfile.expectedKind
  name := "legacy-mock"
  requiredCapabilities := [.deploy, .getStatus, .verifyRuntime, .rollback]
  deploymentStrategy := "mock"
  verificationRequired := true
  observationWindow := "1m"
  rollbackMode := "automatic"

def convertService (digest : Digest) (service : Service) : ServiceContract :=
  let environment (runnerGroup : String) : EnvironmentContract :=
    ⟨compatibilityProfile.name, runnerGroup, compatibilityProfile.requiredCapabilities⟩
  let contract : ServiceContract :=
    { apiVersion := ServiceContract.expectedAPIVersion
      kind := ServiceContract.expectedKind
      name := service.name
      owner := service.ownerTeam
      repository := service.repository
      riskTier := "medium"
      environments :=
        ((∅ : GoMap String EnvironmentContract).set Environment.staging.text
          (environment "legacy-staging")).set Environment.production.text
            (environment "legacy-production")
      dependencies := service.dependencies.map fun dependency =>
        { service := dependency, type := .rolloutOrder, condition := "verified" }
      verificationProfile := "legacy-health"
      observationWindow := "1m"
      checks := [{ type := "health", threshold := "healthy" }]
      rollbackCapability := "automatic"
      rollbackStrategy := "mock-previous-version"
      rollbackDeadline := "30m" }
  { contract with contentHash := contract.hash digest }

def loadContracts (digest : Digest) (services : List Service) :
    List ServiceContract × List ReleaseProfile :=
  (services.map (convertService digest),
    [{ compatibilityProfile with contentHash := compatibilityProfile.hash digest }])

def Follows (services : List Service) (name needed : String) : Prop :=
  ∃ service ∈ services, service.name = name ∧ needed ∈ service.dependencies

def FollowsWithin (services : List Service) (intent : ReleaseIntent) (name needed : String) :
    Prop :=
  name ∈ intent.changes.map Change.service ∧ needed ∈ intent.changes.map Change.service ∧
    Follows services name needed

def releasePhaseOf (services : List Service) (name : String) : ℤ :=
  ((services.find? fun service => service.name = name).map Service.releasePhase).getD 0

/-- The release phases and the dependencies within a request put one service before another. -/
def BeforeByPhases (services : List Service) (intent : ReleaseIntent) : String → String → Prop :=
  Outreached (FollowsWithin services intent) (releasePhaseOf services)

/-- No phase which a request demands overflows. -/
def PhasesFit (services : List Service) (intent : ReleaseIntent) : Prop :=
  ∀ name ∈ intent.changes.map Change.service, ∀ last length,
    Chain (FollowsWithin services intent) name last length →
      InRange (releasePhaseOf services last + length)

/-- The dependencies of the catalog put one service before another. -/
def BeforeByDependencies (services : List Service) : String → String → Prop :=
  Outreached (Follows services) fun _ => 0

section Legacy

variable {digest : Digest} {order : IterationOrder String} {services : List Service}
  {planner : Planner}

theorem registerLegacy_registers (digest : Digest) :
    Registers (registerLegacy digest) Service.name (fun service => service.name ≠ "")
      (fun catalog name => (catalog.services.get? name).isSome)
      (fun catalog service => catalog.register service.name (legacyDefinition digest service)) := by
  constructor
  · intro catalog service next
    simp only [registerLegacy, bind_eq_ok, require_eq_ok, exists_const, Bool.not_eq_true,
      Option.isSome_eq_false_iff, Option.isNone_iff_eq_none]
    refine and_congr_right fun _ => and_congr_right fun _ => ?_
    exact ⟨fun returned => (Except.ok.inj returned).symm, fun same => same ▸ rfl⟩
  · intro catalog service other
    simp only [Catalog.register, GoMap.get?_set]
    split
    · next same => simp [same]
    · next different => simp [different]

/-- What a planner of a legacy catalog holds. -/
structure LegacyComposed (digest : Digest) (services : List Service) (planner : Planner) :
    Prop where
  named : ∀ service ∈ services, service.name ≠ ""
  distinct : (services.map Service.name).Nodup
  definitions : Tabulates planner.definitions.get? services Service.name (legacyDefinition digest)
  known : ∀ service ∈ services, ∀ dependency ∈ service.dependencies,
    dependency ∈ services.map Service.name

theorem legacyComposed_of_new (built : Planning.new digest order services = .ok planner) :
    LegacyComposed digest services planner := by
  have free : ∀ name, ¬((({} : Catalog).services.get? name).isSome : Prop) := by simp
  simp only [Planning.new, bind_eq_ok,
    (registerLegacy_registers digest).foldlM_empty_eq_ok_iff free] at built
  obtain ⟨catalog, ⟨named, distinct, stored⟩, _, known, returned⟩ := built
  cases returned
  have definitions : Tabulates catalog.definitions.get? services Service.name
      (legacyDefinition digest) := by
    have table : catalog.definitions = services.foldl (fun table service =>
        GoMap.set table service.name (legacyDefinition digest service)) ∅ := by
      rw [stored]
      exact (List.foldl_hom Catalog.definitions fun _ _ => rfl).symm
    rw [table]
    exact tabulates_foldl_set distinct _
  have names : ∀ name, (catalog.services.get? name).isSome ↔ name ∈ services.map Service.name := by
    intro name
    have table : catalog.services = services.foldl (fun table service =>
        GoMap.set table service.name service) ∅ := by
      rw [stored]
      exact (List.foldl_hom Catalog.services fun _ _ => rfl).symm
    rw [table]
    exact (tabulates_foldl_set distinct fun service => service).isSome_iff
  refine ⟨named, distinct, definitions, fun service member dependency declared => ?_⟩
  simp only [forM_eq_ok, order.mem_arrange, require_eq_ok, names] at known
  have found := definitions.eq_some member
  have key : service.name ∈ catalog.definitions.keys :=
    GoMap.isSome_get?_iff.mp (Option.isSome_iff_exists.mpr ⟨_, found⟩)
  refine known service.name key { service := dependency, type := .rolloutOrder } ?_
  rw [GoMap.find, found]
  exact (List.perm_insertionSort _ _).mem_iff.mpr (List.mem_map_of_mem declared)

namespace LegacyComposed

theorem mem_orderingDependencies (composed : LegacyComposed digest services planner)
    {name needed : String} :
    needed ∈ (planner.definition name).orderingDependencies ↔ Follows services name needed := by
  have dependencies : ∀ service ∈ services, ∀ needed,
      needed ∈ (legacyDefinition digest service).orderingDependencies ↔
        needed ∈ service.dependencies := by
    intro service member needed
    have perm := ((List.perm_insertionSort (fun left right : Dependency =>
      left.sortKey ≤ right.sortKey) (service.dependencies.map fun dependency =>
        ({ service := dependency, type := .rolloutOrder } : Dependency))).filter
          Dependency.ordersOn).map Dependency.service
    refine perm.mem_iff.trans ?_
    simp only [List.mem_map, List.mem_filter]
    constructor
    · rintro ⟨_, ⟨⟨dependency, declared, rfl⟩, -⟩, rfl⟩
      exact declared
    · intro declared
      obtain ⟨target, targetMem, same⟩ := List.mem_map.mp (composed.known service member _ declared)
      have nonempty : needed ≠ "" := same ▸ composed.named target targetMem
      exact ⟨_, ⟨⟨needed, declared, rfl⟩, by simp [Dependency.ordersOn, nonempty,
        DependencyType.enforcesRolloutOrder]⟩, rfl⟩
  rw [Planner.definition, GoMap.find]
  cases found : planner.definitions.get? name with
  | none =>
    constructor
    · intro impossible
      cases impossible
    · rintro ⟨service, member, rfl, -⟩
      rw [composed.definitions.eq_some member] at found
      cases found
  | some definition =>
    obtain ⟨service, member, rfl, rfl⟩ := (composed.definitions _ _).mp found
    rw [Option.getD_some, dependencies service member]
    constructor
    · exact fun declared => ⟨service, member, rfl, declared⟩
    · rintro ⟨other, otherMem, same, declared⟩
      rwa [List.inj_on_of_nodup_map composed.distinct member otherMem same.symm]

theorem releasePhase_eq (composed : LegacyComposed digest services planner) (name : String) :
    (planner.definition name).service.releasePhase = releasePhaseOf services name := by
  rw [Planner.definition, GoMap.find, releasePhaseOf]
  cases found : planner.definitions.get? name with
  | none =>
    have absent : services.find? (fun service => service.name = name) = none := by
      rw [List.find?_eq_none]
      rintro service member named
      rw [← of_decide_eq_true named, composed.definitions.eq_some member] at found
      cases found
    rw [absent]
    rfl
  | some definition =>
    obtain ⟨service, member, rfl, rfl⟩ := (composed.definitions _ _).mp found
    rw [find?_key_of_mem composed.distinct member]
    rfl

end LegacyComposed

theorem LegacyComposed.orderedAfter_eq (composed : LegacyComposed digest services planner)
    (intent : ReleaseIntent) : planner.OrderedAfter intent = FollowsWithin services intent := by
  funext name needed
  rw [Planner.OrderedAfter, composed.mem_orderingDependencies]
  rfl

theorem LegacyComposed.phase_lt_iff (composed : LegacyComposed digest services planner)
    {intent : ReleaseIntent} (fit : PhasesFit services intent) {now : Time} {plan : ReleasePlan}
    (planned : planner.planIntent digest order now intent = .ok plan) {first second : PlanStep}
    (firstMem : first ∈ plan.steps) (secondMem : second ∈ plan.steps) :
    first.phase < second.phase ↔
      BeforeByPhases services intent first.service second.service := by
  have inRange : planner.PhasesInRange intent := by
    unfold Planner.PhasesInRange
    simp only [composed.orderedAfter_eq, composed.releasePhase_eq]
    exact fit
  obtain ⟨changes, level, checked, levelled, acyclic, steps⟩ :=
    exists_levelled_of_planIntent planned
  obtain ⟨firstKey, firstPhase⟩ := steps first firstMem
  obtain ⟨secondKey, secondPhase⟩ := steps second secondMem
  have base : (planner.changeGraph changes).base = releasePhaseOf services :=
    funext composed.releasePhase_eq
  rw [firstPhase, secondPhase,
    (levelled (inRange.counts checked)).lt_iff acyclic firstKey secondKey,
    Planner.changeGraph_needs_iff checked, composed.orderedAfter_eq, base]
  rfl

end Legacy

section Converted

variable {digest : Digest} {order : IterationOrder String} {contracts : List ServiceContract}
  {profiles : List ReleaseProfile} {options : Options} {phase : String → ℤ} {planner : Planner}

theorem Composed.phase_lt_iff (composed : Composed digest contracts profiles options phase planner)
    (short : contracts.length < 2 ^ 63) {intent : ReleaseIntent} {now : Time}
    {plan : ReleasePlan}
    (planned : planner.planIntent digest order now intent = .ok plan) {first second : PlanStep}
    (firstMem : first ∈ plan.steps) (secondMem : second ∈ plan.steps) :
    first.phase < second.phase ↔
      Outreached (OrderedOn contracts) (fun _ => 0) first.service second.service := by
  obtain ⟨changes, level, checked, levelled, acyclic, steps⟩ :=
    exists_levelled_of_planIntent planned
  have same := (levelled ((composed.phasesInRange short checked).counts checked)).eq
    (composed.levelled_changeGraph checked) acyclic
  obtain ⟨firstKey, firstPhase⟩ := steps first firstMem
  obtain ⟨secondKey, secondPhase⟩ := steps second secondMem
  obtain ⟨graph, ordering, globalAcyclic, globallyLevelled⟩ := composed.ordering
  have base : graph.base = fun _ => 0 := funext ordering.base
  have nodes : ∀ name ∈ changes.keys, name ∈ graph.nodes := by
    intro name member
    obtain ⟨contract, contractMem, rfl⟩ := composed.exists_contract checked member
    exact (ordering.nodes _).mpr (List.mem_map_of_mem contractMem)
  rw [firstPhase, secondPhase, same _ firstKey, same _ secondKey,
    globallyLevelled.lt_iff globalAcyclic (nodes _ firstKey) (nodes _ secondKey),
    ordering.needs_eq, base]

/-- The ordering dependencies of the converted contracts are those of the catalog. -/
theorem orderedOn_loadContracts (digest : Digest) {services : List Service}
    (named : ∀ service ∈ services, ∀ dependency ∈ service.dependencies, dependency ≠ "") :
    OrderedOn (loadContracts digest services).1 = Follows services := by
  have dependencies : ∀ service ∈ services, ∀ needed,
      needed ∈ (convertService digest service).orderingDependencies ↔
        needed ∈ service.dependencies := by
    intro service member needed
    simp only [ServiceContract.orderingDependencies, convertService, List.mem_map, List.mem_filter]
    constructor
    · rintro ⟨_, ⟨⟨dependency, declared, rfl⟩, -⟩, rfl⟩
      exact declared
    · intro declared
      exact ⟨_, ⟨⟨needed, declared, rfl⟩, by simp [Dependency.ordersOn,
        named service member needed declared, DependencyType.enforcesRolloutOrder]⟩, rfl⟩
  funext name needed
  simp only [OrderedOn, Follows, loadContracts, List.mem_map, eq_iff_iff]
  constructor
  · rintro ⟨_, ⟨service, member, rfl⟩, same, ordering⟩
    exact ⟨service, member, same, (dependencies service member needed).mp ordering⟩
  · rintro ⟨service, member, same, declared⟩
    exact ⟨_, ⟨service, member, rfl⟩, same, (dependencies service member needed).mpr declared⟩

end Converted

/-- The order of the steps of one plan is kept by another plan of the same services. -/
def KeepsOrder (plan migrated : ReleasePlan) : Prop :=
  ∀ first ∈ plan.steps, ∀ second ∈ plan.steps, first.phase < second.phase →
    ∀ firstAgain ∈ migrated.steps, ∀ secondAgain ∈ migrated.steps,
      firstAgain.service = first.service → secondAgain.service = second.service →
        firstAgain.phase < secondAgain.phase

instance (plan migrated : ReleasePlan) : Decidable (KeepsOrder plan migrated) :=
  inferInstanceAs (Decidable (∀ _ ∈ _, ∀ _ ∈ _, _ → ∀ _ ∈ _, ∀ _ ∈ _, _ → _ → _))

/--
For every catalog which both planners accept and every release which both of them
plan, the planner of the converted contracts keeps the order of the planner of the
catalog exactly when, for all steps of the release, the dependencies of the catalog
imply the order of their phases. Unless a phase overflows, the order of the phases is
the one which the release phases and the dependencies within the release give.
-/
theorem migration_keeps_order_iff (digest : Digest)
    (catalogOrder order orderAgain : IterationOrder String) (orders : Orders) (options : Options)
    (services : List Service) (short : services.length < 2 ^ 63) (legacy converted : Planner)
    (built : Planning.new digest catalogOrder services = .ok legacy)
    (migrated : newFromContracts digest orders (loadContracts digest services).1
      (loadContracts digest services).2 options = .ok converted)
    (intent : ReleaseIntent) (now later : Time) (plan planAgain : ReleasePlan)
    (planned : legacy.planIntent digest order now intent = .ok plan)
    (plannedAgain : converted.planIntent digest orderAgain later intent = .ok planAgain) :
    ((∀ first ∈ plan.steps, ∀ second ∈ plan.steps, first.phase < second.phase →
        BeforeByDependencies services first.service second.service) ↔
      KeepsOrder plan planAgain) ∧
    (PhasesFit services intent → ∀ first ∈ plan.steps, ∀ second ∈ plan.steps,
      first.phase < second.phase ↔
        BeforeByPhases services intent first.service second.service) := by
  have composed := legacyComposed_of_new built
  obtain ⟨phase, composedAgain⟩ := composed_of_newFromContracts migrated
  have named : ∀ service ∈ services, ∀ dependency ∈ service.dependencies, dependency ≠ "" := by
    intro service member dependency declared
    obtain ⟨target, targetMem, rfl⟩ := List.mem_map.mp (composed.known service member _ declared)
    exact composed.named target targetMem
  have shortAgain : (loadContracts digest services).1.length < 2 ^ 63 := by
    rw [loadContracts, List.length_map]
    exact short
  have convertedOrder := fun first (firstMem : first ∈ planAgain.steps) second
    (secondMem : second ∈ planAgain.steps) =>
      composedAgain.phase_lt_iff shortAgain plannedAgain firstMem secondMem
  rw [orderedOn_loadContracts digest named] at convertedOrder
  have released := (Planner.faithful_of_planIntent planned).ordered.oneStepEach.trans
    (Planner.faithful_of_planIntent plannedAgain).ordered.oneStepEach.symm
  refine ⟨⟨?_, ?_⟩, fun fit first firstMem second secondMem =>
    composed.phase_lt_iff fit planned firstMem secondMem⟩
  · intro implied first firstMem second secondMem before firstAgain againMem secondAgain
      secondAgainMem sameFirst sameSecond
    rw [convertedOrder firstAgain againMem secondAgain secondAgainMem, sameFirst, sameSecond]
    exact implied first firstMem second secondMem before
  · intro keeps first firstMem second secondMem before
    obtain ⟨firstAgain, firstAgainMem, sameFirst⟩ :=
      List.mem_map.mp (released.mem_iff.mp (List.mem_map_of_mem firstMem))
    obtain ⟨secondAgain, secondAgainMem, sameSecond⟩ :=
      List.mem_map.mp (released.mem_iff.mp (List.mem_map_of_mem secondMem))
    have kept := keeps first firstMem second secondMem before firstAgain firstAgainMem
      secondAgain secondAgainMem sameFirst sameSecond
    rwa [convertedOrder _ firstAgainMem _ secondAgainMem, sameFirst, sameSecond] at kept

/-- The services of a plan in the order of its steps, with their phases. -/
def phasesOf (plan : ReleasePlan) : List (String × ℤ) :=
  plan.steps.map fun step => (step.service, step.phase)

/-- The plans of a release by the planner of a catalog and by that of its conversion. -/
structure Migrates (services : List Service) (names : List String) (legacy converted : Planner)
    (plan planAgain : ReleasePlan) : Prop where
  built : Planning.new default .stored services = .ok legacy
  migrated : newFromContracts default ⟨.stored, .stored⟩ (loadContracts default services).1
    (loadContracts default services).2 {} = .ok converted
  planned : legacy.planIntent default .stored 1 (stagingRelease names) = .ok plan
  plannedAgain : converted.planIntent default .stored 1 (stagingRelease names) = .ok planAgain

/-- Plan a release twice, and compare the two plans. -/
def migrate {Seen : Type} (services : List Service) (names : List String)
    (see : ReleasePlan → ReleasePlan → Seen) : Except GoError Seen := do
  let legacy ← Planning.new default .stored services
  let converted ← newFromContracts default ⟨.stored, .stored⟩ (loadContracts default services).1
    (loadContracts default services).2 {}
  let plan ← legacy.planIntent default .stored 1 (stagingRelease names)
  let planAgain ← converted.planIntent default .stored 1 (stagingRelease names)
  return see plan planAgain

theorem exists_migrates {Seen : Type} {services : List Service} {names : List String}
    {see : ReleasePlan → ReleasePlan → Seen} {seen : Seen}
    (compared : migrate services names see = .ok seen) :
    ∃ legacy converted plan planAgain,
      Migrates services names legacy converted plan planAgain ∧ see plan planAgain = seen := by
  simp only [migrate, bind_eq_ok] at compared
  obtain ⟨legacy, built, converted, migrated, plan, planned, planAgain, plannedAgain, same⟩ :=
    compared
  exact ⟨legacy, converted, plan, planAgain, ⟨built, migrated, planned, plannedAgain⟩,
    Except.ok.inj same⟩

/-- A release phase which the dependencies imply is kept. -/
theorem migration_keeps_order_iff_api :
    let services := [legacyService "api" 0 [], legacyService "web" 1 ["api"]]
    ∃ legacy converted plan planAgain,
      Migrates services ["web", "api"] legacy converted plan planAgain ∧
      phasesOf plan = [("api", 0), ("web", 1)] ∧ KeepsOrder plan planAgain := by
  intro services
  have compared : migrate services ["web", "api"] (fun plan _ => phasesOf plan) =
      .ok [("api", 0), ("web", 1)] := by
    decide +kernel
  obtain ⟨legacy, converted, plan, planAgain, migrates, phases⟩ := exists_migrates compared
  have web : BeforeByDependencies services "api" "web" := by
    refine ⟨"api", 1, .step ⟨_, List.mem_cons_of_mem _ (List.mem_singleton_self _), rfl,
      List.mem_singleton_self _⟩ (.refl _), fun final shorter chain => ?_⟩
    cases chain with
    | refl => simp
    | step edge => simp [Follows, services, legacyService] at edge
  refine ⟨legacy, converted, plan, planAgain, migrates, phases, ?_⟩
  refine (migration_keeps_order_iff default .stored .stored .stored ⟨.stored, .stored⟩ {} services
    (by decide) legacy converted migrates.built migrates.migrated _ 1 1 plan planAgain
    migrates.planned migrates.plannedAgain).1.mp ?_
  intro first firstMem second secondMem before
  have listed : ∀ step ∈ plan.steps, step.service = "api" ∧ step.phase = 0 ∨
      step.service = "web" ∧ step.phase = 1 := by
    intro step member
    have found : (step.service, step.phase) ∈ phasesOf plan :=
      List.mem_map.mpr ⟨step, member, rfl⟩
    simpa [phases] using found
  rcases listed first firstMem with ⟨firstName, firstPhase⟩ | ⟨-, firstPhase⟩ <;>
    rcases listed second secondMem with ⟨-, secondPhase⟩ | ⟨secondName, secondPhase⟩ <;>
    first
    | omega
    | exact firstName ▸ secondName ▸ web

/--
A release phase which no dependency implies is lost: the planner of the catalog
releases `base`, `middle` and `top` in this order, and the planner of the converted
contracts releases `top` before `middle`.
-/
theorem migration_reverses_order :
    let services := [legacyService "base" 0 [], legacyService "middle" 1 ["base"],
      legacyService "top" 5 []]
    ∃ legacy converted plan planAgain,
      Migrates services ["base", "middle", "top"] legacy converted plan planAgain ∧
      phasesOf plan = [("base", 0), ("middle", 1), ("top", 5)] ∧
      phasesOf planAgain = [("base", 0), ("top", 0), ("middle", 1)] ∧
      ¬KeepsOrder plan planAgain := by
  intro services
  have compared : migrate services ["base", "middle", "top"] (fun plan planAgain =>
      (phasesOf plan, phasesOf planAgain, decide (KeepsOrder plan planAgain))) =
        .ok ([("base", 0), ("middle", 1), ("top", 5)], [("base", 0), ("top", 0), ("middle", 1)],
          false) := by
    decide +kernel
  obtain ⟨legacy, converted, plan, planAgain, migrates, seen⟩ := exists_migrates compared
  simp only [Prod.mk.injEq, decide_eq_false_iff_not] at seen
  exact ⟨legacy, converted, plan, planAgain, migrates, seen⟩

end Themisy.Planning
